import KnxdFcgi.Machine

/-! Machines that show something as they move. What a run shows is the list of what its events show; one
machine simulates another if every event of the other one can be answered by some events of its own that
show the same. -/

namespace KnxdFcgi.Machine

variable {σ ε τ δ ω : Type} {next : σ → ε → σ} {next' : τ → δ → τ}

/-- What a run shows. -/
def trace (next : σ → ε → σ) (shows : σ → ε → List ω) : σ → List ε → List ω
  | _, [] => []
  | s, event :: events => shows s event ++ trace next shows (next s event) events

variable {shows : σ → ε → List ω} {shows' : τ → δ → List ω}

@[simp] theorem trace_nil (s : σ) : trace next shows s [] = [] := rfl

theorem trace_cons (s : σ) (event : ε) (events : List ε) :
    trace next shows s (event :: events) = shows s event ++ trace next shows (next s event) events := rfl

@[simp] theorem trace_singleton (s : σ) (event : ε) : trace next shows s [event] = shows s event :=
  List.append_nil _

theorem trace_append (s : σ) (events more : List ε) :
    trace next shows s (events ++ more) =
      trace next shows s events ++ trace next shows (run next s events) more := by
  induction events generalizing s with
  | nil => rfl
  | cons event events ih =>
      rw [List.cons_append, trace_cons, trace_cons, ih, run_cons, List.append_assoc]

/-- The events of the second machine answer the event of the first one: they show the same, and the relation
holds again afterwards. -/
def AnsweredBy (next : σ → ε → σ) (shows : σ → ε → List ω) (next' : τ → δ → τ) (shows' : τ → δ → List ω)
    (R : σ → τ → Prop) (s : σ) (t : τ) (event : ε) (events : List δ) : Prop :=
  R (next s event) (run next' t events) ∧ trace next' shows' t events = shows s event

theorem AnsweredBy.silent {R : σ → τ → Prop} {s : σ} {t : τ} {event : ε} {events : List δ} (hevents : events = [])
    (hshows : shows s event = []) (h : R (next s event) t) :
    AnsweredBy next shows next' shows' R s t event events := by
  subst hevents
  exact ⟨h, hshows.symm⟩

theorem AnsweredBy.one {R : σ → τ → Prop} {s : σ} {t : τ} {event : ε} {events : List δ} (event' : δ)
    (hevents : events = [event']) (hshows : shows' t event' = shows s event) (h : R (next s event) (next' t event')) :
    AnsweredBy next shows next' shows' R s t event events := by
  subst hevents
  exact ⟨h, by rw [trace_singleton, hshows]⟩

/-- **Forward simulation.** If every guarded event in related states is answered, every guarded run is, and
the second machine shows the same in it. -/
theorem exists_run_of_answeredBy {guard : σ → ε → Prop} {R : σ → τ → Prop}
    (hanswers : ∀ s t event, guard s event → R s t →
      ∃ events', AnsweredBy next shows next' shows' R s t event events')
    {s : σ} {t : τ} {events : List ε} (hguard : Along next guard s events) (hrelated : R s t) :
    ∃ events', R (run next s events) (run next' t events') ∧
      trace next' shows' t events' = trace next shows s events := by
  induction events generalizing s t with
  | nil => exact ⟨[], hrelated, rfl⟩
  | cons event events ih =>
      obtain ⟨first, hfirst, hshown⟩ := hanswers s t event hguard.1 hrelated
      obtain ⟨rest, hrest, hshown'⟩ := ih hguard.2 hfirst
      refine ⟨first ++ rest, ?_, ?_⟩
      · rw [run_cons, run_append]
        exact hrest
      · rw [trace_append, trace_cons, hshown, hshown']

/-! ### A machine beside another one -/

section Map

variable {mover : τ → ε → τ} (f : τ → σ)

/-- A machine that moves as another one, and keeps a record of it. -/
theorem run_map (hnext : ∀ t event, f (mover t event) = next (f t) event) {t : τ} (events : List ε) :
    f (run mover t events) = run next (f t) events := by
  induction events generalizing t with
  | nil => rfl
  | cons event events ih => rw [run_cons, run_cons, ih, hnext]

variable {f}

theorem along_map {guard : σ → ε → Prop} (hnext : ∀ t event, f (mover t event) = next (f t) event) {t : τ}
    {events : List ε} (h : Along next guard (f t) events) : Along mover (fun t => guard (f t)) t events := by
  induction events generalizing t with
  | nil => trivial
  | cons event events ih => exact ⟨h.1, ih (by rw [hnext]; exact h.2)⟩

end Map

end KnxdFcgi.Machine
