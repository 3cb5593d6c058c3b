import KnxdFcgi.ReadIndex

/-! What the values of an answer are. Whatever the request and however pushes come in between, every value in an
answer was the last one of its address at some moment while the request was served, and at that moment it passed the
age filter of `t`. The moments of an initial read are those of its calls of `get`, one for each address; a poll takes
all its values from one call of `get_delta`, so they belong together. -/

namespace KnxdFcgi

open Machine

/-- The value is the last one pushed for its address, and not too old for the request. -/
def ReadRequest.Shows (req : ReadRequest) (journal : List Push) (now : UInt32) (member : UInt16 × List UInt8) : Prop :=
  ∃ r p, LastPush journal member.1 r p ∧ member.2 = SharedGroupCache.keptValue p ∧
    tooOld req.maxAgeSec now p.time = false

/-- How a step of the handler changes the values. -/
theorem Reader.step_values (config : ReadConfig) (req : ReadRequest) (r : Reader) (cache : SharedCacheData)
    (tick : Tick) :
    (r.step config req cache tick).values = r.values ∨
      (∃ addr todo value, r.pc = .get (addr :: todo) ∧
        SharedGroupCache.get cache addr req.maxAgeSec tick.now = some value ∧
        (r.step config req cache tick).values = r.values ++ [(addr, value)]) ∨
      r.pc = .getDelta ∧ (r.step config req cache tick).values =
        r.values ++ (SharedGroupCache.getDelta cache r.lastpos req.eibAddrs req.maxAgeSec tick.now).values.filter
          (!r.alreadyWritten ·.1) := by
  by_cases hget : ∃ todo, r.pc = .get todo
  · obtain ⟨todo, hpc⟩ := hget
    cases todo with
    | nil => simp [step, hpc]
    | cons addr todo =>
        cases hvalue : SharedGroupCache.get cache addr req.maxAgeSec tick.now with
        | none => simp [step, hpc, hvalue]
        | some value => exact Or.inr (Or.inl ⟨addr, todo, value, hpc, hvalue, by simp [step, hpc, hvalue]⟩)
  · by_cases hdelta : r.pc = .getDelta
    · exact Or.inr (Or.inr ⟨hdelta, by simp only [step, hdelta]⟩)
    · exact Or.inl (Reader.step_idle (not_exists.mp hget) hdelta cache tick).1

namespace ReadSystem

variable {config : ReadConfig} {req : ReadRequest} {s : ReadSystem}

theorem shows_get {addr : UInt16} {value : List UInt8} {now : UInt32}
    (h : SharedGroupCache.get s.cache addr req.maxAgeSec now = some value) (hzero : addr ≠ 0) :
    req.Shows s.journal now (addr, value) := by
  rw [cache, SharedGroupCache.get_eq] at h
  cases he : SharedGroupCache.stored (SharedGroupCache.replay s.journal) addr with
  | none => simp [he] at h
  | some e =>
      simp only [he] at h
      split_ifs at h with hold
      cases h
      obtain ⟨r, p, hlast, rfl⟩ := SharedGroupCache.stored_lastPush hzero he
      exact ⟨r, p, hlast, SharedGroupCache.makeEntry_bytes p _, Bool.not_eq_true _ ▸ hold⟩

theorem shows_getDelta {sincePos : UInt32} {subscribed : List UInt16} {now : UInt32} {member : UInt16 × List UInt8}
    (h : member ∈ (SharedGroupCache.getDelta s.cache sincePos subscribed req.maxAgeSec now).values)
    (hzero : member.1 ≠ 0) : req.Shows s.journal now member := by
  obtain ⟨-, -, r, p, hlast, hvalue, hage, -⟩ := (SharedGroupCache.mem_getDelta_aged_iff hzero _ _ _ _ _).mp h
  exact ⟨r, p, hlast, hvalue, hage⟩

/-- The run has a step in whose state and at whose time this holds. -/
def AtStep (config : ReadConfig) (req : ReadRequest) (s : ReadSystem) (events : List ReadEvent)
    (P : List Push → UInt32 → Prop) : Prop :=
  ∃ before tick after, events = before ++ .step tick :: after ∧ P (run (next config req) s before).journal tick.now

theorem AtStep.append {events : List ReadEvent} {P : List Push → UInt32 → Prop} (h : AtStep config req s events P)
    (more : List ReadEvent) : AtStep config req s (events ++ more) P := by
  obtain ⟨before, tick, after, rfl, hP⟩ := h
  exact ⟨before, tick, after ++ more, by simp, hP⟩

theorem atStep_last {events : List ReadEvent} {tick : Tick} {P : List Push → UInt32 → Prop}
    (h : P (run (next config req) s events).journal tick.now) : AtStep config req s (events ++ [.step tick]) P :=
  ⟨events, tick, [], rfl, h⟩

/-- Every value collected so far was shown at some step. -/
def Shown (config : ReadConfig) (req : ReadRequest) (s : ReadSystem) (events : List ReadEvent) : Prop :=
  ∀ member ∈ (run (next config req) s events).reader.values, member.1 ≠ 0 →
    AtStep config req s events fun journal now => req.Shows journal now member

theorem run_shown (hempty : s.reader.values = []) (events : List ReadEvent) : Shown config req s events := by
  induction events using List.reverseRecOn with
  | nil =>
      intro member hmember
      rw [run_nil, hempty] at hmember
      exact absurd hmember List.not_mem_nil
  | append_singleton events event ih =>
      have hold : ∀ member ∈ (run (next config req) s events).reader.values, member.1 ≠ 0 →
          AtStep config req s (events ++ [event]) fun journal now => req.Shows journal now member :=
        fun member hmember hzero => (ih member hmember hzero).append [event]
      intro member hmember hzero
      rw [run_append, run_cons, run_nil] at hmember
      cases event with
      | push p => exact hold member hmember hzero
      | step tick =>
          simp only [next] at hmember
          rcases Reader.step_values config req (run (next config req) s events).reader _ tick with
            heq | ⟨addr, todo, value, -, hvalue, heq⟩ | ⟨-, heq⟩
          · rw [heq] at hmember
            exact hold member hmember hzero
          · rw [heq] at hmember
            rcases List.mem_append.mp hmember with hmember | hmember
            · exact hold member hmember hzero
            · obtain rfl := List.mem_singleton.mp hmember
              exact atStep_last (shows_get hvalue hzero)
          · rw [heq] at hmember
            rcases List.mem_append.mp hmember with hmember | hmember
            · exact hold member hmember hzero
            · exact atStep_last (shows_getDelta (List.mem_filter.mp hmember).1 hzero)

/-- What a handler has that makes no initial read: nothing, until it ends with what one step has shown. -/
structure Polls (config : ReadConfig) (req : ReadRequest) (s : ReadSystem) (events : List ReadEvent) (r : Reader) :
    Prop where
  pc_ne_get : ∀ todo, r.pc ≠ .get todo
  together : r.values = [] ∨ r.pc = .done ∧
    AtStep config req s events fun journal now => ∀ member ∈ r.values, member.1 ≠ 0 → req.Shows journal now member

theorem Polls.append {events : List ReadEvent} {r : Reader} (h : Polls config req s events r)
    (more : List ReadEvent) : Polls config req s (events ++ more) r where
  pc_ne_get := h.pc_ne_get
  together := h.together.imp id fun hdone => ⟨hdone.1, hdone.2.append more⟩

theorem Polls.step {events : List ReadEvent} (h : Polls config req s events (run (next config req) s events).reader)
    (tick : Tick) : Polls config req s (events ++ [.step tick])
      ((run (next config req) s events).reader.step config req (run (next config req) s events).cache tick) := by
  refine ⟨step_pc_ne_get h.pc_ne_get _ tick, ?_⟩
  rcases h.together with hempty | ⟨hdone, htogether⟩
  · by_cases hdelta : (run (next config req) s events).reader.pc = .getDelta
    · simp only [Reader.step, hdelta, hempty, List.nil_append]
      split_ifs with hnone
      · exact Or.inl hnone
      · refine Or.inr ⟨rfl, atStep_last fun member hmember hzero => ?_⟩
        exact shows_getDelta (List.mem_filter.mp hmember).1 hzero
    · exact Or.inl ((Reader.step_idle h.pc_ne_get hdelta _ tick).1.trans hempty)
  · have hsame : (run (next config req) s events).reader.step config req (run (next config req) s events).cache tick =
        (run (next config req) s events).reader := by
      simp only [Reader.step, hdone]
    rw [hsame]
    exact Or.inr ⟨hdone, htogether.append _⟩

theorem run_polls (hempty : s.reader.values = []) (hget : ∀ todo, s.reader.pc ≠ .get todo) (events : List ReadEvent) :
    Polls config req s events (run (next config req) s events).reader := by
  induction events using List.reverseRecOn with
  | nil => exact ⟨hget, Or.inl hempty⟩
  | append_singleton events event ih =>
      rw [run_append, run_cons, run_nil]
      cases event with
      | push p => exact ih.append _
      | step tick => exact ih.step tick

/-- **Every value in an answer was current.** For every request and every interleaving of pushes with the handler's
steps, each value of an answer, but for address 0, was at one of these steps the last one pushed for its address, and
young enough for a `t` above 0. If the handler makes no initial read, there is one such step for the whole answer. -/
theorem values_current (config : ReadConfig) (req : ReadRequest) (journal : List Push) (covered : Nat)
    (events : List ReadEvent) {response : ReadResponse}
    (hresponse : (run (next config req) (start req journal covered) events).reader.response = some response) :
    (∀ member ∈ response.d, member.1 ≠ 0 →
        AtStep config req (start req journal covered) events fun made now => req.Shows made now member) ∧
      (req.startPos ≠ 0 → response.d ≠ [] →
        AtStep config req (start req journal covered) events fun made now =>
          ∀ member ∈ response.d, member.1 ≠ 0 → req.Shows made now member) := by
  obtain ⟨-, rfl⟩ := Reader.response_eq_some hresponse
  refine ⟨run_shown rfl events, fun hpos hsome => ?_⟩
  have hget : ∀ todo, (start req journal covered).reader.pc ≠ .get todo := by
    simp [start, Reader.start, hpos]
  exact ((run_polls rfl hget events).together.resolve_left hsome).2

/-- A poll with `t=5` that a push of the same second wakes. -/
theorem values_current_aged :
    AtStep defaultConfig (requestAged 5) (start (requestAged 5) [⟨2, [0x01], 0⟩] 1) agedEvents fun made now =>
      ∀ member ∈ [((1 : UInt16), [(0x2a : UInt8)])], member.1 ≠ 0 → (requestAged 5).Shows made now member := by
  have hresponse : (run (next defaultConfig (requestAged 5)) (start (requestAged 5) [⟨2, [0x01], 0⟩] 1)
      agedEvents).reader.response = some ⟨[(1, [0x2a])], 2⟩ := by decide
  exact (values_current _ _ _ _ _ hresponse).2 (by decide) (List.cons_ne_nil _ _)

end ReadSystem
end KnxdFcgi
