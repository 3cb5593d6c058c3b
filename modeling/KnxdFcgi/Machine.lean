import Mathlib

/-! Machines that move by one event at a time. A run is a list of events; a guard that holds of every
event of a run, in the state in which the event happens, is what a conditional invariant needs. -/

namespace KnxdFcgi.Machine

variable {σ ε : Type} (next : σ → ε → σ)

/-- The state after a list of events. -/
def run (s : σ) (events : List ε) : σ := events.foldl next s

/-- The guard holds of every event of the run, in the state in which it happens. -/
def Along (guard : σ → ε → Prop) : σ → List ε → Prop
  | _, [] => True
  | s, event :: events => guard s event ∧ Along guard (next s event) events

variable {next} {s : σ} {guard : σ → ε → Prop}

@[simp] theorem run_nil : run next s [] = s := rfl

@[simp] theorem run_cons (event : ε) (events : List ε) :
    run next s (event :: events) = run next (next s event) events := rfl

theorem run_append (events more : List ε) :
    run next s (events ++ more) = run next (run next s events) more :=
  List.foldl_append

theorem along_of_forall {events : List ε} (h : ∀ event ∈ events, ∀ s, guard s event) :
    Along next guard s events := by
  induction events generalizing s with
  | nil => trivial
  | cons event events ih =>
      exact ⟨h event List.mem_cons_self s, ih fun e he => h e (List.mem_cons_of_mem _ he)⟩

/-- The events of a guarded run belong to it. -/
theorem Along.and_mem {events all : List ε} (h : Along next guard s events) (hall : ∀ event ∈ events, event ∈ all) :
    Along next (fun s event => guard s event ∧ event ∈ all) s events := by
  induction events generalizing s with
  | nil => trivial
  | cons event events ih =>
      exact ⟨⟨h.1, hall event List.mem_cons_self⟩, ih h.2 fun e he => hall e (List.mem_cons_of_mem _ he)⟩

/-- A run that is not guarded throughout has a first event that breaks the guard. -/
theorem exists_of_not_along {events : List ε} (h : ¬Along next guard s events) :
    ∃ before event after, events = before ++ event :: after ∧ Along next guard s before ∧
      ¬guard (run next s before) event := by
  induction events generalizing s with
  | nil => exact absurd trivial h
  | cons event events ih =>
      by_cases hguard : guard s event
      · obtain ⟨before, event', after, rfl, hbefore, hbroken⟩ := ih fun hrest => h ⟨hguard, hrest⟩
        exact ⟨event :: before, event', after, rfl, ⟨hguard, hbefore⟩, hbroken⟩
      · exact ⟨[], event, events, rfl, trivial, hguard⟩

/-- What every guarded event keeps, a guarded run keeps. -/
theorem run_invariant_along (Inv : σ → Prop)
    (hstep : ∀ s event, guard s event → Inv s → Inv (next s event)) {events : List ε}
    (hguard : Along next guard s events) (hinv : Inv s) : Inv (run next s events) := by
  induction events generalizing s with
  | nil => exact hinv
  | cons event events ih => exact ih hguard.2 (hstep s event hguard.1 hinv)

/-- A guard that holds of every event where another one and an invariant do. -/
theorem Along.imp_of_invariant {guard' : σ → ε → Prop} (Inv : σ → Prop) {events : List ε}
    (h : Along next guard s events) (hinv : Inv s)
    (hstep : ∀ s event, guard s event → Inv s → Inv (next s event))
    (himp : ∀ s event, guard s event → Inv s → guard' s event) : Along next guard' s events := by
  induction events generalizing s with
  | nil => trivial
  | cons event events ih =>
      exact ⟨himp s event h.1 hinv, ih h.2 (hstep s event h.1 hinv)⟩

/-- What every event keeps, a run keeps. -/
theorem run_invariant (Inv : σ → Prop) (hstep : ∀ s event, Inv s → Inv (next s event))
    (events : List ε) (hinv : Inv s) : Inv (run next s events) := by
  induction events generalizing s with
  | nil => exact hinv
  | cons event events ih => exact ih (hstep s event hinv)

/-- A number that the moves of a run lower and its other events do not raise. -/
theorem run_measure_le (measure : σ → Nat) (moves : ε → Bool) {events : List ε}
    (hmoves : ∀ event ∈ events, moves event = true → ∀ s, measure (next s event) ≤ measure s - 1)
    (hrest : ∀ event ∈ events, moves event = false → ∀ s, measure (next s event) ≤ measure s) :
    measure (run next s events) ≤ measure s - events.countP moves := by
  induction events generalizing s with
  | nil => exact le_rfl
  | cons event events ih =>
      have htail := @ih (next s event) (fun e he => hmoves e (List.mem_cons_of_mem _ he))
        (fun e he => hrest e (List.mem_cons_of_mem _ he))
      rw [run_cons, List.countP_cons]
      cases hmove : moves event with
      | true =>
          have hless := hmoves event List.mem_cons_self hmove s
          rw [if_pos rfl]
          omega
      | false =>
          have hsame := hrest event List.mem_cons_self hmove s
          rw [if_neg Bool.false_ne_true]
          omega

/-- A goal is reached if, as long as it is not, some allowed event keeps an invariant and lowers a number. -/
theorem exists_run_of_lowers (Inv goal : σ → Prop) (allowed : ε → Prop) (measure : σ → Nat)
    (hstep : ∀ s, Inv s → ∃ event, allowed event ∧
      (goal (next s event) ∨ Inv (next s event) ∧ measure (next s event) < measure s)) (hinv : Inv s) :
    ∃ events, (∀ event ∈ events, allowed event) ∧ goal (run next s events) := by
  induction hn : measure s using Nat.strong_induction_on generalizing s with
  | _ n ih =>
      obtain ⟨event, hallowed, hgoal | ⟨hnext, hless⟩⟩ := hstep s hinv
      · exact ⟨[event], by simpa using hallowed, hgoal⟩
      · obtain ⟨events, hevents, hgoal⟩ := ih _ (hn ▸ hless) hnext rfl
        exact ⟨event :: events, List.forall_mem_cons.mpr ⟨hallowed, hevents⟩, hgoal⟩

end KnxdFcgi.Machine
