import KnxdFcgi.Supervisor

/-! Which child each pid kept by the parent names. A slot names a child that has not been reaped, except while
its own replacement is under way; so the parent takes every reaped child for the right one, and two slots
never name the same child. A slot whose replacement could not be forked names nothing, and nothing ever
tries again. -/

namespace KnxdFcgi

open Machine

/-- The child can be the one forked for the slot. -/
def Child.Fits {n : Nat} : Child → Slot n → Prop
  | .reader, slot => slot = .reader
  | .worker _, slot => ∃ i, slot = .worker i
  | .zombie, _ => True

theorem Slot.child_fits {n : Nat} (slot : Slot n) : slot.child.Fits slot := by
  cases slot with
  | reader => rfl
  | worker i => exact ⟨i, rfl⟩

namespace Pool

variable {n : Nat}

/-- The slot whose child is being replaced. -/
def replacing : SupervisorPc n → Option (Slot n)
  | .getValue _ i | .post _ i => some (.worker i)
  | .backoff slot | .restart slot => some slot
  | _ => none

/-- The slots and the children of the parent. -/
structure Placed (s : Pool n) : Prop where
  injective : ∀ slot slot' pid, s.pids slot = some pid → s.pids slot' = some pid → slot = slot'
  named : ∀ pid child, s.children pid = some child → ∃ slot, s.pids slot = some pid ∧ child.Fits slot
  unreaped : s.pc ≠ .stopping → ∀ slot pid, s.pids slot = some pid → s.children pid = none →
    s.pc = .reaped pid ∨ replacing s.pc = some slot
  replaced : ∀ slot pid, s.pc = .reaped pid ∨ replacing s.pc = some slot → s.pids slot = some pid →
    s.children pid = none
  unborn : ∀ k, s.pc = .spawn k → ∀ j slot, k ≤ j → slotOf j = some slot → s.pids slot = none

theorem start_placed : Placed (start : Pool n) where
  injective _ _ _ h := nomatch h
  named _ _ h := nomatch h
  unreaped _ _ _ h := nomatch h
  replaced _ _ _ h := nomatch h
  unborn _ _ _ _ _ _ := rfl

section Lookup

variable {s : Pool n} {pid : Nat} {slot : Slot n}

theorem slotNamed_some (h : s.slotNamed pid = some slot) : s.pids slot = some pid := by
  unfold slotNamed at h
  split_ifs at h with hreader
  · cases h
    exact hreader
  · obtain ⟨i, hi, rfl⟩ := Option.map_eq_some_iff.mp h
    have hpid := List.find?_some hi
    exact of_decide_eq_true hpid

theorem slotNamed_none (h : s.slotNamed pid = none) (slot : Slot n) : s.pids slot ≠ some pid := by
  unfold slotNamed at h
  split_ifs at h with hreader
  cases slot with
  | reader => exact hreader
  | worker i =>
      rw [Option.map_eq_none_iff, List.find?_eq_none] at h
      have hi := h i (List.mem_finRange i)
      simpa using hi

theorem replacing_afterReaping (named : Option (Slot n)) : replacing (afterReaping named) = named := by
  rcases named with _ | _ | _ <;> rfl

theorem replacing_afterRestore (i : Fin n) (sem : Sem) : replacing (afterRestore i sem) = some (.worker i) := by
  cases sem <;> rfl

theorem afterRestore_not_spawn (i : Fin n) (sem : Sem) (k : Nat) : afterRestore i sem ≠ .spawn k := by
  cases sem <;> simp [afterRestore]

/-- The `k`-th child is started once. -/
theorem slotOf_injective {j k : Nat} (hj : slotOf j = some slot) (hk : slotOf k = some slot) : j = k := by
  unfold slotOf at hj hk
  split at hj <;> split at hk
  · rfl
  · split_ifs at hk
    cases hj
    cases hk
  · split_ifs at hj
    cases hk
    cases hj
  · split_ifs at hj hk
    cases hj
    cases hk
    rfl

end Lookup

section Step

variable {s s' : Pool n} {answer : SupervisorAnswer}

/-- A step that leaves the pids and the children as they are. -/
theorem Placed.setPc (h : s.Placed) {pc : SupervisorPc n} {sems : Sem → Option Nat}
    {b : Slot n → RestartBackoff} {slept : List Nat} {shutdown : Bool} (hspawn : ∀ k, pc ≠ .spawn k)
    (hunreaped : pc ≠ .stopping → ∀ slot pid, s.pids slot = some pid → s.children pid = none →
      pc = .reaped pid ∨ replacing pc = some slot)
    (hreplaced : ∀ slot pid, pc = .reaped pid ∨ replacing pc = some slot → s.pids slot = some pid →
      s.children pid = none) :
    Placed ⟨pc, shutdown, s.pids, s.children, sems, b, slept⟩ where
  injective := h.injective
  named := h.named
  unreaped := hunreaped
  replaced := hreplaced
  unborn k hpc := absurd hpc (hspawn k)

/-- The parent is not busy with a dead child. -/
def Quiet (pc : SupervisorPc n) : Prop := (∀ pid, pc ≠ .reaped pid) ∧ replacing pc = none

theorem Quiet.not_busy {pc : SupervisorPc n} (h : Quiet pc) {slot : Slot n} {pid : Nat} :
    ¬(pc = .reaped pid ∨ replacing pc = some slot) := by
  rintro (hreaped | hreplacing)
  · exact h.1 pid hreaped
  · rw [h.2] at hreplacing
    cases hreplacing

/-- While the parent is not busy with a dead child, every slot that names one names an unreaped one. -/
theorem Placed.children_of_quiet (h : s.Placed) (hquiet : Quiet s.pc) (hpc : s.pc ≠ .stopping) {slot : Slot n}
    {pid : Nat} (hpid : s.pids slot = some pid) : s.children pid ≠ none :=
  fun hnone => hquiet.not_busy (h.unreaped hpc slot pid hpid hnone)

/-- A step between two statements at which the parent is not busy with a dead child. -/
theorem Placed.quiet (h : s.Placed) {pc : SupervisorPc n} {b : Slot n → RestartBackoff} {shutdown : Bool}
    (hquiet : Quiet s.pc) (hpc : s.pc ≠ .stopping) (hquiet' : Quiet pc) (hspawn : ∀ k, pc ≠ .spawn k) :
    Placed ⟨pc, shutdown, s.pids, s.children, s.sems, b, s.slept⟩ := by
  refine h.setPc hspawn (fun _ slot pid hpid hnone => ?_) (fun slot pid hbusy => ?_)
  · exact absurd hnone (h.children_of_quiet hquiet hpc hpid)
  · exact absurd hbusy hquiet'.not_busy

/-- The end of the loop. -/
theorem Placed.stop (h : s.Placed) : Placed { s with pc := .stopping } := by
  refine h.setPc (fun _ hpc => nomatch hpc) (fun hne => absurd rfl hne) (fun slot pid hbusy => ?_)
  rcases hbusy with hreaped | hreplacing
  · cases hreaped
  · cases hreplacing

/-- A step in the replacement of one child. -/
theorem Placed.replace (h : s.Placed) {pc : SupervisorPc n} {sems : Sem → Option Nat}
    {b : Slot n → RestartBackoff} {slept : List Nat} {slot : Slot n} (hslot : replacing s.pc = some slot)
    (hslot' : replacing pc = some slot) : Placed { s with pc := pc, sems := sems, backoffs := b, slept := slept } := by
  have hbusy : ∀ pc : SupervisorPc n, replacing pc = some slot →
      pc ≠ .stopping ∧ (∀ pid, pc ≠ .reaped pid) ∧ ∀ k, pc ≠ .spawn k := by
    intro pc hpc
    refine ⟨?_, fun pid => ?_, fun k => ?_⟩ <;> rintro rfl <;> cases hpc
  obtain ⟨hstopping, hreaped, -⟩ := hbusy s.pc hslot
  obtain ⟨-, hreaped', hspawn⟩ := hbusy pc hslot'
  refine h.setPc hspawn (fun _ slot' pid hpid hnone => ?_) (fun slot' pid hbusy hpid => ?_)
  · right
    rw [hslot', ← hslot]
    exact (h.unreaped hstopping slot' pid hpid hnone).resolve_left (hreaped pid)
  · have hsame := hbusy.resolve_left (hreaped' pid)
    rw [hslot', ← hslot] at hsame
    exact h.replaced slot' pid (Or.inr hsame) hpid

/-- The parent looks up the child that it has reaped. -/
theorem Placed.look (h : s.Placed) {pid : Nat} (hpc : s.pc = .reaped pid) :
    Placed { s with pc := afterReaping (s.slotNamed pid) } := by
  have hafter : ∀ named : Option (Slot n), (∀ k, afterReaping named ≠ .spawn k) ∧
      ∀ pid', afterReaping named ≠ .reaped pid' := by
    intro named
    rcases named with _ | _ | _ <;> simp [afterReaping]
  refine h.setPc (hafter _).1 (fun _ slot pid' hpid hnone => ?_) (fun slot pid' hbusy hpid => ?_)
  · right
    rw [replacing_afterReaping]
    have hsame : pid' = pid := by
      rcases h.unreaped (by rw [hpc]; simp) slot pid' hpid hnone with hreaped | hreplacing
      · rw [hpc] at hreaped
        cases hreaped
        rfl
      · rw [hpc] at hreplacing
        cases hreplacing
    subst hsame
    cases hnamed : s.slotNamed pid' with
    | none => exact absurd hpid (slotNamed_none hnamed slot)
    | some slot' => rw [h.injective slot slot' pid' hpid (slotNamed_some hnamed)]
  · have hslot := hbusy.resolve_left ((hafter _).2 pid')
    rw [replacing_afterReaping] at hslot
    have hpid' := slotNamed_some hslot
    rw [hpid] at hpid'
    cases hpid'
    exact h.replaced slot pid (Or.inl hpc) hpid

/-- A child is reaped, by the loop or after it. -/
theorem Placed.reap (h : s.Placed) {pid : Nat} {pc : SupervisorPc n}
    (hpc : s.pc = .waiting ∧ pc = .reaped pid ∨ pc = .stopping) :
    Placed { s with children := Function.update s.children pid none, pc := pc } where
  injective := h.injective
  named pid' child hchild := by
    change Function.update s.children pid none pid' = some child at hchild
    rw [Function.update_apply] at hchild
    split_ifs at hchild
    exact h.named pid' child hchild
  unreaped hstopping slot pid' hpid hnone := by
    obtain ⟨hwaiting, rfl⟩ := hpc.resolve_right hstopping
    by_cases hsame : pid' = pid
    · rw [hsame]
      exact Or.inl rfl
    · change Function.update s.children pid none pid' = none at hnone
      rw [Function.update_of_ne hsame] at hnone
      rcases h.unreaped (by rw [hwaiting]; simp) slot pid' hpid hnone with hbusy | hbusy <;>
        rw [hwaiting] at hbusy <;> cases hbusy
  replaced slot pid' hbusy hpid := by
    rcases hpc with ⟨-, rfl⟩ | rfl
    · rcases hbusy with hreaped | hreplacing
      · cases hreaped
        exact Function.update_self _ _ _
      · cases hreplacing
    · rcases hbusy with hreaped | hreplacing
      · cases hreaped
      · cases hreplacing
  unborn k hspawn := by
    rcases hpc with ⟨-, rfl⟩ | rfl <;> cases hspawn

/-- At a fork for a slot, the old child of the slot is gone. -/
theorem Placed.fork_old (h : s.Placed) {slot : Slot n} {done failed : SupervisorPc n}
    (hpc : Forks s.pc slot done failed) {pid : Nat} (hpid : s.pids slot = some pid) : s.children pid = none := by
  rcases hpc with ⟨k, hpc, hslot, -, -⟩ | ⟨hpc, -, -⟩
  · rw [h.unborn k hpc k slot le_rfl hslot] at hpid
    cases hpid
  · exact h.replaced slot pid (Or.inr (by rw [hpc]; rfl)) hpid

/-- At a fork for a slot, every other slot names an unreaped child or none. -/
theorem Placed.fork_other (h : s.Placed) {slot slot' : Slot n} {done failed : SupervisorPc n}
    (hpc : Forks s.pc slot done failed) (hne : slot' ≠ slot) {pid : Nat} (hpid : s.pids slot' = some pid) :
    s.children pid ≠ none := by
  intro hnone
  rcases hpc with ⟨k, hpc, -, -, -⟩ | ⟨hpc, -, -⟩
  · rcases h.unreaped (by rw [hpc]; simp) slot' pid hpid hnone with hbusy | hbusy <;>
      rw [hpc] at hbusy <;> cases hbusy
  · rcases h.unreaped (by rw [hpc]; simp) slot' pid hpid hnone with hbusy | hbusy <;>
      rw [hpc] at hbusy <;> cases hbusy
    exact hne rfl

/-- A child keeps its name when another slot is filled. -/
theorem Placed.named_of_fork (h : s.Placed) {slot : Slot n} {done failed : SupervisorPc n}
    (hpc : Forks s.pc slot done failed) {pid : Nat} {child : Child} (hchild : s.children pid = some child)
    (filled : Option Nat) :
    ∃ slot', Function.update s.pids slot filled slot' = some pid ∧ child.Fits slot' := by
  obtain ⟨slot', hpid, hfits⟩ := h.named pid child hchild
  have hne : slot' ≠ slot := by
    rintro rfl
    rw [h.fork_old hpc hpid] at hchild
    cases hchild
  exact ⟨slot', by rw [Function.update_of_ne hne]; exact hpid, hfits⟩

theorem Placed.fork (h : s.Placed) {slot : Slot n} {pid : Nat} {done failed : SupervisorPc n}
    (hpc : Forks s.pc slot done failed) (hpid : s.children pid = none) (b : Slot n → RestartBackoff) :
    Placed { s with
      pids := Function.update s.pids slot (some pid)
      children := Function.update s.children pid (some slot.child)
      backoffs := b
      pc := done } where
  injective slot₁ slot₂ pid' h₁ h₂ := by
    change Function.update s.pids slot (some pid) slot₁ = some pid' at h₁
    change Function.update s.pids slot (some pid) slot₂ = some pid' at h₂
    rw [Function.update_apply] at h₁ h₂
    split_ifs at h₁ h₂ with heq₁ heq₂ heq₂
    · rw [heq₁, heq₂]
    · cases h₁
      exact absurd hpid (h.fork_other hpc heq₂ h₂)
    · cases h₂
      exact absurd hpid (h.fork_other hpc heq₁ h₁)
    · exact h.injective slot₁ slot₂ pid' h₁ h₂
  named pid' child hchild := by
    change Function.update s.children pid (some slot.child) pid' = some child at hchild
    rw [Function.update_apply] at hchild
    split_ifs at hchild with hsame
    · cases hchild
      exact ⟨slot, by rw [hsame]; exact Function.update_self _ _ _, slot.child_fits⟩
    · exact h.named_of_fork hpc hchild (some pid)
  unreaped _ slot' pid' hslot hnone := by
    change Function.update s.pids slot (some pid) slot' = some pid' at hslot
    change Function.update s.children pid (some slot.child) pid' = none at hnone
    rw [Function.update_apply] at hslot hnone
    split_ifs at hslot hnone with hsame hne hne
    · cases hslot
      exact absurd rfl hne
    · exact absurd hnone (h.fork_other hpc hsame hslot)
  replaced slot' pid' hbusy := by
    rcases hpc with ⟨k, -, -, rfl, -⟩ | ⟨-, rfl, -⟩ <;> rcases hbusy with hbusy | hbusy <;> cases hbusy
  unborn k hspawn j slot' hj hslot' := by
    rcases hpc with ⟨k', hpc, hslot, rfl, -⟩ | ⟨-, rfl, -⟩
    · cases hspawn
      have hne : slot' ≠ slot := by
        rintro rfl
        have := slotOf_injective hslot' hslot
        omega
      show Function.update s.pids slot (some pid) slot' = none
      rw [Function.update_of_ne hne]
      exact h.unborn k' hpc j slot' (by omega) hslot'
    · cases hspawn

theorem Placed.forkFails (h : s.Placed) {slot : Slot n} {done failed : SupervisorPc n}
    (hpc : Forks s.pc slot done failed) :
    Placed { s with pids := Function.update s.pids slot none, pc := failed } where
  injective slot₁ slot₂ pid h₁ h₂ := by
    change Function.update s.pids slot none slot₁ = some pid at h₁
    change Function.update s.pids slot none slot₂ = some pid at h₂
    rw [Function.update_apply] at h₁ h₂
    split_ifs at h₁ h₂
    exact h.injective slot₁ slot₂ pid h₁ h₂
  named pid child hchild := h.named_of_fork hpc hchild none
  unreaped _ slot' pid hslot hnone := by
    change Function.update s.pids slot none slot' = some pid at hslot
    rw [Function.update_apply] at hslot
    split_ifs at hslot with hsame
    exact absurd hnone (h.fork_other hpc hsame hslot)
  replaced slot' pid' hbusy := by
    rcases hpc with ⟨k, -, -, -, rfl⟩ | ⟨-, -, rfl⟩ <;> rcases hbusy with hbusy | hbusy <;> cases hbusy
  unborn k hspawn := by
    rcases hpc with ⟨k, -, -, -, rfl⟩ | ⟨-, -, rfl⟩ <;> cases hspawn

theorem Placed.supervise (h : s.Placed) (hstep : Supervises s answer s') : s'.Placed := by
  cases hstep with
  | blocked => exact h
  | forked b hpc hpid => exact h.fork hpc hpid b
  | forkFailed hpc hanswer => exact h.forkFails hpc
  | started b hpc hslot => exact h.quiet (by rw [hpc]; exact ⟨by simp, rfl⟩) (by simp [hpc]) ⟨by simp, rfl⟩ (by simp)
  | goesOn hpc hflag => exact h.quiet (by rw [hpc]; exact ⟨by simp, rfl⟩) (by simp [hpc]) ⟨by simp, rfl⟩ (by simp)
  | enterWait hpc => exact h.quiet (by rw [hpc]; exact ⟨by simp, rfl⟩) (by simp [hpc]) ⟨by simp, rfl⟩ (by simp)
  | reaps hpc hpid => exact h.reap (Or.inl ⟨hpc, rfl⟩)
  | stops hpc => exact h.stop
  | knows hpc => exact h.look hpc
  | tests hpc hsem hvalue => exact h.replace (by rw [hpc]; rfl) rfl
  | restored hpc hsem => exact h.replace (by rw [hpc]; rfl) (replacing_afterRestore _ _)
  | posts hpc => exact h.replace (by rw [hpc]; rfl) (replacing_afterRestore _ _)
  | sleeps b slept hpc => exact h.replace (by rw [hpc]; rfl) rfl
  | reapsLast hpc hpid => exact h.reap (Or.inr rfl)

/-- A child goes on, and fits wherever it fitted. -/
theorem Placed.setChild (h : s.Placed) {pid : Nat} {child child' : Child} (hchild : s.children pid = some child)
    (hfits : ∀ slot : Slot n, child.Fits slot → child'.Fits slot) (sems : Sem → Option Nat) :
    Placed ({ s with sems := sems }.setChild pid child') := by
  have hnone : ∀ pid', (s.setChild pid child').children pid' = none ↔ s.children pid' = none := by
    intro pid'
    show Function.update s.children pid (some child') pid' = none ↔ _
    rw [Function.update_apply]
    split_ifs with hsame
    · rw [hsame, hchild]
      simp
    · rfl
  refine ⟨h.injective, fun pid' child'' hchild' => ?_, fun hpc slot pid' hpid hempty => ?_,
    fun slot pid' hbusy hpid => ?_, h.unborn⟩
  · change Function.update s.children pid (some child') pid' = some child'' at hchild'
    rw [Function.update_apply] at hchild'
    split_ifs at hchild' with hsame
    · cases hchild'
      obtain ⟨slot, hpid, hslot⟩ := h.named pid child hchild
      exact ⟨slot, by rw [hsame]; exact hpid, hfits slot hslot⟩
    · exact h.named pid' child'' hchild'
  · exact h.unreaped hpc slot pid' hpid ((hnone pid').mp hempty)
  · exact (hnone pid').mpr (h.replaced slot pid' hbusy hpid)

theorem Placed.act (h : s.Placed) (hstep : Acts s s') : s'.Placed := by
  cases hstep with
  | blocked => exact h
  | moves hchild hmoves => exact h.setChild hchild (by exact fun _ hfits => hfits) _
  | dies hchild => exact h.setChild hchild (by exact fun _ _ => trivial) s.sems

theorem Placed.signal (h : s.Placed) : (s.next .sigterm).Placed := by
  by_cases hpc : s.pc = .waiting
  · simp only [Pool.next, if_pos hpc]
    exact h.quiet (by rw [hpc]; exact ⟨by simp, rfl⟩) (by simp [hpc]) ⟨by simp, rfl⟩ (by simp)
  · simp only [Pool.next, if_neg hpc]
    exact ⟨h.injective, h.named, h.unreaped, h.replaced, h.unborn⟩

theorem Placed.next (h : s.Placed) (event : PoolEvent) : (s.next event).Placed := by
  rcases next_cases s event with rfl | ⟨answer, -, hstep⟩ | hstep
  · exact h.signal
  · exact h.supervise hstep
  · exact h.act hstep

end Step

theorem run_placed (events : List PoolEvent) : (run next (start : Pool n) events).Placed :=
  run_invariant Placed (fun _ event h => h.next event) events start_placed

/-- No slot names a child exactly if there is no child at all, as `wait` finds it. -/
theorem noChildren_iff {s : Pool n} (h : s.Placed) : s.noChildren = true ↔ ∀ pid, s.children pid = none := by
  unfold noChildren
  rw [Bool.and_eq_true, List.all_eq_true]
  constructor
  · rintro ⟨hreader, hworkers⟩ pid
    by_contra hpid
    obtain ⟨child, hchild⟩ := Option.ne_none_iff_exists'.mp hpid
    obtain ⟨slot, hslot, -⟩ := h.named pid child hchild
    cases slot with
    | reader => simp [hslot, hchild] at hreader
    | worker i =>
        have hi := hworkers i (List.mem_finRange i)
        simp [hslot, hchild] at hi
  · intro hnone
    have hempty : s.children = fun _ => none := funext hnone
    simp [hempty]

/-! ### Every dead child is replaced -/

/-- The fork that replaces a child succeeds. -/
def ForkSucceeds (s : Pool n) (event : PoolEvent) : Prop :=
  ∀ answer slot, event = .supervise answer → s.pc = .restart slot → answer.forked ≠ none

/-- Every slot names a child that has been forked and not yet reaped. -/
def Staffed (s : Pool n) : Prop := ∀ slot, ∃ pid, s.pids slot = some pid ∧ s.children pid ≠ none

/-- Every slot that has had its turn at startup names some child. -/
def Filled (s : Pool n) : Prop :=
  s.pc ≠ .stopping → ∀ j slot, slotOf j = some slot → (∀ k, s.pc = .spawn k → j < k) → s.pids slot ≠ none

/-- The slot names no child, and none is being forked for it. -/
def Abandoned (slot : Slot n) (s : Pool n) : Prop :=
  s.pids slot = none ∧ replacing s.pc ≠ some slot ∧ ∀ k, s.pc ≠ .spawn k

section Replacement

variable {s s' : Pool n} {answer : SupervisorAnswer} {slot : Slot n}

theorem slotOf_lt {j k : Nat} (hj : slotOf j = some slot) (hk : slotOf (n := n) k = none) : j < k := by
  unfold slotOf at hj hk
  split at hk
  · cases hk
  · split_ifs at hk with hlarge
    split at hj
    · exact Nat.succ_pos _
    · split_ifs at hj with hsmall
      omega

/-- A step after the startup that keeps the pids. -/
theorem Filled.setPc (h : s.Filled) {pc : SupervisorPc n} {children : Nat → Option Child}
    {sems : Sem → Option Nat} {b : Slot n → RestartBackoff} {slept : List Nat} {shutdown : Bool}
    (hstopping : s.pc ≠ .stopping) (hspawn : ∀ k, s.pc ≠ .spawn k) :
    Filled ⟨pc, shutdown, s.pids, children, sems, b, slept⟩ := by
  intro _ j slot hj _
  exact h hstopping j slot hj fun k hpc => absurd hpc (hspawn k)

theorem Filled.fork (h : s.Filled) {pid : Nat} {done failed : SupervisorPc n} (hpc : Forks s.pc slot done failed)
    {children : Nat → Option Child} {b : Slot n → RestartBackoff} :
    Filled ⟨done, s.shutdown, Function.update s.pids slot (some pid), children, s.sems, b, s.slept⟩ := by
  intro _ j slot' hj hturn
  show Function.update s.pids slot (some pid) slot' ≠ none
  rw [Function.update_apply]
  split_ifs with hsame
  · simp
  · rcases hpc with ⟨k, hpc, hslot, rfl, -⟩ | ⟨hpc, rfl, -⟩
    · refine h (by rw [hpc]; simp) j slot' hj fun k' hk' => ?_
      rw [hpc] at hk'
      cases hk'
      have hlt : j < k + 1 := hturn (k + 1) rfl
      have hne : j ≠ k := by
        rintro rfl
        rw [hslot] at hj
        cases hj
        exact hsame rfl
      omega
    · exact h (by rw [hpc]; simp) j slot' hj fun k' hk' => by rw [hpc] at hk'; cases hk'

theorem Filled.supervise (h : s.Filled) (hfork : s.ForkSucceeds (.supervise answer))
    (hstep : Supervises s answer s') : s'.Filled := by
  cases hstep with
  | blocked => exact h
  | forked b hpc hpid => exact h.fork hpc
  | forkFailed hpc hanswer =>
      rcases hpc with ⟨k, -, -, -, rfl⟩ | ⟨hpc, -, rfl⟩
      · exact fun hstopping => absurd rfl hstopping
      · exact absurd hanswer (hfork answer _ rfl hpc)
  | started b hpc hslot =>
      intro _ j slot hj _
      refine h (by rw [hpc]; simp) j slot hj fun k hk => ?_
      rw [hpc] at hk
      cases hk
      exact slotOf_lt hj hslot
  | stops hpc => exact fun hstopping => absurd rfl hstopping
  | reapsLast hpc hpid => exact fun hstopping => absurd rfl hstopping
  | goesOn hpc | enterWait hpc | reaps hpc | knows hpc | tests hpc | restored hpc | posts hpc | sleeps _ _ hpc =>
      exact h.setPc (by rw [hpc]; simp) (by rw [hpc]; simp)

theorem Filled.next (h : s.Filled) {event : PoolEvent} (hfork : s.ForkSucceeds event) : (s.next event).Filled := by
  rcases next_cases s event with rfl | ⟨answer, rfl, hstep⟩ | hstep
  · rw [Pool.next]
    split_ifs with hwaiting
    · exact h.setPc (by rw [hwaiting]; simp) (by rw [hwaiting]; simp)
    · exact h
  · exact h.supervise hfork hstep
  · generalize s.next event = s' at hstep
    cases hstep <;> exact h

/-- At a fork for another slot, the pid of an abandoned one stays as it is. -/
theorem Abandoned.fork (h : Abandoned slot s) {slot' : Slot n} {done failed : SupervisorPc n}
    (hpc : Forks s.pc slot' done failed) (filled : Option Nat) :
    Function.update s.pids slot' filled slot = none ∧ done = .test ∧ failed = .test := by
  obtain ⟨hpids, hreplacing, hspawn⟩ := h
  rcases hpc with ⟨k, hpc, -⟩ | ⟨hpc, rfl, rfl⟩
  · exact absurd hpc (hspawn k)
  · rw [hpc] at hreplacing
    have hne : slot ≠ slot' := fun hsame => hreplacing (by rw [hsame]; rfl)
    exact ⟨(Function.update_of_ne hne _ _).trans hpids, rfl, rfl⟩

theorem Abandoned.supervise (h : Abandoned slot s) (hstep : Supervises s answer s') : Abandoned slot s' := by
  have hpids := h.1
  have hreplacing := h.2.1
  cases hstep with
  | blocked => exact h
  | forked b hpc hpid =>
      obtain ⟨hnone, rfl, -⟩ := h.fork hpc (some _)
      exact ⟨hnone, by simp [replacing], by simp⟩
  | forkFailed hpc hanswer =>
      obtain ⟨hnone, -, rfl⟩ := h.fork hpc none
      exact ⟨hnone, by simp [replacing], by simp⟩
  | started b hpc hslot => exact absurd hpc (h.2.2 _)
  | knows hpc =>
      refine ⟨hpids, fun hnamed => ?_, fun k hspawn => ?_⟩
      · rw [replacing_afterReaping] at hnamed
        rw [slotNamed_some hnamed] at hpids
        cases hpids
      · revert hspawn
        rcases s.slotNamed _ with _ | _ | _ <;> simp [afterReaping]
  | tests hpc hsem hvalue =>
      rw [hpc] at hreplacing
      exact ⟨hpids, hreplacing, by simp⟩
  | restored hpc hsem =>
      rw [hpc] at hreplacing
      refine ⟨hpids, by rw [replacing_afterRestore]; exact hreplacing, fun k => ?_⟩
      exact afterRestore_not_spawn _ _ k
  | posts hpc =>
      rw [hpc] at hreplacing
      refine ⟨hpids, by rw [replacing_afterRestore]; exact hreplacing, fun k => ?_⟩
      exact afterRestore_not_spawn _ _ k
  | sleeps b slept hpc =>
      rw [hpc] at hreplacing
      exact ⟨hpids, hreplacing, by simp⟩
  | goesOn | enterWait | reaps | stops | reapsLast => exact ⟨hpids, by simp [replacing], by simp⟩

theorem Abandoned.next (h : Abandoned slot s) (event : PoolEvent) : Abandoned slot (s.next event) := by
  rcases next_cases s event with rfl | ⟨answer, -, hstep⟩ | hstep
  · obtain ⟨hpids, hreplacing, hspawn⟩ := h
    rw [Pool.next]
    split_ifs with hwaiting
    · exact ⟨hpids, by simp [replacing], by simp⟩
    · exact ⟨hpids, hreplacing, hspawn⟩
  · exact h.supervise hstep
  · generalize s.next event = s' at hstep
    cases hstep <;> exact h

/-- A failed fork leaves its slot abandoned. -/
theorem abandoned_of_failed_fork (hpc : s.pc = .restart slot) (hanswer : answer.forked = none) :
    Abandoned slot (s.next (.supervise answer)) := by
  simp only [Pool.next, Pool.supervise, hpc, Pool.fork, hanswer]
  exact ⟨Function.update_self _ _ _, by simp [replacing], by simp⟩

end Replacement

theorem exists_slotOf (slot : Slot n) : ∃ j, slotOf j = some slot := by
  cases slot with
  | reader => exact ⟨0, rfl⟩
  | worker i => exact ⟨i.val + 1, by rw [slotOf, dif_pos i.isLt]⟩

/-- **When every dead child is replaced.** Whenever the parent waits, every one of its slots names a child that
has been forked and not yet reaped, if and only if no fork for a replacement has failed. -/
theorem staffed_iff_forks_succeed (events : List PoolEvent)
    (hwaiting : (run next (start : Pool n) events).pc = .waiting) :
    Staffed (run next (start : Pool n) events) ↔ Along next ForkSucceeds (start : Pool n) events := by
  constructor
  · intro hstaffed
    by_contra hfailed
    obtain ⟨before, event, after, rfl, -, hbroken⟩ := exists_of_not_along hfailed
    unfold ForkSucceeds at hbroken
    push Not at hbroken
    obtain ⟨answer, slot, rfl, hpc, hanswer⟩ := hbroken
    have hlost := run_invariant (Abandoned slot) (fun _ event h => h.next event) after
      (abandoned_of_failed_fork hpc hanswer)
    rw [← run_cons, ← run_append] at hlost
    obtain ⟨pid, hpid, -⟩ := hstaffed slot
    rw [hlost.1] at hpid
    cases hpid
  · intro hforks slot
    have hfilled := run_invariant_along Filled (fun _ _ hfork h => h.next hfork) hforks
      (fun _ j slot _ hturn => absurd (hturn 0 rfl) (Nat.not_lt_zero j))
    have hplaced := run_placed (n := n) events
    generalize run next (start : Pool n) events = s at hwaiting hfilled hplaced ⊢
    obtain ⟨j, hj⟩ := exists_slotOf slot
    have hsome := hfilled (by rw [hwaiting]; simp) j slot hj fun k hk => by rw [hwaiting] at hk; cases hk
    obtain ⟨pid, hpid⟩ := Option.ne_none_iff_exists'.mp hsome
    refine ⟨pid, hpid, hplaced.children_of_quiet ?_ (by rw [hwaiting]; simp) hpid⟩
    rw [hwaiting]
    exact ⟨by simp, rfl⟩

/-- A pool of one worker, whose worker dies during the wait and is to be replaced; the parent then comes back
to `wait`. -/
def workerDeath (forked : Option Nat) : List PoolEvent :=
  [.supervise ⟨0, some 1, 0⟩, .supervise ⟨0, some 2, 0⟩, .supervise ⟨0, some 3, 0⟩, .supervise ⟨0, some 3, 0⟩,
    .supervise ⟨0, some 3, 0⟩, .die 2, .supervise ⟨2, some 3, 0⟩, .supervise ⟨0, some 3, 0⟩,
    .supervise ⟨0, some 3, 0⟩, .supervise ⟨0, some 3, 0⟩, .supervise ⟨0, some 3, 0⟩,
    .supervise ⟨0, forked, 0⟩, .supervise ⟨0, some 3, 0⟩, .supervise ⟨0, some 3, 0⟩]

/-- The replacement is forked. -/
theorem staffed_workerDeath : Staffed (run next (start : Pool 1) (workerDeath (some 3))) := by
  refine (staffed_iff_forks_succeed _ (by decide)).mpr (along_of_forall ?_)
  rintro event hevent s answer slot rfl -
  simp only [workerDeath, List.mem_cons, PoolEvent.supervise.injEq, reduceCtorEq, List.not_mem_nil, or_false,
    false_or] at hevent
  rcases hevent with rfl | rfl | rfl | rfl | rfl | rfl | rfl | rfl | rfl | rfl | rfl | rfl | rfl <;> simp

/-- The fork for the replacement fails: the parent waits with a slot that names no child. -/
theorem workerDeath_not_staffed :
    (run next (start : Pool 1) (workerDeath none)).pc = .waiting ∧
      (run next (start : Pool 1) (workerDeath none)).shutdown = false ∧
      ¬Staffed (run next (start : Pool 1) (workerDeath none)) := by
  refine ⟨by decide, rfl, fun hstaffed => ?_⟩
  obtain ⟨pid, hpid, -⟩ := hstaffed (.worker 0)
  have hnone : (run next (start : Pool 1) (workerDeath none)).pids (.worker 0) = none := by decide
  rw [hnone] at hpid
  cases hpid

end Pool
end KnxdFcgi
