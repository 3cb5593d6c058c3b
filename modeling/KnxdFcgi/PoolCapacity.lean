import KnxdFcgi.ChildReplacement

/-! The two semaphores under worker deaths. A dead worker took its tokens with it, and the parent posts each
semaphore once for every worker it reaps, unless the semaphore is full. So no token is ever lost for good,
and since there are as many tokens as workers, a worker always finds one; but a worker that died without a
token gets one posted too as soon as another worker holds one, and then there are more tokens than
workers. -/

namespace KnxdFcgi

open Machine

namespace WorkerPc

theorem holds_tryWait (sem : Sem) : (tryWait sem).holds sem = false := by
  cases sem <;> rfl

theorem holds_afterTryWait (sem : Sem) : (afterTryWait sem).holds sem = true := by
  cases sem <;> rfl

theorem holds_afterTryWait_of_ne {sem sem' : Sem} (hne : sem' ≠ sem) :
    (afterTryWait sem).holds sem' = (tryWait sem).holds sem' := by
  cases sem <;> cases sem' <;> first | rfl | exact absurd rfl hne

theorem holds_reject (sem sem' : Sem) : (reject sem).holds sem' = (tryWait sem).holds sem' := by
  cases sem <;> cases sem' <;> rfl

theorem holds_release (sem : Sem) : (release sem).holds sem = true := by
  cases sem <;> rfl

theorem holds_afterRelease (sem : Sem) : (afterRelease sem).holds sem = false := by
  cases sem <;> rfl

theorem holds_afterRelease_of_ne {sem sem' : Sem} (hne : sem' ≠ sem) :
    (afterRelease sem).holds sem' = (release sem).holds sem' := by
  cases sem <;> cases sem' <;> first | rfl | exact absurd rfl hne

end WorkerPc

namespace Pool

variable {n : Nat}

/-- What a move of a worker means for one semaphore: nothing, or the token is taken or given back; a semaphore
that is not there is of no interest. -/
theorem workerMoves_cases {sems sems' : Sem → Option Nat} {pc pc' : WorkerPc}
    (h : WorkerMoves sems pc pc' sems') (sem : Sem) :
    (sems sem = none ∧ sems' sem = none) ∨
    (sems' sem = sems sem ∧ pc'.holds sem = pc.holds sem) ∨
    (∃ value, sems sem = some (value + 1) ∧ sems' sem = some value ∧
      pc.holds sem = false ∧ pc'.holds sem = true) ∨
    (∃ value, sems sem = some value ∧ sems' sem = some (value + 1) ∧
      pc.holds sem = true ∧ pc'.holds sem = false) := by
  cases h with
  | plain hholds hreject => exact Or.inr (Or.inl ⟨rfl, hholds sem⟩)
  | rejects hsem => exact Or.inr (Or.inl ⟨rfl, WorkerPc.holds_reject _ _⟩)
  | @skips sem₀ hsem =>
      by_cases hsame : sem = sem₀
      · subst hsame
        exact Or.inl ⟨hsem, hsem⟩
      · exact Or.inr (Or.inl ⟨rfl, WorkerPc.holds_afterTryWait_of_ne hsame⟩)
  | @takes sem₀ value hsem =>
      by_cases hsame : sem = sem₀
      · subst hsame
        exact Or.inr (Or.inr (Or.inl ⟨value, hsem, Function.update_self _ _ _, WorkerPc.holds_tryWait _,
          WorkerPc.holds_afterTryWait _⟩))
      · exact Or.inr (Or.inl ⟨Function.update_of_ne hsame _ _, WorkerPc.holds_afterTryWait_of_ne hsame⟩)
  | releases sem₀ =>
      by_cases hsame : sem = sem₀
      · subst hsame
        cases hsem : sems sem with
        | none => exact Or.inl ⟨rfl, by simp [postSem, hsem]⟩
        | some value =>
            exact Or.inr (Or.inr (Or.inr ⟨value, rfl, by simp [postSem, hsem], WorkerPc.holds_release _,
              WorkerPc.holds_afterRelease _⟩))
      · exact Or.inr (Or.inl ⟨Function.update_of_ne hsame _ _, WorkerPc.holds_afterRelease_of_ne hsame⟩)

/-- These are live workers that hold a token of the semaphore. -/
def Holders (s : Pool n) (sem : Sem) (pids : Finset Nat) : Prop :=
  ∀ pid ∈ pids, ∃ pc, s.children pid = some (.worker pc) ∧ pc.holds sem = true

/-- The value of the semaphore and the tokens held by live workers are at most `bound` together. -/
def Within (s : Pool n) (sem : Sem) (bound : Nat) : Prop :=
  ∀ value, s.sems sem = some value → ∀ pids, Holders s sem pids → value + pids.card ≤ bound

/-- When the parent tests a semaphore for a dead worker, a token of it is missing, or the semaphore is full. -/
def RestoresLost (s : Pool n) (event : PoolEvent) : Prop :=
  ∀ answer sem i value, event = .supervise answer → s.pc = .getValue sem i → s.sems sem = some value →
    value < n → Within s sem (n - 1)

/-- There is no more capacity than workers, and room for the token that is about to be posted. -/
structure Bounded (s : Pool n) : Prop where
  within : ∀ sem, Within s sem n
  room : ∀ sem i, s.pc = .post sem i → Within s sem (n - 1)

section Bounded

variable {s s' : Pool n} {answer : SupervisorAnswer} {sem : Sem} {bound : Nat}

/-- A step that leaves the semaphore alone and gives no worker a token of it. -/
theorem Within.of_holders (h : Within s sem bound) (hsem : s'.sems sem = s.sems sem)
    (hholders : ∀ pids, Holders s' sem pids → Holders s sem pids) : Within s' sem bound := by
  intro value hvalue pids hpids
  rw [hsem] at hvalue
  exact h value hvalue pids (hholders pids hpids)

theorem holders_setChild {pid : Nat} {child child' : Child} {sems : Sem → Option Nat}
    (hchild : s.children pid = some child)
    (hholds : ∀ pc', child' = .worker pc' → pc'.holds sem = true → ∃ pc, child = .worker pc ∧ pc.holds sem = true)
    {pids : Finset Nat} (h : Holders ({ s with sems := sems }.setChild pid child') sem pids) :
    Holders s sem pids := by
  intro pid' hpid'
  obtain ⟨pc', hpc', hheld⟩ := h pid' hpid'
  change Function.update s.children pid (some child') pid' = some (.worker pc') at hpc'
  rw [Function.update_apply] at hpc'
  split_ifs at hpc' with hsame
  · obtain ⟨pc, rfl, hpc⟩ := hholds pc' (Option.some.inj hpc') hheld
    exact ⟨pc, by rw [hsame]; exact hchild, hpc⟩
  · exact ⟨pc', hpc', hheld⟩

theorem holders_reap {pid : Nat} {pc : SupervisorPc n} {pids : Finset Nat}
    (h : Holders { s with children := Function.update s.children pid none, pc := pc } sem pids) :
    Holders s sem pids := by
  intro pid' hpid'
  obtain ⟨pc', hpc', hheld⟩ := h pid' hpid'
  change Function.update s.children pid none pid' = some (.worker pc') at hpc'
  rw [Function.update_apply] at hpc'
  split_ifs at hpc'
  exact ⟨pc', hpc', hheld⟩

theorem children_setChild_of_ne {pid pid' : Nat} {child : Child} {sems : Sem → Option Nat} (hne : pid' ≠ pid) :
    ({ s with sems := sems }.setChild pid child).children pid' = s.children pid' :=
  Function.update_of_ne hne _ _

theorem children_setChild_self {pid : Nat} {child : Child} {sems : Sem → Option Nat} :
    ({ s with sems := sems }.setChild pid child).children pid = some child :=
  Function.update_self _ _ _

/-- A token is taken: the value falls by one, and at most one worker holds one more. -/
theorem Within.takes (h : Within s sem bound) {pid value : Nat} {child : Child} {sems : Sem → Option Nat}
    (hold : s.sems sem = some (value + 1)) (hnew : sems sem = some value) :
    Within ({ s with sems := sems }.setChild pid child) sem bound := by
  intro value' hvalue' pids hpids
  cases hnew.symm.trans hvalue'
  have herase : Holders s sem (pids.erase pid) := by
    intro pid' hpid'
    obtain ⟨pc, hpc, hheld⟩ := hpids pid' (Finset.mem_of_mem_erase hpid')
    rw [children_setChild_of_ne (Finset.ne_of_mem_erase hpid')] at hpc
    exact ⟨pc, hpc, hheld⟩
  have hbound := h (value + 1) hold _ herase
  have hcard := Finset.pred_card_le_card_erase (s := pids) (a := pid)
  omega

/-- A token is given back: the value rises by one, and the worker that held it is no holder any more. -/
theorem Within.givesBack (h : Within s sem bound) {pid value : Nat} {pc pc' : WorkerPc}
    {sems : Sem → Option Nat} (hchild : s.children pid = some (.worker pc)) (hheld : pc.holds sem = true)
    (hheld' : pc'.holds sem = false) (hold : s.sems sem = some value) (hnew : sems sem = some (value + 1)) :
    Within ({ s with sems := sems }.setChild pid (.worker pc')) sem bound := by
  intro value' hvalue' pids hpids
  cases hnew.symm.trans hvalue'
  have hnot : pid ∉ pids := by
    intro hpid
    obtain ⟨pc'', hpc'', hheld''⟩ := hpids pid hpid
    rw [children_setChild_self] at hpc''
    cases hpc''
    rw [hheld'] at hheld''
    cases hheld''
  have hinsert : Holders s sem (insert pid pids) := by
    intro pid' hpid'
    rcases Finset.mem_insert.mp hpid' with rfl | hpid'
    · exact ⟨pc, hchild, hheld⟩
    · have hne : pid' ≠ pid := fun hsame => hnot (hsame ▸ hpid')
      obtain ⟨pc'', hpc'', hheld''⟩ := hpids pid' hpid'
      rw [children_setChild_of_ne hne] at hpc''
      exact ⟨pc'', hpc'', hheld''⟩
  have hbound := h value hold _ hinsert
  rw [Finset.card_insert_of_notMem hnot] at hbound
  omega

theorem Within.act (h : Within s sem bound) (hstep : Acts s s') : Within s' sem bound := by
  cases hstep with
  | blocked => exact h
  | dies hchild =>
      refine h.of_holders rfl fun pids hpids => holders_setChild hchild (fun pc' hzombie => ?_) hpids
      cases hzombie
  | @moves pid pc pc' sems hchild hmoves =>
      rcases workerMoves_cases hmoves sem with ⟨-, hnone⟩ | ⟨hsame, hholds⟩ | ⟨value, hold, hnew, -, -⟩ |
        ⟨value, hold, hnew, hheld, hheld'⟩
      · intro value hvalue
        cases hnone.symm.trans hvalue
      · refine h.of_holders hsame fun pids hpids => holders_setChild hchild (fun pc'' heq hheld => ?_) hpids
        cases heq
        exact ⟨pc, rfl, by rw [← hholds]; exact hheld⟩
      · exact h.takes hold hnew
      · exact h.givesBack hchild hheld hheld' hold hnew

/-- The parent gives no worker a token, and posts a semaphore only in its own statement. -/
theorem Within.supervise (h : Within s sem bound) (hstep : Supervises s answer s')
    (hpost : ∀ i, s.pc ≠ .post sem i) : Within s' sem bound := by
  cases hstep with
  | @forked slot pid done failed b hpc hpid =>
      refine h.of_holders rfl fun pids hpids pid' hpid' => ?_
      obtain ⟨pc, hpc, hheld⟩ := hpids pid' hpid'
      change Function.update s.children pid (some slot.child) pid' = some (.worker pc) at hpc
      rw [Function.update_apply] at hpc
      split_ifs at hpc with hsame
      · cases slot with
        | reader => cases hpc
        | worker i => cases hpc; cases hheld
      · exact ⟨pc, hpc, hheld⟩
  | reaps hpc hpid => exact h.of_holders rfl fun pids hpids => holders_reap hpids
  | reapsLast hpc hpid => exact h.of_holders rfl fun pids hpids => holders_reap hpids
  | @posts sem₀ i hpc =>
      have hne : sem ≠ sem₀ := by
        rintro rfl
        exact hpost i hpc
      exact h.of_holders (Function.update_of_ne hne _ _) fun pids hpids => hpids
  | blocked | forkFailed | started | goesOn | enterWait | stops | knows | tests | restored | sleeps => exact h

/-- The parent posts the semaphore. -/
theorem Within.post (h : Within s sem bound) {i : Fin n} (hpc : s.pc = .post sem i)
    (answer : SupervisorAnswer) : Within (s.supervise answer) sem (bound + 1) := by
  intro value hvalue pids hpids
  simp only [Pool.supervise, hpc, postSem, Function.update_self, Option.map_eq_some_iff] at hvalue hpids
  obtain ⟨value, hold, rfl⟩ := hvalue
  have hbound := h value hold pids hpids
  omega

/-- The parent comes to a post from its test of the same semaphore. -/
theorem post_of_supervises {i : Fin n} (hstep : Supervises s answer s') (hpc : s'.pc = .post sem i) :
    s' = s ∨ s.pc = .getValue sem i ∧ ∃ value, s.sems sem = some value ∧ value < n := by
  cases hstep with
  | blocked => exact Or.inl rfl
  | tests hget hsem hvalue =>
      cases hpc
      exact Or.inr ⟨hget, _, hsem, hvalue⟩
  | forked b hforks hpid =>
      rcases hforks with ⟨k, -, -, rfl, -⟩ | ⟨-, rfl, -⟩ <;> cases hpc
  | forkFailed hforks hanswer =>
      rcases hforks with ⟨k, -, -, -, rfl⟩ | ⟨-, -, rfl⟩ <;> cases hpc
  | @knows pid hreaped =>
      revert hpc
      rcases s.slotNamed pid with _ | _ | _ <;> simp [afterReaping]
  | @restored sem₀ _ hget hsem => cases sem₀ <;> cases hpc
  | @posts sem₀ _ hpost => cases sem₀ <;> cases hpc
  | started | goesOn | enterWait | reaps | stops | sleeps | reapsLast => cases hpc

theorem acts_pc (hstep : Acts s s') : s'.pc = s.pc := by
  cases hstep <;> rfl

theorem Bounded.signal (h : s.Bounded) : (s.next .sigterm).Bounded := by
  refine ⟨fun sem => h.within sem, fun sem i hpc => ?_⟩
  by_cases hwaiting : s.pc = .waiting
  · simp only [Pool.next, if_pos hwaiting] at hpc
    cases hpc
  · simp only [Pool.next, if_neg hwaiting] at hpc
    exact h.room sem i hpc

theorem Bounded.supervise (h : s.Bounded) (hlost : s.RestoresLost (.supervise answer)) :
    (s.supervise answer).Bounded := by
  have hstep := supervises s answer
  refine ⟨fun sem => ?_, fun sem i hpc => ?_⟩
  · by_cases hpost : ∃ i, s.pc = .post sem i
    · obtain ⟨i, hpc⟩ := hpost
      have hbound := (h.room sem i hpc).post hpc answer
      rwa [Nat.sub_add_cancel (Nat.one_le_of_lt i.isLt)] at hbound
    · exact (h.within sem).supervise hstep fun i hpc => hpost ⟨i, hpc⟩
  · rcases post_of_supervises hstep hpc with hsame | ⟨hget, value, hsem, hvalue⟩
    · rw [hsame] at hpc ⊢
      exact h.room sem i hpc
    · apply (hlost answer sem i value rfl hget hsem hvalue).supervise hstep
      intro j hpost
      rw [hget] at hpost
      cases hpost

theorem Bounded.next (h : s.Bounded) {event : PoolEvent} (hlost : s.RestoresLost event) : (s.next event).Bounded := by
  rcases next_cases s event with rfl | ⟨answer, rfl, hstep⟩ | hstep
  · exact h.signal
  · exact h.supervise hlost
  · refine ⟨fun sem => (h.within sem).act hstep, fun sem i hpc => ?_⟩
    rw [acts_pc hstep] at hpc
    exact (h.room sem i hpc).act hstep

end Bounded

theorem start_bounded : Bounded (start : Pool n) where
  within sem value hvalue pids hpids := by
    cases hvalue
    have hempty : pids = ∅ := by
      apply Finset.eq_empty_of_forall_notMem
      intro pid hpid
      obtain ⟨pc, hpc, -⟩ := hpids pid hpid
      cases hpc
    rw [hempty, Finset.card_empty, Nat.add_zero]
  room _ _ hpc := nomatch hpc

/-- **When capacity is never over-restored.** In every run in which the parent, whenever it tests a semaphore for
a dead worker, finds it full or with a token missing, no semaphore ever exceeds the number of workers, not
even together with the tokens held by live workers. -/
theorem capacity_not_exceeded (events : List PoolEvent)
    (hlost : Along next RestoresLost (start : Pool n) events) (sem : Sem) (value : Nat)
    (hvalue : (run next (start : Pool n) events).sems sem = some value) :
    value ≤ n ∧ ∀ pids, Holders (run next (start : Pool n) events) sem pids → value + pids.card ≤ n := by
  have hbounded := run_invariant_along Bounded (fun _ _ hlost h => h.next hlost) hlost start_bounded
  have hwithin := hbounded.within sem value hvalue
  exact ⟨by simpa using hwithin ∅ (fun pid hpid => by simp at hpid), hwithin⟩

/-- The only worker of a pool takes both tokens and dies; the parent reaps it and restores a token. -/
def deathWithTokens : List PoolEvent :=
  [.supervise ⟨0, some 1, 0⟩, .supervise ⟨0, some 2, 0⟩, .supervise {}, .supervise {}, .supervise {},
    .accept 2 true, .work 2, .work 2, .die 2, .supervise ⟨2, none, 0⟩, .supervise {}, .supervise {},
    .supervise {}]

theorem capacity_not_exceeded_deathWithTokens :
    1 ≤ 1 ∧ ∀ pids, Holders (run next (start : Pool 1) deathWithTokens) .concurrency pids → 1 + pids.card ≤ 1 := by
  refine capacity_not_exceeded deathWithTokens ?_ .concurrency 1 (by decide)
  refine ⟨?_, ?_, ?_, ?_, ?_, ?_, ?_, ?_, ?_, ?_, ?_, ?_, ?_, trivial⟩
  case refine_12 =>
    intro answer sem i value _ hpc _ _ value' hvalue' pids hpids
    cases hpc
    cases hvalue'
    have hempty : pids = ∅ := by
      apply Finset.eq_empty_of_forall_notMem
      intro pid hpid
      obtain ⟨pc, hchild, -⟩ := hpids pid hpid
      change Function.update (Function.update (Function.update (Function.update (Function.update
        (Function.update (Function.update (fun _ => none) 1 (some Child.reader)) 2 _) 2 _) 2 _) 2 _) 2 _) 2 none pid =
          some (Child.worker pc) at hchild
      simp only [Function.update_idem, Function.update_apply] at hchild
      split_ifs at hchild
      cases hchild
    rw [hempty]
    decide
  all_goals
    intro answer sem i value _ hpc
    cases hpc

/-- Of two workers one holds both tokens and the other one dies without any; the parent reaps it and posts
`concurrency_sem`. -/
def deathWithoutTokens : List PoolEvent :=
  [.supervise ⟨0, some 1, 0⟩, .supervise ⟨0, some 2, 0⟩, .supervise ⟨0, some 3, 0⟩, .supervise {}, .supervise {},
    .supervise {}, .accept 2 true, .work 2, .work 2, .die 3, .supervise ⟨3, none, 0⟩, .supervise {},
    .supervise {}, .supervise {}]

/-- There is one token too many, and when the other worker has finished its request the semaphore is above
its initial value. -/
theorem deathWithoutTokens_exceeds :
    (run next (start : Pool 2) deathWithoutTokens).sems .concurrency = some 2 ∧
      Holders (run next (start : Pool 2) deathWithoutTokens) .concurrency {2} ∧
      (run next (start : Pool 2) (deathWithoutTokens ++ [.work 2, .work 2, .work 2])).sems .concurrency =
        some 3 := by
  refine ⟨by decide, ?_, by decide⟩
  intro pid hpid
  rw [Finset.mem_singleton.mp hpid]
  exact ⟨.handling true, by decide, rfl⟩

/-! ### No capacity is lost -/

/-- The semaphore has been dealt with for the dead worker that is being replaced. -/
def RestoredFor (sem : Sem) : SupervisorPc n → Fin n → Prop
  | .getValue .loadShed j, i | .post .loadShed j, i => sem = .concurrency ∧ j = i
  | .backoff slot, i | .restart slot, i => slot = .worker i
  | _, _ => False

/-- Every token that is missing from the semaphore is owed by a worker of its own: by a live one that holds it,
or by a dead one for which the semaphore has not been dealt with. -/
def Covered (s : Pool n) (sem : Sem) : Prop :=
  ∀ value, s.sems sem = some value → ∃ owed : Finset (Fin n), n ≤ value + owed.card ∧
    ∀ i ∈ owed, ¬RestoredFor sem s.pc i ∧ ∃ pid, s.pids (.worker i) = some pid ∧
      ∀ pc, s.children pid = some (.worker pc) → pc.holds sem = true

section Covered

variable {s s' : Pool n} {answer : SupervisorAnswer} {sem : Sem}

theorem restoredFor_replacing {pc : SupervisorPc n} {i : Fin n} (h : RestoredFor sem pc i) :
    replacing pc = some (.worker i) := by
  unfold RestoredFor at h
  split at h
  case h_1 | h_2 => exact congrArg _ (congrArg _ h.2)
  case h_3 | h_4 => exact congrArg _ h
  case h_5 => exact absurd h id

theorem restoredFor_afterRestore {i j : Fin n} : RestoredFor sem (afterRestore j sem) i ↔ j = i := by
  cases sem <;> simp [afterRestore, RestoredFor]

theorem restoredFor_afterRestore_of_ne {sem₀ : Sem} (hne : sem ≠ sem₀) {i j : Fin n} :
    RestoredFor sem (afterRestore j sem₀) i ↔ RestoredFor sem (.getValue sem₀ j) i := by
  cases sem <;> cases sem₀ <;> simp_all [afterRestore, RestoredFor]

theorem restoredFor_post {sem₀ : Sem} {i j : Fin n} :
    RestoredFor sem (.post sem₀ j) i ↔ RestoredFor sem (.getValue sem₀ j) i := by
  cases sem₀ <;> rfl

/-- A step that leaves the semaphore alone: whoever owes a token still does. -/
theorem Covered.of_owed (h : Covered s sem) (hsem : s'.sems sem = s.sems sem)
    (howed : ∀ i pid, s.pids (.worker i) = some pid → ¬RestoredFor sem s.pc i →
      (∀ pc, s.children pid = some (.worker pc) → pc.holds sem = true) →
      ¬RestoredFor sem s'.pc i ∧ ∃ pid', s'.pids (.worker i) = some pid' ∧
        ∀ pc, s'.children pid' = some (.worker pc) → pc.holds sem = true) : Covered s' sem := by
  intro value hvalue
  rw [hsem] at hvalue
  obtain ⟨owed, hcard, hall⟩ := h value hvalue
  refine ⟨owed, hcard, fun i hi => ?_⟩
  obtain ⟨hnot, pid, hpid, hholds⟩ := hall i hi
  exact howed i pid hpid hnot hholds

/-- A step of the parent that only moves on. -/
theorem Covered.setPc (h : Covered s sem) {pc : SupervisorPc n} {b : Slot n → RestartBackoff} {slept : List Nat}
    {shutdown : Bool} (hpc : ∀ i, RestoredFor sem pc i → RestoredFor sem s.pc i) :
    Covered ⟨pc, shutdown, s.pids, s.children, s.sems, b, slept⟩ sem :=
  h.of_owed rfl fun i pid hpid hnot hholds => ⟨fun hrestored => hnot (hpc i hrestored), pid, hpid, hholds⟩

theorem Covered.reap (h : Covered s sem) {pid : Nat} {pc : SupervisorPc n} (hpc : ∀ i, ¬RestoredFor sem pc i) :
    Covered { s with children := Function.update s.children pid none, pc := pc } sem := by
  refine h.of_owed rfl fun i pid' hpid' _ hholds => ⟨hpc i, pid', hpid', fun pc' hpc' => ?_⟩
  change Function.update s.children pid none pid' = some (.worker pc') at hpc'
  rw [Function.update_apply] at hpc'
  split_ifs at hpc'
  exact hholds pc' hpc'

/-- A fork is never made for a slot that still owes a token. -/
theorem Placed.fork_owed (h : s.Placed) {slot : Slot n} {done failed : SupervisorPc n}
    (hpc : Forks s.pc slot done failed) {i : Fin n} {pid : Nat} (hpid : s.pids (.worker i) = some pid)
    (hnot : ¬RestoredFor sem s.pc i) : .worker i ≠ slot := by
  rintro rfl
  rcases hpc with ⟨k, hpc, hslot, -, -⟩ | ⟨hpc, -, -⟩
  · rw [h.unborn k hpc k _ le_rfl hslot] at hpid
    cases hpid
  · apply hnot
    rw [hpc]
    rfl

/-- The parent is done with the semaphore for one dead worker: it has posted it, or found it full. -/
theorem Covered.settle (h : Covered s sem) {j : Fin n} {sems : Sem → Option Nat}
    (hsems : ∀ value, sems sem = some value →
      (∃ old, s.sems sem = some old ∧ old + 1 = value) ∨ n ≤ value) :
    Covered { s with sems := sems, pc := afterRestore j sem } sem := by
  intro value hvalue
  rcases hsems value hvalue with ⟨old, hold, rfl⟩ | hfull
  · obtain ⟨owed, hcard, hall⟩ := h old hold
    refine ⟨owed.erase j, ?_, fun i hi => ⟨fun hrestored => ?_, (hall i (Finset.mem_of_mem_erase hi)).2⟩⟩
    · have herase := Finset.pred_card_le_card_erase (s := owed) (a := j)
      omega
    · exact Finset.ne_of_mem_erase hi (restoredFor_afterRestore.mp hrestored).symm
  · exact ⟨∅, by omega, fun i hi => by simp at hi⟩

theorem Covered.supervise (h : Covered s sem) (hplaced : s.Placed) (hstep : Supervises s answer s') :
    Covered s' sem := by
  cases hstep with
  | blocked => exact h
  | @forked slot pid done failed b hpc hpid =>
      refine h.of_owed rfl fun i pid' hpid' hnot hholds => ?_
      have hne := hplaced.fork_owed hpc hpid' hnot
      have halive := hplaced.fork_other hpc hne hpid'
      have hpids : Function.update s.pids slot (some pid) (.worker i) = some pid' :=
        (Function.update_of_ne hne _ _).trans hpid'
      refine ⟨?_, pid', hpids, fun pc hpc' => ?_⟩
      · rcases hpc with ⟨k, -, -, rfl, -⟩ | ⟨-, rfl, -⟩ <;> exact id
      · change Function.update s.children pid (some slot.child) pid' = some (.worker pc) at hpc'
        have hold : pid' ≠ pid := fun hsame => halive (hsame ▸ hpid)
        rw [Function.update_of_ne hold] at hpc'
        exact hholds pc hpc'
  | @forkFailed slot done failed hpc hanswer =>
      refine h.of_owed rfl fun i pid' hpid' hnot hholds => ?_
      have hne := hplaced.fork_owed hpc hpid' hnot
      refine ⟨?_, pid', (Function.update_of_ne hne _ _).trans hpid', hholds⟩
      rcases hpc with ⟨k, -, -, -, rfl⟩ | ⟨-, -, rfl⟩ <;> exact id
  | reaps hpc hpid => exact h.reap fun _ => id
  | reapsLast hpc hpid => exact h.reap fun _ => id
  | @knows pid hpc =>
      refine h.setPc fun i hrestored => ?_
      revert hrestored
      rcases s.slotNamed pid with _ | _ | _ <;> simp [afterReaping, RestoredFor]
  | tests hpc hsem hvalue =>
      refine h.setPc fun i hrestored => ?_
      rw [hpc]
      exact restoredFor_post.mp hrestored
  | sleeps b slept hpc =>
      refine h.setPc fun i hrestored => ?_
      rw [hpc]
      exact hrestored
  | @restored sem₀ j hpc hsem =>
      by_cases hsame : sem = sem₀
      · subst hsame
        exact h.settle fun value' hvalue' => Or.inr (hsem value' hvalue')
      · refine h.setPc fun i hrestored => ?_
        rw [hpc]
        exact (restoredFor_afterRestore_of_ne hsame).mp hrestored
  | @posts sem₀ j hpc =>
      by_cases hsame : sem = sem₀
      · subst hsame
        refine h.settle fun value' hvalue' => Or.inl ?_
        simpa [postSem] using hvalue'
      · have hsem : postSem s.sems sem₀ sem = s.sems sem := Function.update_of_ne hsame _ _
        refine h.of_owed hsem fun i pid hpid hnot hholds => ⟨fun hrestored => hnot ?_, pid, hpid, hholds⟩
        rw [hpc]
        exact restoredFor_post.mpr ((restoredFor_afterRestore_of_ne hsame).mp hrestored)
  | started | goesOn | enterWait | stops => exact h.setPc fun i hrestored => absurd hrestored id

/-- A worker that moves keeps its slot, and no other slot names it. -/
theorem Placed.worker_slot (h : s.Placed) {pid : Nat} {pc : WorkerPc} (hchild : s.children pid = some (.worker pc)) :
    ∃ i, s.pids (.worker i) = some pid ∧ (∀ sem, ¬RestoredFor sem s.pc i) ∧
      ∀ i', i' ≠ i → s.pids (.worker i') ≠ some pid := by
  obtain ⟨slot, hpid, i, rfl⟩ := h.named pid _ hchild
  refine ⟨i, hpid, fun sem hrestored => ?_, fun i' hne hpid' => hne ?_⟩
  · have hnone := h.replaced _ pid (Or.inr (restoredFor_replacing hrestored)) hpid
    rw [hchild] at hnone
    cases hnone
  · have hsame := h.injective _ _ pid hpid' hpid
    cases hsame
    rfl

/-- A worker at `sem_trywait` owes no token of the semaphore, so one of the `n` tokens is there for it. -/
theorem Covered.value_pos (h : Covered s sem) (hplaced : s.Placed) {pid : Nat}
    (hchild : s.children pid = some (.worker (.tryWait sem))) {value : Nat} (hvalue : s.sems sem = some value) :
    1 ≤ value := by
  obtain ⟨i, hpid, -, -⟩ := hplaced.worker_slot hchild
  obtain ⟨owed, hcard, hall⟩ := h value hvalue
  have hnot : i ∉ owed := by
    intro hi
    obtain ⟨-, pid', hpid', hholds⟩ := hall i hi
    rw [hpid] at hpid'
    cases hpid'
    have hheld := hholds _ hchild
    rw [WorkerPc.holds_tryWait] at hheld
    cases hheld
  have hlt : owed.card < n := by
    have hsub : owed ⊂ Finset.univ := Finset.ssubset_univ_iff.mpr fun hall => hnot (hall ▸ Finset.mem_univ i)
    simpa using Finset.card_lt_card hsub
  omega

/-- Whoever owes a token and is not the child that moves still owes it. -/
theorem owed_of_ne {pid pid' : Nat} {child : Child} {sems : Sem → Option Nat} (hne : pid' ≠ pid)
    (hholds : ∀ pc, s.children pid' = some (.worker pc) → pc.holds sem = true) :
    ∀ pc, ({ s with sems := sems }.setChild pid child).children pid' = some (.worker pc) → pc.holds sem = true := by
  intro pc hpc
  rw [children_setChild_of_ne hne] at hpc
  exact hholds pc hpc

section Moves

variable {pid : Nat} {pc pc' : WorkerPc} {sems : Sem → Option Nat} (hplaced : s.Placed)
  (hchild : s.children pid = some (.worker pc))

include hplaced hchild

/-- A token is taken: the worker owes it from then on. -/
theorem Covered.takes (h : Covered s sem) {value : Nat} (hold : s.sems sem = some (value + 1))
    (hnew : sems sem = some value) (hheld : pc.holds sem = false) (hheld' : pc'.holds sem = true) :
    Covered ({ s with sems := sems }.setChild pid (.worker pc')) sem := by
  obtain ⟨i, hpid, hnot, hother⟩ := hplaced.worker_slot hchild
  intro value' hvalue'
  cases hnew.symm.trans hvalue'
  obtain ⟨owed, hcard, hall⟩ := h (value + 1) hold
  have hfresh : i ∉ owed := by
    intro hi
    obtain ⟨-, pid', hpid', hholds⟩ := hall i hi
    rw [hpid] at hpid'
    cases hpid'
    rw [hholds pc hchild] at hheld
    cases hheld
  refine ⟨insert i owed, by rw [Finset.card_insert_of_notMem hfresh]; omega, fun i' hi' => ?_⟩
  by_cases hsame : i' = i
  · subst hsame
    refine ⟨hnot sem, pid, hpid, fun pc'' hpc'' => ?_⟩
    rw [children_setChild_self] at hpc''
    cases hpc''
    exact hheld'
  · obtain ⟨hnot', pid', hpid', hholds⟩ := hall i' (Finset.mem_of_mem_insert_of_ne hi' hsame)
    have hne : pid' ≠ pid := fun heq => hother i' hsame (heq ▸ hpid')
    exact ⟨hnot', pid', hpid', owed_of_ne hne hholds⟩

/-- A token is given back: the worker owes it no more. -/
theorem Covered.givesBack (h : Covered s sem) {value : Nat} (hold : s.sems sem = some value)
    (hnew : sems sem = some (value + 1)) : Covered ({ s with sems := sems }.setChild pid (.worker pc')) sem := by
  obtain ⟨i, -, -, hother⟩ := hplaced.worker_slot hchild
  intro value' hvalue'
  cases hnew.symm.trans hvalue'
  obtain ⟨owed, hcard, hall⟩ := h value hold
  have herase := Finset.pred_card_le_card_erase (s := owed) (a := i)
  refine ⟨owed.erase i, by omega, fun i' hi' => ?_⟩
  obtain ⟨hnot', pid', hpid', hholds⟩ := hall i' (Finset.mem_of_mem_erase hi')
  have hne : pid' ≠ pid := fun heq => hother i' (Finset.ne_of_mem_erase hi') (heq ▸ hpid')
  exact ⟨hnot', pid', hpid', owed_of_ne hne hholds⟩

end Moves

theorem Covered.act (h : Covered s sem) (hplaced : s.Placed) (hstep : Acts s s') : Covered s' sem := by
  cases hstep with
  | blocked => exact h
  | @dies pid child hchild =>
      refine h.of_owed rfl fun i pid' hpid' hnot hholds => ⟨hnot, pid', hpid', fun pc hpc => ?_⟩
      by_cases hsame : pid' = pid
      · subst hsame
        cases (Function.update_self _ _ _).symm.trans hpc
      · exact hholds pc ((Function.update_of_ne hsame _ _).symm.trans hpc)
  | @moves pid pc pc' sems hchild hmoves =>
      rcases workerMoves_cases hmoves sem with ⟨-, hnone⟩ | ⟨hsame, hheld⟩ | ⟨value, hold, hnew, hheld, hheld'⟩ |
        ⟨value, hold, hnew, -, -⟩
      · intro value hvalue
        cases hnone.symm.trans hvalue
      · refine h.of_owed hsame fun i' pid' hpid' hnot' hholds => ⟨hnot', pid', hpid', fun pc'' hpc'' => ?_⟩
        by_cases hsame : pid' = pid
        · subst hsame
          rw [children_setChild_self] at hpc''
          cases hpc''
          rw [hheld]
          exact hholds pc hchild
        · exact owed_of_ne hsame hholds pc'' hpc''
      · exact h.takes hplaced hchild hold hnew hheld hheld'
      · exact h.givesBack hplaced hchild hold hnew

/-- The pool never lacks a token: what holds of every state that it reaches. -/
structure Sufficient (s : Pool n) : Prop where
  placed : s.Placed
  present : ∀ sem, (s.sems sem).isSome
  covered : ∀ sem, Covered s sem
  served : ∀ pid sem, s.children pid ≠ some (.worker (.reject sem))

theorem workerMoves_isSome {sems sems' : Sem → Option Nat} {pc pc' : WorkerPc}
    (h : WorkerMoves sems pc pc' sems') (sem : Sem) : (sems' sem).isSome = (sems sem).isSome := by
  rcases workerMoves_cases h sem with ⟨hold, hnew⟩ | ⟨hsame, -⟩ | ⟨value, hold, hnew, -⟩ | ⟨value, hold, hnew, -⟩
  · rw [hold, hnew]
  · rw [hsame]
  · rw [hold, hnew]; rfl
  · rw [hold, hnew]; rfl

theorem supervises_isSome (hstep : Supervises s answer s') (sem : Sem) :
    (s'.sems sem).isSome = (s.sems sem).isSome := by
  cases hstep with
  | @posts sem₀ i hpc =>
      show (Function.update s.sems sem₀ _ sem).isSome = _
      rw [Function.update_apply]
      split_ifs with hsame
      · rw [hsame, Option.isSome_map]
      · rfl
  | _ => rfl

/-- The parent only ever adds workers that wait for a request. -/
theorem supervises_reject (hstep : Supervises s answer s') {pid : Nat}
    (h : s'.children pid = some (.worker (.reject sem))) : s.children pid = some (.worker (.reject sem)) := by
  cases hstep with
  | @forked slot pid' done failed b hpc hpid =>
      change Function.update s.children pid' (some slot.child) pid = _ at h
      rw [Function.update_apply] at h
      split_ifs at h
      · cases slot <;> cases h
      · exact h
  | @reaps pid' hpc hpid =>
      change Function.update s.children pid' none pid = _ at h
      rw [Function.update_apply] at h
      split_ifs at h
      exact h
  | @reapsLast pid' hpc hpid =>
      change Function.update s.children pid' none pid = _ at h
      rw [Function.update_apply] at h
      split_ifs at h
      exact h
  | _ => exact h

/-- A worker comes to the 503 branch only from a `sem_trywait` that found the semaphore at 0. -/
theorem workerMoves_reject {sems sems' : Sem → Option Nat} {pc : WorkerPc}
    (h : WorkerMoves sems pc (.reject sem) sems') : pc = .tryWait sem ∧ sems sem = some 0 := by
  generalize hpc' : WorkerPc.reject sem = pc' at h
  cases h with
  | plain hholds hreject => exact absurd hpc'.symm (hreject sem)
  | rejects hsem =>
      cases hpc'
      exact ⟨rfl, hsem⟩
  | @skips sem₀ hsem => cases sem₀ <;> cases hpc'
  | @takes sem₀ value hsem => cases sem₀ <;> cases hpc'
  | releases sem₀ => cases sem₀ <;> cases hpc'

theorem Sufficient.served_act (h : s.Sufficient) (hstep : Acts s s') (pid : Nat) (sem : Sem) :
    s'.children pid ≠ some (.worker (.reject sem)) := by
  intro hreject
  cases hstep with
  | blocked => exact h.served pid sem hreject
  | @dies pid' child hchild =>
      change Function.update s.children pid' (some .zombie) pid = _ at hreject
      rw [Function.update_apply] at hreject
      split_ifs at hreject
      · cases hreject
      · exact h.served pid sem hreject
  | @moves pid' pc pc' sems hchild hmoves =>
      change Function.update s.children pid' (some (.worker pc')) pid = _ at hreject
      rw [Function.update_apply] at hreject
      split_ifs at hreject
      · cases hreject
        obtain ⟨rfl, hzero⟩ := workerMoves_reject hmoves
        have hpos := (h.covered sem).value_pos h.placed hchild hzero
        exact absurd hpos (by decide)
      · exact h.served pid sem hreject

theorem Sufficient.act (h : s.Sufficient) (hstep : Acts s s') : s'.Sufficient := by
  refine ⟨h.placed.act hstep, fun sem => ?_, fun sem => (h.covered sem).act h.placed hstep, h.served_act hstep⟩
  have hpresent := h.present sem
  cases hstep with
  | blocked | dies => exact hpresent
  | moves hchild hmoves => exact (workerMoves_isSome hmoves sem).trans hpresent

theorem Sufficient.signal (h : s.Sufficient) : (s.next .sigterm).Sufficient := by
  refine ⟨h.placed.signal, h.present, fun sem => (h.covered sem).setPc fun i hrestored => ?_, h.served⟩
  split_ifs at hrestored
  · exact absurd hrestored id
  · exact hrestored

theorem Sufficient.next (h : s.Sufficient) (event : PoolEvent) : (s.next event).Sufficient := by
  rcases next_cases s event with rfl | ⟨answer, -, hstep⟩ | hstep
  · exact h.signal
  · exact ⟨h.placed.supervise hstep, fun sem => (supervises_isSome hstep sem).trans (h.present sem),
      fun sem => (h.covered sem).supervise h.placed hstep,
      fun pid sem hreject => h.served pid sem (supervises_reject hstep hreject)⟩
  · exact h.act hstep

end Covered

theorem start_sufficient : Sufficient (start : Pool n) where
  placed := start_placed
  present _ := rfl
  covered sem value hvalue := by
    cases hvalue
    exact ⟨∅, by simp, fun i hi => by simp at hi⟩
  served _ _ h := nomatch h

/-- **No request is shed.** With both semaphores initialised to the number of workers, in every run, wherever
workers die and however the parent reaps, restores and replaces them, a worker that calls `sem_trywait` for
a `/r` request finds the semaphore at 1 or more, and no worker ever answers 503 for want of a token. -/
theorem trywait_finds_token (events : List PoolEvent) :
    (∀ pid sem, (run next (start : Pool n) events).children pid = some (.worker (.tryWait sem)) →
      ∃ value, (run next (start : Pool n) events).sems sem = some value ∧ 1 ≤ value) ∧
    ∀ pid sem, (run next (start : Pool n) events).children pid ≠ some (.worker (.reject sem)) := by
  have hsufficient := run_invariant Sufficient (fun _ event h => h.next event) events (start_sufficient (n := n))
  generalize run next (start : Pool n) events = s at hsufficient ⊢
  refine ⟨fun pid sem hchild => ?_, hsufficient.served⟩
  obtain ⟨value, hvalue⟩ := Option.isSome_iff_exists.mp (hsufficient.present sem)
  exact ⟨value, hvalue, (hsufficient.covered sem).value_pos hsufficient.placed hchild hvalue⟩

end Pool
end KnxdFcgi
