import KnxdFcgi.Shutdown

/-! Whether the parent's last loop ends. Every child has its `SIGTERM` by then, or has noted it. The cache reader
stops either way; a worker stops only if the signal finds the default action restored, which is so unless it
came between the fork and the end of the worker's setup. -/

namespace KnxdFcgi

open Machine Pool

namespace StoppingPool

variable {n : Nat} {s : StoppingPool n}

/-- Nothing disturbs the shutdown: the parent is not signalled, and a child dies of its own signal only. -/
def Undisturbed : StopEvent → Prop
  | .pool .sigterm | .pool (.die _) => False
  | _ => True

/-- Every worker that is alive has its signal still before it. -/
def Hearing (s : StoppingPool n) : Prop :=
  ∀ pid pc, s.pool.children pid = some (.worker pc) → (s.signals pid).pending = true

/-- The worker has noted the signal in its flag, and lives on. -/
structure Deaf (s : StoppingPool n) (pid : Nat) : Prop where
  reaping : s.Reaping
  alive : ∃ pc, s.pool.children pid = some (.worker pc)
  noted : (s.signals pid).pending = false

/-- How many events it takes until a child is reaped. -/
def stepsOf (s : StoppingPool n) (pid : Nat) : Nat :=
  match s.pool.children pid with
  | none => 0
  | some .zombie => 1
  | some _ =>
      match (s.signals pid).setup with
      | .forked => 4
      | .armed => 3
      | .ready => 2

/-- The steps of all the children that the parent has a pid of. -/
def stepsLeft (s : StoppingPool n) : Nat :=
  ((s.pool.pids .reader).map s.stepsOf).getD 0 + ∑ i : Fin n, ((s.pool.pids (.worker i)).map s.stepsOf).getD 0

theorem stepsLeft_lt {s' : StoppingPool n} (hplaced : s.pool.Placed) (hpids : s'.pool.pids = s.pool.pids)
    {pid : Nat} (hchild : s.pool.children pid ≠ none) (hless : s'.stepsOf pid < s.stepsOf pid)
    (hle : ∀ pid' ≠ pid, s'.stepsOf pid' = s.stepsOf pid') : s'.stepsLeft < s.stepsLeft := by
  have hslot (slot : Slot n) : ((s.pool.pids slot).map s'.stepsOf).getD 0 ≤ ((s.pool.pids slot).map s.stepsOf).getD 0 := by
    cases s.pool.pids slot with
    | none => exact le_rfl
    | some pid' =>
        by_cases hsame : pid' = pid
        · exact hsame ▸ hless.le
        · exact (hle pid' hsame).le
  obtain ⟨child, hchild⟩ := Option.ne_none_iff_exists'.mp hchild
  obtain ⟨slot, hpid, -⟩ := hplaced.named pid child hchild
  have hlt : ((s.pool.pids slot).map s'.stepsOf).getD 0 < ((s.pool.pids slot).map s.stepsOf).getD 0 := by
    simpa [hpid] using hless
  rw [stepsLeft, stepsLeft, hpids]
  cases slot with
  | reader => exact Nat.add_lt_add_of_lt_of_le hlt (Finset.sum_le_sum fun i _ => hslot (.worker i))
  | worker i =>
      exact Nat.add_lt_add_of_le_of_lt (hslot .reader)
        (Finset.sum_lt_sum (fun i _ => hslot (.worker i)) ⟨i, Finset.mem_univ i, hlt⟩)

theorem die_eq {pid : Nat} {child : Child} (hchild : s.pool.children pid = some child) :
    s.die pid = { s with pool := s.pool.setChild pid .zombie } := by
  simp only [die, Pool.next, hchild]

theorem alive_iff {pid : Nat} :
    s.alive pid = true ↔ s.pool.children pid ≠ none ∧ s.pool.children pid ≠ some .zombie := by
  simp [alive]

theorem two_le_stepsOf {pid : Nat} (halive : s.alive pid = true) : 2 ≤ s.stepsOf pid := by
  obtain ⟨hthere, hliving⟩ := alive_iff.mp halive
  unfold stepsOf
  split
  · exact absurd ‹_› hthere
  · exact absurd ‹_› hliving
  · split <;> omega

/-- A child that dies is one step nearer to its end, and no worker is the worse for it. -/
theorem die_progress (hplaced : s.pool.Placed) {pid : Nat} (halive : s.alive pid = true) :
    (s.die pid).stepsLeft < s.stepsLeft ∧ (s.Hearing → (s.die pid).Hearing) := by
  have hthere := (alive_iff.mp halive).1
  obtain ⟨child, hchild⟩ := Option.ne_none_iff_exists'.mp hthere
  rw [die_eq hchild]
  have hself : (s.pool.setChild pid .zombie).children pid = some .zombie := Function.update_self _ _ _
  have hother (pid' : Nat) (hne : pid' ≠ pid) :
      (s.pool.setChild pid .zombie).children pid' = s.pool.children pid' := Function.update_of_ne hne _ _
  refine ⟨stepsLeft_lt hplaced rfl hthere ?_ fun pid' hne => ?_, fun hhearing pid' pc hworker => ?_⟩
  · have htwo := two_le_stepsOf halive
    simp only [stepsOf, hself]
    exact htwo
  · simp only [stepsOf, hother pid' hne]
  · have hne : pid' ≠ pid := by
      rintro rfl
      cases hself.symm.trans hworker
    exact hhearing pid' pc ((hother pid' hne).symm.trans hworker)

/-- The same for a child that makes a call of its setup. -/
theorem setup_progress (hplaced : s.pool.Placed) {pid : Nat} (halive : s.alive pid = true)
    (hsetup : (s.signals pid).setup ≠ .ready) :
    (s.next (.setup pid)).phase = s.phase ∧ (s.next (.setup pid)).stepsLeft < s.stepsLeft ∧
      (s.Hearing → (s.next (.setup pid)).Hearing) := by
  obtain ⟨hthere, hliving⟩ := alive_iff.mp halive
  have hstep (signals : ChildSignals) (hpending : signals.pending = (s.signals pid).pending)
      (hless : (s.setSignals pid signals).stepsOf pid < s.stepsOf pid) :
      (s.setSignals pid signals).phase = s.phase ∧ (s.setSignals pid signals).stepsLeft < s.stepsLeft ∧
        (s.Hearing → (s.setSignals pid signals).Hearing) := by
    refine ⟨rfl, stepsLeft_lt hplaced rfl hthere hless fun pid' hne => ?_, fun hhearing pid' pc hworker => ?_⟩
    · simp only [stepsOf, setSignals, Function.update_of_ne hne]
    · simp only [setSignals, Function.update_apply]
      split_ifs with hsame
      · rw [hpending, ← hsame]
        exact hhearing pid' pc hworker
      · exact hhearing pid' pc hworker
  simp only [next, halive, if_true]
  cases hat : (s.signals pid).setup with
  | forked =>
      refine hstep _ rfl ?_
      simp only [stepsOf, setSignals, Function.update_self, hat]
      split <;> simp_all
  | armed =>
      refine hstep _ rfl ?_
      simp only [stepsOf, setSignals, Function.update_self, hat]
      split <;> simp_all
  | ready => exact absurd hat hsetup

/-- What is left to do before the parent can exit. -/
def workLeft (s : StoppingPool n) : Nat := 2 * s.stepsLeft + if s.phase = .enterReap then 1 else 0

/-- The parent is in its last loop, and no worker is in its way. -/
structure Ending (s : StoppingPool n) : Prop where
  sound : s.Sound
  reaping : s.Reaping
  hearing : s.Hearing

/-- The event ends the parent, or brings it nearer to its end. -/
def Advances (s : StoppingPool n) (event : StopEvent) : Prop :=
  (∃ result, (s.next event).phase = .exited result) ∨ (s.next event).Ending ∧ (s.next event).workLeft < s.workLeft

/-- An event during the `wait` of the parent. -/
theorem Ending.advances (h : s.Ending) (hphase : s.phase = .reap) {event : StopEvent}
    (hsame : (s.next event).phase = s.phase) (hless : (s.next event).stepsLeft < s.stepsLeft)
    (hhearing : (s.next event).Hearing) : s.Advances event := by
  have hnot : s.phase ≠ .enterReap := by simp [hphase]
  refine Or.inr ⟨⟨h.sound.next event, Or.inr (hsame.trans hphase), hhearing⟩, ?_⟩
  rw [workLeft, workLeft, hsame, if_neg hnot]
  omega

theorem Ending.reap (h : s.Ending) (hphase : s.phase = .reap) {pid : Nat}
    (hzombie : s.pool.children pid = some .zombie) : s.Advances (.pool (.supervise { waited := pid })) := by
  have hreaps : s.pool.supervise { waited := pid } = _ :=
    supervise_reaps (h.sound.stopped (by simp [hphase])) hzombie
  have heq : s.next (.pool (.supervise { waited := pid })) = { s with
      pool := { s.pool with children := Function.update s.pool.children pid none }
      phase := .enterReap } := by
    simp only [StoppingPool.next, StoppingPool.parent, hphase, if_pos hzombie, hreaps]
  have hsound := h.sound.next (.pool (.supervise { waited := pid }))
  rw [Advances, heq] at *
  refine Or.inr ⟨⟨hsound, Or.inl rfl, fun pid' pc hworker => ?_⟩, ?_⟩
  · have hne : pid' ≠ pid := by
      rintro rfl
      cases (Function.update_self _ _ _).symm.trans hworker
    exact h.hearing pid' pc ((Function.update_of_ne hne _ _).symm.trans hworker)
  · have hless : stepsLeft { s with
        pool := { s.pool with children := Function.update s.pool.children pid none }
        phase := .enterReap } < s.stepsLeft := by
      refine stepsLeft_lt h.sound.placed rfl (by simp [hzombie] : s.pool.children pid ≠ none) ?_ fun pid' hne => ?_
      · simp [stepsOf, hzombie]
      · simp only [stepsOf, Function.update_of_ne hne]
    have hnot : s.phase ≠ .enterReap := by simp [hphase]
    rw [workLeft, workLeft, if_pos rfl, if_neg hnot]
    omega

/-- A child that is alive can always make its next step towards its end: a worker because its signal is before
it, the cache reader because it looks at its flag as well. -/
theorem Ending.child (h : s.Ending) (hphase : s.phase = .reap) {pid : Nat} (halive : s.alive pid = true) :
    ∃ event, Undisturbed event ∧ s.Advances event := by
  obtain ⟨hless, hhearing⟩ := die_progress h.sound.placed halive
  obtain ⟨hthere, hliving⟩ := alive_iff.mp halive
  by_cases hready : (s.signals pid).setup = .ready
  · by_cases hpending : (s.signals pid).pending = true
    · have heq : s.next (.deliver pid) = s.die pid := by
        simp only [StoppingPool.next, halive, hpending, hready, Bool.and_self, if_true]
      exact ⟨.deliver pid, trivial, h.advances hphase (heq ▸ rfl) (heq ▸ hless) (heq ▸ hhearing h.hearing)⟩
    · have hflag : (s.signals pid).flag = true :=
        ((h.sound.reaping h.reaping pid hthere).resolve_left hliving).resolve_left hpending
      have hreader : s.pool.children pid = some .reader := by
        cases hchild : s.pool.children pid with
        | none => exact absurd hchild hthere
        | some child =>
            cases child with
            | reader => rfl
            | worker pc => exact absurd (h.hearing pid pc hchild) hpending
            | zombie => exact absurd hchild hliving
      have heq : s.next (.quit pid) = s.die pid := by
        simp only [StoppingPool.next, hreader, hready, hflag, decide_true, Bool.and_self, if_true]
      exact ⟨.quit pid, trivial, h.advances hphase (heq ▸ rfl) (heq ▸ hless) (heq ▸ hhearing h.hearing)⟩
  · obtain ⟨hsame, hless, hhearing⟩ := setup_progress h.sound.placed halive hready
    exact ⟨.setup pid, trivial, h.advances hphase hsame hless (hhearing h.hearing)⟩

theorem Ending.progress (h : s.Ending) : ∃ event, Undisturbed event ∧ s.Advances event := by
  rcases h.reaping with hphase | hphase
  · have heq : s.next (.pool (.supervise {})) = { s with phase := .reap } := by
      simp only [StoppingPool.next, StoppingPool.parent, hphase]
    have hsound := h.sound.next (.pool (.supervise {}))
    refine ⟨.pool (.supervise {}), trivial, ?_⟩
    rw [Advances, heq] at *
    refine Or.inr ⟨⟨hsound, Or.inr rfl, h.hearing⟩, ?_⟩
    have hnot : StopPhase.reap ≠ .enterReap := by simp
    rw [workLeft, workLeft, if_neg hnot, if_pos hphase]
    exact Nat.lt_succ_self _
  · by_cases hnone : ∀ pid, s.pool.children pid = none
    · refine ⟨.pool (.supervise {}), trivial, Or.inl ⟨if s.forkFailed then 1 else 0, ?_⟩⟩
      have hgone : s.pool.children (SupervisorAnswer.waited {}) ≠ some .zombie := by simp [hnone]
      simp only [StoppingPool.next, StoppingPool.parent, hphase, if_neg hgone,
        (noChildren_iff h.sound.placed).mpr hnone, if_true, exit]
    · obtain ⟨pid, hthere⟩ := not_forall.mp hnone
      by_cases hzombie : s.pool.children pid = some .zombie
      · exact ⟨.pool (.supervise { waited := pid }), trivial, h.reap hphase hzombie⟩
      · exact h.child hphase (alive_iff.mpr ⟨hthere, hzombie⟩)

theorem Deaf.parent {pid : Nat} (h : s.Deaf pid) (hsound : s.Sound) (answer : SupervisorAnswer) :
    (s.parent answer).Deaf pid := by
  obtain ⟨pc, hworker⟩ := h.alive
  have hpc : s.pool.pc = .stopping := by
    refine hsound.stopped fun hphase => ?_
    rcases h.reaping with hreap | hreap <;> cases hphase.symm.trans hreap
  unfold StoppingPool.parent
  rcases h.reaping with hphase | hphase
  · simp only [hphase]
    exact ⟨Or.inr rfl, h.alive, h.noted⟩
  · simp only [hphase]
    split_ifs with hzombie hnone
    · have hne : pid ≠ answer.waited := fun heq => nomatch (heq ▸ hzombie).symm.trans hworker
      refine ⟨Or.inl rfl, ⟨pc, ?_⟩, h.noted⟩
      rw [supervise_reaps hpc hzombie]
      exact (Function.update_of_ne hne _ _).trans hworker
    · cases ((noChildren_iff hsound.placed).mp hnone pid).symm.trans hworker
    · exact h

/-- The death of another child does not change that. -/
theorem Deaf.die {pid pid' : Nat} (h : s.Deaf pid) (hne : pid ≠ pid') : (s.die pid').Deaf pid := by
  cases hchild : s.pool.children pid' with
  | none =>
      simp only [StoppingPool.die, Pool.next, hchild]
      exact h
  | some child =>
      obtain ⟨pc, hworker⟩ := h.alive
      rw [die_eq hchild]
      exact ⟨h.reaping, ⟨pc, (Function.update_of_ne hne _ _).trans hworker⟩, h.noted⟩

/-- Nor does the work of a worker. -/
theorem Deaf.setWorker {pid pid' : Nat} (h : s.Deaf pid) (pc' : WorkerPc) (sems : Sem → Option Nat) :
    Deaf { s with pool := { s.pool with sems := sems }.setChild pid' (.worker pc') } pid := by
  refine ⟨h.reaping, ?_, h.noted⟩
  obtain ⟨pc, hworker⟩ := h.alive
  by_cases hsame : pid = pid'
  · exact ⟨pc', hsame ▸ Function.update_self _ _ _⟩
  · exact ⟨pc, (Function.update_of_ne hsame _ _).trans hworker⟩

theorem Deaf.setSignals {pid pid' : Nat} (h : s.Deaf pid) {signals : ChildSignals}
    (hsame : pid = pid' → signals.pending = false) : (s.setSignals pid' signals).Deaf pid := by
  refine ⟨h.reaping, h.alive, ?_⟩
  simp only [StoppingPool.setSignals, Function.update_apply]
  split_ifs with heq
  · exact hsame heq
  · exact h.noted

theorem Deaf.next {pid : Nat} (h : s.Deaf pid) (hsound : s.Sound) {event : StopEvent} (hundisturbed : Undisturbed event) :
    (s.next event).Deaf pid := by
  obtain ⟨pc, hworker⟩ := h.alive
  cases event with
  | pool event =>
      cases event with
      | sigterm | die => cases hundisturbed
      | supervise answer => exact h.parent hsound answer
      | accept pid' read =>
          simp only [StoppingPool.next, Pool.next]
          split_ifs
          · exact h.setWorker _ s.pool.sems
          · exact h.setWorker _ s.pool.sems
          · exact h
          · exact h
      | work pid' =>
          simp only [StoppingPool.next, Pool.next]
          split_ifs
          · split
            · exact h.setWorker _ _
            · exact h
          · exact h
  | setup pid' =>
      simp only [StoppingPool.next]
      split_ifs
      · split
        · exact h.setSignals fun heq => heq ▸ h.noted
        · exact h.setSignals fun heq => heq ▸ h.noted
        · exact h
      · exact h
  | deliver pid' =>
      simp only [StoppingPool.next]
      split_ifs with hpending
      · refine h.die fun heq => ?_
        subst heq
        rw [h.noted, Bool.and_false] at hpending
        cases hpending
      · exact h.setSignals fun _ => rfl
      · exact h
  | quit pid' =>
      simp only [StoppingPool.next]
      split_ifs with hquit
      · refine h.die fun heq => ?_
        subst heq
        simp [hworker] at hquit
      · exact h

/-- **When the shutdown comes to its end.** The last loop of the parent can end without a further signal, and
without any child dying of something else, exactly if every worker that is alive still has its `SIGTERM` before
it. One that was reached by it before it had restored the default action has noted it in a flag that it never
looks at: it serves on, and the parent waits for it. -/
theorem shutdown_ends_iff (events : List StopEvent) (hreaping : (run next (start : StoppingPool n) events).Reaping) :
    (∃ more, (∀ event ∈ more, Undisturbed event) ∧
      ∃ result, (run next (run next (start : StoppingPool n) events) more).phase = .exited result) ↔
    ∀ pid pc, (run next (start : StoppingPool n) events).pool.children pid = some (.worker pc) →
      ((run next (start : StoppingPool n) events).signals pid).pending = true := by
  have hsound := run_sound (n := n) events
  generalize run next (start : StoppingPool n) events = s at hreaping hsound ⊢
  constructor
  · rintro ⟨more, hmore, result, hexited⟩ pid pc hworker
    by_contra hpending
    have hdeaf : s.Deaf pid := ⟨hreaping, ⟨pc, hworker⟩, by simpa using hpending⟩
    have halong : Along next (fun (_ : StoppingPool n) event => Undisturbed event) s more :=
      along_of_forall fun event hevent _ => hmore event hevent
    have hkept := run_invariant_along (fun s => s.Sound ∧ s.Deaf pid)
      (fun s event hevent h => ⟨h.1.next event, h.2.next h.1 hevent⟩) halong ⟨hsound, hdeaf⟩
    rcases hkept.2.reaping with hphase | hphase <;> cases hphase.symm.trans hexited
  · intro hhearing
    exact exists_run_of_lowers Ending (fun s => ∃ result, s.phase = .exited result) Undisturbed workLeft
      (fun s h => h.progress) ⟨hsound, hreaping, hhearing⟩

/-- The parent is asked to stop right after it has started its children; the cache reader is ready for its
signal, the worker is not. -/
def earlyStop : List StopEvent :=
  startedPool.map .pool ++ [.setup 1, .setup 1, .pool (.supervise {}), .pool .sigterm, .pool (.supervise {}),
    .pool (.supervise {}), .pool (.supervise {}), .pool (.supervise {}), .deliver 1, .deliver 2, .pool (.supervise {})]

theorem shutdown_ends_iff_earlyStop :
    ¬∃ more, (∀ event ∈ more, Undisturbed event) ∧
      ∃ result, (run next (run next (start : StoppingPool 1) earlyStop) more).phase = .exited result := by
  have hworker : (run next (start : StoppingPool 1) earlyStop).pool.children 2 = some (.worker .accepting) := by
    decide
  have hnoted : ((run next (start : StoppingPool 1) earlyStop).signals 2).pending = false := by decide
  intro hends
  have hheard := (shutdown_ends_iff earlyStop (Or.inl (by decide))).mp hends 2 .accepting hworker
  cases hnoted.symm.trans hheard

end StoppingPool
end KnxdFcgi
