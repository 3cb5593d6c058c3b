import KnxdFcgi.SharedMutex

/-! Waiting for new data without losing a wake-up. A waiter compares the generation under the mutex and
gives the mutex up and falls asleep in one step, and a pusher broadcasts after every change of the
generation; so whoever sleeps through a change has a broadcast coming. What a wait returns is compared
with a count of all pushes, which unlike the generation does not wrap. -/

namespace KnxdFcgi

open Machine

/-- What a call of `wait_for_new_data` has read: the number of pushes counted in the generation at its first
read, and at its second one; a call without a positive timeout does not wait. -/
inductive WaitReads where
  | noWait
  | first (before : Nat)
  | both (before after : Nat)

/-- The second read. -/
def WaitReads.close (pushes : Nat) : WaitReads → WaitReads
  | .first before => .both before pushes
  | reads => reads

namespace CacheSystem

variable {π : Type} [DecidableEq π]

/-- From which statement to which a process moves, and what this does to the generation. The broadcast,
which moves others too, is not among these moves. -/
inductive Move (generation : UInt32) : CachePc → CachePc → UInt32 → Prop
  | acquired (op : CacheOp) : Move generation (.lock op) (.enter op) generation
  | ownerDead (op : CacheOp) : Move generation (.lock op) (.consistent op) generation
  | refused (op : CacheOp) : Move generation (.lock op) (.refused op) generation
  | consistent (op : CacheOp) : Move generation (.consistent op) (.enter op) generation
  | push (p : Push) (entry : SharedCacheEntry) :
      Move generation (.enter (.push p)) (.storeEntry entry) generation
  | get (addr : UInt16) (maxAgeSec : Int) (result : Option (List UInt8)) :
      Move generation (.enter (.get addr maxAgeSec)) (.unlock (.value result)) generation
  | getDelta (sincePos : UInt32) (subscribed : List UInt16) (maxAgeSec : Int) (result : Delta) :
      Move generation (.enter (.getDelta sincePos subscribed maxAgeSec)) (.unlock (.delta result)) generation
  | poll (timeoutMs : Int32) (h : timeoutMs ≤ 0) (result : Bool) :
      Move generation (.enter (.waitForNewData timeoutMs)) (.unlock (.newData result)) generation
  | wait (timeoutMs : Int32) (h : ¬timeoutMs ≤ 0) :
      Move generation (.enter (.waitForNewData timeoutMs)) (.waitTest generation false) generation
  | storeNew (entry : SharedCacheEntry) : Move generation (.storeEntry entry) .countEntry generation
  | store (entry : SharedCacheEntry) : Move generation (.storeEntry entry) .countGeneration generation
  | countEntry : Move generation .countEntry .countGeneration generation
  | countGeneration : Move generation .countGeneration (.unlock .pushed) (generation + 1)
  | sleep (timedOut : Bool) : Move generation (.waitTest generation timedOut) (.asleep generation) generation
  | wakeUp (genBefore : UInt32) (rc : CondResult) :
      Move generation (.asleep genBefore) (.reacquire genBefore rc) generation
  | reacquired (genBefore : UInt32) (rc : CondResult) (timedOut : Bool) :
      Move generation (.reacquire genBefore rc) (.waitTest genBefore timedOut) generation
  | waitOver (genBefore : UInt32) (timedOut : Bool) :
      Move generation (.waitTest genBefore timedOut) (.unlock (.newData (generation != genBefore))) generation
  | waitFailed (genBefore : UInt32) (rc : CondResult) :
      Move generation (.reacquire genBefore rc) (.unlock (.newData (generation != genBefore))) generation
  | pushed : Move generation (.unlock .pushed) .broadcast generation
  | returns (result : CacheResult) (h : result ≠ .pushed) :
      Move generation (.unlock result) (.returned result) generation

section Step

variable {s : CacheSystem π} {pid : π} {tick : CacheTick}

/-- The process moves alone. -/
def Moves (s : CacheSystem π) (pid : π) (s' : CacheSystem π) : Prop :=
  ∃ m d pc, s' = goto ⟨m, d, s.pcs⟩ pid pc ∧ Move s.data.generation (s.pcs pid) pc d.generation

theorem Moves.of {m : RobustMutex π} {d : SharedCacheData} {place pc : CachePc} (hpid : s.pcs pid = place)
    (h : Move s.data.generation place pc d.generation) : s.Moves pid (goto ⟨m, d, s.pcs⟩ pid pc) :=
  ⟨m, d, pc, rfl, hpid.symm ▸ h⟩

theorem enter_moves {op : CacheOp} (hpc : s.pcs pid = .enter op) : s.Moves pid (s.enter pid tick op) := by
  cases op with
  | push p => exact .of hpc (.push p _)
  | get addr maxAgeSec => exact .of hpc (.get addr maxAgeSec _)
  | getDelta sincePos subscribed maxAgeSec => exact .of hpc (.getDelta sincePos subscribed maxAgeSec _)
  | waitForNewData timeoutMs =>
      rw [enter]
      split_ifs with htimeout
      · exact .of hpc (.poll timeoutMs htimeout _)
      · exact .of hpc (.wait timeoutMs htimeout)

/-- A step of a process is a move of its own, a broadcast, or nothing. -/
theorem step_moves (s : CacheSystem π) (pid : π) (tick : CacheTick) :
    s.step pid tick = s ∨ s.Moves pid (s.step pid tick) ∨
      s.pcs pid = .broadcast ∧
        s.step pid tick = goto { s with pcs := fun q => wake (s.pcs q) } pid (.returned .pushed) := by
  cases hpc : s.pcs pid with
  | idle | returned result | refused op | dead =>
      left
      simp only [step, hpc]
  | broadcast =>
      right; right
      exact ⟨rfl, by simp only [step, hpc]⟩
  | enter op =>
      right; left
      simp only [step, hpc]
      exact enter_moves hpc
  | lock op =>
      cases hm : s.mutex <;> simp only [step, hpc, hm, RobustMutex.lock]
      · exact Or.inr (Or.inl (.of hpc (.acquired op)))
      · exact Or.inl trivial
      · exact Or.inr (Or.inl (.of hpc (.ownerDead op)))
      · exact Or.inr (Or.inl (.of hpc (.refused op)))
  | consistent op =>
      right; left
      simp only [step, hpc]
      exact .of hpc (.consistent op)
  | storeEntry entry =>
      right; left
      simp only [step, hpc]
      split
      · exact .of hpc (.store entry)
      · split
        · exact .of hpc (.storeNew entry)
        · exact .of hpc (.store entry)
  | countEntry =>
      right; left
      simp only [step, hpc]
      exact .of hpc .countEntry
  | countGeneration =>
      right; left
      simp only [step, hpc]
      exact .of hpc .countGeneration
  | waitTest genBefore timedOut =>
      right; left
      simp only [step, hpc]
      split_ifs with htest hfailed
      · exact .of hpc (.waitOver genBefore timedOut)
      · obtain ⟨rfl, -⟩ := htest
        exact .of hpc (.sleep timedOut)
      · exact .of hpc (.waitOver genBefore timedOut)
  | asleep genBefore =>
      right; left
      simp only [step, hpc]
      exact .of hpc (.wakeUp genBefore tick.rc)
  | reacquire genBefore rc =>
      cases hm : s.mutex <;> simp only [step, hpc, hm, RobustMutex.lock]
      · right; left
        split_ifs
        · exact .of hpc (.waitFailed genBefore rc)
        · exact .of hpc (.reacquired genBefore rc _)
      · exact Or.inl trivial
      · exact Or.inr (Or.inl (.of hpc (.waitFailed genBefore rc)))
      · exact Or.inr (Or.inl (.of hpc (.waitFailed genBefore rc)))
  | unlock result =>
      right; left
      simp only [step, hpc]
      cases result with
      | pushed => exact .of hpc .pushed
      | value result | delta result | newData result => exact .of hpc (.returns _ (by simp))

end Step

/-! ### No lost wake-up -/

/-- Between its change of the generation and its broadcast. -/
def Pending (pc : CachePc) : Prop := pc = .unlock .pushed ∨ pc = .broadcast

/-- The process is in its lock-protected section. -/
def inSection : CachePc → Bool
  | .consistent _ | .enter _ | .storeEntry _ | .countEntry | .countGeneration | .waitTest _ _ | .unlock _ => true
  | _ => false

/-- Whoever sleeps through a change of the generation has a broadcast coming. -/
def Awaited (s : CacheSystem π) : Prop :=
  ∀ pid genBefore, s.pcs pid = .asleep genBefore → s.data.generation ≠ genBefore → ∃ q, Pending (s.pcs q)

section Awaited

variable {s : CacheSystem π} {pid : π}

/-- A process that is not yet done with its broadcast does not forget it in a move of its own. -/
theorem Move.pending {generation generation' : UInt32} {place pc : CachePc}
    (h : Move generation place pc generation') (hplace : Pending place) : Pending pc := by
  rcases hplace with rfl | rfl <;> cases h
  · exact Or.inr rfl
  · rename_i hne
    exact absurd rfl hne

/-- Only the move that changes the generation does, and it leaves a broadcast to be made. -/
theorem Move.generation {generation generation' : UInt32} {place pc : CachePc}
    (h : Move generation place pc generation') : generation' = generation ∨ Pending pc := by
  cases h with
  | countGeneration => exact Or.inr (Or.inl rfl)
  | _ => exact Or.inl rfl

theorem Move.asleep {generation generation' genBefore : UInt32} {place : CachePc}
    (h : Move generation place (.asleep genBefore) generation') : generation' = genBefore := by
  cases h
  rfl

theorem Awaited.goto {m : RobustMutex π} {d : SharedCacheData} {pc : CachePc} (h : s.Awaited)
    (hgeneration : d.generation = s.data.generation ∨ Pending pc)
    (hpending : Pending (s.pcs pid) → Pending pc)
    (hasleep : ∀ genBefore, pc = .asleep genBefore → d.generation = genBefore) :
    Awaited (CacheSystem.goto ⟨m, d, s.pcs⟩ pid pc) := by
  intro q genBefore hq hne
  by_cases hnow : Pending pc
  · exact ⟨pid, by rwa [goto_pcs_self]⟩
  · have hsame := hgeneration.resolve_right hnow
    have hother : q ≠ pid := by
      rintro rfl
      rw [goto_pcs_self] at hq
      exact hne (hasleep genBefore hq)
    rw [goto_pcs_of_ne _ hother] at hq
    rw [goto_data, hsame] at hne
    obtain ⟨q', hq'⟩ := h q genBefore hq hne
    have hpusher : q' ≠ pid := by
      rintro rfl
      exact hnow (hpending hq')
    exact ⟨q', by rwa [goto_pcs_of_ne _ hpusher]⟩

/-- After a broadcast nobody sleeps. -/
theorem not_asleep_of_wake {pc : CachePc} {genBefore : UInt32} : wake pc ≠ .asleep genBefore := by
  cases pc <;> simp [wake]

theorem Awaited.step (h : s.Awaited) (tick : CacheTick) : Awaited (s.step pid tick) := by
  rcases step_moves s pid tick with hstep | ⟨m, d, pc, hstep, hmove⟩ | ⟨-, hstep⟩
  · rwa [hstep]
  · rw [hstep]
    refine h.goto hmove.generation hmove.pending ?_
    rintro genBefore rfl
    exact hmove.asleep
  · rw [hstep]
    intro q genBefore hq
    by_cases hsame : q = pid
    · subst hsame
      rw [goto_pcs_self] at hq
      cases hq
    · rw [goto_pcs_of_ne _ hsame] at hq
      exact absurd hq not_asleep_of_wake

/-- No process dies. -/
def Survives (_ : CacheSystem π) (event : CacheEvent π) : Prop := ∀ pid, event ≠ .die pid

theorem Awaited.next (h : s.Awaited) {event : CacheEvent π} (hevent : s.Survives event) :
    Awaited (s.next event) := by
  cases event with
  | step pid tick => exact h.step tick
  | die pid => exact absurd rfl (hevent pid)
  | call pid op =>
      rw [CacheSystem.next]
      split_ifs with hready
      · refine h.goto (Or.inl rfl) ?_ (by simp)
        rintro (hpc | hpc) <;> rw [hpc] at hready <;> cases hready
      · exact h

end Awaited
end CacheSystem

/-- The processes, with the count of all changes of the generation, the call that each process has made last, and
the reads of each process. -/
structure WaitSystem (π : Type) where
  sys : CacheSystem π
  pushes : Nat
  calls : π → Option CacheOp
  reads : π → WaitReads

namespace WaitSystem

open CacheSystem

variable {π : Type} [DecidableEq π]

def start : WaitSystem π := ⟨CacheSystem.start, 0, fun _ => none, fun _ => .noWait⟩

/-- What a step from one statement to another adds to the reads of its process. -/
def readsAfter (pushes : Nat) (reads : WaitReads) (pc pc' : CachePc) : WaitReads :=
  match pc, pc' with
  | .enter _, .waitTest _ _ => .first pushes
  | .enter _, .unlock _ => .noWait
  | .waitTest _ _, .unlock _ => reads.close pushes
  | .reacquire _ _, .unlock _ => reads.close pushes
  | _, _ => reads

def pushesAfter (pushes : Nat) (pc pc' : CachePc) : Nat :=
  match pc, pc' with
  | .countGeneration, .unlock _ => pushes + 1
  | _, _ => pushes

def next (w : WaitSystem π) (event : CacheEvent π) : WaitSystem π where
  sys := w.sys.next event
  pushes := match event with
    | .step pid tick => pushesAfter w.pushes (w.sys.pcs pid) ((w.sys.step pid tick).pcs pid)
    | _ => w.pushes
  calls := match event with
    | .call pid op => if ready (w.sys.pcs pid) then Function.update w.calls pid (some op) else w.calls
    | _ => w.calls
  reads := match event with
    | .step pid tick => Function.update w.reads pid
        (readsAfter w.pushes (w.reads pid) (w.sys.pcs pid) ((w.sys.step pid tick).pcs pid))
    | _ => w.reads

theorem run_sys (w : WaitSystem π) (events : List (CacheEvent π)) :
    (run next w events).sys = run CacheSystem.next w.sys events := by
  induction events generalizing w with
  | nil => rfl
  | cons event events ih => exact ih (w.next event)

/-- The call and the reads of a process agree with the statement it has reached; a call without a positive timeout
has read nothing. -/
def ReadsOk (pushes : Nat) (call : Option CacheOp) (reads : WaitReads) : CachePc → Prop
  | .lock op | .consistent op | .enter op => call = some op
  | .waitTest genBefore _ | .asleep genBefore | .reacquire genBefore _ =>
      (∃ timeoutMs, call = some (.waitForNewData timeoutMs)) ∧
        ∃ before ≤ pushes, reads = .first before ∧ genBefore = UInt32.ofNat before
  | .unlock (.newData result) | .returned (.newData result) =>
      ∃ timeoutMs, call = some (.waitForNewData timeoutMs) ∧
        (timeoutMs ≤ 0 ∨ ∃ before after, before ≤ after ∧ reads = .both before after ∧
          result = (UInt32.ofNat after != UInt32.ofNat before))
  | _ => True

structure Inv (w : WaitSystem π) : Prop where
  generation : w.sys.data.generation = UInt32.ofNat w.pushes
  reads : ∀ pid, ReadsOk w.pushes (w.calls pid) (w.reads pid) (w.sys.pcs pid)

section Step

variable {w : WaitSystem π} {pid : π} {pushes pushes' : Nat} {call : Option CacheOp} {reads : WaitReads}
  {pc pc' : CachePc}

theorem ReadsOk.mono (hle : pushes ≤ pushes') (h : ReadsOk pushes call reads pc) : ReadsOk pushes' call reads pc := by
  unfold ReadsOk at h ⊢
  split
  case h_1 | h_2 | h_3 => exact h
  case h_4 | h_5 | h_6 =>
    obtain ⟨hcall, before, hbefore, hreads⟩ := h
    exact ⟨hcall, before, hbefore.trans hle, hreads⟩
  case h_7 | h_8 => exact h
  case h_9 => trivial

theorem ReadsOk.wake (h : ReadsOk pushes call reads pc) : ReadsOk pushes call reads (CacheSystem.wake pc) := by
  cases pc <;> exact h

theorem le_pushesAfter (pushes : Nat) (pc pc' : CachePc) : pushes ≤ pushesAfter pushes pc pc' := by
  unfold pushesAfter
  split
  · exact Nat.le_succ pushes
  · exact le_rfl

/-- The result of a wait is what its two reads give. -/
theorem readsOk_close {result : CacheResult} {genBefore : UInt32}
    (h : (∃ timeoutMs, call = some (.waitForNewData timeoutMs)) ∧
      ∃ before ≤ pushes, reads = .first before ∧ genBefore = UInt32.ofNat before)
    (hresult : result = .newData (UInt32.ofNat pushes != genBefore)) :
    ReadsOk pushes call (reads.close pushes) (.unlock result) := by
  obtain ⟨⟨timeoutMs, hcall⟩, before, hbefore, rfl, rfl⟩ := h
  subst hresult
  exact ⟨timeoutMs, hcall, Or.inr ⟨before, pushes, hbefore, rfl, rfl⟩⟩

theorem readsOk_move {generation' : UInt32} (hmove : Move (UInt32.ofNat pushes) pc pc' generation')
    (h : ReadsOk pushes call reads pc) :
    ReadsOk (pushesAfter pushes pc pc') call (readsAfter pushes reads pc pc') pc' := by
  cases hmove with
  | acquired op | ownerDead op | consistent op => exact h
  | wait timeoutMs htimeout => exact ⟨⟨timeoutMs, h⟩, pushes, le_rfl, rfl, rfl⟩
  | poll timeoutMs htimeout result => exact ⟨timeoutMs, h, Or.inl htimeout⟩
  | sleep timedOut | wakeUp genBefore rc | reacquired genBefore rc timedOut => exact h
  | waitOver genBefore timedOut | waitFailed genBefore rc => exact readsOk_close h rfl
  | returns result hne => cases result <;> exact h
  | _ => trivial

theorem generation_move {generation' : UInt32} (hmove : Move (UInt32.ofNat pushes) pc pc' generation') :
    generation' = UInt32.ofNat (pushesAfter pushes pc pc') := by
  cases hmove with
  | countGeneration => exact (UInt32.ofNat_add pushes 1).symm
  | _ => rfl

/-- A process that only looks on. -/
theorem Inv.reads_of_ne (h : w.Inv) {q : π} (hne : q ≠ pid) (tick : CacheTick) {pc : CachePc}
    (hpc : pc = w.sys.pcs q ∨ pc = wake (w.sys.pcs q)) :
    ReadsOk (w.next (.step pid tick)).pushes (w.calls q) ((w.next (.step pid tick)).reads q) pc := by
  have hreads : (w.next (.step pid tick)).reads q = w.reads q := Function.update_of_ne hne _ _
  rw [hreads]
  apply ReadsOk.mono (le_pushesAfter _ _ _)
  rcases hpc with rfl | rfl
  · exact h.reads q
  · exact (h.reads q).wake

theorem readsAfter_self (pushes : Nat) (reads : WaitReads) (pc : CachePc) :
    readsAfter pushes reads pc pc = reads := by
  cases pc <;> rfl

theorem pushesAfter_self (pushes : Nat) (pc : CachePc) : pushesAfter pushes pc pc = pushes := by
  cases pc <;> rfl

theorem Inv.step (h : w.Inv) (tick : CacheTick) : Inv (w.next (.step pid tick)) := by
  have hreads : (w.next (.step pid tick)).reads pid =
      readsAfter w.pushes (w.reads pid) (w.sys.pcs pid) ((w.sys.step pid tick).pcs pid) :=
    Function.update_self _ _ _
  have hpushes : (w.next (.step pid tick)).pushes =
      pushesAfter w.pushes (w.sys.pcs pid) ((w.sys.step pid tick).pcs pid) := rfl
  have hsys : (w.next (.step pid tick)).sys = w.sys.step pid tick := rfl
  rcases step_moves w.sys pid tick with hstep | ⟨m, d, pc, hstep, hmove⟩ | ⟨hpc, hstep⟩
  · rw [hstep, pushesAfter_self] at hpushes
    rw [hstep, readsAfter_self] at hreads
    refine ⟨by rw [hsys, hstep, hpushes, h.generation], fun q => ?_⟩
    rw [hsys, hstep]
    by_cases hq : q = pid
    · subst hq
      rw [hreads, hpushes]
      exact h.reads q
    · exact h.reads_of_ne hq tick (Or.inl rfl)
  · rw [h.generation] at hmove
    rw [hstep, goto_pcs_self] at hreads hpushes
    refine ⟨by rw [hsys, hstep, hpushes]; exact generation_move hmove, fun q => ?_⟩
    rw [hsys, hstep]
    by_cases hq : q = pid
    · subst hq
      rw [hreads, hpushes, goto_pcs_self]
      exact readsOk_move hmove (h.reads q)
    · exact h.reads_of_ne hq tick (Or.inl (goto_pcs_of_ne _ hq _))
  · rw [hstep, hpc, goto_pcs_self] at hpushes
    refine ⟨by rw [hsys, hstep, hpushes]; exact h.generation, fun q => ?_⟩
    rw [hsys, hstep]
    by_cases hq : q = pid
    · subst hq
      rw [goto_pcs_self]
      trivial
    · exact h.reads_of_ne hq tick (Or.inr (goto_pcs_of_ne _ hq _))

theorem Inv.next (h : w.Inv) (event : CacheEvent π) : Inv (w.next event) := by
  cases event with
  | step pid tick => exact h.step tick
  | call pid op =>
      by_cases hready : ready (w.sys.pcs pid) = true
      · refine ⟨?_, fun q => ?_⟩
        · simp only [WaitSystem.next, CacheSystem.next, if_pos hready]
          exact h.generation
        · simp only [WaitSystem.next, CacheSystem.next, if_pos hready]
          by_cases hq : q = pid
          · subst hq
            rw [goto_pcs_self, Function.update_self]
            exact rfl
          · rw [goto_pcs_of_ne _ hq, Function.update_of_ne hq]
            exact h.reads q
      · have hsame : w.sys.next (.call pid op) = w.sys := if_neg hready
        refine ⟨?_, fun q => ?_⟩
        · simp only [WaitSystem.next, hsame]
          exact h.generation
        · simp only [WaitSystem.next, hsame, if_neg hready]
          exact h.reads q
  | die pid =>
      refine ⟨h.generation, fun q => ?_⟩
      simp only [WaitSystem.next, CacheSystem.next]
      by_cases hq : q = pid
      · subst hq
        rw [goto_pcs_self]
        trivial
      · rw [goto_pcs_of_ne _ hq]
        exact h.reads q

end Step

omit [DecidableEq π] in
theorem start_inv : Inv (start : WaitSystem π) := ⟨rfl, fun _ => trivial⟩

/-- The generation differs between two reads with fewer than `2 ^ 32` pushes between them exactly if there
was a push between them. -/
theorem generation_changed_iff {before after : Nat} (hle : before ≤ after) (hfew : after - before < 2 ^ 32) :
    (UInt32.ofNat after != UInt32.ofNat before) = true ↔ before < after := by
  rw [bne_iff_ne, ne_eq, ← UInt32.toNat_inj, UInt32.toNat_ofNat', UInt32.toNat_ofNat']
  omega

/-- **No lost wake-up.** In every run without a death, whoever sleeps through a change of the generation has
a pusher between its change of the generation and its broadcast; while no process is in its lock-protected
section, this pusher is between its unlocking and its broadcast. And a wait with a positive timeout returns true
exactly if the generation changed between its two reads, with fewer than `2 ^ 32` pushes in between. -/
theorem no_lost_wakeup (events : List (CacheEvent π))
    (halive : Along next (fun w => w.sys.Survives) start events) :
    (run next start events).sys = run CacheSystem.next CacheSystem.start events ∧
    (∀ pid genBefore, (run next start events).sys.pcs pid = .asleep genBefore →
      (run next start events).sys.data.generation ≠ genBefore →
        (∃ q, Pending ((run next start events).sys.pcs q)) ∧
        ((∀ q, ¬inSection ((run next start events).sys.pcs q)) →
          ∃ q, (run next start events).sys.pcs q = .broadcast)) ∧
    ∀ pid result, (run next start events).sys.pcs pid = .returned (.newData result) →
      ∃ timeoutMs, (run next start events).calls pid = some (.waitForNewData timeoutMs) ∧
        (0 < timeoutMs → ∃ before after, (run next start events).reads pid = .both before after ∧
          (after - before < 2 ^ 32 → (result = true ↔ before < after))) := by
  refine ⟨run_sys start events, ?_⟩
  have hawaited := run_invariant_along (fun w => w.sys.Awaited) (fun _ _ hevent h => h.next hevent) halive
    (fun _ _ h => nomatch h)
  have hinv := run_invariant Inv (fun _ event h => h.next event) events start_inv
  generalize run next start events = w at hawaited hinv ⊢
  refine ⟨fun pid genBefore hasleep hne => ?_, fun pid result hreturned => ?_⟩
  · obtain ⟨q, hq⟩ := hawaited pid genBefore hasleep hne
    refine ⟨⟨q, hq⟩, fun hsections => ⟨q, hq.resolve_left fun hunlock => ?_⟩⟩
    apply hsections q
    rw [hunlock]
    rfl
  · have hreads := hinv.reads pid
    rw [hreturned] at hreads
    obtain ⟨timeoutMs, hcall, hresult⟩ := hreads
    refine ⟨timeoutMs, hcall, fun hpositive => ?_⟩
    obtain ⟨before, after, hle, hboth, rfl⟩ := hresult.resolve_left (Int32.not_le.mpr hpositive)
    exact ⟨before, after, hboth, generation_changed_iff hle⟩

/-- One process waits and another one pushes, up to its broadcast; the sleeper is still asleep. -/
def sleepThenPush : List (CacheEvent Bool) :=
  [.call false (.waitForNewData 1000), .step false {}, .step false {}, .step false {},
    .call true (.push ⟨1, [0x2a], 0⟩), .step true {}, .step true {}, .step true {}, .step true {},
    .step true {}, .step true {}]

/-- The broadcast wakes the sleeper, which takes the mutex again, compares, unlocks and returns. -/
def sleepAndWake : List (CacheEvent Bool) :=
  sleepThenPush ++ [.step true {}, .step false {}, .step false {}, .step false {}]

theorem no_lost_wakeup_sleepThenPush :
    (∃ q, (run next start sleepThenPush).sys.pcs q = .broadcast) ∧
      ∃ before after, (run next start sleepAndWake).reads false = .both before after ∧ before < after := by
  have halive : ∀ event ∈ sleepAndWake, ∀ w : WaitSystem Bool, w.sys.Survives event := by
    intro event hevent w pid heq
    subst heq
    simp [sleepAndWake, sleepThenPush] at hevent
  constructor
  · exact ((no_lost_wakeup sleepThenPush (along_of_forall fun event hevent =>
      halive event (List.mem_append_left _ hevent))).2.1 false 0 rfl (by decide)).2 (by decide)
  · obtain ⟨timeoutMs, hcall, hreturn⟩ := (no_lost_wakeup sleepAndWake (along_of_forall halive)).2.2 false true rfl
    have hpositive : 0 < timeoutMs := by
      cases hcall
      decide
    obtain ⟨before, after, hreads, hresult⟩ := hreturn hpositive
    have hboth : (run next start sleepAndWake).reads false = .both 0 1 := rfl
    cases hboth.symm.trans hreads
    exact ⟨0, 1, hboth, (hresult (by decide)).mp rfl⟩

end WaitSystem
end KnxdFcgi
