import KnxdFcgi.Machine
import KnxdFcgi.RobustMutex
import KnxdFcgi.SharedGroupCache

/-! Processes at work on one `SharedCacheData`. Each call of `push`, `get`, `get_delta` or
`wait_for_new_data` is run statement by statement, as far as another process can come in between or the
process can die in between: the locking with its recovery, the four stores of a push, the condition wait
with its release and its re-acquisition of the mutex, the unlocking and the broadcast. The four locking
calls recover the mutex from a dead owner; the condition wait can take it over too, and does not. -/

namespace KnxdFcgi

open Machine

inductive CacheOp where
  | push (p : Push)
  | get (addr : UInt16) (maxAgeSec : Int)
  | getDelta (sincePos : UInt32) (subscribed : List UInt16) (maxAgeSec : Int)
  | waitForNewData (timeoutMs : Int32)

/-- What a call returns. -/
inductive CacheResult where
  | pushed
  | value (result : Option (List UInt8))
  | delta (result : Delta)
  | newData (result : Bool)

/-- The statement of a process that comes next. -/
inductive CachePc where
  | idle
  /-- `pthread_mutex_lock` -/
  | lock (op : CacheOp)
  /-- `pthread_mutex_consistent`, after `EOWNERDEAD` -/
  | consistent (op : CacheOp)
  /-- the first statement of the critical section -/
  | enter (op : CacheOp)
  | storeEntry (entry : SharedCacheEntry)
  | countEntry
  | countGeneration
  /-- the test of the wait loop -/
  | waitTest (genBefore : UInt32) (timedOut : Bool)
  /-- in `pthread_cond_timedwait`, without the mutex -/
  | asleep (genBefore : UInt32)
  /-- in `pthread_cond_timedwait`, about to take the mutex again -/
  | reacquire (genBefore : UInt32) (rc : CondResult)
  | unlock (result : CacheResult)
  | broadcast
  | returned (result : CacheResult)
  /-- the call has returned without doing anything, because the mutex could not be locked -/
  | refused (op : CacheOp)
  | dead

structure CacheSystem (π : Type) where
  mutex : RobustMutex π
  data : SharedCacheData
  pcs : π → CachePc

/-- What a process is told in one step: the time of day, and how a condition wait ends. -/
structure CacheTick where
  now : UInt32 := 0
  rc : CondResult := .signalled

inductive CacheEvent (π : Type) where
  | call (pid : π) (op : CacheOp)
  | step (pid : π) (tick : CacheTick)
  | die (pid : π)

namespace CacheSystem

variable {π : Type} [DecidableEq π]

/-- The cache as `create` leaves it. -/
def start : CacheSystem π := ⟨.free, {}, fun _ => .idle⟩

/-- The process goes on at `pc`. -/
def goto (s : CacheSystem π) (pid : π) (pc : CachePc) : CacheSystem π :=
  { s with pcs := Function.update s.pcs pid pc }

@[simp] theorem goto_mutex (s : CacheSystem π) (pid : π) (pc : CachePc) : (s.goto pid pc).mutex = s.mutex :=
  rfl

@[simp] theorem goto_data (s : CacheSystem π) (pid : π) (pc : CachePc) : (s.goto pid pc).data = s.data := rfl

@[simp] theorem goto_pcs_self (s : CacheSystem π) (pid : π) (pc : CachePc) : (s.goto pid pc).pcs pid = pc :=
  Function.update_self _ _ _

theorem goto_pcs_of_ne (s : CacheSystem π) {pid q : π} (hne : q ≠ pid) (pc : CachePc) :
    (s.goto pid pc).pcs q = s.pcs q :=
  Function.update_of_ne hne _ _

/-- A broadcast wakes every sleeping process. -/
def wake : CachePc → CachePc
  | .asleep genBefore => .reacquire genBefore .signalled
  | pc => pc

/-- A process can call: it is alive and in no call. -/
def ready : CachePc → Bool
  | .idle | .returned _ | .refused _ => true
  | _ => false

/-- The first statement of the critical section of each operation. -/
def enter (s : CacheSystem π) (pid : π) (tick : CacheTick) : CacheOp → CacheSystem π
  | .push p =>
      let wrappedPos := (s.data.position + 1) % kPositionModulus
      { s with data := { s.data with position := s.data.position + 1 } }.goto pid
        (.storeEntry (SharedGroupCache.makeEntry p wrappedPos))
  | .get addr maxAgeSec =>
      s.goto pid (.unlock (.value (SharedGroupCache.get s.data addr maxAgeSec tick.now)))
  | .getDelta sincePos subscribed maxAgeSec =>
      s.goto pid (.unlock (.delta
        (SharedGroupCache.getDelta s.data sincePos subscribed maxAgeSec tick.now)))
  | .waitForNewData timeoutMs =>
      if timeoutMs ≤ 0 then s.goto pid (.unlock (.newData (0 < s.data.generation)))
      else s.goto pid (.waitTest s.data.generation false)

/-- The end of `wait_for_new_data`: `gen_after` is read and compared. -/
def endWait (s : CacheSystem π) (pid : π) (genBefore : UInt32) : CacheSystem π :=
  s.goto pid (.unlock (.newData (s.data.generation != genBefore)))

def step (s : CacheSystem π) (pid : π) (tick : CacheTick) : CacheSystem π :=
  match s.pcs pid with
  | .lock op =>
      match s.mutex.lock pid with
      | none => s
      | some (.acquired, m) => { s with mutex := m }.goto pid (.enter op)
      | some (.ownerDead, m) => { s with mutex := m }.goto pid (.consistent op)
      | some (.notRecoverable, _) => s.goto pid (.refused op)
  | .consistent op => { s with mutex := s.mutex.makeConsistent pid }.goto pid (.enter op)
  | .enter op => s.enter pid tick op
  | .storeEntry entry =>
      match SharedGroupCache.findSlot s.data entry.addr with
      | none => s.goto pid .countGeneration
      | some slot =>
          let isNew := (s.data.entries slot).addr == 0
          { s with data := { s.data with entries := Function.update s.data.entries slot entry } }.goto pid
            (if isNew then .countEntry else .countGeneration)
  | .countEntry =>
      { s with data := { s.data with numEntries := s.data.numEntries + 1 } }.goto pid .countGeneration
  | .countGeneration =>
      { s with data := { s.data with generation := s.data.generation + 1 } }.goto pid (.unlock .pushed)
  | .waitTest genBefore timedOut =>
      if s.data.generation = genBefore ∧ timedOut = false then
        -- an error other than a timeout is reported before the mutex is released
        if tick.rc = .failed then s.endWait pid genBefore
        else { s with mutex := s.mutex.unlock pid }.goto pid (.asleep genBefore)
      else s.endWait pid genBefore
  | .asleep genBefore => s.goto pid (.reacquire genBefore tick.rc)
  | .reacquire genBefore rc =>
      match s.mutex.lock pid with
      | none => s
      | some (.acquired, m) =>
          if rc = .failed then { s with mutex := m }.endWait pid genBefore
          else { s with mutex := m }.goto pid (.waitTest genBefore (rc == CondResult.timedOut))
      -- `EOWNERDEAD` and `ENOTRECOVERABLE` end the loop like any other error
      | some (.ownerDead, m) => { s with mutex := m }.endWait pid genBefore
      | some (.notRecoverable, _) => s.endWait pid genBefore
  | .unlock result =>
      { s with mutex := s.mutex.unlock pid }.goto pid
        (match result with
          | .pushed => .broadcast
          | result => .returned result)
  | .broadcast => { s with pcs := fun q => wake (s.pcs q) }.goto pid (.returned .pushed)
  | .idle | .returned _ | .refused _ | .dead => s

def next (s : CacheSystem π) : CacheEvent π → CacheSystem π
  | .call pid op => if ready (s.pcs pid) then s.goto pid (.lock op) else s
  | .step pid tick => s.step pid tick
  | .die pid => { s with mutex := s.mutex.die pid }.goto pid .dead

/-- A process that takes the mutex again inside `pthread_cond_timedwait` does not find its owner dead. -/
def NoDeadWake (s : CacheSystem π) : CacheEvent π → Prop
  | .step pid _ => ∀ genBefore rc, s.pcs pid = .reacquire genBefore rc → s.mutex ≠ .ownerDead
  | _ => True

/-- The mutex is usable, whoever holds it inconsistent is about to repair it, and no call was refused. -/
structure Usable (s : CacheSystem π) : Prop where
  recoverable : s.mutex ≠ .notRecoverable
  repairs : ∀ pid, s.mutex = .owned pid true → ∃ op, s.pcs pid = .consistent op
  not_refused : ∀ pid op, s.pcs pid ≠ .refused op

omit [DecidableEq π] in
theorem start_usable : Usable (start : CacheSystem π) :=
  ⟨nofun, nofun, nofun⟩

section Step

variable {s : CacheSystem π} {pid : π}

/-- A process other than the one that moves keeps its place. -/
theorem Usable.goto {m : RobustMutex π} {d : SharedCacheData} {pc : CachePc} (h : s.Usable)
    (hm : m ≠ .notRecoverable)
    (howned : ∀ q, m = .owned q true → q ≠ pid ∧ s.mutex = .owned q true ∨ q = pid ∧ ∃ op, pc = .consistent op)
    (hpc : ∀ op, pc ≠ .refused op) : Usable (CacheSystem.goto ⟨m, d, s.pcs⟩ pid pc) where
  recoverable := hm
  repairs q hq := by
    rcases howned q hq with ⟨hne, hold⟩ | ⟨rfl, op, rfl⟩
    · rw [goto_pcs_of_ne _ hne]
      exact h.repairs q hold
    · exact ⟨op, goto_pcs_self _ _ _⟩
  not_refused q op := by
    by_cases hq : q = pid
    · subst hq
      rw [goto_pcs_self]
      exact hpc op
    · rw [goto_pcs_of_ne _ hq]
      exact h.not_refused q op

omit [DecidableEq π] in
theorem Usable.not_owner (h : s.Usable) {place : CachePc} (hpid : s.pcs pid = place)
    (hplace : ∀ op, place ≠ .consistent op) : s.mutex ≠ .owned pid true := by
  intro hm
  obtain ⟨op, hop⟩ := h.repairs pid hm
  exact hplace op (hpid.symm.trans hop)

/-- A move that leaves the mutex as it is, by a process that has nothing to repair. -/
theorem Usable.move {d : SharedCacheData} {place pc : CachePc} (h : s.Usable) (hpid : s.pcs pid = place)
    (hplace : ∀ op, place ≠ .consistent op) (hpc : ∀ op, pc ≠ .refused op) :
    Usable (CacheSystem.goto ⟨s.mutex, d, s.pcs⟩ pid pc) := by
  refine h.goto h.recoverable (fun q hq => Or.inl ⟨?_, hq⟩) hpc
  rintro rfl
  exact h.not_owner hpid hplace hq

/-- A move that releases the mutex. -/
theorem Usable.release {place pc : CachePc} (h : s.Usable) (hpid : s.pcs pid = place)
    (hplace : ∀ op, place ≠ .consistent op) (hpc : ∀ op, pc ≠ .refused op) :
    Usable (CacheSystem.goto ⟨s.mutex.unlock pid, s.data, s.pcs⟩ pid pc) := by
  have howner := h.not_owner hpid hplace
  refine h.goto (RobustMutex.unlock_notRecoverable h.recoverable howner) (fun q hq => Or.inl ?_) hpc
  have hold := RobustMutex.unlock_owned hq
  refine ⟨?_, hold⟩
  rintro rfl
  exact howner hold

/-- A move that acquires the free mutex. -/
theorem Usable.acquire {pc : CachePc} (h : s.Usable) (hpc : ∀ op, pc ≠ .refused op) :
    Usable (CacheSystem.goto ⟨.owned pid false, s.data, s.pcs⟩ pid pc) :=
  h.goto nofun (fun _ hq => nomatch hq) hpc

omit [DecidableEq π] in
theorem Usable.wakeAll (h : s.Usable) : Usable { s with pcs := fun q => wake (s.pcs q) } where
  recoverable := h.recoverable
  repairs q hq := by
    obtain ⟨op, hop⟩ := h.repairs q hq
    exact ⟨op, by simp only [hop, wake]⟩
  not_refused q op hq := by
    apply h.not_refused q op
    cases hpc : s.pcs q <;> simp_all [wake]

theorem Usable.enter (h : s.Usable) {op : CacheOp} (hpc : s.pcs pid = .enter op) (tick : CacheTick) :
    Usable (s.enter pid tick op) := by
  cases op with
  | push p => exact h.move hpc nofun nofun
  | get addr maxAgeSec => exact h.move hpc nofun nofun
  | getDelta sincePos subscribed maxAgeSec => exact h.move hpc nofun nofun
  | waitForNewData timeoutMs =>
      rw [CacheSystem.enter]
      split_ifs
      · exact h.move hpc nofun nofun
      · exact h.move hpc nofun nofun

theorem Usable.step (h : s.Usable) (tick : CacheTick) (hwake : s.NoDeadWake (.step pid tick)) :
    Usable (s.step pid tick) := by
  cases hpc : s.pcs pid with
  | idle | returned result | refused op | dead =>
      simp only [CacheSystem.step, hpc]
      exact h
  | lock op =>
      cases hm : s.mutex with
      | free =>
          simp only [CacheSystem.step, hpc, hm, RobustMutex.lock]
          exact h.acquire nofun
      | owned owner inconsistent =>
          simp only [CacheSystem.step, hpc, hm, RobustMutex.lock]
          exact h
      | ownerDead =>
          simp only [CacheSystem.step, hpc, hm, RobustMutex.lock]
          refine h.goto nofun (fun q hq => Or.inr ?_) nofun
          cases hq
          exact ⟨rfl, op, rfl⟩
      | notRecoverable => exact absurd hm h.recoverable
  | consistent op =>
      simp only [CacheSystem.step, hpc]
      refine h.goto (RobustMutex.makeConsistent_notRecoverable h.recoverable) (fun q hq => Or.inl ?_) nofun
      exact (RobustMutex.makeConsistent_owned hq).symm
  | enter op =>
      simp only [CacheSystem.step, hpc]
      exact h.enter hpc tick
  | storeEntry entry =>
      simp only [CacheSystem.step, hpc]
      split
      · exact h.move hpc nofun nofun
      · apply h.move hpc nofun
        split <;> exact nofun
  | countEntry | countGeneration | asleep genBefore =>
      simp only [CacheSystem.step, hpc]
      exact h.move hpc nofun nofun
  | waitTest genBefore timedOut =>
      simp only [CacheSystem.step, hpc]
      split_ifs
      · exact h.move hpc nofun nofun
      · exact h.release hpc nofun nofun
      · exact h.move hpc nofun nofun
  | reacquire genBefore rc =>
      cases hm : s.mutex with
      | free =>
          simp only [CacheSystem.step, hpc, hm, RobustMutex.lock]
          split_ifs
          · exact h.acquire nofun
          · exact h.acquire nofun
      | owned owner inconsistent =>
          simp only [CacheSystem.step, hpc, hm, RobustMutex.lock]
          exact h
      | ownerDead => exact absurd hm (hwake genBefore rc hpc)
      | notRecoverable => exact absurd hm h.recoverable
  | unlock result =>
      simp only [CacheSystem.step, hpc]
      apply h.release hpc nofun
      split <;> exact nofun
  | broadcast =>
      simp only [CacheSystem.step, hpc]
      have hwoken : wake (s.pcs pid) = .broadcast := by rw [hpc]; rfl
      exact h.wakeAll.move hwoken nofun nofun

theorem Usable.next (h : s.Usable) {event : CacheEvent π} (hwake : s.NoDeadWake event) :
    Usable (s.next event) := by
  cases event with
  | step pid tick => exact h.step tick hwake
  | call pid op =>
      rw [CacheSystem.next]
      split_ifs with hready
      · refine h.move rfl (fun op hpc => ?_) nofun
        rw [hpc] at hready
        cases hready
      · exact h
  | die pid =>
      refine h.goto (RobustMutex.die_notRecoverable h.recoverable) (fun q hq => Or.inl ?_) nofun
      exact (RobustMutex.die_owned hq).symm

end Step

/-! ### Calls that run alone -/

section Alone

variable {s : CacheSystem π} {pid : π} {tick : CacheTick} {d : SharedCacheData} {result : CacheResult}

/-- The process, moving alone, ends its call with a result and leaves the data `d`. -/
def Completes (pid : π) (tick : CacheTick) (s : CacheSystem π) (d : SharedCacheData) (result : CacheResult) :
    Prop :=
  ∃ n, (run next s (List.replicate n (.step pid tick))).data = d ∧
    (run next s (List.replicate n (.step pid tick))).pcs pid = .returned result

theorem Completes.of_step (h : Completes pid tick (s.step pid tick) d result) :
    Completes pid tick s d result := by
  obtain ⟨n, hn⟩ := h
  exact ⟨n + 1, hn⟩

theorem completes_unlock (hpc : s.pcs pid = .unlock result) : Completes pid tick s s.data result := by
  apply Completes.of_step
  cases result with
  | value result | delta result | newData result => exact ⟨0, by simp [step, hpc]⟩
  | pushed =>
      have hnext : (s.step pid tick).pcs pid = .broadcast := by simp [step, hpc]
      refine Completes.of_step ⟨0, ?_, ?_⟩
      · rw [List.replicate_zero, run_nil, step.eq_def (s.step pid tick), hnext]
        simp [step, hpc]
      · rw [List.replicate_zero, run_nil, step.eq_def (s.step pid tick), hnext]
        simp

theorem completes_countGeneration (hpc : s.pcs pid = .countGeneration) :
    Completes pid tick s { s.data with generation := s.data.generation + 1 } .pushed := by
  apply Completes.of_step
  have hdata : (s.step pid tick).data = { s.data with generation := s.data.generation + 1 } := by
    simp [step, hpc]
  rw [← hdata]
  exact completes_unlock (by simp [step, hpc])

theorem completes_countEntry (hpc : s.pcs pid = .countEntry) :
    Completes pid tick s { s.data with
      numEntries := s.data.numEntries + 1
      generation := s.data.generation + 1 } .pushed := by
  apply Completes.of_step
  have hdata : (s.step pid tick).data = { s.data with numEntries := s.data.numEntries + 1 } := by
    simp [step, hpc]
  have hpc : (s.step pid tick).pcs pid = .countGeneration := by simp [step, hpc]
  have hrest : Completes pid tick (s.step pid tick) _ .pushed := completes_countGeneration hpc
  rw [hdata] at hrest
  exact hrest

/-- The rest of a push, from the storing of the entry on. -/
theorem completes_storeEntry {entry : SharedCacheEntry} (hpc : s.pcs pid = .storeEntry entry) :
    Completes pid tick s
      { SharedGroupCache.insertLocked s.data entry.addr entry with generation := s.data.generation + 1 }
      .pushed := by
  apply Completes.of_step
  cases hslot : SharedGroupCache.findSlot s.data entry.addr with
  | none =>
      simp only [step, hpc, hslot, SharedGroupCache.insertLocked]
      exact completes_countGeneration (goto_pcs_self s pid _)
  | some slot =>
      simp only [step, hpc, hslot, SharedGroupCache.insertLocked]
      cases hnew : (s.data.entries slot).addr == 0 with
      | true => exact completes_countEntry (goto_pcs_self _ pid _)
      | false => exact completes_countGeneration (goto_pcs_self _ pid _)

theorem completes_enter_push {p : Push} (hpc : s.pcs pid = .enter (.push p)) :
    Completes pid tick s (SharedGroupCache.push s.data p) .pushed := by
  apply Completes.of_step
  have hdata : (s.step pid tick).data = { s.data with position := s.data.position + 1 } := by
    simp [step, hpc, enter]
  have hnext : (s.step pid tick).pcs pid =
      .storeEntry (SharedGroupCache.makeEntry p ((s.data.position + 1) % kPositionModulus)) := by
    simp [step, hpc, enter]
  have hrest : Completes pid tick (s.step pid tick) _ .pushed := completes_storeEntry hnext
  rw [hdata, SharedGroupCache.makeEntry_addr] at hrest
  simp only [SharedGroupCache.push, SharedGroupCache.insertLocked_generation]
  exact hrest

theorem completes_enter_get {addr : UInt16} {maxAgeSec : Int}
    (hpc : s.pcs pid = .enter (.get addr maxAgeSec)) :
    Completes pid tick s s.data (.value (SharedGroupCache.get s.data addr maxAgeSec tick.now)) := by
  apply Completes.of_step
  simp only [step, hpc, enter]
  exact completes_unlock (goto_pcs_self s pid _)

/-- The mutex can be locked at once. -/
def available (s : CacheSystem π) : Prop := s.mutex = .free ∨ s.mutex = .ownerDead

/-- A call reaches its critical section, after repairing the mutex if need be. -/
theorem completes_call {op : CacheOp} (hready : ready (s.pcs pid)) (havailable : s.available)
    (henter : ∀ s' : CacheSystem π, s'.data = s.data → s'.pcs pid = .enter op →
      Completes pid tick s' d result) :
    Completes pid tick (s.next (.call pid op)) d result := by
  simp only [next, if_pos hready]
  apply Completes.of_step
  rcases havailable with hm | hm
  · refine henter _ ?_ ?_ <;> simp [step, hm, RobustMutex.lock]
  · apply Completes.of_step
    refine henter _ ?_ ?_ <;> simp [step, hm, RobustMutex.lock]

end Alone

/-- **When the shared mutex survives.** In every run in which no process takes an owner-dead mutex over
inside `pthread_cond_timedwait`, however many processes call and die and wherever they do, the mutex never
becomes not-recoverable and no call is refused; and whenever the mutex can be locked, a push that is
called stores its value and a get that is called reads. -/
theorem mutex_survives (events : List (CacheEvent π))
    (hwake : Along next NoDeadWake (start : CacheSystem π) events) :
    (run next start events).mutex ≠ .notRecoverable ∧
    (∀ (pid : π) (op : CacheOp), (run next start events).pcs pid ≠ .refused op) ∧
    ∀ (pid : π) (tick : CacheTick), ready ((run next start events).pcs pid) → (run next start events).available →
      (∀ p, Completes pid tick ((run next start events).next (.call pid (.push p)))
        (SharedGroupCache.push (run next start events).data p) .pushed) ∧
      ∀ addr maxAgeSec, Completes pid tick ((run next start events).next (.call pid (.get addr maxAgeSec)))
        (run next start events).data
        (.value (SharedGroupCache.get (run next start events).data addr maxAgeSec tick.now)) := by
  have husable := run_invariant_along Usable (fun _ _ hwake h => h.next hwake) hwake start_usable
  generalize run next start events = s at husable ⊢
  refine ⟨husable.recoverable, husable.not_refused, fun pid tick hready havailable => ⟨fun p => ?_, ?_⟩⟩
  · exact completes_call hready havailable fun s' hdata hpc => hdata ▸ completes_enter_push hpc
  · exact fun addr maxAgeSec =>
      completes_call hready havailable fun s' hdata hpc => hdata ▸ completes_enter_get hpc

/-- The hypothesis is met by a process that dies with the mutex locked. -/
theorem mutex_survives_push_death :
    (run next (start : CacheSystem Bool) [.call false (.push ⟨1, [0x2a], 0⟩), .step false {},
      .die false]).mutex ≠ .notRecoverable :=
  (mutex_survives [.call false (.push ⟨1, [0x2a], 0⟩), .step false {}, .die false]
    ⟨trivial, fun _ _ => nofun, trivial, trivial⟩).1

/-- The process `true` dies in its critical section while the process `false` is asleep in the condition
wait; the sleeper times out, takes the mutex over and unlocks it. -/
def deadWake : List (CacheEvent Bool) :=
  [.call false (.waitForNewData 1000), .step false {}, .step false {}, .step false {},
    .call true (.push ⟨1, [0x2a], 0⟩), .step true {}, .die true,
    .step false ⟨0, .timedOut⟩, .step false {}, .step false {}]

/-- From then on the mutex is lost, and the next push is refused. -/
theorem deadWake_not_recoverable :
    (run next start deadWake).mutex = .notRecoverable ∧
      (run next start (deadWake ++ [.call false (.push ⟨1, [0x2a], 0⟩), .step false {}])).pcs false =
        .refused (.push ⟨1, [0x2a], 0⟩) :=
  ⟨by decide, rfl⟩

end CacheSystem
end KnxdFcgi
