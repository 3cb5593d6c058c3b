import KnxdFcgi.Machine

/-! The parent process and its children: one cache reader and `n` workers. The parent forks them, waits for
a death, gives back the semaphore tokens a dead worker may have held, and forks a replacement after a
growing delay; a worker takes the two semaphores for each `/r` request and posts them when the request is
done. The semaphores are shared, so every step of every process is an event of its own, and so are the
deaths, the handling of a `SIGTERM` and what the kernel answers to `wait` and `fork`. -/

namespace KnxdFcgi

open Machine

/-- `concurrency_sem` and `load_shed_sem`, in the order in which a worker takes them. -/
inductive Sem where
  | concurrency | loadShed
  deriving DecidableEq

/-- Where a worker is in the accept loop of `FcgiServer::run`. -/
inductive WorkerPc where
  /-- blocked in `FCGX_Accept_r` -/
  | accepting
  /-- at `sem_trywait`, for a `/r` request -/
  | tryWait (sem : Sem)
  /-- in the branch that answers 503 because `sem_trywait` failed -/
  | reject (sem : Sem)
  /-- from the handler to `FCGX_Finish_r`, with the tokens of a `/r` request -/
  | handling (read : Bool)
  /-- in the destructor of the token -/
  | release (sem : Sem)
  deriving DecidableEq

namespace WorkerPc

/-- The worker has taken the semaphore and not yet posted it. -/
def holds : WorkerPc → Sem → Bool
  | tryWait .loadShed, .concurrency | reject .loadShed, .concurrency | release .concurrency, .concurrency => true
  | handling true, _ | release .loadShed, _ => true
  | _, _ => false

/-- After a semaphore has been taken, or is not there. -/
def afterTryWait : Sem → WorkerPc
  | .concurrency => tryWait .loadShed
  | .loadShed => handling true

/-- The tokens are destroyed in the reverse order of their construction. -/
def afterRelease : Sem → WorkerPc
  | .loadShed => release .concurrency
  | .concurrency => accepting

end WorkerPc

/-- A child that has not been reaped. -/
inductive Child where
  | reader
  | worker (pc : WorkerPc)
  | zombie
  deriving DecidableEq

/-- `cache_reader_pid` and the entries of `worker_pids`. -/
inductive Slot (n : Nat) where
  | reader
  | worker (i : Fin n)
  deriving DecidableEq

/-- What is forked for a slot. -/
def Slot.child {n : Nat} : Slot n → Child
  | .reader => .reader
  | .worker _ => .worker .accepting

structure RestartBackoff where
  delayMs : Nat := 100
  startedAt : Nat := 0

namespace RestartBackoff

def onSpawn (b : RestartBackoff) (now : Nat) : RestartBackoff := { b with startedAt := now }

/-- The delay before the restart, and the backoff for the next death. -/
def onDeath (b : RestartBackoff) (now : Nat) : Nat × RestartBackoff :=
  let delayMs := if now - b.startedAt > 60 then 100 else b.delayMs
  (delayMs, { b with delayMs := min (delayMs * 2) 30000 })

end RestartBackoff

/-- The statement of the parent that comes next. -/
inductive SupervisorPc (n : Nat) where
  /-- forking the `k`-th child at startup -/
  | spawn (k : Nat)
  /-- the test of `g_shutdown_requested` -/
  | test
  /-- past the test, before `wait` -/
  | enterWait
  | waiting
  /-- `wait` has returned this pid -/
  | reaped (pid : Nat)
  /-- `sem_getvalue` in `restore_semaphore` -/
  | getValue (sem : Sem) (i : Fin n)
  /-- `sem_post` in `restore_semaphore` -/
  | post (sem : Sem) (i : Fin n)
  /-- the sleep before a restart -/
  | backoff (slot : Slot n)
  | restart (slot : Slot n)
  /-- after the loop, waiting for the last children -/
  | stopping
  deriving DecidableEq

/-- What the kernel answers: the pid that `wait` returns if that child is dead, the pid of the child that
`fork` creates or nothing if it fails, and the time in seconds. -/
structure SupervisorAnswer where
  waited : Nat := 0
  forked : Option Nat := none
  now : Nat := 0

inductive PoolEvent where
  /-- the parent handles a `SIGTERM` -/
  | sigterm
  | supervise (answer : SupervisorAnswer)
  /-- the worker accepts a request, for `/r` or not -/
  | accept (pid : Nat) (read : Bool)
  | work (pid : Nat)
  | die (pid : Nat)

/-- The parent, its children by their pids, and the values of the semaphores; a pid or a semaphore that is
`none` stands for -1 and for a null pointer. -/
structure Pool (n : Nat) where
  pc : SupervisorPc n := .spawn 0
  shutdown : Bool := false
  pids : Slot n → Option Nat := fun _ => none
  children : Nat → Option Child := fun _ => none
  sems : Sem → Option Nat := fun _ => some n
  backoffs : Slot n → RestartBackoff := fun _ => {}
  slept : List Nat := []

namespace Pool

variable {n : Nat}

/-- The children in the order in which they are started. -/
def slotOf (k : Nat) : Option (Slot n) :=
  match k with
  | 0 => some .reader
  | i + 1 => if h : i < n then some (.worker ⟨i, h⟩) else none

def postSem (sems : Sem → Option Nat) (sem : Sem) : Sem → Option Nat :=
  Function.update sems sem ((sems sem).map (· + 1))

/-- One statement of a worker, and what it does to the semaphores. -/
def workerStep (sems : Sem → Option Nat) : WorkerPc → WorkerPc × (Sem → Option Nat)
  | .accepting => (.accepting, sems)
  | .tryWait sem =>
      match sems sem with
      | none => (.afterTryWait sem, sems)
      | some 0 => (.reject sem, sems)
      | some (value + 1) => (.afterTryWait sem, Function.update sems sem (some value))
  | .reject .concurrency => (.accepting, sems)
  | .reject .loadShed => (.release .concurrency, sems)
  | .handling false => (.accepting, sems)
  | .handling true => (.release .loadShed, sems)
  | .release sem => (.afterRelease sem, postSem sems sem)

/-- No child is left; `wait` fails with `ECHILD`. -/
def noChildren (s : Pool n) : Bool :=
  ((s.pids .reader).bind s.children).isNone &&
    (List.finRange n).all fun i => ((s.pids (.worker i)).bind s.children).isNone

/-- Which of its children the parent takes the reaped one for. -/
def slotNamed (s : Pool n) (pid : Nat) : Option (Slot n) :=
  if s.pids .reader = some pid then some .reader
  else ((List.finRange n).find? fun i => s.pids (.worker i) = some pid).map .worker

/-- What is done about the death of the child of a slot. -/
def afterReaping : Option (Slot n) → SupervisorPc n
  | some .reader => .backoff .reader
  | some (.worker i) => .getValue .concurrency i
  | none => .test

def afterRestore (i : Fin n) : Sem → SupervisorPc n
  | .concurrency => .getValue .loadShed i
  | .loadShed => .backoff (.worker i)

/-- A fork for a slot; the kernel gives the child a pid that no other child has. -/
def fork (s : Pool n) (slot : Slot n) (forked : Option Nat) (backoffs : Slot n → RestartBackoff)
    (done failed : SupervisorPc n) : Pool n :=
  match forked with
  | none => { s with pids := Function.update s.pids slot none, pc := failed }
  | some pid =>
      if s.children pid = none then
        { s with
          pids := Function.update s.pids slot (some pid)
          children := Function.update s.children pid (some slot.child)
          backoffs := backoffs
          pc := done }
      else s

def supervise (s : Pool n) (answer : SupervisorAnswer) : Pool n :=
  match s.pc with
  | .spawn k =>
      match slotOf k with
      | some slot => s.fork slot answer.forked s.backoffs (.spawn (k + 1)) .stopping
      | none => { s with pc := .test, backoffs := fun _ => { startedAt := answer.now } }
  | .test => { s with pc := if s.shutdown then .stopping else .enterWait }
  | .enterWait => { s with pc := .waiting }
  | .waiting =>
      if s.children answer.waited = some .zombie then
        { s with children := Function.update s.children answer.waited none, pc := .reaped answer.waited }
      else if s.noChildren then { s with pc := .stopping }
      else s
  | .reaped pid => { s with pc := if s.shutdown then .stopping else afterReaping (s.slotNamed pid) }
  | .getValue sem i =>
      match s.sems sem with
      | none => { s with pc := afterRestore i sem }
      | some value => { s with pc := if value < n then .post sem i else afterRestore i sem }
  | .post sem i => { s with sems := postSem s.sems sem, pc := afterRestore i sem }
  | .backoff slot =>
      let (delayMs, backoff) := (s.backoffs slot).onDeath answer.now
      { s with
        backoffs := Function.update s.backoffs slot backoff
        slept := s.slept ++ [delayMs]
        pc := .restart slot }
  | .restart slot =>
      let backoff := (s.backoffs slot).onSpawn answer.now
      s.fork slot answer.forked (Function.update s.backoffs slot backoff) .test .test
  | .stopping =>
      if s.children answer.waited = some .zombie then
        { s with children := Function.update s.children answer.waited none, pc := .stopping }
      else s

/-- A child goes on as another one of its kind. -/
def setChild (s : Pool n) (pid : Nat) (child : Child) : Pool n :=
  { s with children := Function.update s.children pid (some child) }

def next (s : Pool n) : PoolEvent → Pool n
  | .sigterm =>
      -- a blocked `wait` is interrupted, and the loop goes on to its test
      { s with shutdown := true, pc := if s.pc = .waiting then .test else s.pc }
  | .supervise answer => s.supervise answer
  | .accept pid read =>
      if s.children pid = some (.worker .accepting) then
        s.setChild pid (.worker (if read then .tryWait .concurrency else .handling false))
      else s
  | .work pid =>
      match s.children pid with
      | some (.worker pc) =>
          { s with sems := (workerStep s.sems pc).2 }.setChild pid (.worker (workerStep s.sems pc).1)
      | _ => s
  | .die pid =>
      match s.children pid with
      | some _ => s.setChild pid .zombie
      | none => s

/-- Before the first fork, with both semaphores initialised to the number of workers. -/
def start : Pool n := {}

/-- A fork is made for the slot: at startup, or to replace a dead child. -/
def Forks (pc : SupervisorPc n) (slot : Slot n) (done failed : SupervisorPc n) : Prop :=
  (∃ k, pc = .spawn k ∧ slotOf k = some slot ∧ done = .spawn (k + 1) ∧ failed = .stopping) ∨
    pc = .restart slot ∧ done = .test ∧ failed = .test

/-- The steps of the parent; the backoffs and the record of the sleeps are left open. -/
inductive Supervises (s : Pool n) (answer : SupervisorAnswer) : Pool n → Prop
  | blocked : Supervises s answer s
  | forked {slot : Slot n} {pid : Nat} {done failed : SupervisorPc n} (b : Slot n → RestartBackoff)
      (hpc : Forks s.pc slot done failed) (hpid : s.children pid = none) :
      Supervises s answer { s with
        pids := Function.update s.pids slot (some pid)
        children := Function.update s.children pid (some slot.child)
        backoffs := b
        pc := done }
  | forkFailed {slot : Slot n} {done failed : SupervisorPc n} (hpc : Forks s.pc slot done failed)
      (hanswer : answer.forked = none) :
      Supervises s answer { s with pids := Function.update s.pids slot none, pc := failed }
  | started {k : Nat} (b : Slot n → RestartBackoff) (hpc : s.pc = .spawn k) (hslot : slotOf (n := n) k = none) :
      Supervises s answer { s with pc := .test, backoffs := b }
  | goesOn (hpc : s.pc = .test) (hshutdown : s.shutdown = false) : Supervises s answer { s with pc := .enterWait }
  | enterWait (hpc : s.pc = .enterWait) : Supervises s answer { s with pc := .waiting }
  | reaps {pid : Nat} (hpc : s.pc = .waiting) (hpid : s.children pid = some .zombie) :
      Supervises s answer { s with children := Function.update s.children pid none, pc := .reaped pid }
  | stops (hpc : s.pc = .test ∨ s.pc = .waiting ∨ ∃ pid, s.pc = .reaped pid) :
      Supervises s answer { s with pc := .stopping }
  | knows {pid : Nat} (hpc : s.pc = .reaped pid) :
      Supervises s answer { s with pc := afterReaping (s.slotNamed pid) }
  | tests {sem : Sem} {i : Fin n} {value : Nat} (hpc : s.pc = .getValue sem i) (hsem : s.sems sem = some value)
      (hvalue : value < n) : Supervises s answer { s with pc := .post sem i }
  | restored {sem : Sem} {i : Fin n} (hpc : s.pc = .getValue sem i)
      (hsem : ∀ value, s.sems sem = some value → n ≤ value) : Supervises s answer { s with pc := afterRestore i sem }
  | posts {sem : Sem} {i : Fin n} (hpc : s.pc = .post sem i) :
      Supervises s answer { s with sems := postSem s.sems sem, pc := afterRestore i sem }
  | sleeps {slot : Slot n} (b : Slot n → RestartBackoff) (slept : List Nat) (hpc : s.pc = .backoff slot) :
      Supervises s answer { s with backoffs := b, slept := slept, pc := .restart slot }
  | reapsLast {pid : Nat} (hpc : s.pc = .stopping) (hpid : s.children pid = some .zombie) :
      Supervises s answer { s with children := Function.update s.children pid none, pc := .stopping }

section Supervise

variable {s : Pool n} {answer : SupervisorAnswer}

theorem fork_supervises {slot : Slot n} {done failed : SupervisorPc n} (hpc : Forks s.pc slot done failed)
    (b : Slot n → RestartBackoff) : Supervises s answer (s.fork slot answer.forked b done failed) := by
  unfold fork
  split
  · rename_i hanswer
    exact .forkFailed hpc hanswer
  · split_ifs with hpid
    · exact .forked b hpc hpid
    · exact .blocked

theorem supervises (s : Pool n) (answer : SupervisorAnswer) : Supervises s answer (s.supervise answer) := by
  cases hpc : s.pc with
  | spawn k =>
      simp only [supervise, hpc]
      split
      · rename_i slot hslot
        exact fork_supervises (Or.inl ⟨k, hpc, hslot, rfl, rfl⟩) _
      · rename_i hslot
        exact .started _ hpc hslot
  | test =>
      simp only [supervise, hpc]
      split_ifs with hshutdown
      · exact .stops (Or.inl hpc)
      · exact .goesOn hpc (Bool.eq_false_of_not_eq_true hshutdown)
  | enterWait =>
      simp only [supervise, hpc]
      exact .enterWait hpc
  | waiting =>
      simp only [supervise, hpc]
      split_ifs with hpid
      · exact .reaps hpc hpid
      · exact .stops (Or.inr (Or.inl hpc))
      · exact .blocked
  | reaped pid =>
      simp only [supervise, hpc]
      split_ifs
      · exact .stops (Or.inr (Or.inr ⟨pid, hpc⟩))
      · exact .knows hpc
  | getValue sem i =>
      simp only [supervise, hpc]
      split
      · rename_i hsem
        refine .restored hpc fun value hvalue => ?_
        rw [hsem] at hvalue
        cases hvalue
      · rename_i value hsem
        split_ifs with hvalue
        · exact .tests hpc hsem hvalue
        · refine .restored hpc fun value' hvalue' => ?_
          rw [hsem] at hvalue'
          cases hvalue'
          exact Nat.le_of_not_lt hvalue
  | post sem i =>
      simp only [supervise, hpc]
      exact .posts hpc
  | backoff slot =>
      simp only [supervise, hpc]
      exact .sleeps _ _ hpc
  | restart slot =>
      simp only [supervise, hpc]
      exact fork_supervises (Or.inr ⟨hpc, rfl, rfl⟩) _
  | stopping =>
      simp only [supervise, hpc]
      split_ifs with hpid
      · exact .reapsLast hpc hpid
      · exact .blocked

end Supervise

/-- A delay of 100 ms to 30 s. -/
def Paced (delayMs : Nat) : Prop := 100 ≤ delayMs ∧ delayMs ≤ 30000

theorem paced_initial : Paced 100 := ⟨by decide, by decide⟩

theorem onDeath_paced {b : RestartBackoff} (h : Paced b.delayMs) (now : Nat) :
    Paced (b.onDeath now).1 ∧ Paced (b.onDeath now).2.delayMs := by
  obtain ⟨hlow, hhigh⟩ := h
  unfold RestartBackoff.onDeath Paced
  dsimp only
  split_ifs <;> omega

/-- Every slot's next delay and every sleep so far is paced. -/
def AllPaced (s : Pool n) : Prop :=
  (∀ slot, Paced (s.backoffs slot).delayMs) ∧ ∀ ms ∈ s.slept, Paced ms

theorem paced_update {backoffs : Slot n → RestartBackoff} (h : ∀ slot, Paced (backoffs slot).delayMs)
    (slot : Slot n) {b : RestartBackoff} (hb : Paced b.delayMs) (slot' : Slot n) :
    Paced (Function.update backoffs slot b slot').delayMs := by
  rw [Function.update_apply]
  split_ifs
  · exact hb
  · exact h slot'

theorem AllPaced.fork {s : Pool n} (h : s.AllPaced) (slot : Slot n) (forked : Option Nat)
    {backoffs : Slot n → RestartBackoff} (hbackoffs : ∀ slot, Paced (backoffs slot).delayMs)
    (done failed : SupervisorPc n) : (s.fork slot forked backoffs done failed).AllPaced := by
  unfold Pool.fork
  split
  · exact h
  · split_ifs
    · exact ⟨hbackoffs, h.2⟩
    · exact h

theorem AllPaced.supervise {s : Pool n} (h : s.AllPaced) (answer : SupervisorAnswer) :
    (s.supervise answer).AllPaced := by
  cases hpc : s.pc with
  | backoff slot =>
      obtain ⟨hdelay, hnext⟩ := onDeath_paced (h.1 slot) answer.now
      simp only [Pool.supervise, hpc]
      refine ⟨paced_update h.1 slot hnext, fun ms hms => ?_⟩
      rcases List.mem_append.mp hms with hms | hms
      · exact h.2 ms hms
      · rw [List.mem_singleton.mp hms]
        exact hdelay
  | restart slot =>
      have hspawn : Paced ((s.backoffs slot).onSpawn answer.now).delayMs := h.1 slot
      simp only [Pool.supervise, hpc]
      exact h.fork slot _ (paced_update h.1 slot hspawn) _ _
  | spawn k =>
      simp only [Pool.supervise, hpc]
      split
      · exact h.fork _ _ h.1 _ _
      · exact ⟨fun _ => paced_initial, h.2⟩
  | waiting =>
      simp only [Pool.supervise, hpc]
      split_ifs <;> exact h
  | getValue sem i =>
      simp only [Pool.supervise, hpc]
      split <;> exact h
  | stopping =>
      simp only [Pool.supervise, hpc]
      split_ifs <;> exact h
  | test | enterWait | reaped pid | post sem i =>
      simp only [Pool.supervise, hpc]
      exact h

/-! ### What a child can do -/

/-- One statement of a worker, by what it does to the semaphores. -/
inductive WorkerMoves (sems : Sem → Option Nat) : WorkerPc → WorkerPc → (Sem → Option Nat) → Prop
  | plain {pc pc' : WorkerPc} (hholds : ∀ sem, pc'.holds sem = pc.holds sem)
      (hreject : ∀ sem, pc' ≠ .reject sem) : WorkerMoves sems pc pc' sems
  | skips {sem : Sem} (hsem : sems sem = none) : WorkerMoves sems (.tryWait sem) (.afterTryWait sem) sems
  | rejects {sem : Sem} (hsem : sems sem = some 0) : WorkerMoves sems (.tryWait sem) (.reject sem) sems
  | takes {sem : Sem} {value : Nat} (hsem : sems sem = some (value + 1)) :
      WorkerMoves sems (.tryWait sem) (.afterTryWait sem) (Function.update sems sem (some value))
  | releases (sem : Sem) : WorkerMoves sems (.release sem) (.afterRelease sem) (postSem sems sem)

theorem workerMoves (sems : Sem → Option Nat) (pc : WorkerPc) :
    WorkerMoves sems pc (workerStep sems pc).1 (workerStep sems pc).2 := by
  cases pc with
  | accepting => exact .plain (fun _ => rfl) nofun
  | tryWait sem =>
      rw [workerStep]
      split
      · rename_i hsem
        exact .skips hsem
      · rename_i hsem
        exact .rejects hsem
      · rename_i value hsem
        exact .takes hsem
  | reject sem =>
      cases sem with
      | concurrency => exact .plain (fun sem => by cases sem <;> rfl) nofun
      | loadShed => exact .plain (fun sem => by cases sem <;> rfl) nofun
  | handling read =>
      cases read with
      | false => exact .plain (fun sem => by cases sem <;> rfl) nofun
      | true => exact .plain (fun sem => by cases sem <;> rfl) nofun
  | release sem => exact .releases sem

/-- The steps of the children. -/
inductive Acts (s : Pool n) : Pool n → Prop
  | blocked : Acts s s
  | moves {pid : Nat} {pc pc' : WorkerPc} {sems : Sem → Option Nat}
      (hchild : s.children pid = some (.worker pc)) (hmoves : WorkerMoves s.sems pc pc' sems) :
      Acts s ({ s with sems := sems }.setChild pid (.worker pc'))
  | dies {pid : Nat} {child : Child} (hchild : s.children pid = some child) : Acts s (s.setChild pid .zombie)

/-- An event is a signal, a step of the parent or a step of a child. -/
theorem next_cases (s : Pool n) (event : PoolEvent) :
    event = .sigterm ∨ (∃ answer, event = .supervise answer ∧ Supervises s answer (s.next event)) ∨
      Acts s (s.next event) := by
  cases event with
  | sigterm => exact Or.inl rfl
  | supervise answer => exact Or.inr (Or.inl ⟨answer, rfl, supervises s answer⟩)
  | accept pid read =>
      right; right
      rw [next]
      split
      · rename_i hchild
        refine .moves hchild (.plain ?_ ?_)
        · intro sem
          cases read <;> cases sem <;> rfl
        · cases read <;> simp
      · exact .blocked
  | work pid =>
      right; right
      rw [next]
      split
      · rename_i pc hchild
        exact .moves hchild (workerMoves s.sems pc)
      · exact .blocked
  | die pid =>
      right; right
      rw [next]
      split
      · rename_i child hchild
        exact .dies hchild
      · exact .blocked

theorem AllPaced.next {s : Pool n} (h : s.AllPaced) (event : PoolEvent) : (s.next event).AllPaced := by
  cases event with
  | supervise answer => exact h.supervise answer
  | sigterm => exact h
  | accept pid read => rw [Pool.next]; split <;> exact h
  | work pid => rw [Pool.next]; split <;> exact h
  | die pid => rw [Pool.next]; split <;> exact h

/-- **Restarts are rate-limited.** Every sleep before a restart takes between 100 ms and 30 s. -/
theorem restarts_paced (events : List PoolEvent) : ∀ ms ∈ (run next (start : Pool n) events).slept, Paced ms := by
  have hstart : (start : Pool n).AllPaced := ⟨fun _ => paced_initial, by simp [start]⟩
  exact (run_invariant AllPaced (fun _ event h => h.next event) events hstart).2

/-- A request has been noted, but the parent sleeps in `wait` and no child is about to end its sleep. -/
def Missed (s : Pool n) : Prop :=
  s.shutdown = true ∧ s.pc = .waiting ∧ ∀ pid, s.children pid ≠ some .zombie

/-- The signal is not handled between the test of the flag and the entry into `wait`. -/
def OutsideGap (s : Pool n) (event : PoolEvent) : Prop := event = .sigterm → s.pc ≠ .enterWait

/-- A parent that has been asked to stop is not on its way to `wait`. -/
def Heeds (s : Pool n) : Prop := s.shutdown = true → s.pc ≠ .enterWait ∧ s.pc ≠ .waiting

section Shutdown

variable {s s' : Pool n}

theorem afterReaping_cases (named : Option (Slot n)) :
    afterReaping named ≠ .enterWait ∧ afterReaping named ≠ .waiting := by
  rcases named with _ | _ | _ <;> exact ⟨nofun, nofun⟩

theorem afterRestore_cases (i : Fin n) (sem : Sem) :
    afterRestore i sem ≠ .enterWait ∧ afterRestore i sem ≠ .waiting := by
  cases sem <;> exact ⟨nofun, nofun⟩

theorem Heeds.supervise (h : s.Heeds) {answer : SupervisorAnswer} (hstep : Supervises s answer s') :
    s'.Heeds := by
  intro hshutdown
  cases hstep with
  | blocked => exact h hshutdown
  | forked b hpc hpid =>
      rcases hpc with ⟨k, -, -, rfl, -⟩ | ⟨-, rfl, -⟩
      · exact ⟨nofun, nofun⟩
      · exact ⟨nofun, nofun⟩
  | forkFailed hpc hanswer =>
      rcases hpc with ⟨k, -, -, -, rfl⟩ | ⟨-, -, rfl⟩
      · exact ⟨nofun, nofun⟩
      · exact ⟨nofun, nofun⟩
  | goesOn hpc hflag => rw [hflag] at hshutdown; cases hshutdown
  | enterWait hpc => exact absurd hpc (h hshutdown).1
  | knows hpc => exact afterReaping_cases _
  | restored hpc hsem => exact afterRestore_cases _ _
  | posts hpc => exact afterRestore_cases _ _
  | started | reaps | stops | tests | sleeps | reapsLast => exact ⟨nofun, nofun⟩

theorem Heeds.next (h : s.Heeds) {event : PoolEvent} (hgap : s.OutsideGap event) : (s.next event).Heeds := by
  rcases next_cases s event with rfl | ⟨answer, -, hstep⟩ | hstep
  · have henter := hgap rfl
    intro _
    rw [Pool.next]
    split_ifs with hwaiting
    · exact ⟨nofun, nofun⟩
    · exact ⟨henter, hwaiting⟩
  · exact h.supervise hstep
  · generalize s.next event = s' at hstep
    cases hstep <;> exact h

end Shutdown

/-- **When a shutdown request is heeded.** In every run in which no `SIGTERM` is handled between the test of
`g_shutdown_requested` and the entry into `wait`, a request is never missed. -/
theorem shutdown_not_missed (events : List PoolEvent)
    (hgap : Along next OutsideGap (start : Pool n) events) : ¬Missed (run next (start : Pool n) events) := by
  have hstart : Heeds (start : Pool n) := fun h => nomatch h
  have hheeds := run_invariant_along Heeds (fun _ _ hgap h => h.next hgap) hgap hstart
  rintro ⟨hshutdown, hwaiting, -⟩
  exact (hheeds hshutdown).2 hwaiting

/-- One worker and the cache reader are started, and the parent goes to the entry of `wait`. -/
def startedPool : List PoolEvent :=
  [.supervise ⟨0, some 1, 0⟩, .supervise ⟨0, some 2, 0⟩, .supervise {}, .supervise {}]

/-- A signal during the wait ends it. -/
theorem shutdown_not_missed_waiting :
    ¬Missed (run next (start : Pool 1) (startedPool ++ [.supervise {}, .sigterm])) :=
  shutdown_not_missed _ ⟨nofun, nofun, nofun, nofun, nofun, fun _ => by decide, trivial⟩

/-- A signal just before the wait does not. -/
theorem gap_sigterm_missed : Missed (run next (start : Pool 1) (startedPool ++ [.sigterm, .supervise {}])) := by
  refine ⟨rfl, by decide, fun pid => ?_⟩
  have hchildren : (run next (start : Pool 1) (startedPool ++ [.sigterm, .supervise {}])).children =
      Function.update (Function.update (fun _ => none) 1 (some .reader)) 2 (some (.worker .accepting)) := rfl
  rw [hchildren, Function.update_apply, Function.update_apply]
  split_ifs <;> simp

end Pool
end KnxdFcgi
