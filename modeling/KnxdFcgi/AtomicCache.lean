import KnxdFcgi.CacheCrash
import KnxdFcgi.Simulation

/-! What the mutex of the shared cache is for: the processes see a cache whose calls take effect one after
the other. `AtomicCache` is that cache, as a journal to which a push appends and from which a query reads at
one moment; a wait has two such moments, at its beginning and at its end. The statements of `push`, `get`,
`get_delta` and `wait_for_new_data`, run by any number of processes in any order, show nothing that it does
not show, as long as no process dies between the first and the last store of a push. A push takes effect with
its first store, not with its last one: `position()` does not take the mutex and already sees it. -/

namespace KnxdFcgi

open Machine

/-- Where a process is in a call that takes effect at once. -/
inductive AtomicPc where
  | idle
  | called (op : CacheOp)
  /-- in a wait that began after so many pushes -/
  | waiting (before : Nat)
  | answered (result : CacheResult)
  | dead

structure AtomicCache (π : Type) where
  journal : List Push := []
  pcs : π → AtomicPc := fun _ => .idle

inductive AtomicEvent (π : Type) where
  | call (pid : π) (op : CacheOp)
  /-- the call takes effect, or the wait ends -/
  | act (pid : π) (now : UInt32)
  | leave (pid : π)
  /-- the call returns without having taken effect -/
  | refuse (pid : π)
  | die (pid : π)
  | position (pid : π)

/-- What can be seen of the processes from outside the cache. -/
inductive Observation (π : Type) where
  | called (pid : π) (op : CacheOp)
  | returned (pid : π) (result : CacheResult)
  | refused (pid : π)
  | position (pid : π) (index : UInt32)

namespace AtomicCache

variable {π : Type} [DecidableEq π]

def goto (t : AtomicCache π) (pid : π) (pc : AtomicPc) : AtomicCache π :=
  { t with pcs := Function.update t.pcs pid pc }

@[simp] theorem goto_journal (t : AtomicCache π) (pid : π) (pc : AtomicPc) : (t.goto pid pc).journal = t.journal :=
  rfl

@[simp] theorem goto_pcs_self (t : AtomicCache π) (pid : π) (pc : AtomicPc) : (t.goto pid pc).pcs pid = pc :=
  Function.update_self _ _ _

theorem goto_pcs_of_ne (t : AtomicCache π) {pid q : π} (hne : q ≠ pid) (pc : AtomicPc) :
    (t.goto pid pc).pcs q = t.pcs q :=
  Function.update_of_ne hne _ _

theorem goto_eq_self (t : AtomicCache π) (pid : π) : t.goto pid (t.pcs pid) = t := by
  rw [goto, Function.update_eq_self]

def journalAfter (t : AtomicCache π) : CacheOp → List Push
  | .push p => t.journal ++ [p]
  | _ => t.journal

/-- What a call has come to when it has taken effect. -/
def perform (t : AtomicCache π) (now : UInt32) : CacheOp → AtomicPc
  | .push _ => .answered .pushed
  | .get addr maxAgeSec =>
      .answered (.value (SharedGroupCache.get (SharedGroupCache.replay t.journal) addr maxAgeSec now))
  | .getDelta sincePos subscribed maxAgeSec =>
      .answered (.delta
        (SharedGroupCache.getDelta (SharedGroupCache.replay t.journal) sincePos subscribed maxAgeSec now))
  | .waitForNewData timeoutMs =>
      if timeoutMs ≤ 0 then .answered (.newData (0 < UInt32.ofNat t.journal.length))
      else .waiting t.journal.length

def next (t : AtomicCache π) : AtomicEvent π → AtomicCache π
  | .call pid op =>
      match t.pcs pid with
      | .idle => t.goto pid (.called op)
      | _ => t
  | .act pid now =>
      match t.pcs pid with
      | .called op => { t with journal := t.journalAfter op }.goto pid (t.perform now op)
      | .waiting before =>
          t.goto pid (.answered (.newData (UInt32.ofNat t.journal.length != UInt32.ofNat before)))
      | _ => t
  | .leave pid =>
      match t.pcs pid with
      | .answered _ => t.goto pid .idle
      | _ => t
  | .refuse pid =>
      match t.pcs pid with
      | .called _ => t.goto pid .idle
      | _ => t
  | .die pid => t.goto pid .dead
  | .position _ => t

def shows (t : AtomicCache π) : AtomicEvent π → List (Observation π)
  | .call pid op =>
      match t.pcs pid with
      | .idle => [.called pid op]
      | _ => []
  | .leave pid =>
      match t.pcs pid with
      | .answered result => [.returned pid result]
      | _ => []
  | .refuse pid =>
      match t.pcs pid with
      | .called _ => [.refused pid]
      | _ => []
  | .position pid => [.position pid (positionAfter t.journal.length)]
  | .act _ _ | .die _ => []

end AtomicCache

/-- A step of the processes, or the lock-free `position()` of one of them. -/
inductive CacheAction (π : Type) where
  | event (event : CacheEvent π)
  | position (pid : π)

namespace CacheSystem

variable {π : Type} [DecidableEq π]

def act (s : CacheSystem π) : CacheAction π → CacheSystem π
  | .event event => s.next event
  | .position _ => s

def shows (s : CacheSystem π) : CacheAction π → List (Observation π)
  | .event (.call pid op) => if ready (s.pcs pid) then [.called pid op] else []
  | .event (.step pid _) =>
      match s.pcs pid with
      | .lock _ => if s.mutex = .notRecoverable then [.refused pid] else []
      | .unlock .pushed => []
      | .unlock result => [.returned pid result]
      | .broadcast => [.returned pid .pushed]
      | _ => []
  | .event (.die _) => []
  | .position pid => [.position pid (SharedGroupCache.position s.data)]

/-- The events of the atomic cache that an action stands for. A call takes effect with the first statement of
its critical section, and a wait ends where it reads the generation for the last time. -/
def linearize (s : CacheSystem π) : CacheAction π → List (AtomicEvent π)
  | .event (.call pid op) => if ready (s.pcs pid) then [.call pid op] else []
  | .event (.step pid tick) =>
      match s.pcs pid with
      | .lock _ => if s.mutex = .notRecoverable then [.refuse pid] else []
      | .enter _ => [.act pid tick.now]
      | .waitTest genBefore timedOut =>
          if s.data.generation = genBefore ∧ timedOut = false ∧ tick.rc ≠ .failed then [] else [.act pid tick.now]
      | .reacquire _ rc =>
          match s.mutex with
          | .free => if rc = .failed then [.act pid tick.now] else []
          | .owned _ _ => []
          | .ownerDead | .notRecoverable => [.act pid tick.now]
      | .unlock .pushed => []
      | .unlock _ | .broadcast => [.leave pid]
      | _ => []
  | .event (.die pid) => [.die pid]
  | .position pid => [.position pid]

/-- Between the first and the last store of a push. -/
def midPush : CachePc → Bool
  | .storeEntry _ | .countEntry | .countGeneration => true
  | _ => false

/-- No process dies there. -/
def WholePushes (s : CacheSystem π) : CacheAction π → Prop
  | .event (.die pid) => midPush (s.pcs pid) = false
  | _ => True

/-- What the mutex must be for a process that has come so far. A wait may end without the mutex, when that
is lost. -/
def Holds (pid : π) (m : RobustMutex π) : CachePc → Prop
  | .consistent _ => m = .owned pid true
  | .enter _ | .storeEntry _ | .countEntry | .countGeneration | .waitTest _ _ => m = .owned pid false
  | .unlock (.newData _) => True
  | .unlock _ => m = .owned pid false
  | _ => True

/-- The process is in a critical section: it may read and change the data. -/
def inside : CachePc → Bool
  | .consistent _ | .enter _ | .storeEntry _ | .countEntry | .countGeneration | .waitTest _ _ => true
  | _ => false

/-- Whoever is in a critical section has the mutex. -/
def Locked (s : CacheSystem π) : Prop := ∀ pid, Holds pid s.mutex (s.pcs pid)

end CacheSystem

namespace RobustMutex

variable {π : Type} [DecidableEq π] {pid : π} {m m' : RobustMutex π}

/-- What a process does to the mutex leaves it to any other owner. -/
def Spares (pid : π) (m m' : RobustMutex π) : Prop :=
  ∀ owner inconsistent, owner ≠ pid → m = owned owner inconsistent → m' = owned owner inconsistent

omit [DecidableEq π] in
theorem Spares.refl (pid : π) (m : RobustMutex π) : Spares pid m m := fun _ _ _ h => h

omit [DecidableEq π] in
theorem spares_lock {result : LockResult} (h : m.lock pid = some (result, m')) : Spares pid m m' := by
  rintro owner inconsistent - rfl
  cases h

theorem spares_unlock (pid : π) (m : RobustMutex π) : Spares pid m (m.unlock pid) := by
  rintro owner inconsistent hne rfl
  rw [unlock, if_neg hne]

theorem spares_makeConsistent (pid : π) (m : RobustMutex π) : Spares pid m (m.makeConsistent pid) := by
  rintro owner inconsistent hne rfl
  simp [makeConsistent, hne]

theorem spares_die (pid : π) (m : RobustMutex π) : Spares pid m (m.die pid) := by
  rintro owner inconsistent hne rfl
  rw [die, if_neg hne]

end RobustMutex

namespace CacheSystem

open RobustMutex

variable {π : Type} [DecidableEq π] {s : CacheSystem π} {t : AtomicCache π} {pid q : π} {m : RobustMutex π}

omit [DecidableEq π] in
theorem Holds.of_spares {pc : CachePc} (h : Holds q s.mutex pc) (hne : q ≠ pid) (hspares : Spares pid s.mutex m) :
    Holds q m pc := by
  unfold Holds at h ⊢
  split at h
  case h_1 => exact hspares q true hne h
  case h_2 | h_3 | h_4 | h_5 | h_6 => exact hspares q false hne h
  case h_7 => trivial
  case h_8 => exact hspares q false hne h
  case h_9 => trivial

omit [DecidableEq π] in
theorem Holds.owner {pc : CachePc} (h : Holds q m pc) (hmid : midPush pc = true) : m = .owned q false := by
  cases pc with
  | storeEntry entry | countEntry | countGeneration => exact h
  | _ => cases hmid

omit [DecidableEq π] in
theorem Holds.owned {pc : CachePc} (h : Holds q m pc) (hinside : inside pc = true) :
    ∃ inconsistent, m = .owned q inconsistent := by
  cases pc with
  | consistent op | enter op | storeEntry entry | countEntry | countGeneration | waitTest genBefore timedOut =>
      exact ⟨_, h⟩
  | _ => cases hinside

theorem Locked.goto {d : SharedCacheData} {pc : CachePc} (h : s.Locked) (hspares : Spares pid s.mutex m)
    (hpc : Holds pid m pc) : Locked (CacheSystem.goto ⟨m, d, s.pcs⟩ pid pc) := by
  intro q
  by_cases hq : q = pid
  · subst hq
    rw [goto_pcs_self]
    exact hpc
  · rw [goto_pcs_of_ne _ hq]
    exact (h q).of_spares hq hspares

/-! ### The simulation -/

/-- What a process is doing, in terms of calls that take effect at once. -/
def PcOk (pc : CachePc) (place : AtomicPc) : Prop :=
  match pc with
  | .lock op | .consistent op | .enter op => place = .called op
  | .storeEntry _ | .countEntry | .countGeneration | .broadcast => place = .answered .pushed
  | .waitTest genBefore _ | .asleep genBefore | .reacquire genBefore _ =>
      ∃ before, place = .waiting before ∧ genBefore = UInt32.ofNat before
  | .unlock result => place = .answered result
  | .idle | .returned _ | .refused _ => place = .idle
  | .dead => place = .dead

/-- The data are those of the journal, or on the way there. -/
def DataOk (s : CacheSystem π) (journal : List Push) : Prop :=
  (∀ pid, midPush (s.pcs pid) = false) ∧ s.data = SharedGroupCache.replay journal ∨
    ∃ pid before p, midPush (s.pcs pid) = true ∧ journal = before ++ [p] ∧
      Pushing (SharedGroupCache.replay before) p (s.pcs pid) s.data

structure Sim (s : CacheSystem π) (t : AtomicCache π) : Prop where
  locked : s.Locked
  pcs : ∀ pid, PcOk (s.pcs pid) (t.pcs pid)
  data : s.DataOk t.journal

omit [DecidableEq π] in
/-- The position has moved from the first store on. -/
theorem DataOk.position {journal : List Push} (h : s.DataOk journal) :
    SharedGroupCache.position s.data = positionAfter journal.length := by
  rcases h with ⟨-, hdata⟩ | ⟨pid, before, p, hmid, rfl, hpushing⟩
  · rw [hdata, SharedGroupCache.replay_position]
  · have hne : s.pcs pid ≠ .enter (.push p) ∧ s.pcs pid ≠ .unlock .pushed := by
      constructor <;> intro hpc <;> rw [hpc] at hmid <;> cases hmid
    have hraw := (hpushing.between hne.1 hne.2).1
    rw [SharedGroupCache.position, hraw, SharedGroupCache.replay_rawPosition, wrappedPosition_succ,
      List.length_append, List.length_singleton]

omit [DecidableEq π] in
/-- While a process has the mutex, nobody else is between stores. -/
theorem Locked.midPush_of_ne (h : s.Locked) {inconsistent : Bool} (hm : s.mutex = .owned pid inconsistent)
    (hne : q ≠ pid) : midPush (s.pcs q) = false := by
  by_contra hmid
  have howner := (h q).owner (Bool.not_eq_false _ ▸ hmid)
  rw [hm] at howner
  cases howner
  exact hne rfl

omit [DecidableEq π] in
theorem Locked.midPush_of_unowned (h : s.Locked) (hm : ∀ q, s.mutex ≠ .owned q false) (q : π) :
    midPush (s.pcs q) = false := by
  by_contra hmid
  exact hm q ((h q).owner (Bool.not_eq_false _ ▸ hmid))

omit [DecidableEq π] in
/-- Outside of pushes the data are those of the journal. -/
theorem Sim.data_eq (h : s.Sim t) (hnone : ∀ q, midPush (s.pcs q) = false) :
    s.data = SharedGroupCache.replay t.journal := by
  rcases h.data with ⟨-, hdata⟩ | ⟨q, before, p, hq, -, -⟩
  · exact hdata
  · rw [hnone q] at hq
    cases hq

theorem Sim.data_of_owner (h : s.Sim t) {inconsistent : Bool} (hm : s.mutex = .owned pid inconsistent)
    (hmid : midPush (s.pcs pid) = false) : s.data = SharedGroupCache.replay t.journal := by
  refine h.data_eq fun q => ?_
  by_cases hq : q = pid
  · rwa [hq]
  · exact h.locked.midPush_of_ne hm hq

theorem Sim.pcs_goto (h : s.Sim t) {d : SharedCacheData} {journal : List Push} {pc : CachePc} {place : AtomicPc}
    (hpc : PcOk pc place) (q : π) :
    PcOk ((CacheSystem.goto ⟨m, d, s.pcs⟩ pid pc).pcs q) ((AtomicCache.goto ⟨journal, t.pcs⟩ pid place).pcs q) := by
  by_cases hq : q = pid
  · subst hq
    rw [goto_pcs_self, AtomicCache.goto_pcs_self]
    exact hpc
  · rw [goto_pcs_of_ne _ hq, AtomicCache.goto_pcs_of_ne _ hq]
    exact h.pcs q

/-- A move of one process outside a push. -/
theorem Sim.goto (h : s.Sim t) {pc : CachePc} {place : AtomicPc} (hspares : Spares pid s.mutex m)
    (hholds : Holds pid m pc) (hpc : PcOk pc place) (hold : midPush (s.pcs pid) = false)
    (hnew : midPush pc = false) :
    Sim (CacheSystem.goto ⟨m, s.data, s.pcs⟩ pid pc) (t.goto pid place) where
  locked := h.locked.goto hspares hholds
  pcs := h.pcs_goto hpc
  data := by
    rcases h.data with ⟨hmid, hdata⟩ | ⟨q, before, p, hq, hjournal, hpushing⟩
    · refine Or.inl ⟨fun q => ?_, hdata⟩
      by_cases hq : q = pid
      · subst hq
        rwa [goto_pcs_self]
      · rw [goto_pcs_of_ne _ hq]
        exact hmid q
    · have hne : q ≠ pid := by
        rintro rfl
        rw [hq] at hold
        cases hold
      exact Or.inr ⟨q, before, p, by rwa [goto_pcs_of_ne _ hne], hjournal, by rwa [goto_pcs_of_ne _ hne]⟩

/-- The same without a move of the atomic cache. -/
theorem Sim.stay (h : s.Sim t) {pc : CachePc} (hspares : Spares pid s.mutex m) (hholds : Holds pid m pc)
    (hpc : PcOk pc (t.pcs pid)) (hold : midPush (s.pcs pid) = false) (hnew : midPush pc = false) :
    Sim (CacheSystem.goto ⟨m, s.data, s.pcs⟩ pid pc) t := by
  have hgoto := h.goto hspares hholds hpc hold hnew
  rwa [AtomicCache.goto_eq_self] at hgoto

/-- The first statement of a push, with which it takes effect. -/
theorem Sim.enter_push (h : s.Sim t) {p : Push} (hpc : s.pcs pid = .enter (.push p)) (tick : CacheTick) :
    Sim (s.step pid tick) (t.next (.act pid tick.now)) := by
  have hplace := h.pcs pid
  have hm := h.locked pid
  rw [hpc] at hplace hm
  have hdata : s.data = SharedGroupCache.replay t.journal :=
    h.data_of_owner hm (by rw [hpc]; rfl)
  have hpcs := h.pcs
  simp only [PcOk] at hplace
  simp only [step, hpc, CacheSystem.enter, AtomicCache.next, hplace]
  refine ⟨h.locked.goto (Spares.refl pid _) hm, h.pcs_goto rfl, Or.inr ⟨pid, t.journal, p, ?_, rfl, ?_⟩⟩
  · rw [goto_pcs_self]
    rfl
  · rw [goto_pcs_self, goto_data, hdata]
    exact .storeEntry

/-- The statements of a push after the first one are moves of the process alone, without the mutex. -/
theorem step_midPush (hmid : midPush (s.pcs pid) = true) (tick : CacheTick) :
    ∃ d pc, s.step pid tick = CacheSystem.goto ⟨s.mutex, d, s.pcs⟩ pid pc ∧
      (midPush pc = true ∨ pc = .unlock .pushed) := by
  cases hpc : s.pcs pid with
  | storeEntry entry =>
      simp only [step, hpc]
      split
      · exact ⟨_, _, rfl, Or.inl rfl⟩
      · refine ⟨_, _, rfl, Or.inl ?_⟩
        split <;> rfl
  | countEntry =>
      simp only [step, hpc]
      exact ⟨_, _, rfl, Or.inl rfl⟩
  | countGeneration =>
      simp only [step, hpc]
      exact ⟨_, _, rfl, Or.inr rfl⟩
  | _ =>
      rw [hpc] at hmid
      cases hmid

/-- The rest of a push shows nothing. -/
theorem Sim.step_push (h : s.Sim t) (hmid : midPush (s.pcs pid) = true) (tick : CacheTick) :
    Sim (s.step pid tick) t := by
  have hm : s.mutex = .owned pid false := (h.locked pid).owner hmid
  have hplace : t.pcs pid = .answered .pushed := by
    have hpcok := h.pcs pid
    cases hpc : s.pcs pid <;> rw [hpc] at hmid hpcok <;> first | exact hpcok | cases hmid
  obtain ⟨before, p, hjournal, hpushing⟩ : ∃ before p, t.journal = before ++ [p] ∧
      Pushing (SharedGroupCache.replay before) p (s.pcs pid) s.data := by
    rcases h.data with ⟨hnone, -⟩ | ⟨q, before, p, hq, hjournal, hpushing⟩
    · rw [hnone pid] at hmid
      cases hmid
    · by_cases hpid : q = pid
      · exact ⟨before, p, hjournal, hpid ▸ hpushing⟩
      · rw [h.locked.midPush_of_ne hm hpid] at hq
        cases hq
  have hstep : PushingOrDone (SharedGroupCache.replay before) p pid (s.step pid tick) :=
    PushingOrDone.step (Or.inl ⟨hm, hpushing⟩)
  obtain ⟨d, pc, heq, hpc⟩ := step_midPush hmid tick
  rw [heq] at hstep ⊢
  have hpushing' : Pushing (SharedGroupCache.replay before) p pc d := by
    rcases hstep with ⟨-, hrest⟩ | ⟨hfree, -⟩
    · rwa [goto_pcs_self] at hrest
    · rw [goto_mutex, hm] at hfree
      cases hfree
  have hself : t = AtomicCache.goto ⟨t.journal, t.pcs⟩ pid (.answered .pushed) := by
    rw [← hplace]
    exact (t.goto_eq_self pid).symm
  rw [hself]
  rcases hpc with hpc | rfl
  · have hholds : Holds pid s.mutex pc ∧ PcOk pc (.answered .pushed) := by
      cases pc with
      | storeEntry entry | countEntry | countGeneration => exact ⟨hm, rfl⟩
      | _ => cases hpc
    refine ⟨h.locked.goto (Spares.refl pid _) hholds.1, h.pcs_goto hholds.2, Or.inr ⟨pid, before, p, ?_, hjournal, ?_⟩⟩
    · rwa [goto_pcs_self]
    · rwa [goto_pcs_self]
  · refine ⟨h.locked.goto (Spares.refl pid _) hm, h.pcs_goto rfl, Or.inl ⟨fun q => ?_, ?_⟩⟩
    · by_cases hq : q = pid
      · subst hq
        rw [goto_pcs_self]
        rfl
      · rw [goto_pcs_of_ne _ hq]
        exact h.locked.midPush_of_ne hm hq
    · rw [AtomicCache.goto_journal, hjournal, SharedGroupCache.replay_snoc]
      cases hpushing'
      rfl

omit [DecidableEq π] in
/-- A broadcast moves sleepers only. -/
theorem Sim.wakeAll (h : s.Sim t) : Sim { s with pcs := fun q => wake (s.pcs q) } t where
  locked q := by
    have hholds := h.locked q
    cases hpc : s.pcs q <;> simp only [hpc, wake] at hholds ⊢ <;> exact hholds
  pcs q := by
    have hpcs := h.pcs q
    cases hpc : s.pcs q <;> simp only [hpc, wake] at hpcs ⊢ <;> exact hpcs
  data := by
    have hmid : ∀ q, midPush (wake (s.pcs q)) = midPush (s.pcs q) := by
      intro q
      cases s.pcs q <;> rfl
    have hsame : ∀ q, midPush (s.pcs q) = true → wake (s.pcs q) = s.pcs q := by
      intro q hq
      cases hpc : s.pcs q <;> rw [hpc] at hq <;> first | rfl | cases hq
    rcases h.data with ⟨hnone, hdata⟩ | ⟨q, before, p, hq, hjournal, hpushing⟩
    · exact Or.inl ⟨fun q => (hmid q).trans (hnone q), hdata⟩
    · rw [← hsame q hq] at hpushing
      exact Or.inr ⟨q, before, p, (hmid q).trans hq, hjournal, hpushing⟩

/-- The first statement of a critical section, with which a call takes effect. -/
theorem Sim.enter (h : s.Sim t) {op : CacheOp} (hpc : s.pcs pid = .enter op) (tick : CacheTick) :
    Sim (s.step pid tick) (t.next (.act pid tick.now)) := by
  have hplace : t.pcs pid = .called op := by
    have hpcok := h.pcs pid
    rwa [hpc] at hpcok
  have hm : s.mutex = .owned pid false := by
    have hholds := h.locked pid
    rwa [hpc] at hholds
  have hmid : midPush (s.pcs pid) = false := by rw [hpc]; rfl
  have hdata := h.data_of_owner hm hmid
  have hgeneration : s.data.generation = UInt32.ofNat t.journal.length := by
    rw [hdata, SharedGroupCache.replay_generation]
  cases op with
  | push p => exact h.enter_push hpc tick
  | get addr maxAgeSec =>
      simp only [step, hpc, CacheSystem.enter, AtomicCache.next, hplace, AtomicCache.perform, ← hdata]
      exact h.goto (Spares.refl pid _) hm rfl hmid rfl
  | getDelta sincePos subscribed maxAgeSec =>
      simp only [step, hpc, CacheSystem.enter, AtomicCache.next, hplace, AtomicCache.perform, ← hdata]
      exact h.goto (Spares.refl pid _) hm rfl hmid rfl
  | waitForNewData timeoutMs =>
      simp only [step, hpc, CacheSystem.enter, AtomicCache.next, hplace, AtomicCache.perform, hgeneration]
      split_ifs
      · exact h.goto (Spares.refl pid _) trivial rfl hmid rfl
      · exact h.goto (Spares.refl pid _) hm ⟨_, rfl, rfl⟩ hmid rfl

/-- The end of a wait, with or without the mutex: nobody is between stores. -/
theorem Sim.endWait (h : s.Sim t) {genBefore : UInt32} (now : UInt32)
    (hplace : ∃ before, t.pcs pid = .waiting before ∧ genBefore = UInt32.ofNat before)
    (hspares : Spares pid s.mutex m) (hdata : s.data = SharedGroupCache.replay t.journal)
    (hmid : midPush (s.pcs pid) = false) :
    Sim (CacheSystem.endWait ⟨m, s.data, s.pcs⟩ pid genBefore) (t.next (.act pid now)) := by
  obtain ⟨before, hwaiting, rfl⟩ := hplace
  have hgeneration : s.data.generation = UInt32.ofNat t.journal.length := by
    rw [hdata, SharedGroupCache.replay_generation]
  simp only [CacheSystem.endWait, AtomicCache.next, hwaiting, hgeneration]
  exact h.goto hspares trivial rfl hmid rfl

/-- The action is answered by the events it stands for. -/
def Linearized (s : CacheSystem π) (t : AtomicCache π) (action : CacheAction π) : Prop :=
  AnsweredBy act shows AtomicCache.next AtomicCache.shows Sim s t action (s.linearize action)

theorem Sim.linearized_lock (h : s.Sim t) {op : CacheOp} (hpc : s.pcs pid = .lock op) (tick : CacheTick) :
    s.Linearized t (.event (.step pid tick)) := by
  have hplace : t.pcs pid = .called op := by
    have hpcok := h.pcs pid
    rwa [hpc] at hpcok
  have hmid : midPush (s.pcs pid) = false := by rw [hpc]; rfl
  cases hm : s.mutex with
  | free | ownerDead =>
      refine .silent (by simp [linearize, hpc, hm]) (by simp [shows, hpc, hm]) ?_
      simp only [act, CacheSystem.next, step, hpc, hm, RobustMutex.lock]
      exact h.stay (spares_lock (by rw [hm]; rfl)) rfl hplace hmid rfl
  | owned owner inconsistent =>
      refine .silent (by simp [linearize, hpc, hm]) (by simp [shows, hpc, hm]) ?_
      simp only [act, CacheSystem.next, step, hpc, hm, RobustMutex.lock]
      exact h
  | notRecoverable =>
      refine .one (.refuse pid) (by simp only [linearize, hpc, hm, if_true])
        (by simp [shows, hpc, hm, AtomicCache.shows, hplace]) ?_
      simp only [act, CacheSystem.next, step, hpc, hm, RobustMutex.lock, AtomicCache.next, hplace]
      exact h.goto (Spares.refl pid _) trivial rfl hmid rfl

theorem Sim.linearized_waitTest (h : s.Sim t) {genBefore : UInt32} {timedOut : Bool}
    (hpc : s.pcs pid = .waitTest genBefore timedOut) (tick : CacheTick) :
    s.Linearized t (.event (.step pid tick)) := by
  have hplace := h.pcs pid
  have hm := h.locked pid
  rw [hpc] at hplace hm
  have hmid : midPush (s.pcs pid) = false := by rw [hpc]; rfl
  have hends : Sim (s.endWait pid genBefore) (t.next (.act pid tick.now)) :=
    h.endWait tick.now hplace (Spares.refl pid _) (h.data_of_owner hm hmid) hmid
  by_cases htest : s.data.generation = genBefore ∧ timedOut = false
  · by_cases hfailed : tick.rc = .failed
    · refine .one (.act pid tick.now) (by simp only [linearize, hpc, hfailed, ne_eq, not_true, and_false, if_false])
        (by simp [shows, hpc, AtomicCache.shows]) ?_
      simp only [act, CacheSystem.next, step, hpc, if_pos htest, if_pos hfailed]
      exact hends
    · refine .silent (by simp [linearize, hpc, htest, hfailed]) (by simp [shows, hpc]) ?_
      simp only [act, CacheSystem.next, step, hpc, if_pos htest, if_neg hfailed]
      exact h.stay (spares_unlock pid _) trivial hplace hmid rfl
  · have hover : ¬(s.data.generation = genBefore ∧ timedOut = false ∧ tick.rc ≠ .failed) :=
      fun hall => htest ⟨hall.1, hall.2.1⟩
    refine .one (.act pid tick.now) (by simp only [linearize, hpc, if_neg hover])
      (by simp [shows, hpc, AtomicCache.shows]) ?_
    simp only [act, CacheSystem.next, step, hpc, if_neg htest]
    exact hends

theorem Sim.linearized_reacquire (h : s.Sim t) {genBefore : UInt32} {rc : CondResult}
    (hpc : s.pcs pid = .reacquire genBefore rc) (tick : CacheTick) :
    s.Linearized t (.event (.step pid tick)) := by
  have hplace := h.pcs pid
  rw [hpc] at hplace
  have hmid : midPush (s.pcs pid) = false := by rw [hpc]; rfl
  have hends : ∀ m, (∀ q, s.mutex ≠ .owned q false) → Spares pid s.mutex m →
      Sim (CacheSystem.endWait ⟨m, s.data, s.pcs⟩ pid genBefore) (t.next (.act pid tick.now)) :=
    fun m hunowned hspares =>
      h.endWait tick.now hplace hspares (h.data_eq (h.locked.midPush_of_unowned hunowned)) hmid
  cases hm : s.mutex with
  | free =>
      by_cases hfailed : rc = .failed
      · refine .one (.act pid tick.now) (by simp only [linearize, hpc, hm, if_pos hfailed])
          (by simp [shows, hpc, AtomicCache.shows]) ?_
        simp only [act, CacheSystem.next, step, hpc, hm, RobustMutex.lock, if_pos hfailed]
        exact hends _ (by simp [hm]) (spares_lock (by rw [hm]; rfl))
      · refine .silent (by simp only [linearize, hpc, hm, if_neg hfailed]) (by simp [shows, hpc]) ?_
        simp only [act, CacheSystem.next, step, hpc, hm, RobustMutex.lock, if_neg hfailed]
        exact h.stay (spares_lock (by rw [hm]; rfl)) rfl hplace hmid rfl
  | owned owner inconsistent =>
      refine .silent (by simp only [linearize, hpc, hm]) (by simp [shows, hpc]) ?_
      simp only [act, CacheSystem.next, step, hpc, hm, RobustMutex.lock]
      exact h
  | ownerDead =>
      refine .one (.act pid tick.now) (by simp only [linearize, hpc, hm]) (by simp [shows, hpc, AtomicCache.shows]) ?_
      simp only [act, CacheSystem.next, step, hpc, hm, RobustMutex.lock]
      exact hends _ (by simp [hm]) (spares_lock (by rw [hm]; rfl))
  | notRecoverable =>
      refine .one (.act pid tick.now) (by simp only [linearize, hpc, hm]) (by simp [shows, hpc, AtomicCache.shows]) ?_
      simp only [act, CacheSystem.next, step, hpc, hm, RobustMutex.lock]
      exact hends s.mutex (by simp [hm]) (Spares.refl pid _)

theorem Sim.linearized_unlock (h : s.Sim t) {result : CacheResult} (hpc : s.pcs pid = .unlock result)
    (tick : CacheTick) : s.Linearized t (.event (.step pid tick)) := by
  have hplace : t.pcs pid = .answered result := by
    have hpcok := h.pcs pid
    rwa [hpc] at hpcok
  have hmid : midPush (s.pcs pid) = false := by rw [hpc]; rfl
  cases result with
  | pushed =>
      refine .silent (by simp only [linearize, hpc]) (by simp only [shows, hpc]) ?_
      simp only [act, CacheSystem.next, step, hpc]
      exact h.stay (spares_unlock pid _) trivial hplace hmid rfl
  | value result | delta result | newData result =>
      refine .one (.leave pid) (by simp only [linearize, hpc]) (by simp only [shows, hpc, AtomicCache.shows, hplace]) ?_
      simp only [act, CacheSystem.next, step, hpc, AtomicCache.next, hplace]
      exact h.goto (spares_unlock pid _) trivial rfl hmid rfl

theorem Sim.linearized_step (h : s.Sim t) (pid : π) (tick : CacheTick) :
    s.Linearized t (.event (.step pid tick)) := by
  have hplace := h.pcs pid
  cases hpc : s.pcs pid with
  | idle | returned result | refused op | dead =>
      refine .silent (by simp only [linearize, hpc]) (by simp only [shows, hpc]) ?_
      simp only [act, CacheSystem.next, step, hpc]
      exact h
  | lock op => exact h.linearized_lock hpc tick
  | consistent op =>
      have hm := h.locked pid
      rw [hpc] at hplace hm
      refine .silent (by simp only [linearize, hpc]) (by simp only [shows, hpc]) ?_
      simp only [act, CacheSystem.next, step, hpc]
      refine h.stay (spares_makeConsistent pid _) ?_ hplace (by rw [hpc]; rfl) rfl
      rw [hm]
      simp [Holds, RobustMutex.makeConsistent]
  | enter op =>
      exact .one (.act pid tick.now) (by simp only [linearize, hpc]) (by simp only [shows, hpc, AtomicCache.shows])
        (h.enter hpc tick)
  | storeEntry entry | countEntry | countGeneration =>
      exact .silent (by simp only [linearize, hpc]) (by simp only [shows, hpc]) (h.step_push (by rw [hpc]; rfl) tick)
  | waitTest genBefore timedOut => exact h.linearized_waitTest hpc tick
  | asleep genBefore =>
      rw [hpc] at hplace
      refine .silent (by simp only [linearize, hpc]) (by simp only [shows, hpc]) ?_
      simp only [act, CacheSystem.next, step, hpc]
      exact h.stay (Spares.refl pid _) trivial hplace (by rw [hpc]; rfl) rfl
  | reacquire genBefore rc => exact h.linearized_reacquire hpc tick
  | unlock result => exact h.linearized_unlock hpc tick
  | broadcast =>
      rw [hpc] at hplace
      simp only [PcOk] at hplace
      refine .one (.leave pid) (by simp only [linearize, hpc]) (by simp only [shows, hpc, AtomicCache.shows, hplace]) ?_
      simp only [act, CacheSystem.next, step, hpc, AtomicCache.next, hplace]
      exact h.wakeAll.goto (Spares.refl pid _) trivial rfl (by simp only [hpc, wake]; rfl) rfl

/-- Every action of the processes is one of the atomic cache, or shows nothing. -/
theorem Sim.linearized (h : s.Sim t) {action : CacheAction π} (hwhole : s.WholePushes action) :
    s.Linearized t action := by
  cases action with
  | position pid =>
      refine .one (.position pid) rfl ?_ h
      rw [shows, AtomicCache.shows, h.data.position]
  | event event =>
      cases event with
      | step pid tick => exact h.linearized_step pid tick
      | die pid => exact .one (.die pid) rfl rfl (h.goto (spares_die pid _) trivial rfl hwhole rfl)
      | call pid op =>
          by_cases hready : ready (s.pcs pid) = true
          · have hplace : t.pcs pid = .idle := by
              have hpcok := h.pcs pid
              cases hpc : s.pcs pid <;> rw [hpc] at hready hpcok <;> first | exact hpcok | cases hready
            have hmid : midPush (s.pcs pid) = false := by
              cases hpc : s.pcs pid <;> rw [hpc] at hready <;> first | rfl | cases hready
            refine .one (.call pid op) (by simp only [linearize, if_pos hready])
              (by simp only [shows, if_pos hready, AtomicCache.shows, hplace]) ?_
            simp only [act, CacheSystem.next, if_pos hready, AtomicCache.next, hplace]
            exact h.goto (Spares.refl pid _) trivial rfl hmid rfl
          · refine .silent (by simp only [linearize, if_neg hready]) (by simp only [shows, if_neg hready]) ?_
            simp only [act, CacheSystem.next, if_neg hready]
            exact h

omit [DecidableEq π] in
theorem start_sim : Sim (start : CacheSystem π) {} where
  locked _ := trivial
  pcs _ := rfl
  data := Or.inl ⟨fun _ => rfl, rfl⟩

/-- A run of the processes is a run of the atomic cache. -/
theorem exists_run_sim {actions : List (CacheAction π)}
    (hwhole : Along act WholePushes (start : CacheSystem π) actions) :
    ∃ events : List (AtomicEvent π), Sim (run act start actions) (run AtomicCache.next {} events) ∧
      trace AtomicCache.next AtomicCache.shows {} events = trace act shows start actions := by
  have hanswers : ∀ (s : CacheSystem π) (t : AtomicCache π) (action : CacheAction π), s.WholePushes action →
      s.Sim t → ∃ events, AnsweredBy act shows AtomicCache.next AtomicCache.shows Sim s t action events :=
    fun s _ action hwhole h => ⟨s.linearize action, h.linearized hwhole⟩
  exact exists_run_of_answeredBy hanswers hwhole start_sim

/-- **The shared cache is linearizable.** Any number of processes that call `push`, `get`, `get_delta`,
`wait_for_new_data` and `position()`, with their statements in any order, see what they would see of a cache
whose calls take effect one at a time, each between its call and its return: there is a run of `AtomicCache`
with the same calls and the same answers in the same order. No two processes are in their critical sections
at once, and whenever no push is under way the data are those of the journal of that run. Processes may die,
but not between the first and the last store of a push. -/
theorem cache_linearizable (actions : List (CacheAction π))
    (hwhole : Along act WholePushes (start : CacheSystem π) actions) :
    (∃ events : List (AtomicEvent π),
      trace AtomicCache.next AtomicCache.shows {} events = trace act shows start actions ∧
      ((∀ pid, midPush ((run act start actions).pcs pid) = false) →
        (run act start actions).data =
          SharedGroupCache.replay (run AtomicCache.next ({} : AtomicCache π) events).journal)) ∧
    ∀ pid q, inside ((run act start actions).pcs pid) = true → inside ((run act start actions).pcs q) = true →
      pid = q := by
  obtain ⟨events, hsim, htrace⟩ := exists_run_sim hwhole
  refine ⟨⟨events, htrace, hsim.data_eq⟩, fun pid q hpid hq => ?_⟩
  obtain ⟨inconsistent, howner⟩ := (hsim.locked pid).owned hpid
  obtain ⟨inconsistent', howner'⟩ := (hsim.locked q).owned hq
  cases howner.symm.trans howner'
  rfl

/-- A get is called while a push is between its stores, where `position()` already sees the push. -/
def getDuringPush : List (CacheAction Bool) :=
  [.event (.call true (.push ⟨1, [0x2a], 0⟩)), .event (.step true {}), .event (.step true {}), .position false,
    .event (.call false (.get 1 (-1))), .event (.step false {}), .event (.step true {}), .event (.step true {}),
    .event (.step true {}), .event (.step true {}), .event (.step false {}), .event (.step false {}),
    .event (.step false {}), .event (.step true {}), .event (.die true)]

/-- The get finds the value of the push. -/
theorem cache_linearizable_getDuringPush :
    ∃ events : List (AtomicEvent Bool), trace AtomicCache.next AtomicCache.shows {} events =
      [.called true (.push ⟨1, [0x2a], 0⟩), .position false 1, .called false (.get 1 (-1)),
        .returned false (.value (some [0x2a])), .returned true .pushed] := by
  obtain ⟨⟨events, htrace, -⟩, -⟩ := cache_linearizable getDuringPush
    ⟨trivial, trivial, trivial, trivial, trivial, trivial, trivial, trivial, trivial, trivial, trivial, trivial,
      trivial, trivial, (rfl : midPush _ = false), trivial⟩
  exact ⟨events, htrace⟩

end CacheSystem
end KnxdFcgi
