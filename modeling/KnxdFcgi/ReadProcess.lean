import KnxdFcgi.AtomicCache
import KnxdFcgi.CacheWakeup
import KnxdFcgi.ReadIndex

/-! `ReadHandler::handle` as one of the processes that share the cache. Here the handler calls the cache and
goes on with what the call returns, while the statements of its calls and those of all other processes come in
any order; in `ReadSystem` each call is a step of its own and a push an event of its own. Every answer of this
system is one of that system, so what is proved of the answers there holds here: the handler's steps are the
moments at which its calls take effect. -/

namespace KnxdFcgi

open Machine

namespace Reader

/-- The call of the cache that comes next, where it is one that takes the mutex. -/
def call (req : ReadRequest) (r : Reader) : Option CacheOp :=
  match r.pc with
  | .get (addr :: _) => some (.get addr req.maxAgeSec)
  | .enterWait timeoutMs => some (.waitForNewData timeoutMs)
  | .getDelta => some (.getDelta r.lastpos req.eibAddrs req.maxAgeSec)
  | .get [] | .groupReads | .loopHead | .condWait _ | .done => none

/-- What the handler does with the result of its call. -/
def resume (r : Reader) (result : CacheResult) : Reader :=
  match r.pc, result with
  | .get (addr :: todo), .value (some value) => { r with pc := .get todo, values := r.values ++ [(addr, value)] }
  | .get (_ :: todo), .value none => { r with pc := .get todo }
  | .enterWait _, .newData newData => r.afterWait newData
  | .getDelta, .delta delta =>
      let values := r.values ++ delta.values.filter (!r.alreadyWritten ·.1)
      { r with
        pc := if values = [] then .loopHead else .done
        values := values
        lastpos := delta.position }
  | _, _ => r

end Reader

/-- What the caller gets when the mutex could not be locked. -/
def CacheOp.refusal : CacheOp → CacheResult
  | .push _ => .pushed
  | .get _ _ => .value none
  | .getDelta _ _ _ => .delta {}
  | .waitForNewData _ => .newData false

/-- The processes, with the variables of the handler that one of them runs; `calling` while it is in a call
of the cache. -/
structure ReadProcess (π : Type) where
  sys : CacheSystem π
  reader : Reader
  calling : Bool

inductive ProcessEvent (π : Type) where
  /-- of another process, or a statement of the handler's own call -/
  | cache (event : CacheEvent π)
  /-- a statement of the handler outside its calls -/
  | handle (tick : Tick)

namespace ReadProcess

variable {π : Type} [DecidableEq π]

def next (config : ReadConfig) (req : ReadRequest) (me : π) (c : ReadProcess π) : ProcessEvent π → ReadProcess π
  | .cache event => { c with sys := c.sys.next event }
  | .handle tick =>
      if c.calling then
        match c.sys.pcs me with
        | .returned result => { c with reader := c.reader.resume result, calling := false }
        | .refused op => { c with reader := c.reader.resume op.refusal, calling := false }
        | _ => c
      else
        match c.reader.call req with
        | some op => { c with sys := c.sys.next (.call me op), calling := true }
        | none => { c with reader := c.reader.step config req c.sys.data tick }

/-- The handler begins. -/
def start (req : ReadRequest) (sys : CacheSystem π) : ReadProcess π := ⟨sys, Reader.start req, false⟩

/-- The handler makes its own calls and lives on, its calls are not refused, and no other process dies between
the first and the last store of a push. -/
def Proper (me : π) (c : ReadProcess π) : ProcessEvent π → Prop
  | .cache (.call pid _) => pid ≠ me
  | .cache (.die pid) => pid ≠ me ∧ CacheSystem.midPush (c.sys.pcs pid) = false
  | .cache (.step pid tick) => pid = me → ∀ op, (c.sys.step me tick).pcs me ≠ .refused op
  | .handle _ => True

end ReadProcess

section Steps

variable {config : ReadConfig} {req : ReadRequest} {r : Reader}

/-- Outside its calls the handler reads nothing of the cache but the position. -/
theorem Reader.step_of_call_none (hcall : r.call req = none) (hwait : ∀ genBefore, r.pc ≠ .condWait genBefore)
    {cache cache' : SharedCacheData} (hposition : SharedGroupCache.position cache = SharedGroupCache.position cache')
    (tick : Tick) : r.step config req cache tick = r.step config req cache' tick := by
  cases hpc : r.pc with
  | get todo =>
      cases todo with
      | nil => simp only [step, hpc, hposition]
      | cons addr todo => simp [call, hpc] at hcall
  | groupReads | loopHead | done => simp only [step, hpc]
  | condWait genBefore => exact absurd hpc (hwait genBefore)
  | enterWait timeoutMs | getDelta => simp [call, hpc] at hcall

theorem Reader.step_ne_condWait (hcall : r.call req = none) (hwait : ∀ genBefore, r.pc ≠ .condWait genBefore)
    (cache : SharedCacheData) (tick : Tick) (genBefore : UInt32) :
    (r.step config req cache tick).pc ≠ .condWait genBefore := by
  cases hpc : r.pc with
  | get todo =>
      cases todo with
      | nil => simp [step, hpc]
      | cons addr todo => simp [call, hpc] at hcall
  | groupReads | done => simp [step, hpc]
  | loopHead =>
      simp only [step, hpc]
      split_ifs <;> simp
  | condWait genBefore => exact absurd hpc (hwait genBefore)
  | enterWait timeoutMs | getDelta => simp [call, hpc] at hcall

theorem Reader.resume_ne_condWait (hwait : ∀ genBefore, r.pc ≠ .condWait genBefore) (result : CacheResult)
    (genBefore : UInt32) : (r.resume result).pc ≠ .condWait genBefore := by
  unfold resume
  split
  · simp
  · simp
  · rw [afterWait]
    split_ifs <;> simp
  · simp only
    split_ifs <;> simp
  · exact hwait genBefore

end Steps

/-! ### The simulation -/

namespace CacheSystem

variable {π : Type} [DecidableEq π] {s : CacheSystem π} {t : AtomicCache π} {pid q : π}

/-- A process that is in no call makes no step. -/
theorem step_of_ready (hready : ready (s.pcs pid) = true) (tick : CacheTick) : s.step pid tick = s := by
  cases hpc : s.pcs pid with
  | idle | returned _ | refused _ => simp only [step, hpc]
  | _ =>
      rw [hpc] at hready
      cases hready

/-- What a step of another process does to a process. -/
theorem step_pcs_of_ne (hne : q ≠ pid) (tick : CacheTick) :
    (s.step pid tick).pcs q = s.pcs q ∨ (s.step pid tick).pcs q = wake (s.pcs q) := by
  rcases step_moves s pid tick with hstep | ⟨m, d, pc, hstep, -⟩ | ⟨-, hstep⟩
  · exact Or.inl (by rw [hstep])
  · exact Or.inl (by rw [hstep, goto_pcs_of_ne _ hne])
  · exact Or.inr (by rw [hstep, goto_pcs_of_ne _ hne])

/-- The push that takes effect with an action, as in `linearize` with the first statement of its critical section. -/
def pushedBy (s : CacheSystem π) : CacheAction π → List Push
  | .event (.step pid _) =>
      match s.pcs pid with
      | .enter (.push p) => [p]
      | _ => []
  | _ => []

omit [DecidableEq π] in
theorem pushedBy_step_eq_nil {pid : π} (h : ∀ p, s.pcs pid ≠ .enter (.push p)) (tick : CacheTick) :
    s.pushedBy (.event (.step pid tick)) = [] := by
  unfold pushedBy
  dsimp only
  split
  · exact absurd (by assumption) (h _)
  · rfl

theorem Sim.step_journal (h : s.Sim t) (pid : π) (tick : CacheTick) :
    (run AtomicCache.next t (s.linearize (.event (.step pid tick)))).journal =
      t.journal ++ s.pushedBy (.event (.step pid tick)) := by
  have hplace := h.pcs pid
  cases hpc : s.pcs pid with
  | idle | returned result | refused op | dead | consistent op | storeEntry entry | countEntry | countGeneration
  | asleep genBefore =>
      simp only [linearize, pushedBy, hpc, run_nil, List.append_nil]
  | lock op =>
      simp only [linearize, pushedBy, hpc, List.append_nil]
      split_ifs
      · simp only [run_cons, run_nil, AtomicCache.next]
        split <;> rfl
      · rfl
  | enter op =>
      simp only [hpc, PcOk] at hplace
      simp only [linearize, pushedBy, hpc, run_cons, run_nil, AtomicCache.next, hplace]
      cases op with
      | push p => rfl
      | get _ _ | getDelta _ _ _ | waitForNewData _ => exact (List.append_nil _).symm
  | waitTest genBefore timedOut =>
      simp only [hpc, PcOk] at hplace
      obtain ⟨before, hplace, -⟩ := hplace
      simp only [linearize, pushedBy, hpc, List.append_nil]
      split_ifs
      · rfl
      · simp only [run_cons, run_nil, AtomicCache.next, hplace, AtomicCache.goto_journal]
  | reacquire genBefore rc =>
      simp only [hpc, PcOk] at hplace
      obtain ⟨before, hplace, -⟩ := hplace
      have hends : (t.next (.act pid tick.now)).journal = t.journal := by
        simp only [AtomicCache.next, hplace, AtomicCache.goto_journal]
      simp only [linearize, pushedBy, hpc, List.append_nil]
      split
      · split_ifs
        · exact hends
        · rfl
      · rfl
      · exact hends
      · exact hends
  | unlock result =>
      simp only [hpc, PcOk] at hplace
      cases result with
      | pushed => simp only [linearize, pushedBy, hpc, run_nil, List.append_nil]
      | value _ | delta _ | newData _ =>
          simp only [linearize, pushedBy, hpc, run_cons, run_nil, AtomicCache.next, hplace, AtomicCache.goto_journal,
            List.append_nil]
  | broadcast =>
      simp only [hpc, PcOk] at hplace
      simp only [linearize, pushedBy, hpc, run_cons, run_nil, AtomicCache.next, hplace, AtomicCache.goto_journal,
        List.append_nil]

/-- The journal of the atomic cache grows by the push that takes effect. -/
theorem Sim.journal_linearize (h : s.Sim t) (action : CacheAction π) :
    (run AtomicCache.next t (s.linearize action)).journal = t.journal ++ s.pushedBy action := by
  cases action with
  | position pid => exact (List.append_nil _).symm
  | event event =>
      cases event with
      | step pid tick => exact h.step_journal pid tick
      | die pid => exact (List.append_nil _).symm
      | call pid op =>
          simp only [linearize, pushedBy, List.append_nil]
          split_ifs
          · simp only [run_cons, run_nil, AtomicCache.next]
            split <;> rfl
          · rfl

/-- The journal of the run of the atomic cache has the pushes in the order in which they took effect. -/
theorem Sim.run (h : s.Sim t) {actions : List (CacheAction π)} (hwhole : Along act WholePushes s actions) :
    ∃ t', Sim (Machine.run act s actions) t' ∧ t'.journal = t.journal ++ trace act pushedBy s actions := by
  induction actions generalizing s t with
  | nil => exact ⟨t, h, (List.append_nil _).symm⟩
  | cons action actions ih =>
      obtain ⟨t', hsim, hjournal⟩ := ih (h.linearized hwhole.1).1 hwhole.2
      refine ⟨t', hsim, ?_⟩
      rw [hjournal, h.journal_linearize, trace_cons, List.append_assoc]

end CacheSystem

/-- The push of an event. -/
def ReadSystem.pushedBy (_ : ReadSystem) : ReadEvent → List Push
  | .push p => [p]
  | .step _ => []

namespace ReadProcess

open CacheSystem

variable {π : Type} [DecidableEq π] {config : ReadConfig} {req : ReadRequest} {me : π} {c : ReadProcess π}
  {s : ReadSystem} {t : AtomicCache π}

/-- How far the handler of `ReadSystem` is, by the statement of the call that its process has reached. -/
def InCall (req : ReadRequest) (reader : Reader) (pc : CachePc) (r : Reader) : Prop :=
  match pc with
  | .lock op | .consistent op | .enter op => reader.call req = some op ∧ r = reader
  | .waitTest genBefore _ | .asleep genBefore | .reacquire genBefore _ =>
      (∃ timeoutMs, reader.pc = .enterWait timeoutMs) ∧ r = { reader with pc := .condWait genBefore }
  | .unlock result | .returned result => result ≠ .pushed ∧ r = reader.resume result
  | _ => False

/-- The handler here and the one of `ReadSystem`. -/
structure HandlerOk (req : ReadRequest) (me : π) (c : ReadProcess π) (r : Reader) : Prop where
  not_waiting : ∀ genBefore, c.reader.pc ≠ .condWait genBefore
  between : c.calling = false → ready (c.sys.pcs me) = true ∧ r = c.reader
  during : c.calling = true → (c.reader.call req).isSome ∧ InCall req c.reader (c.sys.pcs me) r

/-- The push that takes effect with an event. -/
def pushedBy (c : ReadProcess π) : ProcessEvent π → List Push
  | .cache event => c.sys.pushedBy (.event event)
  | .handle _ => []

def Related (req : ReadRequest) (me : π) (c : ReadProcess π) (s : ReadSystem) : Prop :=
  ∃ t, c.sys.Sim t ∧ t.journal = s.journal ∧ HandlerOk req me c s.reader

omit [DecidableEq π] in
theorem InCall.wake {reader r : Reader} {pc : CachePc} (h : InCall req reader pc r) :
    InCall req reader (wake pc) r := by
  cases pc <;> exact h

omit [DecidableEq π] in
/-- The handler's process only looks on. -/
theorem HandlerOk.of_pcs {r : Reader} (h : HandlerOk req me c r) {sys : CacheSystem π}
    (hpcs : sys.pcs me = c.sys.pcs me ∨ sys.pcs me = wake (c.sys.pcs me)) :
    HandlerOk req me { c with sys := sys } r where
  not_waiting := h.not_waiting
  between hcalling := by
    obtain ⟨hready, hr⟩ := h.between hcalling
    refine ⟨?_, hr⟩
    rcases hpcs with hpcs | hpcs <;> simp only [hpcs]
    · exact hready
    · cases hpc : c.sys.pcs me <;> rw [hpc] at hready <;> first | rfl | cases hready
  during hcalling := by
    obtain ⟨hcall, hin⟩ := h.during hcalling
    refine ⟨hcall, ?_⟩
    rcases hpcs with hpcs | hpcs <;> simp only [hpcs]
    · exact hin
    · exact hin.wake

/-- The events of `ReadSystem` that answer an event here: they have the same pushes. -/
def Answers (config : ReadConfig) (req : ReadRequest) (me : π) (c : ReadProcess π) (s : ReadSystem)
    (event : ProcessEvent π) (events : List ReadEvent) : Prop :=
  AnsweredBy (next config req me) pushedBy (ReadSystem.next config req) ReadSystem.pushedBy (Related req me) c s event
    events

/-- The pushes of another process are the pushes of `ReadSystem`. -/
theorem run_pushes (config : ReadConfig) (req : ReadRequest) (s : ReadSystem) (pushes : List Push) :
    run (ReadSystem.next config req) s (pushes.map .push) = { s with journal := s.journal ++ pushes } ∧
      trace (ReadSystem.next config req) ReadSystem.pushedBy s (pushes.map .push) = pushes := by
  induction pushes generalizing s with
  | nil => simp
  | cons p pushes ih =>
      obtain ⟨hrun, htrace⟩ := ih (s.next config req (.push p))
      rw [List.map_cons, run_cons, trace_cons, hrun, htrace]
      simp [ReadSystem.next, ReadSystem.pushedBy]

/-- An event in which the handler's process only looks on. -/
theorem Related.other (h : Related req me c s) {event : CacheEvent π} (hwhole : c.sys.WholePushes (.event event))
    (hpcs : (c.sys.next event).pcs me = c.sys.pcs me ∨ (c.sys.next event).pcs me = wake (c.sys.pcs me)) :
    ∃ events, Answers config req me c s (.cache event) events := by
  obtain ⟨t, hsim, hjournal, hhandler⟩ := h
  obtain ⟨hrun, htrace⟩ := run_pushes config req s (c.sys.pushedBy (.event event))
  refine ⟨_, ⟨_, (hsim.linearized hwhole).1, ?_, ?_⟩, htrace⟩
  · rw [hrun, hsim.journal_linearize, hjournal]
  · rw [hrun]
    exact hhandler.of_pcs hpcs

/-- The handler of `ReadSystem` stands still, or makes its next step. -/
def Keeps (config : ReadConfig) (req : ReadRequest) (reader : Reader) (pc : CachePc) (s : ReadSystem) : Prop :=
  InCall req reader pc s.reader ∨ ∃ tick, InCall req reader pc (s.reader.step config req s.cache tick)

/-- A wait ends where the generation is compared for the last time. -/
theorem keeps_endWait {reader : Reader} {genBefore : UInt32} {generation : UInt32}
    (hwait : ∃ timeoutMs, reader.pc = .enterWait timeoutMs)
    (hreader : s.reader = { reader with pc := .condWait genBefore }) (hgeneration : s.cache.generation = generation) :
    Keeps config req reader (.unlock (.newData (generation != genBefore))) s := by
  obtain ⟨timeoutMs, hpc⟩ := hwait
  refine Or.inr ⟨{ rc := .timedOut }, by simp, ?_⟩
  rw [hreader, ← hgeneration]
  simp [Reader.step, Reader.resume, hpc, Reader.afterWait]

/-- The other calls take effect at the first statement of their critical sections. -/
theorem keeps_enter {sys : CacheSystem π} {reader : Reader} {op : CacheOp} (hpc : sys.pcs me = .enter op)
    (hcall : reader.call req = some op) (hreader : s.reader = reader) (hdata : sys.data = s.cache)
    (tick : CacheTick) : Keeps config req reader ((sys.step me tick).pcs me) s := by
  right
  refine ⟨{ now := tick.now }, ?_⟩
  rw [hreader]
  cases hplace : reader.pc with
  | get todo =>
      cases todo with
      | nil => simp [Reader.call, hplace] at hcall
      | cons addr todo =>
          simp only [Reader.call, hplace, Option.some.injEq] at hcall
          subst hcall
          simp only [step, hpc, enter, goto_pcs_self, hdata, Reader.step, hplace]
          refine ⟨by simp, ?_⟩
          cases SharedGroupCache.get s.cache addr req.maxAgeSec tick.now <;> simp only [Reader.resume, hplace]
  | enterWait timeoutMs =>
      simp only [Reader.call, hplace, Option.some.injEq] at hcall
      subst hcall
      simp only [step, hpc, enter, hdata, Reader.step, hplace]
      split_ifs
      · rw [goto_pcs_self]
        exact ⟨by simp, by simp only [Reader.resume, hplace]⟩
      · rw [goto_pcs_self]
        exact ⟨⟨timeoutMs, hplace⟩, rfl⟩
  | getDelta =>
      simp only [Reader.call, hplace, Option.some.injEq] at hcall
      subst hcall
      simp only [step, hpc, enter, goto_pcs_self, hdata, Reader.step, hplace]
      exact ⟨by simp, by simp only [Reader.resume, hplace]⟩
  | groupReads | loopHead | condWait _ | done => simp [Reader.call, hplace] at hcall

theorem keeps_lock {sys : CacheSystem π} {reader : Reader} {op : CacheOp} (hpc : sys.pcs me = .lock op)
    (hin : InCall req reader (.lock op) s.reader) (tick : CacheTick)
    (hrefused : ∀ op, (sys.step me tick).pcs me ≠ .refused op) :
    Keeps config req reader ((sys.step me tick).pcs me) s := by
  left
  cases hm : sys.mutex with
  | free | ownerDead =>
      simp only [step, hpc, hm, RobustMutex.lock, goto_pcs_self]
      exact hin
  | owned owner inconsistent =>
      simp only [step, hpc, hm, RobustMutex.lock]
      exact hin
  | notRecoverable =>
      refine absurd ?_ (hrefused op)
      simp only [step, hpc, hm, RobustMutex.lock, goto_pcs_self]

theorem keeps_reacquire {sys : CacheSystem π} {reader : Reader} {genBefore : UInt32} {rc : CondResult}
    (hpc : sys.pcs me = .reacquire genBefore rc) (hin : InCall req reader (.reacquire genBefore rc) s.reader)
    (hdata : (∀ q, sys.mutex ≠ .owned q false) → sys.data = s.cache) (tick : CacheTick) :
    Keeps config req reader ((sys.step me tick).pcs me) s := by
  have hends : (∀ q, sys.mutex ≠ .owned q false) →
      Keeps config req reader (.unlock (.newData (sys.data.generation != genBefore))) s :=
    fun hunowned => keeps_endWait hin.1 hin.2 (by rw [hdata hunowned])
  cases hm : sys.mutex with
  | free =>
      simp only [step, hpc, hm, RobustMutex.lock]
      split_ifs
      · simp only [endWait, goto_pcs_self]
        exact hends (by simp [hm])
      · rw [goto_pcs_self]
        exact Or.inl hin
  | owned owner inconsistent =>
      simp only [step, hpc, hm, RobustMutex.lock]
      exact Or.inl hin
  | ownerDead | notRecoverable =>
      simp only [step, hpc, hm, RobustMutex.lock, endWait, goto_pcs_self]
      exact hends (by simp [hm])

/-- A statement of the handler's call, and what it is in `ReadSystem`. -/
theorem keeps_step (hsim : c.sys.Sim t) (hjournal : t.journal = s.journal)
    (hin : InCall req c.reader (c.sys.pcs me) s.reader) (tick : CacheTick)
    (hrefused : ∀ op, (c.sys.step me tick).pcs me ≠ .refused op) :
    Keeps config req c.reader ((c.sys.step me tick).pcs me) s := by
  have hcache : SharedGroupCache.replay t.journal = s.cache := by rw [hjournal]; rfl
  have hlocked := hsim.locked me
  cases hpc : c.sys.pcs me with
  | lock op => exact keeps_lock hpc (hpc ▸ hin) tick hrefused
  | consistent op =>
      rw [hpc] at hin
      simp only [step, hpc, goto_pcs_self]
      exact Or.inl hin
  | enter op =>
      rw [hpc] at hin hlocked
      have hdata := hsim.data_of_owner hlocked (by rw [hpc]; rfl)
      exact keeps_enter hpc hin.1 hin.2 (hdata.trans hcache) tick
  | waitTest genBefore timedOut =>
      rw [hpc] at hin hlocked
      have hdata := (hsim.data_of_owner hlocked (by rw [hpc]; rfl)).trans hcache
      have hends : Keeps config req c.reader (.unlock (.newData (c.sys.data.generation != genBefore))) s :=
        keeps_endWait hin.1 hin.2 (by rw [hdata])
      simp only [step, hpc]
      split_ifs
      · simp only [endWait, goto_pcs_self]
        exact hends
      · rw [goto_pcs_self]
        exact Or.inl hin
      · simp only [endWait, goto_pcs_self]
        exact hends
  | asleep genBefore =>
      rw [hpc] at hin
      simp only [step, hpc, goto_pcs_self]
      exact Or.inl hin
  | reacquire genBefore rc =>
      exact keeps_reacquire hpc (hpc ▸ hin)
        (fun hunowned => (hsim.data_eq (hsim.locked.midPush_of_unowned hunowned)).trans hcache) tick
  | unlock result =>
      rw [hpc] at hin
      simp only [step, hpc, goto_pcs_self]
      cases result with
      | pushed => exact absurd rfl hin.1
      | value _ | delta _ | newData _ => exact Or.inl hin
  | returned result =>
      rw [hpc] at hin
      simp only [step, hpc]
      exact Or.inl hin
  | idle | storeEntry _ | countEntry | countGeneration | broadcast | refused _ | dead =>
      rw [hpc] at hin
      exact hin.elim

/-- A statement of the handler's own call. -/
theorem Related.own (h : Related req me c s) (tick : CacheTick)
    (hrefused : ∀ op, (c.sys.step me tick).pcs me ≠ .refused op) :
    ∃ events, Answers config req me c s (.cache (.step me tick)) events := by
  obtain ⟨t, hsim, hjournal, hhandler⟩ := h
  by_cases hcalling : c.calling = true
  · obtain ⟨hcall, hin⟩ := hhandler.during hcalling
    have hnone : c.sys.pushedBy (.event (.step me tick)) = [] := by
      apply pushedBy_step_eq_nil
      intro p hpc
      rw [hpc] at hin
      have hop := hin.1
      unfold Reader.call at hop
      split at hop <;> cases hop
    have hsim' := (hsim.linearized_step me tick).1
    have hjournal' := hsim.step_journal me tick
    rw [hnone, List.append_nil, hjournal] at hjournal'
    have hkeeps : Keeps config req c.reader ((c.sys.step me tick).pcs me) s :=
      keeps_step hsim hjournal hin tick hrefused
    have hbetween : ∀ r, c.calling = false → ready ((c.sys.step me tick).pcs me) = true ∧ r = c.reader := by
      intro r hfalse
      rw [hcalling] at hfalse
      cases hfalse
    rcases hkeeps with hkeeps | ⟨tick', hkeeps⟩
    · exact ⟨[], ⟨_, hsim', hjournal', hhandler.not_waiting, hbetween _, fun _ => ⟨hcall, hkeeps⟩⟩, hnone.symm⟩
    · exact ⟨[.step tick'], ⟨_, hsim', hjournal', hhandler.not_waiting, hbetween _, fun _ => ⟨hcall, hkeeps⟩⟩,
        hnone.symm⟩
  · have hready := (hhandler.between (Bool.not_eq_true _ ▸ hcalling)).1
    have hnone : c.sys.pushedBy (.event (.step me tick)) = [] := by
      apply pushedBy_step_eq_nil
      intro p hpc
      rw [hpc] at hready
      cases hready
    have hsame : c.next config req me (.cache (.step me tick)) = c := by
      simp only [next, CacheSystem.next, step_of_ready hready]
    refine ⟨[], ?_, hnone.symm⟩
    rw [hsame]
    exact ⟨t, hsim, hjournal, hhandler⟩

/-- A statement of the handler while its call is under way: it waits for the result. -/
theorem Related.handle_calling (h : Related req me c s) (hcalling : c.calling = true) (tick : Tick) :
    Related req me (c.next config req me (.handle tick)) s := by
  obtain ⟨t, hsim, hjournal, hhandler⟩ := h
  obtain ⟨hcall, hin⟩ := hhandler.during hcalling
  refine ⟨t, ?_⟩
  simp only [next, if_pos hcalling]
  cases hpc : c.sys.pcs me with
  | returned result =>
      rw [hpc] at hin
      refine ⟨hsim, hjournal, Reader.resume_ne_condWait hhandler.not_waiting result, fun _ => ⟨?_, hin.2⟩, nofun⟩
      rw [hpc]
      rfl
  | refused op =>
      rw [hpc] at hin
      exact hin.elim
  | _ => exact ⟨hsim, hjournal, hhandler⟩

/-- A statement of the handler that is no call of the cache. -/
theorem Related.handle_local (h : Related req me c s) (hcalling : c.calling = false) (hcall : c.reader.call req = none)
    (tick : Tick) : Related req me (c.next config req me (.handle tick)) (s.next config req (.step tick)) := by
  obtain ⟨t, hsim, hjournal, hhandler⟩ := h
  obtain ⟨hready, hr⟩ := hhandler.between hcalling
  have hposition : SharedGroupCache.position c.sys.data = SharedGroupCache.position s.cache := by
    rw [hsim.data.position, hjournal, ReadSystem.cache, SharedGroupCache.replay_position]
  have hstep : s.reader.step config req s.cache tick = c.reader.step config req c.sys.data tick := by
    rw [hr, Reader.step_of_call_none hcall hhandler.not_waiting hposition]
  refine ⟨t, ?_⟩
  simp only [next, hcalling, Bool.false_eq_true, if_false, hcall, ReadSystem.next, hstep]
  exact ⟨hsim, hjournal, Reader.step_ne_condWait hcall hhandler.not_waiting _ tick, fun _ => ⟨hready, rfl⟩, by simp⟩

/-- The handler calls the cache. -/
theorem Related.handle_call (h : Related req me c s) (hcalling : c.calling = false) {op : CacheOp}
    (hcall : c.reader.call req = some op) (tick : Tick) :
    Related req me (c.next config req me (.handle tick)) s := by
  obtain ⟨t, hsim, hjournal, hhandler⟩ := h
  obtain ⟨hready, hr⟩ := hhandler.between hcalling
  have hwhole : c.sys.WholePushes (.event (.call me op)) := trivial
  refine ⟨run AtomicCache.next t (c.sys.linearize (.event (.call me op))), ?_, ?_, ?_⟩
  · simp only [next, hcalling, Bool.false_eq_true, if_false, hcall]
    exact (hsim.linearized hwhole).1
  · simp only [linearize, if_pos hready, run_cons, run_nil, AtomicCache.next]
    split <;> exact hjournal
  · simp only [next, hcalling, Bool.false_eq_true, if_false, hcall, CacheSystem.next, if_pos hready]
    refine ⟨hhandler.not_waiting, by simp, fun _ => ⟨by simp [hcall], ?_⟩⟩
    rw [goto_pcs_self]
    exact ⟨hcall, hr⟩

/-- Every event here is some steps of `ReadSystem`. -/
theorem Related.next (h : Related req me c s) {event : ProcessEvent π} (hproper : c.Proper me event) :
    ∃ events, Answers config req me c s event events := by
  cases event with
  | handle tick =>
      cases hcalling : c.calling with
      | true => exact ⟨[], h.handle_calling hcalling tick, rfl⟩
      | false =>
          cases hcall : c.reader.call req with
          | none => exact ⟨[.step tick], h.handle_local hcalling hcall tick, rfl⟩
          | some op => exact ⟨[], h.handle_call hcalling hcall tick, rfl⟩
  | cache event =>
      cases event with
      | call pid op =>
          refine h.other trivial (Or.inl ?_)
          simp only [CacheSystem.next]
          split_ifs
          · exact goto_pcs_of_ne _ (Ne.symm hproper) _
          · rfl
      | die pid => exact h.other hproper.2 (Or.inl (goto_pcs_of_ne _ (Ne.symm hproper.1) _))
      | step pid tick =>
          by_cases hpid : pid = me
          · subst hpid
            exact h.own tick (hproper rfl)
          · exact h.other trivial (step_pcs_of_ne (Ne.symm hpid) tick)

omit [DecidableEq π] in
theorem start_related {sys : CacheSystem π} (hsim : sys.Sim t) (hready : ready (sys.pcs me) = true) (covered : Nat) :
    Related req me (start req sys) (ReadSystem.start req t.journal covered) := by
  refine ⟨t, hsim, rfl, fun genBefore => ?_, fun _ => ⟨hready, rfl⟩, nofun⟩
  simp only [start, Reader.start]
  split_ifs <;> simp

omit [DecidableEq π] in
/-- A handler that has answered is in no call. -/
theorem Related.response (h : Related req me c s) {response : ReadResponse}
    (hresponse : c.reader.response = some response) : s.reader.response = some response := by
  obtain ⟨t, -, -, hhandler⟩ := h
  obtain ⟨hdone, -⟩ := Reader.response_eq_some hresponse
  have hcalling : c.calling = false := by
    by_contra hcalling
    have hcall := (hhandler.during (Bool.not_eq_false _ ▸ hcalling)).1
    simp [Reader.call, hdone] at hcall
  rw [(hhandler.between hcalling).2, hresponse]

/-- **The handler at the mutex refines the handler of `ReadSystem`.** After any run of the processes, one of
them serves a request while all go on, statement by statement. Whatever it answers, `ReadSystem` answers too,
in a run that begins with the pushes that had taken effect as the request comes, and that has those which take
effect meanwhile, all in their order. When no push is under way the data are those of the journal. The
handler's calls must not be refused, and nobody may die between the first and the last store of a push. -/
theorem handler_refines (config : ReadConfig) (req : ReadRequest) (me : π) (before : List (CacheAction π))
    (hbefore : Along act WholePushes (CacheSystem.start : CacheSystem π) before)
    (hready : ready ((run act CacheSystem.start before).pcs me) = true) (events : List (ProcessEvent π))
    (hproper : Along (next config req me) (Proper me) (start req (run act CacheSystem.start before)) events)
    (covered : Nat) :
    let journal := trace act CacheSystem.pushedBy CacheSystem.start before
    ∃ readEvents,
      trace (ReadSystem.next config req) ReadSystem.pushedBy (ReadSystem.start req journal covered) readEvents =
        trace (next config req me) pushedBy (start req (run act CacheSystem.start before)) events ∧
      ((∀ pid, midPush ((run act CacheSystem.start before).pcs pid) = false) →
        (run act CacheSystem.start before).data = SharedGroupCache.replay journal) ∧
      (∀ response,
        (run (next config req me) (start req (run act CacheSystem.start before)) events).reader.response =
          some response →
        (run (ReadSystem.next config req) (ReadSystem.start req journal covered) readEvents).reader.response =
          some response) ∧
      ((∀ pid, midPush
          ((run (next config req me) (start req (run act CacheSystem.start before)) events).sys.pcs pid) = false) →
        (run (next config req me) (start req (run act CacheSystem.start before)) events).sys.data =
          (run (ReadSystem.next config req) (ReadSystem.start req journal covered) readEvents).cache) := by
  intro journal
  obtain ⟨atomic, hsim, hatomic⟩ := start_sim.run hbefore
  have hjournal : atomic.journal = journal := hatomic.trans (List.nil_append _)
  have hanswers : ∀ (c : ReadProcess π) (s : ReadSystem) (event : ProcessEvent π), c.Proper me event →
      Related req me c s → ∃ events, Answers config req me c s event events :=
    fun _ _ _ hproper h => h.next hproper
  rw [← hjournal]
  obtain ⟨readEvents, hrelated, htrace⟩ :=
    exists_run_of_answeredBy hanswers hproper (start_related hsim hready covered)
  refine ⟨readEvents, htrace, hsim.data_eq, fun _ => hrelated.response, fun hnone => ?_⟩
  obtain ⟨t, hsim', hfinal, -⟩ := hrelated
  rw [hsim'.data_eq hnone, hfinal]
  rfl

/-- A push of address 0/0/1, from its call to its return. -/
def pushOne : List (CacheAction Bool) :=
  .event (.call true (.push ⟨1, [0x2a], 0⟩)) :: List.replicate 7 (.event (.step true {}))

/-- The handler of a client without an index reads that address, and the other process pushes it again before the
handler asks for the position. -/
def readOne : List (ProcessEvent Bool) :=
  let handle := ProcessEvent.handle (ReadSystem.tickAt 0 0 .signalled)
  [handle, .cache (.step false {}), .cache (.call true (.push ⟨1, [0x2b], 0⟩)), .cache (.step true {}),
    .cache (.step false {}), .cache (.step false {}), .cache (.step true {}), .cache (.step true {}),
    handle, handle, handle, handle]

/-- The second push is one of `ReadSystem`, whose answer has the first value and the second index. -/
theorem handler_refines_readOne : ∃ readEvents,
    trace (ReadSystem.next ReadSystem.defaultConfig (ReadSystem.requestOne none)) ReadSystem.pushedBy
        (ReadSystem.start (ReadSystem.requestOne none) [⟨1, [0x2a], 0⟩] 0) readEvents = [⟨1, [0x2b], 0⟩] ∧
      (run (ReadSystem.next ReadSystem.defaultConfig (ReadSystem.requestOne none))
        (ReadSystem.start (ReadSystem.requestOne none) [⟨1, [0x2a], 0⟩] 0) readEvents).reader.response =
          some ⟨[(1, [0x2a])], 2⟩ := by
  have hbefore : Along act WholePushes CacheSystem.start pushOne := along_of_forall fun action hmem s => by
    rcases List.mem_cons.mp hmem with rfl | hmem
    · trivial
    · rw [List.eq_of_mem_replicate hmem]
      trivial
  obtain ⟨readEvents, htrace, -, hresponse, -⟩ := handler_refines ReadSystem.defaultConfig
    (ReadSystem.requestOne none) false pushOne hbefore rfl readOne
    ⟨trivial, fun _ _ h => (by cases h), fun h => (by cases h), fun h => (by cases h), fun _ _ h => (by cases h),
      fun _ _ h => (by cases h), fun h => (by cases h), fun h => (by cases h), trivial, trivial, trivial, trivial,
      trivial⟩ 0
  exact ⟨readEvents, htrace, hresponse _ rfl⟩

end ReadProcess
end KnxdFcgi
