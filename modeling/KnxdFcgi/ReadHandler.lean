import KnxdFcgi.Machine
import KnxdFcgi.SharedGroupCache

/-! `ReadHandler::handle` from the parsed parameters on, running beside the cache reader. Every access to
the shared cache is one step of the handler: each `get` of the initial read, `position()`, the entry into
`wait_for_new_data`, each return of `pthread_cond_timedwait`, and `get_delta`. Pushes may come between
any two steps. The system keeps the journal of all pushes, and with it the number of pushes that the
handler's index stands for, which is what the delivery results are about. -/

namespace KnxdFcgi

open Machine

/-- The handler's `longpoll_timeout_sec_`, in the range that `main` means it to have. -/
structure ReadConfig where
  longpollTimeoutSec : Int32
  one_le : 1 ≤ longpollTimeoutSec.toInt
  le_max : longpollTimeoutSec.toInt ≤ 3600

/-- The parameters of a request that passed the checks: `t` and `i` as `parse_timeout` reads them (an
unreadable `i` counts as absent), and the set of group addresses in ascending order. -/
structure ReadRequest where
  t : Option Int32 := none
  i : Option Int32 := none
  eibAddrs : List UInt16
  ascending : eibAddrs.Pairwise (· < ·)

namespace ReadRequest

variable (req : ReadRequest)

def timeoutSec (config : ReadConfig) : Int32 :=
  match req.t with
  | none => config.longpollTimeoutSec
  | some t => if t = 0 then 1 else if t < 0 then 0 else t

def maxAgeSec : Int :=
  match req.t with
  | none => -1
  | some t => if 0 < t then t.toInt else -1

/-- The client's index, where it sent one. -/
def clientPos : UInt32 :=
  match req.i with
  | none => 0
  | some i => if 0 ≤ i then i.toUInt32 else 0

/-- `lastpos` before the initial read; `t` of zero or less forces the initial read. -/
def startPos : UInt32 :=
  match req.t with
  | none => req.clientPos
  | some t => if t ≤ 0 then 0 else req.clientPos

variable {req}

theorem timeoutSec_longPoll (ht : req.t = none) (config : ReadConfig) :
    req.timeoutSec config = config.longpollTimeoutSec := by
  unfold timeoutSec
  rw [ht]

theorem maxAgeSec_longPoll (ht : req.t = none) : req.maxAgeSec = -1 := by
  unfold maxAgeSec
  rw [ht]

theorem startPos_longPoll (ht : req.t = none) : req.startPos = req.clientPos := by
  unfold startPos
  rw [ht]

end ReadRequest

/-- What the handler is told by the system in one step: the two clocks, and how a wait ends. The
seconds since the poll loop began fit an `int`. -/
structure Tick where
  now : UInt32 := 0
  elapsed : Nat := 0
  elapsed_lt : elapsed < 2 ^ 31 := by decide
  rc : CondResult := .signalled

/-- The statement of `handle` that comes next. -/
inductive ReadPc where
  /-- the initial read, with the addresses not yet read; `position()` follows the last -/
  | get (todo : List UInt16)
  | groupReads
  | loopHead
  | enterWait (timeoutMs : Int32)
  /-- blocked in `wait_for_new_data` -/
  | condWait (genBefore : UInt32)
  | getDelta
  | done
  deriving DecidableEq

/-- The handler's variables: `values` are the members of `d` in the order in which they were added, so
`already_written` is the set of their addresses; `busReads` are the `GroupValueRead` telegrams sent. -/
structure Reader where
  pc : ReadPc
  lastpos : UInt32
  values : List (UInt16 × List UInt8) := []
  busReads : List UInt16 := []
  deriving DecidableEq

namespace Reader

def start (req : ReadRequest) : Reader where
  pc := if req.startPos = 0 then .get req.eibAddrs else .groupReads
  lastpos := req.startPos

def alreadyWritten (r : Reader) (addr : UInt16) : Bool := (r.values.map Prod.fst).contains addr

/-- What `wait_for_new_data` leads to. -/
def afterWait (r : Reader) (newData : Bool) : Reader :=
  { r with pc := if newData then .getDelta else .done }

def step (config : ReadConfig) (req : ReadRequest) (cache : SharedCacheData) (tick : Tick) (r : Reader) :
    Reader :=
  match r.pc with
  | .get [] => { r with pc := .groupReads, lastpos := SharedGroupCache.position cache }
  | .get (addr :: todo) =>
      match SharedGroupCache.get cache addr req.maxAgeSec tick.now with
      | some value => { r with pc := .get todo, values := r.values ++ [(addr, value)] }
      | none => { r with pc := .get todo }
  | .groupReads =>
      { r with
        pc := .loopHead
        busReads := if req.t = some 0 then req.eibAddrs.filter (!r.alreadyWritten ·) else [] }
  | .loopHead =>
      if 0 < req.timeoutSec config then
        if r.values ≠ [] then { r with pc := .done }
        else
          let remaining := req.timeoutSec config - Int32.ofNat tick.elapsed
          if remaining ≤ 0 then { r with pc := .done }
          else { r with pc := .enterWait (remaining * 1000) }
      else { r with pc := .done }
  | .enterWait timeoutMs =>
      if timeoutMs ≤ 0 then r.afterWait (0 < cache.generation)
      else { r with pc := .condWait cache.generation }
  | .condWait genBefore =>
      if tick.rc = .signalled ∧ cache.generation = genBefore then r
      else r.afterWait (cache.generation != genBefore)
  | .getDelta =>
      let delta := SharedGroupCache.getDelta cache r.lastpos req.eibAddrs req.maxAgeSec tick.now
      let values := r.values ++ delta.values.filter (!r.alreadyWritten ·.1)
      { r with
        pc := if values = [] then .loopHead else .done
        values := values
        lastpos := delta.position }
  | .done => r

end Reader

/-- The journal of the cache, and the handler of one request. `covered` is the number of pushes that
had been made when the handler last read the index. -/
structure ReadSystem where
  journal : List Push
  reader : Reader
  covered : Nat

inductive ReadEvent where
  | push (p : Push)
  | step (tick : Tick)

namespace ReadSystem

def cache (s : ReadSystem) : SharedCacheData := SharedGroupCache.replay s.journal

/-- The request begins with a journal of pushes already made; its own index stands for `covered`. -/
def start (req : ReadRequest) (journal : List Push) (covered : Nat) : ReadSystem :=
  ⟨journal, Reader.start req, covered⟩

/-- The next step of the handler assigns `lastpos` from the cache. -/
def readsIndex (s : ReadSystem) : Prop := s.reader.pc = .get [] ∨ s.reader.pc = .getDelta

instance (s : ReadSystem) : Decidable s.readsIndex := inferInstanceAs (Decidable (_ ∨ _))

def next (config : ReadConfig) (req : ReadRequest) (s : ReadSystem) : ReadEvent → ReadSystem
  | .push p => { s with journal := s.journal ++ [p] }
  | .step tick =>
      { s with
        reader := s.reader.step config req s.cache tick
        covered := if s.readsIndex then s.journal.length else s.covered }

variable (config : ReadConfig) (req : ReadRequest)

/-- The event of a push is the `push` of the cache. -/
theorem next_push_cache (s : ReadSystem) (p : Push) :
    (s.next config req (.push p)).cache = SharedGroupCache.push s.cache p :=
  SharedGroupCache.replay_snoc s.journal p

theorem cache_generation (s : ReadSystem) : s.cache.generation = UInt32.ofNat s.journal.length :=
  SharedGroupCache.replay_generation s.journal

theorem journal_prefix_run (s : ReadSystem) (events : List ReadEvent) :
    s.journal <+: (run (next config req) s events).journal := by
  refine run_invariant (fun s' : ReadSystem => s.journal <+: s'.journal) (fun s' event h => ?_) events
    (List.prefix_refl _)
  cases event with
  | push p => exact h.trans (List.prefix_append _ _)
  | step tick => exact h

end ReadSystem

/-- The answer to a request: the members of `d`, and the index `i`. -/
structure ReadResponse where
  d : List (UInt16 × List UInt8)
  i : UInt32
  deriving DecidableEq

def Reader.response (r : Reader) : Option ReadResponse :=
  if r.pc = .done then some ⟨r.values, r.lastpos⟩ else none

theorem Reader.response_eq_some {r : Reader} {response : ReadResponse} (h : r.response = some response) :
    r.pc = .done ∧ response = ⟨r.values, r.lastpos⟩ := by
  unfold Reader.response at h
  split at h
  · rename_i hpc
    exact ⟨hpc, (Option.some.inj h).symm⟩
  · cases h

theorem Reader.step_get_pc {config : ReadConfig} {req : ReadRequest} {r : Reader} {addr : UInt16}
    {todo : List UInt16} (hpc : r.pc = .get (addr :: todo)) (cache : SharedCacheData) (tick : Tick) :
    (r.step config req cache tick).pc = .get todo := by
  simp only [step, hpc]
  split <;> rfl

/-- Outside the initial read and `get_delta`, a step leaves the members and the index as they are. -/
theorem Reader.step_idle {config : ReadConfig} {req : ReadRequest} {r : Reader} (hget : ∀ todo, r.pc ≠ .get todo)
    (hdelta : r.pc ≠ .getDelta) (cache : SharedCacheData) (tick : Tick) :
    (r.step config req cache tick).values = r.values ∧ (r.step config req cache tick).lastpos = r.lastpos ∧
      ∀ todo, (r.step config req cache tick).pc ≠ .get todo := by
  cases hpc : r.pc with
  | get todo => exact absurd hpc (hget todo)
  | groupReads => simp [step, hpc]
  | loopHead =>
      simp only [step, hpc]
      split_ifs <;> simp
  | enterWait timeoutMs =>
      simp only [step, hpc, afterWait]
      split_ifs <;> simp
  | condWait genBefore =>
      simp only [step, hpc, afterWait]
      split_ifs <;> simp [hpc]
  | getDelta => exact absurd hpc hdelta
  | done => simp [step, hpc]

/-! ### The timeouts, and that the handler answers -/

/-- `timeout_sec - elapsed` does not overflow for a timeout that is not negative. -/
theorem toInt_remaining {timeout : Int32} (htimeout : 0 ≤ timeout.toInt) (tick : Tick) :
    (timeout - Int32.ofNat tick.elapsed).toInt = timeout.toInt - tick.elapsed := by
  have hlt := tick.elapsed_lt
  have hupper := timeout.toInt_lt
  rw [Int32.toInt_sub, Int32.toInt_ofNat_of_lt hlt]
  rw [Int.bmod_eq_of_le]
  · norm_num
    omega
  · norm_num
    omega

/-- Without `t`, the milliseconds passed to `wait_for_new_data` are positive. -/
theorem timeoutMs_pos {req : ReadRequest} (ht : req.t = none) (config : ReadConfig) (tick : Tick)
    (hremaining : ¬req.timeoutSec config - Int32.ofNat tick.elapsed ≤ 0) :
    ¬(req.timeoutSec config - Int32.ofNat tick.elapsed) * 1000 ≤ 0 := by
  have hone := config.one_le
  have hmax := config.le_max
  have hthousand : Int32.toInt 1000 = 1000 := by decide
  rw [ReadRequest.timeoutSec_longPoll ht] at hremaining ⊢
  rw [Int32.le_iff_toInt_le, toInt_remaining (by omega), Int32.toInt_zero] at hremaining
  rw [Int32.le_iff_toInt_le, Int32.toInt_mul, toInt_remaining (by omega), Int32.toInt_zero, hthousand,
    Int.bmod_eq_of_le]
  · omega
  · norm_num
    omega
  · norm_num
    omega

/-- The steps a handler still takes once its time is over. -/
def ReadPc.rank : ReadPc → Nat
  | .get todo => todo.length + 3
  | .groupReads => 2
  | .loopHead => 1
  | .enterWait _ => 4
  | .condWait _ => 3
  | .getDelta => 2
  | .done => 0

theorem Reader.rank_afterWait (r : Reader) (newData : Bool) : (r.afterWait newData).pc.rank ≤ 2 := by
  cases newData
  · exact Nat.zero_le 2
  · exact le_rfl

theorem Reader.rank_step {config : ReadConfig} {req : ReadRequest} {tick : Tick}
    (htime : (req.timeoutSec config).toInt ≤ tick.elapsed) (hrc : tick.rc = .timedOut)
    (cache : SharedCacheData) (r : Reader) :
    (r.step config req cache tick).pc.rank ≤ r.pc.rank - 1 := by
  cases hpc : r.pc with
  | get todo =>
      cases todo with
      | nil => simp only [step, hpc]; decide
      | cons addr todo =>
          simp only [step, hpc]
          split <;> simp only [ReadPc.rank, List.length_cons] <;> omega
  | groupReads => simp only [step, hpc]; decide
  | loopHead =>
      have hover : 0 < req.timeoutSec config →
          req.timeoutSec config - Int32.ofNat tick.elapsed ≤ 0 := by
        intro hpos
        rw [Int32.lt_iff_toInt_lt, Int32.toInt_zero] at hpos
        rw [Int32.le_iff_toInt_le, toInt_remaining hpos.le, Int32.toInt_zero]
        omega
      simp only [step, hpc]
      split
      · rename_i hpos
        rw [if_pos (hover hpos)]
        split <;> exact Nat.zero_le _
      · exact Nat.zero_le _
  | enterWait timeoutMs =>
      simp only [step, hpc]
      split
      · exact (r.rank_afterWait _).trans (Nat.le_succ 2)
      · exact le_rfl
  | condWait genBefore =>
      have hwait : ¬(tick.rc = .signalled ∧ cache.generation = genBefore) := by
        rw [hrc]
        exact fun h => nomatch h.1
      simp only [step, hpc, if_neg hwait]
      exact r.rank_afterWait _
  | getDelta =>
      simp only [step, hpc]
      split <;> decide
  | done =>
      simp only [step, hpc]
      exact le_rfl

end KnxdFcgi
