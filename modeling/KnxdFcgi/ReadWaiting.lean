import KnxdFcgi.ReadDelivery

/-! What the poll loop does without a push. `wait_for_new_data` compares the generation with the one
it found on entry, so only a push made during the wait ends it early, and the loop queries the cache
only after such a wait. Values that were pending when the request came are therefore delivered only if
another push lands during the wait, and a request that no push accompanies adds nothing to what the
initial read found. -/

namespace KnxdFcgi

open Machine SharedGroupCache

namespace ReadSystem

/-- No push lands while the handler is blocked in `wait_for_new_data`. -/
def Quiet (s : ReadSystem) : ReadEvent → Prop
  | .push _ => ∀ genBefore, s.reader.pc ≠ .condWait genBefore
  | .step _ => True

/-- What holds at each statement of a poll loop that no push has woken: the values are those it began
with, and no delta is ever queried. -/
def QuietPhase (P : List (UInt16 × List UInt8) → Prop) (s : ReadSystem) : ReadPc → Prop
  | .groupReads | .loopHead | .done => P s.reader.values
  | .enterWait timeoutMs => P s.reader.values ∧ ¬timeoutMs ≤ 0
  | .condWait genBefore => P s.reader.values ∧ s.cache.generation = genBefore
  | .get _ | .getDelta => False

section Quiet

variable {config : ReadConfig} {req : ReadRequest} {P : List (UInt16 × List UInt8) → Prop} {s : ReadSystem}

theorem QuietPhase.step (ht : req.t = none) (h : s.QuietPhase P s.reader.pc) (tick : Tick) :
    QuietPhase P (s.next config req (.step tick)) (s.next config req (.step tick)).reader.pc := by
  simp only [next]
  generalize (if s.readsIndex then s.journal.length else s.covered) = covered
  cases hpc : s.reader.pc with
  | get todo | getDelta =>
      rw [hpc] at h
      exact h.elim
  | groupReads | done =>
      rw [hpc] at h
      simp only [Reader.step, hpc]
      exact h
  | loopHead =>
      rw [hpc] at h
      simp only [Reader.step, hpc]
      split_ifs with htimeout hwritten hremaining
      · exact h
      · exact h
      · exact ⟨h, timeoutMs_pos ht config tick hremaining⟩
      · exact h
  | enterWait timeoutMs =>
      rw [hpc] at h
      simp only [Reader.step, hpc, if_neg h.2]
      exact ⟨h.1, rfl⟩
  | condWait genBefore =>
      rw [hpc] at h
      obtain ⟨hvalues, rfl⟩ := h
      simp only [Reader.step, hpc]
      split_ifs with hwait
      · rw [hpc]
        exact ⟨hvalues, rfl⟩
      · simp only [Reader.afterWait, bne_self_eq_false]
        exact hvalues

theorem QuietPhase.next (ht : req.t = none) {event : ReadEvent} (hquiet : s.Quiet event)
    (h : s.QuietPhase P s.reader.pc) :
    QuietPhase P (s.next config req event) (s.next config req event).reader.pc := by
  cases event with
  | step tick => exact h.step ht tick
  | push p =>
      simp only [ReadSystem.next]
      cases hpc : s.reader.pc with
      | condWait genBefore => exact absurd hpc (hquiet genBefore)
      | get todo | getDelta | groupReads | loopHead | done | enterWait timeoutMs =>
          rw [hpc] at h
          exact h

end Quiet

/-- A subscribed, stored address has been pushed after push number `s`. -/
def Pending (req : ReadRequest) (journal : List Push) (s : Nat) (addr : UInt16) : Prop :=
  addr ∈ req.eibAddrs ∧ addr ≠ 0 ∧ (stored (replay journal) addr).isSome ∧
    ∃ r p, LastPush journal addr r p ∧ s < r

/-- The answer has a value for every address that was pending when the request came. -/
def PendingDelivered (req : ReadRequest) (journal : List Push) (s : Nat) (response : ReadResponse) : Prop :=
  ∀ addr, Pending req journal s addr → ∃ value, (addr, value) ∈ response.d

section Pending

variable {config : ReadConfig} {req : ReadRequest} {low count : Nat} {s : ReadSystem}

/-- The handler has seen a push during a wait: it is about to query a delta, or has queried one after
`count` pushes. -/
def Woken (count : Nat) (s : ReadSystem) : Prop :=
  (∃ genBefore, s.reader.pc = .condWait genBefore ∧ s.cache.generation ≠ genBefore) ∨
    s.reader.pc = .getDelta ∨ count ≤ s.covered

/-- The invariant of a woken handler, as long as fewer than half a modulus of pushes have been made
since the client's index. -/
structure WokenInv (req : ReadRequest) (low count : Nat) (s : ReadSystem) : Prop where
  poll : s.PollInv req low
  count_le : count ≤ s.journal.length
  woken : s.journal.length < low + kPositionModulus.toNat / 2 → s.Woken count

/-- A push during the wait changes the generation the wait began with. -/
theorem PollInv.woken_push (h : s.PollInv req low) {genBefore : UInt32}
    (hpc : s.reader.pc = .condWait genBefore) (p : Push)
    (hnear : (s.journal ++ [p]).length < low + kPositionModulus.toNat / 2) :
    (replay (s.journal ++ [p])).generation ≠ genBefore := by
  have hmod : kPositionModulus.toNat = 100000 := rfl
  rw [List.length_append, List.length_singleton, hmod] at hnear
  obtain ⟨hinv, hlow, -⟩ := h (by omega)
  have hphase := hinv.phase
  rw [hpc] at hphase
  obtain ⟨-, -, -, m, hm, hle, rfl⟩ := hphase
  rw [replay_generation, List.length_append, List.length_singleton]
  intro heq
  have heq := congrArg UInt32.toNat heq
  rw [UInt32.toNat_ofNat', UInt32.toNat_ofNat'] at heq
  omega

theorem WokenInv.next (ht : req.t = none) (h : s.WokenInv req low count) (event : ReadEvent) :
    WokenInv req low count (s.next config req event) := by
  have hage := ReadRequest.maxAgeSec_longPoll ht
  refine ⟨h.poll.next (inAge_of_maxAgeSec hage low s event), ?_, fun hnear => ?_⟩
  · cases event with
    | push p => exact h.count_le.trans (by simp [ReadSystem.next])
    | step tick => exact h.count_le
  · cases event with
    | push p =>
        have hshorter : s.journal.length < low + kPositionModulus.toNat / 2 := by
          simp only [ReadSystem.next, List.length_append] at hnear
          omega
        rcases h.woken hshorter with ⟨genBefore, hpc, -⟩ | hpc | hcount
        · exact Or.inl ⟨genBefore, hpc, h.poll.woken_push hpc p hnear⟩
        · exact Or.inr (Or.inl hpc)
        · exact Or.inr (Or.inr hcount)
    | step tick =>
        rcases h.woken hnear with ⟨genBefore, hpc, hgen⟩ | hpc | hcount
        · refine Or.inr (Or.inl ?_)
          have hwait : ¬(tick.rc = .signalled ∧ s.cache.generation = genBefore) := fun h => hgen h.2
          simp only [ReadSystem.next, Reader.step, hpc, if_neg hwait, Reader.afterWait,
            bne_iff_ne.mpr hgen, if_true]
        · refine Or.inr (Or.inr ?_)
          have hreads : s.readsIndex := Or.inr hpc
          simp only [ReadSystem.next, hreads, if_true]
          exact h.count_le
        · refine Or.inr (Or.inr (hcount.trans ?_))
          have hle := (h.poll hnear).1.covered_le
          simp only [ReadSystem.next]
          split <;> omega

/-- A woken handler has answered with everything that was pending after `count` pushes. -/
theorem WokenInv.pendingDelivered {journal : List Push} (h : s.WokenInv req low journal.length)
    (hextends : journal <+: s.journal) (hnear : s.journal.length < low + kPositionModulus.toNat / 2)
    {response : ReadResponse} (hresponse : s.reader.response = some response) :
    PendingDelivered req journal low response := by
  obtain ⟨hdone, rfl⟩ := Reader.response_eq_some hresponse
  have hcount : journal.length ≤ s.covered := by
    rcases h.woken hnear with ⟨genBefore, hpc, -⟩ | hpc | hcount
    · cases hdone.symm.trans hpc
    · cases hdone.symm.trans hpc
    · exact hcount
  have hphase := (h.poll hnear).1.phase
  rw [hdone] at hphase
  rintro addr ⟨haddr, hzero, hstored, r, p, hlast, hr⟩
  obtain ⟨more, hmore⟩ := hextends
  have hget : (s.journal.take s.covered)[r - 1]? = some p := by
    have hle := hlast.le_length
    rw [List.getElem?_take_of_lt (by omega), ← hmore, List.getElem?_append_left (by omega)]
    exact hlast.get
  obtain ⟨r', q, hlast'⟩ := exists_lastPush (List.mem_of_getElem? hget)
  rw [hlast.addr_eq] at hlast'
  have hlater := hlast'.le_of_get hget hlast.addr_eq
  have hkept := stored_append_isSome hzero hstored more
  rw [hmore] at hkept
  exact ⟨keptValue q, hphase.2 addr haddr hzero hkept r' q (by omega) hlast'⟩

end Pending

/-- **When pending values are delivered.** For a client that came with the index of `s` pushes: in a
run in which no push lands during a wait, the values pending at the start are delivered only if there
are none; if a push does land during a wait, they are all delivered, as long as fewer than half a
modulus of pushes have followed push number `s`. -/
theorem pendingDelivered_iff (config : ReadConfig) (req : ReadRequest) (ht : req.t = none)
    (journal : List Push) (s : Nat) (hs : s ≤ journal.length)
    (hindex : req.clientPos = position (replay (journal.take s))) (hpos : req.clientPos ≠ 0)
    (events : List ReadEvent) (response : ReadResponse)
    (hresponse : (run (next config req) (start req journal s) events).reader.response = some response) :
    (Along (next config req) Quiet (start req journal s) events →
      (PendingDelivered req journal s response ↔ ∀ addr, ¬Pending req journal s addr)) ∧
    (¬Along (next config req) Quiet (start req journal s) events →
      (run (next config req) (start req journal s) events).journal.length - s <
        kPositionModulus.toNat / 2 → PendingDelivered req journal s response) := by
  constructor
  · intro hquiet
    have hstart : req.startPos ≠ 0 := by
      rw [ReadRequest.startPos_longPoll ht]
      exact hpos
    have hphase := run_invariant_along (fun s : ReadSystem => s.QuietPhase (· = []) s.reader.pc)
      (fun _ _ hquiet h => h.next ht hquiet) hquiet
      (by simp only [start, Reader.start, if_neg hstart]; rfl)
    obtain ⟨hdone, rfl⟩ := Reader.response_eq_some hresponse
    rw [hdone] at hphase
    have hempty : (run (next config req) (start req journal s) events).reader.values = [] := hphase
    constructor
    · intro hdelivered addr hpending
      obtain ⟨value, hvalue⟩ := hdelivered addr hpending
      rw [hempty] at hvalue
      cases hvalue
    · exact fun hnone addr hpending => absurd hpending (hnone addr)
  · intro hwoken hnear
    obtain ⟨before, event, after, rfl, -, hbroken⟩ := exists_of_not_along hwoken
    have hextends := journal_prefix_run config req (start req journal s) (before ++ event :: after)
    have hreached := journal_prefix_run config req (start req journal s) before
    have hpoll := run_pollInv config ht hs hindex hpos before
    rw [run_append, run_cons] at hresponse hnear hextends
    generalize run (next config req) (start req journal s) before = reached at *
    have hinv : WokenInv req s journal.length (reached.next config req event) := by
      cases event with
      | step tick => exact absurd trivial hbroken
      | push p =>
          simp only [Quiet, not_forall, not_not] at hbroken
          obtain ⟨genBefore, hpc⟩ := hbroken
          have hage := ReadRequest.maxAgeSec_longPoll ht
          refine ⟨hpoll.next (inAge_of_maxAgeSec hage _ _ _), hreached.length_le.trans (by simp [next]), ?_⟩
          intro hnear
          exact Or.inl ⟨genBefore, hpc, hpoll.woken_push hpc p hnear⟩
    have hfinal : WokenInv req s journal.length
        (run (next config req) (reached.next config req event) after) :=
      run_invariant (WokenInv req s journal.length) (fun _ event h => h.next ht event) after hinv
    exact hfinal.pendingDelivered hextends (by omega) hresponse

/-- The second push, of address 0/0/1, is pending for a client that has seen one push. -/
def pendingJournal : List Push := [⟨2, [0x01], 0⟩, ⟨1, [0x2a], 0⟩]

theorem pendingJournal_pending : Pending (requestOne (some 1)) pendingJournal 1 1 :=
  ⟨List.mem_singleton_self 1, by decide, by decide, 2, ⟨1, [0x2a], 0⟩,
    lastPush_snoc [⟨2, [0x01], 0⟩] ⟨1, [0x2a], 0⟩, by decide⟩

/-- The hypotheses are met by a run in which a push of another address ends the wait. -/
theorem pendingDelivered_woken :
    PendingDelivered (requestOne (some 1)) pendingJournal 1 ⟨[(1, [0x2a])], 3⟩ :=
  (pendingDelivered_iff defaultConfig (requestOne (some 1)) rfl pendingJournal 1 (by decide) (by decide)
    (by decide) [.step {}, .step {}, .step {}, .push ⟨2, [0x02], 0⟩, .step {}, .step {}]
    ⟨[(1, [0x2a])], 3⟩ (by decide)).2 (fun hquiet => hquiet.2.2.2.1 _ rfl) (by decide)

/-- Without a push until the timeout, the pending value is not delivered. -/
theorem pendingJournal_not_delivered :
    (requestOne (some 1)).clientPos = position (replay (pendingJournal.take 1)) ∧
      (requestOne (some 1)).clientPos ≠ 0 ∧ pendingJournal.length - 1 < kPositionModulus.toNat / 2 ∧
      ∃ response, (run (next defaultConfig (requestOne (some 1)))
        (start (requestOne (some 1)) pendingJournal 1) [.step {}, .step {}, .step {},
          .step ⟨0, 300, by decide, .timedOut⟩]).reader.response = some response ∧
        ¬PendingDelivered (requestOne (some 1)) pendingJournal 1 response := by
  refine ⟨by decide, by decide, by decide, ⟨[], 1⟩, by decide, ?_⟩
  intro hdelivered
  obtain ⟨value, hvalue⟩ := hdelivered 1 pendingJournal_pending
  cases hvalue

/-! ### A request that no push accompanies -/

section Repeat

variable {config : ReadConfig} {req : ReadRequest} {journal : List Push} {s : ReadSystem}

/-- What an answer without pushes depends on: the client's index, and the subscribed addresses that
are stored. -/
def EmptyIff (req : ReadRequest) (journal : List Push) (values : List (UInt16 × List UInt8)) : Prop :=
  values = [] ↔ req.clientPos ≠ 0 ∨ ∀ addr ∈ req.eibAddrs, stored (replay journal) addr = none

/-- The initial read, as far as it has come, or the poll loop after it. -/
structure StillInv (req : ReadRequest) (journal : List Push) (s : ReadSystem) : Prop where
  journal_eq : s.journal = journal
  phase : (∃ before todo, s.reader.pc = .get todo ∧ req.eibAddrs = before ++ todo ∧ req.clientPos = 0 ∧
      (s.reader.values = [] ↔ ∀ addr ∈ before, stored (replay journal) addr = none)) ∨
    s.QuietPhase (EmptyIff req journal) s.reader.pc

theorem start_stillInv (ht : req.t = none) (covered : Nat) :
    StillInv req journal (start req journal covered) where
  journal_eq := rfl
  phase := by
    have hstart := ReadRequest.startPos_longPoll ht
    by_cases hpos : req.clientPos = 0
    · exact Or.inl ⟨[], req.eibAddrs, if_pos (hstart.trans hpos), rfl, hpos, by simp [start, Reader.start]⟩
    · right
      have hpc : (start req journal covered).reader.pc = .groupReads := if_neg (hstart ▸ hpos)
      rw [hpc]
      exact iff_of_true rfl (Or.inl hpos)

theorem StillInv.step (ht : req.t = none) (h : StillInv req journal s) (tick : Tick) :
    StillInv req journal (s.next config req (.step tick)) := by
  refine ⟨h.journal_eq, ?_⟩
  rcases h.phase with ⟨before, todo, hpc, hsplit, hpos, hvalues⟩ | hphase
  · cases todo with
    | nil =>
        right
        rw [List.append_nil] at hsplit
        simp only [next, Reader.step, hpc]
        apply hvalues.trans
        rw [hsplit]
        exact (or_iff_right (not_not.mpr hpos)).symm
    | cons addr todo =>
        left
        refine ⟨before ++ [addr], todo, Reader.step_get_pc hpc s.cache tick,
          by rw [hsplit, List.append_assoc]; rfl, hpos, ?_⟩
        have hage := ReadRequest.maxAgeSec_longPoll ht
        have hget := get_eq s.cache addr (-1) tick.now
        simp only [tooOld_neg_one, Bool.false_eq_true, if_false] at hget
        rw [cache, h.journal_eq] at hget
        simp only [next, Reader.step, hpc, hage, cache, h.journal_eq, hget]
        rw [List.forall_mem_append, List.forall_mem_singleton]
        cases hstored : stored (replay journal) addr with
        | none => simpa only [and_true] using hvalues
        | some e => simp
  · exact Or.inr (hphase.step ht tick)

/-- The answer of a run without pushes. -/
theorem still_empty_iff (config : ReadConfig) (req : ReadRequest) (ht : req.t = none) (journal : List Push)
    (covered : Nat) (ticks : List Tick) {response : ReadResponse}
    (hresponse : (run (next config req) (start req journal covered) (ticks.map .step)).reader.response =
      some response) : EmptyIff req journal response.d := by
  have hinv : StillInv req journal (run (next config req) (start req journal covered) (ticks.map .step)) := by
    rw [run, List.foldl_map]
    exact run_invariant (StillInv req journal) (fun _ tick h => h.step ht tick) ticks
      (start_stillInv ht covered)
  obtain ⟨hdone, rfl⟩ := Reader.response_eq_some hresponse
  rcases hinv.phase with ⟨before, todo, hpc, -⟩ | hphase
  · cases hdone.symm.trans hpc
  · rw [hdone] at hphase
    exact hphase

end Repeat

/-- **When the next poll repeats nothing.** A request without `t` has been answered; it is sent again
with the index of the answer, and no push happens until it is answered again. The second answer is
empty exactly if that index is not 0, or no subscribed address is stored. Of the first answer only the
index matters, so that it is an answer is not used. -/
theorem repeat_empty_iff (config : ReadConfig) (req : ReadRequest) (ht : req.t = none)
    (journal : List Push) (covered : Nat) (events : List ReadEvent) (response : ReadResponse)
    (_hresponse : (run (next config req) (start req journal covered) events).reader.response = some response)
    (i : Int32) (hindex : ReadRequest.clientPos { req with i := some i } = response.i) (covered' : Nat)
    (ticks : List Tick) (response' : ReadResponse)
    (hresponse' : (run (next config { req with i := some i })
      (start { req with i := some i } (run (next config req) (start req journal covered) events).journal
        covered') (ticks.map .step)).reader.response = some response') :
    response'.d = [] ↔ response.i ≠ 0 ∨ ∀ addr ∈ req.eibAddrs,
      stored (run (next config req) (start req journal covered) events).cache addr = none := by
  have hempty := still_empty_iff config { req with i := some i } ht _ covered' ticks hresponse'
  rw [EmptyIff, hindex] at hempty
  exact hempty

/-- An initial read of one push, and the poll with its index that times out: the answers, and that the second one is
empty. -/
theorem repeat_empty_caughtUp :
    let polled := run (next defaultConfig (requestOne (some 1))) (start (requestOne (some 1)) [⟨1, [0x2a], 0⟩] 1)
      ([{}, {}, {}, ⟨0, 300, by decide, .timedOut⟩].map .step)
    (run (next defaultConfig (requestOne none)) (start (requestOne none) [⟨1, [0x2a], 0⟩] 0)
        [.step {}, .step {}, .step {}, .step {}]).reader.response = some ⟨[(1, [0x2a])], 1⟩ ∧
      ∃ response, polled.reader.response = some response ∧ response.d = [] := by
  refine ⟨by decide, ⟨[], 1⟩, by decide, ?_⟩
  exact (repeat_empty_iff defaultConfig (requestOne none) rfl [⟨1, [0x2a], 0⟩] 0
    [.step {}, .step {}, .step {}, .step {}] ⟨[(1, [0x2a])], 1⟩ (by decide) 1 (by decide) 1
    [{}, {}, {}, ⟨0, 300, by decide, .timedOut⟩] ⟨[], 1⟩ (by decide)).mpr (Or.inl (by decide))

/-- A whole modulus of pushes of address 0/0/1. -/
def modulusJournal : List Push := [⟨1, [0x2a], 0⟩] ++ List.replicate 99999 ⟨1, [0x2a], 0⟩

theorem modulusJournal_position : position (replay modulusJournal) = 0 := by
  rw [replay_position, modulusJournal, List.length_append, List.length_replicate]
  decide

theorem modulusJournal_stored : (stored (replay modulusJournal) 1).isSome :=
  stored_append_isSome (by decide) (by decide) _

/-- An initial read of a stored address, after a number of pushes whose index is 0. -/
theorem initialRead_response_zero {journal : List Push} (hstored : (stored (replay journal) 1).isSome)
    (hposition : position (replay journal) = 0) {i : Option Int32} (hpos : (requestOne i).startPos = 0) :
    ∃ value, (run (next defaultConfig (requestOne i)) (start (requestOne i) journal 0)
      ([{}, {}, {}, {}].map .step)).reader.response = some ⟨[(1, value)], 0⟩ := by
  obtain ⟨e, he⟩ := Option.isSome_iff_exists.mp hstored
  have hget : SharedGroupCache.get (replay journal) 1 (-1) 0 = some e.bytes := by
    rw [get_eq, he]
    rfl
  have hstart : start (requestOne i) journal 0 = ⟨journal, ⟨.get [1], 0, [], []⟩, 0⟩ := by
    rw [start, Reader.start, if_pos hpos, hpos]
    rfl
  have hage : (requestOne i).maxAgeSec = -1 := rfl
  have htimeout : 0 < (requestOne i).timeoutSec defaultConfig := (by decide : (0 : Int32) < 300)
  refine ⟨e.bytes, ?_⟩
  simp only [hstart, List.map_cons, List.map_nil, run_cons, run_nil, next, cache, Reader.step, hage, hget,
    hposition, htimeout, if_true, List.nil_append, ne_eq, List.cons_ne_nil, not_false_eq_true,
    Reader.response]

theorem run_ticks_journal (config : ReadConfig) (req : ReadRequest) (s : ReadSystem) (ticks : List Tick) :
    (run (next config req) s (ticks.map .step)).journal = s.journal := by
  induction ticks generalizing s with
  | nil => rfl
  | cons tick ticks ih => exact ih _

/-- The second answer repeats the value of the first, although nothing was pushed in between. -/
theorem modulusJournal_repeats :
    ∃ response response', (run (next defaultConfig (requestOne none)) (start (requestOne none) modulusJournal 0)
        ([{}, {}, {}, {}].map .step)).reader.response = some response ∧
      (requestOne (some 0)).clientPos = response.i ∧
      (run (next defaultConfig (requestOne (some 0))) (start (requestOne (some 0)) (run
        (next defaultConfig (requestOne none)) (start (requestOne none) modulusJournal 0)
        ([{}, {}, {}, {}].map .step)).journal 0) ([{}, {}, {}, {}].map .step)).reader.response = some response' ∧
      response'.d ≠ [] := by
  rw [run_ticks_journal]
  obtain ⟨value, hfirst⟩ := initialRead_response_zero modulusJournal_stored modulusJournal_position
    (rfl : (requestOne none).startPos = 0)
  obtain ⟨value', hsecond⟩ := initialRead_response_zero modulusJournal_stored modulusJournal_position
    (rfl : (requestOne (some 0)).startPos = 0)
  exact ⟨_, _, hfirst, rfl, hsecond, List.cons_ne_nil _ _⟩

end ReadSystem
end KnxdFcgi
