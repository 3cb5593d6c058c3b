import KnxdFcgi.ReadHandler

/-! What the index of an answer covers. After the index has been read, `d` holds the last value of every
subscribed address that was pushed up to the index and after the position the client came with. The
poll loop keeps this by itself, for less than half a modulus of pushes between two readings of the
index: `get_delta` takes the values and the index under one lock. The initial read takes them one after
the other, and keeps it only if no address is pushed between its own `get` and `position()`. -/

namespace KnxdFcgi

open Machine SharedGroupCache

namespace ReadSystem

/-- The last push up to the index of every subscribed, stored address, if it is later than push number
`low`, is in `d`. -/
def Delivered (req : ReadRequest) (low : Nat) (s : ReadSystem) : Prop :=
  ∀ addr ∈ req.eibAddrs, addr ≠ 0 → (stored s.cache addr).isSome → ∀ r p, low < r →
    LastPush (s.journal.take s.covered) addr r p → (addr, keptValue p) ∈ s.reader.values

/-- The addresses the initial read has done have their last value in `d`. -/
def ReadBefore (before : List UInt16) (s : ReadSystem) : Prop :=
  ∀ addr ∈ before, addr ≠ 0 → (stored s.cache addr).isSome → ∀ r p,
    LastPush s.journal addr r p → (addr, keptValue p) ∈ s.reader.values

/-- What holds at each statement of the handler. -/
def Phase (req : ReadRequest) (low : Nat) (s : ReadSystem) : ReadPc → Prop
  | .get todo => ∃ before, req.eibAddrs = before ++ todo ∧ ReadBefore before s
  | .groupReads | .loopHead | .done =>
      s.reader.lastpos = positionAfter s.covered ∧ s.Delivered req low
  | .enterWait _ | .getDelta =>
      s.reader.lastpos = positionAfter s.covered ∧ s.Delivered req low ∧ s.reader.values = []
  | .condWait genBefore =>
      s.reader.lastpos = positionAfter s.covered ∧ s.Delivered req low ∧ s.reader.values = [] ∧
        ∃ m, s.covered ≤ m ∧ m ≤ s.journal.length ∧ genBefore = UInt32.ofNat m

structure Inv (req : ReadRequest) (low : Nat) (s : ReadSystem) : Prop where
  covered_le : s.covered ≤ s.journal.length
  phase : s.Phase req low s.reader.pc

/-- A push does not hit an address between its `get` and `position()`, and `get_delta` comes less than
half a modulus of pushes after the index was read. -/
def KeepsUp (req : ReadRequest) (s : ReadSystem) : ReadEvent → Prop
  | .push p => ∀ todo, s.reader.pc = .get todo → p.addr ∈ req.eibAddrs → p.addr ≠ 0 → p.addr ∈ todo
  | .step _ => s.reader.pc = .getDelta → s.journal.length < s.covered + kPositionModulus.toNat / 2

/-- The age filter lets through what was pushed last after push number `low`. -/
def Fresh (req : ReadRequest) (low : Nat) (s : ReadSystem) (now : UInt32) : Prop :=
  ∀ addr ∈ req.eibAddrs, addr ≠ 0 → (stored s.cache addr).isSome → ∀ r p, low < r →
    LastPush s.journal addr r p → tooOld req.maxAgeSec now p.time = false

/-- Whenever `get_delta` is called, the age filter withholds nothing. -/
def InAge (req : ReadRequest) (low : Nat) (s : ReadSystem) : ReadEvent → Prop
  | .push _ => True
  | .step tick => s.reader.pc = .getDelta → s.Fresh req low tick.now

theorem inAge_of_maxAgeSec {req : ReadRequest} (hage : req.maxAgeSec = -1) (low : Nat) (s : ReadSystem)
    (event : ReadEvent) : s.InAge req low event := by
  cases event with
  | push p => trivial
  | step tick =>
      intro _ addr _ _ _ r p _ _
      rw [hage, tooOld_neg_one]

section Push

variable {req : ReadRequest} {low : Nat} {s : ReadSystem} {p : Push}

theorem Delivered.push (h : s.Delivered req low) (hle : s.covered ≤ s.journal.length) :
    Delivered req low { s with journal := s.journal ++ [p] } := by
  intro addr haddr hzero hstored r q hr hlast
  rw [List.take_append_of_le_length hle] at hlast
  have hmem := List.mem_of_mem_take hlast.mem
  obtain rfl := hlast.addr_eq
  exact h q.addr haddr hzero (stored_of_append hzero hmem hstored) r q hr hlast

theorem ReadBefore.push {before : List UInt16} (h : s.ReadBefore before)
    (hp : p.addr ∈ before → p.addr = 0) : ReadBefore before { s with journal := s.journal ++ [p] } := by
  intro addr haddr hzero hstored r q hlast
  have hne : p.addr ≠ addr := by
    rintro rfl
    exact hzero (hp haddr)
  rw [cache, stored_snoc_of_ne _ p hzero hne.symm] at hstored
  exact h addr haddr hzero hstored r q (hlast.snoc_of_ne hne)

theorem Inv.push (h : s.Inv req low) (hkeeps : s.KeepsUp req (.push p)) :
    Inv req low { s with journal := s.journal ++ [p] } where
  covered_le := h.covered_le.trans (by simp)
  phase := by
    have hphase := h.phase
    cases hpc : s.reader.pc with
    | get todo =>
        rw [hpc] at hphase
        obtain ⟨before, hsplit, hbefore⟩ := hphase
        refine ⟨before, hsplit, hbefore.push ?_⟩
        intro hp
        by_contra hzero
        have hsub : p.addr ∈ req.eibAddrs := by
          rw [hsplit]
          exact List.mem_append_left _ hp
        have htodo := hkeeps todo hpc hsub hzero
        have hascending := req.ascending
        rw [hsplit, List.pairwise_append] at hascending
        exact absurd rfl (UInt16.ne_of_lt (hascending.2.2 _ hp _ htodo))
    | groupReads | loopHead | done =>
        rw [hpc] at hphase
        exact ⟨hphase.1, hphase.2.push h.covered_le⟩
    | enterWait _ | getDelta =>
        rw [hpc] at hphase
        exact ⟨hphase.1, hphase.2.1.push h.covered_le, hphase.2.2⟩
    | condWait genBefore =>
        rw [hpc] at hphase
        obtain ⟨hindex, hdelivered, hempty, m, hm, hle, hgen⟩ := hphase
        exact ⟨hindex, hdelivered.push h.covered_le, hempty, m, hm, hle.trans (by simp), hgen⟩

end Push

section Step

variable {config : ReadConfig} {req : ReadRequest} {low : Nat} {s : ReadSystem} {tick : Tick}

/-- Where the handler neither reads the cache into `d` nor the index, only its place changes. -/
theorem Delivered.of_eq {s' : ReadSystem} (h : s.Delivered req low) (hjournal : s'.journal = s.journal)
    (hcovered : s'.covered = s.covered) (hvalues : s'.reader.values = s.reader.values) :
    s'.Delivered req low := by
  intro addr haddr hzero hstored r p hr hlast
  rw [cache, hjournal] at hstored
  rw [hjournal, hcovered] at hlast
  rw [hvalues]
  exact h addr haddr hzero hstored r p hr hlast

theorem Delivered.phase_afterWait (h : s.Delivered req low)
    (hindex : s.reader.lastpos = positionAfter s.covered) (hempty : s.reader.values = []) (newData : Bool) :
    Phase req low { s with reader := s.reader.afterWait newData } (s.reader.afterWait newData).pc := by
  cases newData
  · exact ⟨hindex, h.of_eq rfl rfl rfl⟩
  · exact ⟨hindex, h.of_eq rfl rfl rfl, hempty⟩

/-- One `get` of the initial read. -/
theorem ReadBefore.get (hage : req.maxAgeSec = -1) {before : List UInt16} {addr : UInt16} {todo : List UInt16}
    (h : s.ReadBefore before) (hpc : s.reader.pc = .get (addr :: todo)) :
    ReadBefore (before ++ [addr]) { s with reader := s.reader.step config req s.cache tick } := by
  intro a ha hzero hstored r p hlast
  simp only [Reader.step, hpc, hage]
  rcases List.mem_append.mp ha with ha | ha
  · have hmem := h a ha hzero hstored r p hlast
    split
    · exact List.mem_append_left _ hmem
    · exact hmem
  · obtain rfl := List.mem_singleton.mp ha
    have hget : SharedGroupCache.get s.cache a (-1) tick.now = some (keptValue p) :=
      (get_replay hzero tick.now).mpr ⟨hstored, r, p, hlast, rfl⟩
    rw [hget]
    exact List.mem_append_right _ (List.mem_singleton_self _)

/-- `get_delta` finds every address pushed after the index was read; before it, nothing was missing. -/
theorem Delivered.getDelta (h : s.Delivered req low) (hindex : s.reader.lastpos = positionAfter s.covered)
    (hempty : s.reader.values = []) (hfresh : s.Fresh req low tick.now)
    (hnear : s.journal.length < s.covered + kPositionModulus.toNat / 2)
    {addr : UInt16} (haddr : addr ∈ req.eibAddrs) (hzero : addr ≠ 0)
    (hstored : (stored s.cache addr).isSome) {r : Nat} {p : Push} (hr : low < r)
    (hlast : LastPush s.journal addr r p) :
    (addr, keptValue p) ∈
      (SharedGroupCache.getDelta s.cache s.reader.lastpos req.eibAddrs req.maxAgeSec tick.now).values := by
  rw [hindex, cache, mem_getDelta_aged_iff hzero]
  refine ⟨haddr, hstored, r, p, hlast, rfl, hfresh addr haddr hzero hstored r p hr hlast, ?_⟩
  by_cases hcovered : s.covered < r
  · exact isNewer_of_lt hcovered hlast.le_length.2 hnear
  · have hmissing := h addr haddr hzero hstored r p hr (hlast.take (Nat.not_lt.mp hcovered))
    rw [hempty] at hmissing
    cases hmissing

/-- The cases of a step that read the index. -/
theorem Inv.step_index (h : s.Inv req low) (hkeeps : s.KeepsUp req (.step tick))
    (hage : s.InAge req low (.step tick)) (hreads : s.readsIndex) :
    Inv req low (s.next config req (.step tick)) := by
  have hphase := h.phase
  refine ⟨by simp only [next, hreads, if_true]; exact le_rfl, ?_⟩
  simp only [next, hreads, if_true]
  rcases hreads with hpc | hpc <;> rw [hpc] at hphase
  · obtain ⟨before, hsplit, hbefore⟩ := hphase
    rw [List.append_nil] at hsplit
    simp only [Reader.step, hpc]
    refine ⟨replay_position s.journal, ?_⟩
    intro addr haddr hzero hstored r p _ hlast
    rw [List.take_length] at hlast
    exact hbefore addr (hsplit ▸ haddr) hzero hstored r p hlast
  · obtain ⟨hindex, hdelivered, hempty⟩ := hphase
    have hdelta : ∀ v ∈ (SharedGroupCache.getDelta s.cache s.reader.lastpos req.eibAddrs
        req.maxAgeSec tick.now).values, v ∈ (s.reader.step config req s.cache tick).values := by
      intro v hv
      simp only [Reader.step, hpc, Reader.alreadyWritten, hempty]
      simpa using hv
    have hnew : Delivered req low ⟨s.journal, s.reader.step config req s.cache tick, s.journal.length⟩ := by
      intro addr haddr hzero hstored r p hr hlast
      rw [List.take_length] at hlast
      exact hdelta _ (hdelivered.getDelta hindex hempty (hage hpc) (hkeeps hpc) haddr hzero hstored hr hlast)
    have hposition : (s.reader.step config req s.cache tick).lastpos = positionAfter s.journal.length := by
      simp only [Reader.step, hpc]
      exact replay_position s.journal
    have hplace : (s.reader.step config req s.cache tick).pc = .loopHead ∨
        (s.reader.step config req s.cache tick).pc = .done := by
      simp only [Reader.step, hpc]
      split
      · exact Or.inl rfl
      · exact Or.inr rfl
    rcases hplace with hplace | hplace <;> rw [hplace] <;> exact ⟨hposition, hnew⟩

/-- The cases of a step that leave the index as it is. -/
theorem Inv.step_other (h : s.Inv req low) (hinitial : ∀ todo, s.reader.pc = .get todo → req.maxAgeSec = -1)
    (hreads : ¬s.readsIndex) : Inv req low (s.next config req (.step tick)) := by
  have hphase := h.phase
  refine ⟨by simp only [next, hreads, if_false]; exact h.covered_le, ?_⟩
  simp only [next, hreads, if_false]
  cases hpc : s.reader.pc with
  | get todo =>
      rw [hpc] at hphase
      obtain ⟨before, hsplit, hbefore⟩ := hphase
      cases todo with
      | nil => exact absurd (Or.inl hpc) hreads
      | cons addr todo =>
          rw [Reader.step_get_pc hpc]
          exact ⟨before ++ [addr], by rw [hsplit, List.append_assoc]; rfl, hbefore.get (hinitial _ hpc) hpc⟩
  | groupReads =>
      rw [hpc] at hphase
      simp only [Reader.step, hpc]
      exact ⟨hphase.1, hphase.2.of_eq rfl rfl rfl⟩
  | loopHead =>
      rw [hpc] at hphase
      simp only [Reader.step, hpc]
      split_ifs with htimeout hwritten hremaining
      · exact ⟨hphase.1, hphase.2.of_eq rfl rfl rfl⟩
      · exact ⟨hphase.1, hphase.2.of_eq rfl rfl rfl⟩
      · exact ⟨hphase.1, hphase.2.of_eq rfl rfl rfl, not_not.mp hwritten⟩
      · exact ⟨hphase.1, hphase.2.of_eq rfl rfl rfl⟩
  | enterWait timeoutMs =>
      rw [hpc] at hphase
      simp only [Reader.step, hpc]
      split_ifs with hms
      · exact hphase.2.1.phase_afterWait hphase.1 hphase.2.2 _
      · exact ⟨hphase.1, hphase.2.1.of_eq rfl rfl rfl, hphase.2.2, s.journal.length, h.covered_le,
          le_rfl, s.cache_generation⟩
  | condWait genBefore =>
      rw [hpc] at hphase
      simp only [Reader.step, hpc]
      split_ifs with hwait
      · rw [hpc]
        exact hphase
      · exact hphase.2.1.phase_afterWait hphase.1 hphase.2.2.1 _
  | getDelta => exact absurd (Or.inr hpc) hreads
  | done =>
      rw [hpc] at hphase
      simp only [Reader.step, hpc]
      exact hphase

theorem Inv.next (h : s.Inv req low) {event : ReadEvent} (hkeeps : s.KeepsUp req event)
    (hinitial : ∀ todo, s.reader.pc = .get todo → req.maxAgeSec = -1) (hage : s.InAge req low event) :
    Inv req low (s.next config req event) := by
  cases event with
  | push p => exact h.push hkeeps
  | step tick =>
      by_cases hreads : s.readsIndex
      · exact h.step_index hkeeps hage hreads
      · exact h.step_other hinitial hreads

end Step

/-! ### The initial read -/

/-- No push that the index stands for is missing from the answer: of every subscribed, stored address
the value of its last push up to the index, or of a later one, is in `d`. -/
def CoversIndex (req : ReadRequest) (s : ReadSystem) (response : ReadResponse) : Prop :=
  ∀ addr ∈ req.eibAddrs, addr ≠ 0 → (stored s.cache addr).isSome → ∀ r p,
    LastPush (s.journal.take s.covered) addr r p →
      ∃ r' p', r ≤ r' ∧ s.journal[r' - 1]? = some p' ∧ p'.addr = addr ∧
        (addr, keptValue p') ∈ response.d

theorem start_inv_initialRead {req : ReadRequest} (hpath : req.startPos = 0) (journal : List Push) :
    Inv req 0 (start req journal 0) where
  covered_le := Nat.zero_le _
  phase := by
    have hpc : (start req journal 0).reader.pc = .get req.eibAddrs := if_pos hpath
    rw [hpc]
    exact ⟨[], rfl, fun _ h => absurd h List.not_mem_nil⟩

theorem Inv.coversIndex {req : ReadRequest} {s : ReadSystem} (h : s.Inv req 0) {response : ReadResponse}
    (hresponse : s.reader.response = some response) :
    response.i = positionAfter s.covered ∧ s.CoversIndex req response := by
  obtain ⟨hdone, rfl⟩ := Reader.response_eq_some hresponse
  have hphase := h.phase
  rw [hdone] at hphase
  refine ⟨hphase.1, fun addr haddr hzero hstored r p hlast => ⟨r, p, le_rfl, ?_, hlast.addr_eq, ?_⟩⟩
  · have hget := hlast.get
    rw [List.getElem?_take] at hget
    split at hget
    · exact hget
    · cases hget
  · exact hphase.2 addr haddr hzero hstored r p hlast.le_length.1 hlast

/-- **When the initial read loses no update.** A request that takes the initial read without an age
filter answers with an index that covers no missing push, in every run in which no subscribed address
is pushed between its own `get` and the reading of the index, and every `get_delta` comes less than
half a modulus of pushes after the reading of the index before it. -/
theorem initialRead_coversIndex (config : ReadConfig) (req : ReadRequest) (hpath : req.startPos = 0)
    (hage : req.maxAgeSec = -1) (journal : List Push) (events : List ReadEvent)
    (hkeeps : Along (next config req) (KeepsUp req) (start req journal 0) events)
    (response : ReadResponse)
    (hresponse : (run (next config req) (start req journal 0) events).reader.response = some response) :
    response.i = positionAfter (run (next config req) (start req journal 0) events).covered ∧
      (run (next config req) (start req journal 0) events).covered ≤
        (run (next config req) (start req journal 0) events).journal.length ∧
      (run (next config req) (start req journal 0) events).CoversIndex req response := by
  have hinv : Inv req 0 (run (next config req) (start req journal 0) events) :=
    run_invariant_along (Inv req 0)
      (fun s event hkeeps h => h.next hkeeps (fun _ _ => hage) (inAge_of_maxAgeSec hage 0 s event)) hkeeps
      (start_inv_initialRead hpath journal)
  obtain ⟨hindex, hcovers⟩ := hinv.coversIndex hresponse
  exact ⟨hindex, hinv.covered_le, hcovers⟩

/-- The default configuration. -/
def defaultConfig : ReadConfig := ⟨300, by decide, by decide⟩

/-- A request for address 0/0/1 alone. -/
def requestOne (i : Option Int32) : ReadRequest := ⟨none, i, [1], by simp⟩

/-- The hypotheses are met by an initial read of an address that is pushed before its `get`. -/
theorem initialRead_coversIndex_pushed :
    (run (next defaultConfig (requestOne none)) (start (requestOne none) [⟨1, [0x2a], 0⟩] 0)
      [.push ⟨1, [0x2b], 0⟩, .step {}, .step {}, .step {}, .step {}]).CoversIndex (requestOne none) ⟨[(1, [0x2b])], 2⟩ := by
  have hpushed : (start (requestOne none) [⟨1, [0x2a], 0⟩] 0).KeepsUp (requestOne none) (.push ⟨1, [0x2b], 0⟩) := by
    intro todo htodo hmem _
    cases htodo
    exact hmem
  exact (initialRead_coversIndex defaultConfig (requestOne none) rfl rfl [⟨1, [0x2a], 0⟩]
    [.push ⟨1, [0x2b], 0⟩, .step {}, .step {}, .step {}, .step {}]
    ⟨hpushed, fun h => (by cases h), fun h => (by cases h), fun h => (by cases h), fun h => (by cases h), trivial⟩
    ⟨[(1, [0x2b])], 2⟩ (by decide)).2.2

/-- Address 0/0/1 is pushed again after its `get` and before `position()`. -/
def lostUpdate : ReadSystem :=
  run (next defaultConfig (requestOne none)) (start (requestOne none) [⟨1, [0x01], 0⟩] 0)
    [.step {}, .push ⟨1, [0x02], 0⟩, .step {}, .step {}, .step {}]

/-- The answer has the old value and the index of the new one. -/
theorem lostUpdate_not_coversIndex :
    lostUpdate.reader.response = some ⟨[(1, [0x01])], 2⟩ ∧ lostUpdate.covered = 2 ∧
      ¬lostUpdate.CoversIndex (requestOne none) ⟨[(1, [0x01])], 2⟩ := by
  refine ⟨by decide, by decide, ?_⟩
  intro hcovers
  have hstored : (stored lostUpdate.cache 1).isSome := by decide
  obtain ⟨r', p', hr', hget, -, hmem⟩ := hcovers 1 (List.mem_singleton_self 1) (by decide) hstored 2
    ⟨1, [0x02], 0⟩ (lastPush_snoc [⟨1, [0x01], 0⟩] ⟨1, [0x02], 0⟩)
  have hvalue : keptValue p' = [0x01] := (Prod.mk.inj (List.mem_singleton.mp hmem)).2
  have hlen : r' - 1 < 2 := (List.getElem?_eq_some_iff.mp hget).1
  obtain rfl : r' = 2 := by omega
  obtain rfl : ⟨1, [0x02], 0⟩ = p' := Option.some.inj hget
  exact absurd hvalue (by decide)

section LongPoll

variable {config : ReadConfig} {req : ReadRequest} {low : Nat} {s : ReadSystem}

/-- The handler does not return to the initial read. -/
theorem step_pc_ne_get {r : Reader} (h : ∀ todo, r.pc ≠ .get todo) (cache : SharedCacheData) (tick : Tick)
    (todo : List UInt16) : (r.step config req cache tick).pc ≠ .get todo := by
  by_cases hdelta : r.pc = .getDelta
  · simp only [Reader.step, hdelta]
    split_ifs <;> simp
  · exact (Reader.step_idle h hdelta cache tick).2.2 todo

/-- The invariant of a request that came with the index of `low` pushes, as long as fewer than half a
modulus of pushes follow them. -/
def PollInv (req : ReadRequest) (low : Nat) (s : ReadSystem) : Prop :=
  s.journal.length < low + kPositionModulus.toNat / 2 →
    s.Inv req low ∧ low ≤ s.covered ∧ ∀ todo, s.reader.pc ≠ .get todo

theorem PollInv.next (h : s.PollInv req low) {event : ReadEvent} (hage : s.InAge req low event) :
    PollInv req low (s.next config req event) := by
  intro hnear
  cases event with
  | push p =>
      have hshorter : s.journal.length < low + kPositionModulus.toNat / 2 := by
        simp only [ReadSystem.next, List.length_append] at hnear
        omega
      obtain ⟨hinv, hlow, hpc⟩ := h hshorter
      have hkeeps : s.KeepsUp req (.push p) := fun todo htodo => absurd htodo (hpc todo)
      exact ⟨hinv.next hkeeps (fun todo htodo => absurd htodo (hpc todo)) hage, hlow, hpc⟩
  | step tick =>
      obtain ⟨hinv, hlow, hpc⟩ := h hnear
      have hkeeps : s.KeepsUp req (.step tick) := fun _ => lt_of_lt_of_le hnear (by omega)
      refine ⟨hinv.next hkeeps (fun todo htodo => absurd htodo (hpc todo)) hage, ?_, step_pc_ne_get hpc _ _⟩
      have hle := hinv.covered_le
      simp only [ReadSystem.next]
      split <;> omega

theorem start_pollInv {journal : List Push} (hlow : low ≤ journal.length)
    (hindex : req.startPos = positionAfter low) (hpos : req.startPos ≠ 0) :
    PollInv req low (start req journal low) := by
  have hpc : (start req journal low).reader.pc = .groupReads := if_neg hpos
  refine fun _ => ⟨⟨hlow, ?_⟩, le_rfl, fun todo => by rw [hpc]; exact nofun⟩
  rw [hpc]
  refine ⟨hindex, ?_⟩
  intro addr _ _ _ r p hr hlast
  have hle := hlast.le_length
  simp only [start, List.length_take] at hle
  omega

/-- What a run of the poll loop keeps, as long as the age filter withholds nothing. -/
theorem run_pollInv_inAge (config : ReadConfig) (hstart : req.startPos = req.clientPos) {journal : List Push}
    (hlow : low ≤ journal.length) (hindex : req.clientPos = position (replay (journal.take low)))
    (hpos : req.clientPos ≠ 0) {events : List ReadEvent}
    (hage : Along (next config req) (InAge req low) (start req journal low) events) :
    PollInv req low (run (next config req) (start req journal low) events) := by
  rw [replay_position, List.length_take_of_le hlow] at hindex
  exact run_invariant_along (PollInv req low) (fun _ _ hage h => h.next hage) hage
    (start_pollInv hlow (hstart.trans hindex) (hstart ▸ hpos))

theorem run_pollInv (config : ReadConfig) (ht : req.t = none) {journal : List Push}
    (hlow : low ≤ journal.length) (hindex : req.clientPos = position (replay (journal.take low)))
    (hpos : req.clientPos ≠ 0) (events : List ReadEvent) :
    PollInv req low (run (next config req) (start req journal low) events) :=
  run_pollInv_inAge config (ReadRequest.startPos_longPoll ht) hlow hindex hpos
    (along_of_forall fun event _ s => inAge_of_maxAgeSec (ReadRequest.maxAgeSec_longPoll ht) low s event)

/-- What the invariant says of an answer: its index is that of exactly one number of pushes, and covers no
missing push. -/
theorem PollInv.delivers {final : ReadSystem} (hpoll : final.PollInv req low) {response : ReadResponse}
    (hresponse : final.reader.response = some response)
    (hnear : final.journal.length - low < kPositionModulus.toNat / 2) :
    (∃ s', low ≤ s' ∧ s' ≤ final.journal.length ∧ response.i = positionAfter s') ∧
    ∀ s', low ≤ s' → s' ≤ final.journal.length → response.i = positionAfter s' →
      ∀ addr ∈ req.eibAddrs, addr ≠ 0 → (stored final.cache addr).isSome → ∀ r p,
        LastPush (final.journal.take s') addr r p → low < r → (addr, keptValue p) ∈ response.d := by
  have hnear : final.journal.length < low + kPositionModulus.toNat / 2 := by omega
  obtain ⟨hinv, hlow, -⟩ := hpoll hnear
  obtain ⟨hdone, rfl⟩ := Reader.response_eq_some hresponse
  have hle := hinv.covered_le
  have hphase := hinv.phase
  rw [hdone] at hphase
  refine ⟨⟨final.covered, hlow, hle, hphase.1⟩, ?_⟩
  intro s' hs' hle' hindex' addr haddr hzero hstored r p hlast hr
  have hsame : s' = final.covered := by
    apply positionAfter_inj_near hs' hlow (hle'.trans_lt hnear) (hle.trans_lt hnear)
    exact hindex'.symm.trans hphase.1
  subst hsame
  exact hphase.2 addr haddr hzero hstored r p hr hlast

end LongPoll

/-- **Long-poll delivery loses nothing**, however long the run and wherever the counters wrap. If fewer
than half a modulus of pushes lie between push number `s` and the answer, the index of the answer is the
one of exactly one number of pushes from `s` on, and every subscribed, stored address last pushed in
between is in `d` with the bytes kept of that push. -/
theorem longPoll_delivers (config : ReadConfig) (req : ReadRequest) (ht : req.t = none)
    (journal : List Push) (s : Nat) (hs : s ≤ journal.length)
    (hindex : req.clientPos = position (replay (journal.take s))) (hpos : req.clientPos ≠ 0)
    (events : List ReadEvent) (response : ReadResponse)
    (hresponse : (run (next config req) (start req journal s) events).reader.response = some response)
    (hnear : (run (next config req) (start req journal s) events).journal.length - s <
      kPositionModulus.toNat / 2) :
    (∃ s', s ≤ s' ∧ s' ≤ (run (next config req) (start req journal s) events).journal.length ∧
      response.i = positionAfter s') ∧
    ∀ s', s ≤ s' → s' ≤ (run (next config req) (start req journal s) events).journal.length →
      response.i = positionAfter s' → ∀ addr ∈ req.eibAddrs, addr ≠ 0 →
        (stored (run (next config req) (start req journal s) events).cache addr).isSome → ∀ r p,
          LastPush ((run (next config req) (start req journal s) events).journal.take s') addr r p →
            s < r → (addr, keptValue p) ∈ response.d :=
  (run_pollInv config ht hs hindex hpos events).delivers hresponse hnear

/-- A push of address 0/0/1 wakes the handler of a client that has seen one push. -/
def wokenByPush (value : List UInt8) : ReadSystem :=
  run (next defaultConfig (requestOne (some 1))) (start (requestOne (some 1)) [⟨2, [0x01], 0⟩] 1)
    [.step {}, .step {}, .step {}, .push ⟨1, value, 0⟩, .step {}, .step {}]

/-- The hypotheses are met by that run. -/
theorem longPoll_delivers_woken :
    ∃ response, (wokenByPush [0x2a]).reader.response = some response ∧ (1, [0x2a]) ∈ response.d :=
  ⟨⟨[(1, [0x2a])], 2⟩, by decide,
    (longPoll_delivers defaultConfig (requestOne (some 1)) rfl [⟨2, [0x01], 0⟩] 1 (by decide) (by decide)
      (by decide) _ ⟨[(1, [0x2a])], 2⟩ (by decide : (wokenByPush [0x2a]).reader.response = _)
      (by decide : (wokenByPush [0x2a]).journal.length - 1 < _)).2 2 (by decide)
      (by decide : 2 ≤ (wokenByPush [0x2a]).journal.length) (by decide) 1 (List.mem_singleton_self 1)
      (by decide) (by decide : (stored (wokenByPush [0x2a]).cache 1).isSome) 2 ⟨1, [0x2a], 0⟩
      (lastPush_snoc [⟨2, [0x01], 0⟩] ⟨1, [0x2a], 0⟩) (by decide)⟩

/-- A value of 15 bytes is answered with its first 14. -/
theorem wokenByPush_cuts_value :
    (requestOne (some 1)).clientPos = position (replay ([⟨2, [0x01], 0⟩].take 1)) ∧
    LastPush ((wokenByPush (List.replicate 15 0xff)).journal.take 2) 1 2 ⟨1, List.replicate 15 0xff, 0⟩ ∧
    (stored (wokenByPush (List.replicate 15 0xff)).cache 1).isSome ∧
    ∃ response, (wokenByPush (List.replicate 15 0xff)).reader.response = some response ∧
      response.i = positionAfter 2 ∧ (1, List.replicate 15 0xff) ∉ response.d :=
  ⟨by decide, lastPush_snoc [⟨2, [0x01], 0⟩] ⟨1, List.replicate 15 0xff, 0⟩, by decide,
    ⟨[(1, List.replicate 14 0xff)], 2⟩, by decide, by decide, by decide⟩

end ReadSystem
end KnxdFcgi
