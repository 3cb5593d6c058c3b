import KnxdFcgi.ReadIndex

/-! What the index is for: a client that keeps the values it was sent, and comes back with the index of its
last answer, knows the cache as it was at that index. The client asks without `t`, first without an index and
then with the one it has; values may be pushed at any time, a request may be lost without an answer, and the
index may wrap, in which case it is 0 and the handler reads everything again. As for a single request, no
address may be pushed between its own `get` and `position()`, and `get_delta` must come less than half a
modulus of pushes after the index it is called with. -/

namespace KnxdFcgi

open Machine SharedGroupCache

/-- The addresses a client asks for. -/
structure Subscription where
  addrs : List UInt16
  ascending : addrs.Pairwise (· < ·)

/-- The index of the last answer, if there was one, and the values received so far. -/
structure CacheClient where
  index : Option UInt32 := none
  view : UInt16 → Option (List UInt8) := fun _ => none

namespace CacheClient

def request (sub : Subscription) (client : CacheClient) : ReadRequest where
  t := none
  i := client.index.map UInt32.toInt32
  eibAddrs := sub.addrs
  ascending := sub.ascending

/-- An answer replaces what it has a value for. -/
def receive (client : CacheClient) (response : ReadResponse) : CacheClient where
  index := some response.i
  view addr := (response.d.lookup addr).or (client.view addr)

end CacheClient

/-- The journal of the cache, and a client; `covered` is the number of pushes that its index stands for. -/
structure ClientSession where
  journal : List Push
  client : CacheClient
  covered : Nat

inductive ClientEvent where
  /-- a push while no request is under way -/
  | push (p : Push)
  /-- a request, and what happens until it is answered or lost -/
  | poll (events : List ReadEvent)

namespace ClientSession

/-- The request is served up to here. -/
def served (config : ReadConfig) (sub : Subscription) (s : ClientSession) (events : List ReadEvent) : ReadSystem :=
  run (ReadSystem.next config (s.client.request sub))
    (ReadSystem.start (s.client.request sub) s.journal s.covered) events

def next (config : ReadConfig) (sub : Subscription) (s : ClientSession) : ClientEvent → ClientSession
  | .push p => { s with journal := s.journal ++ [p] }
  | .poll events =>
      let final := s.served config sub events
      match final.reader.response with
      | some response => ⟨final.journal, s.client.receive response, final.covered⟩
      | none => { s with journal := final.journal }

/-- The client begins, with a cache that has been running. -/
def start (journal : List Push) : ClientSession := ⟨journal, {}, 0⟩

/-- A request that is answered is not overtaken by the pushes. -/
def Undisturbed (config : ReadConfig) (sub : Subscription) (s : ClientSession) : ClientEvent → Prop
  | .push _ => True
  | .poll events => (s.served config sub events).reader.response.isSome →
      Along (ReadSystem.next config (s.client.request sub)) (ReadSystem.KeepsUp (s.client.request sub))
        (ReadSystem.start (s.client.request sub) s.journal s.covered) events

end ClientSession

namespace ReadSystem

variable {config : ReadConfig} {req : ReadRequest} {low : Nat} {s : ReadSystem}

/-- Every value in the list is the one that the cache has after these pushes. -/
def ValuesOf (journal : List Push) (values : List (UInt16 × List UInt8)) : Prop :=
  ∀ addr value, (addr, value) ∈ values → addr ≠ 0 → get (replay journal) addr (-1) 0 = some value

/-- The values collected so far are those of the cache: at this moment during the initial read, where only
addresses still to come may be pushed, and after the pushes of the index later on. -/
def Exact (req : ReadRequest) (s : ReadSystem) : ReadPc → Prop
  | .get todo => ValuesOf s.journal s.reader.values ∧ ∀ v ∈ s.reader.values, v.1 ∈ req.eibAddrs ∧ v.1 ∉ todo
  | _ => ValuesOf (s.journal.take s.covered) s.reader.values

theorem get_snoc_of_ne (journal : List Push) {p : Push} {addr : UInt16} (hzero : addr ≠ 0) (hne : addr ≠ p.addr)
    (now : UInt32) : get (replay (journal ++ [p])) addr (-1) now = get (replay journal) addr (-1) now := by
  rw [get_eq, get_eq, stored_snoc_of_ne journal p hzero hne]

theorem ValuesOf.snoc {journal : List Push} {values : List (UInt16 × List UInt8)} (h : ValuesOf journal values)
    {p : Push} (hne : ∀ v ∈ values, v.1 ≠ 0 → v.1 ≠ p.addr) : ValuesOf (journal ++ [p]) values := by
  intro addr value hmem hzero
  rw [get_snoc_of_ne journal hzero (hne _ hmem hzero)]
  exact h addr value hmem hzero

theorem exact_of_valuesOf {pc : ReadPc} (hget : ∀ todo, pc ≠ .get todo)
    (h : ValuesOf (s.journal.take s.covered) s.reader.values) : s.Exact req pc := by
  cases pc with
  | get todo => exact absurd rfl (hget todo)
  | _ => exact h

theorem Exact.valuesOf {pc : ReadPc} (h : s.Exact req pc) (hget : ∀ todo, pc ≠ .get todo) :
    ValuesOf (s.journal.take s.covered) s.reader.values := by
  cases pc with
  | get todo => exact absurd rfl (hget todo)
  | _ => exact h

theorem Exact.push {p : Push} (h : s.Exact req s.reader.pc) (hle : s.covered ≤ s.journal.length)
    (hkeeps : s.KeepsUp req (.push p)) : Exact req { s with journal := s.journal ++ [p] } s.reader.pc := by
  by_cases hget : ∃ todo, s.reader.pc = .get todo
  · obtain ⟨todo, hpc⟩ := hget
    rw [hpc] at h ⊢
    refine ⟨h.1.snoc fun v hv hzero heq => ?_, h.2⟩
    obtain ⟨hsub, hdone⟩ := h.2 v hv
    exact hdone (heq ▸ hkeeps todo hpc (heq ▸ hsub) (heq ▸ hzero))
  · have hnot := not_exists.mp hget
    refine exact_of_valuesOf hnot ?_
    rw [List.take_append_of_le_length hle]
    exact h.valuesOf hnot

/-- One `get` of the initial read. -/
theorem Exact.step_get (hage : req.maxAgeSec = -1) {before : List UInt16} {addr : UInt16} {todo : List UInt16}
    (hsplit : req.eibAddrs = before ++ addr :: todo) (hpc : s.reader.pc = .get (addr :: todo))
    (h : s.Exact req (.get (addr :: todo))) (tick : Tick) :
    Exact req { s with reader := s.reader.step config req s.cache tick } (.get todo) := by
  obtain ⟨hvalues, hdone⟩ := h
  have hsub : addr ∈ req.eibAddrs := by simp [hsplit]
  have hnew : addr ∉ todo := by
    have hascending := req.ascending
    rw [hsplit, List.pairwise_append, List.pairwise_cons] at hascending
    exact fun hmem => absurd rfl (UInt16.ne_of_lt (hascending.2.1.1 addr hmem))
  have hdone' : ∀ v ∈ s.reader.values, v.1 ∈ req.eibAddrs ∧ v.1 ∉ todo := fun v hv =>
    ⟨(hdone v hv).1, fun hmem => (hdone v hv).2 (List.mem_cons_of_mem _ hmem)⟩
  simp only [Exact, Reader.step, hpc, hage]
  split
  · rename_i value hget
    refine ⟨fun a v hmem hzero => ?_, fun v hmem => ?_⟩
    · rcases List.mem_append.mp hmem with hmem | hmem
      · exact hvalues a v hmem hzero
      · obtain ⟨rfl, rfl⟩ := Prod.mk.inj (List.mem_singleton.mp hmem)
        exact hget
    · rcases List.mem_append.mp hmem with hmem | hmem
      · exact hdone' v hmem
      · rw [List.mem_singleton.mp hmem]
        exact ⟨hsub, hnew⟩
  · exact ⟨hvalues, hdone'⟩

/-- What `get_delta` returns is what `get` would. -/
theorem valuesOf_getDelta (journal : List Push) (sincePos : UInt32) (subscribed : List UInt16) (now : UInt32) :
    ValuesOf journal (getDelta (replay journal) sincePos subscribed (-1) now).values := by
  intro addr value hmem hzero
  obtain ⟨-, hstored, r, p, hlast, rfl, -⟩ := (mem_getDelta_aged_iff hzero _ _ _ _ _).mp hmem
  exact (get_replay hzero 0).mpr ⟨hstored, r, p, hlast, rfl⟩

theorem Exact.step (h : s.Exact req s.reader.pc) (hinv : s.Inv req low) (hage : req.maxAgeSec = -1) (tick : Tick) :
    Exact req (s.next config req (.step tick)) (s.next config req (.step tick)).reader.pc := by
  have hphase := hinv.phase
  cases hpc : s.reader.pc with
  | get todo =>
      rw [hpc] at h hphase
      obtain ⟨before, hsplit, -⟩ := hphase
      cases todo with
      | nil =>
          have hreads : s.readsIndex := Or.inl hpc
          simp only [ReadSystem.next, Reader.step, hpc, hreads, if_true, Exact, List.take_length]
          exact h.1
      | cons addr todo =>
          have hreads : ¬s.readsIndex := by simp [readsIndex, hpc]
          simp only [ReadSystem.next, Reader.step_get_pc hpc, hreads, if_false]
          exact h.step_get hage hsplit hpc tick
  | getDelta =>
      rw [hpc] at hphase
      have hreads : s.readsIndex := Or.inr hpc
      have hvalues : (s.reader.step config req s.cache tick).values =
          (SharedGroupCache.getDelta s.cache s.reader.lastpos req.eibAddrs (-1) tick.now).values := by
        simp [Reader.step, hpc, Reader.alreadyWritten, hphase.2.2, hage]
      refine exact_of_valuesOf (fun todo => ?_) ?_
      · simp only [ReadSystem.next, Reader.step, hpc]
        split_ifs <;> simp
      · simp only [ReadSystem.next, hreads, if_true, List.take_length, hvalues]
        exact valuesOf_getDelta s.journal _ _ _
  | groupReads | loopHead | enterWait _ | condWait _ | done =>
      have hreads : ¬s.readsIndex := by simp [readsIndex, hpc]
      obtain ⟨hvalues, -, hnot⟩ : (s.reader.step config req s.cache tick).values = s.reader.values ∧
          (s.reader.step config req s.cache tick).lastpos = s.reader.lastpos ∧
          ∀ todo, (s.reader.step config req s.cache tick).pc ≠ .get todo :=
        Reader.step_idle (by simp [hpc]) (by simp [hpc]) s.cache tick
      refine exact_of_valuesOf hnot ?_
      simp only [ReadSystem.next, hreads, if_false, hvalues]
      exact h.valuesOf (by simp [hpc])

/-- The handler at work on a request without an age filter, of a client that has seen `since` pushes; it has
to deliver what was pushed after push number `low`. -/
structure Serves (req : ReadRequest) (low since : Nat) (s : ReadSystem) : Prop where
  inv : s.Inv req low
  exact : s.Exact req s.reader.pc
  since_le : since ≤ s.covered

variable {since : Nat}

theorem Serves.next (h : s.Serves req low since) (hage : req.maxAgeSec = -1) {event : ReadEvent}
    (hkeeps : s.KeepsUp req event) : Serves req low since (s.next config req event) where
  inv := h.inv.next hkeeps (fun _ _ => hage) (inAge_of_maxAgeSec hage low s event)
  exact := by
    cases event with
    | push p => exact h.exact.push h.inv.covered_le hkeeps
    | step tick => exact h.exact.step h.inv hage tick
  since_le := by
    have hcovered := h.inv.covered_le
    have hsince := h.since_le
    cases event with
    | push p => exact hsince
    | step tick =>
        simp only [ReadSystem.next]
        split_ifs <;> omega

/-- A request that takes the initial read has to deliver everything. -/
theorem start_serves_initialRead (hpath : req.startPos = 0) {journal : List Push} (hsince : since ≤ journal.length) :
    Serves req 0 since (start req journal since) := by
  have hpc : (start req journal since).reader.pc = .get req.eibAddrs := if_pos hpath
  refine ⟨⟨hsince, ?_⟩, ?_, le_rfl⟩
  · rw [hpc]
    exact ⟨[], rfl, fun _ hmem => absurd hmem List.not_mem_nil⟩
  · rw [hpc]
    exact ⟨fun _ _ hmem => absurd hmem List.not_mem_nil, fun _ hmem => absurd hmem List.not_mem_nil⟩

/-- A request that comes with the index has to deliver what was pushed since. -/
theorem start_serves_poll (hpath : req.startPos ≠ 0) (hindex : req.startPos = positionAfter since)
    {journal : List Push} (hsince : since ≤ journal.length) : Serves req since since (start req journal since) := by
  have hpc : (start req journal since).reader.pc = .groupReads := if_neg hpath
  refine ⟨⟨hsince, ?_⟩, ?_, le_rfl⟩
  · rw [hpc]
    refine ⟨hindex, ?_⟩
    intro addr _ _ _ r p hr hlast
    have hle := hlast.le_length
    simp only [start, List.length_take] at hle
    omega
  · rw [hpc]
    exact fun _ _ hmem => absurd hmem List.not_mem_nil

/-- What the answer adds to the values of the client is what the cache has after the pushes of its index. -/
theorem Serves.answers (h : s.Serves req low since) {response : ReadResponse}
    (hresponse : s.reader.response = some response) :
    response.i = positionAfter s.covered ∧ ValuesOf (s.journal.take s.covered) response.d ∧
      ∀ addr ∈ req.eibAddrs, addr ≠ 0 → ∀ r p, low < r → LastPush (s.journal.take s.covered) addr r p →
        (stored s.cache addr).isSome → (addr, keptValue p) ∈ response.d := by
  obtain ⟨hdone, rfl⟩ := Reader.response_eq_some hresponse
  have hphase := h.inv.phase
  have hexact := h.exact
  rw [hdone] at hphase hexact
  exact ⟨hphase.1, hexact, fun addr haddr hzero r p hr hlast hstored =>
    hphase.2 addr haddr hzero hstored r p hr hlast⟩

end ReadSystem

/-! ### The client -/

namespace CacheClient

variable {sub : Subscription} {client : CacheClient}

theorem request_maxAgeSec : (client.request sub).maxAgeSec = -1 := ReadRequest.maxAgeSec_longPoll rfl

theorem request_startPos_none (h : client.index = none) : (client.request sub).startPos = 0 := by
  rw [ReadRequest.startPos_longPoll rfl, ReadRequest.clientPos, request, h]
  rfl

theorem request_startPos {n : Nat} (h : client.index = some (positionAfter n)) :
    (client.request sub).startPos = positionAfter n := by
  have hnonneg : 0 ≤ (positionAfter n).toInt32 := by
    have hlt := positionAfter_lt n
    rw [Int32.le_iff_toInt_le, ← Int32.toInt_toBitVec (positionAfter n).toInt32, UInt32.toBitVec_toInt32,
      BitVec.toInt_eq_toNat_cond, UInt32.toNat_toBitVec, Int32.toInt_zero]
    split <;> omega
  rw [ReadRequest.startPos_longPoll rfl, ReadRequest.clientPos, request, h]
  simp only [Option.map_some, if_pos hnonneg, UInt32.toUInt32_toInt32]

end CacheClient

namespace ClientSession

variable {config : ReadConfig} {sub : Subscription} {s : ClientSession}

/-- The index stands for `covered` pushes, and the values are those of the cache after them. -/
structure Current (sub : Subscription) (s : ClientSession) : Prop where
  covered_le : s.covered ≤ s.journal.length
  index : s.client.index = none ∨ s.client.index = some (positionAfter s.covered)
  view : ∀ addr ∈ sub.addrs, addr ≠ 0 →
    s.client.view addr = get (replay (s.journal.take s.covered)) addr (-1) 0

theorem mem_of_lookup {d : List (UInt16 × List UInt8)} {addr : UInt16} {value : List UInt8}
    (h : d.lookup addr = some value) : (addr, value) ∈ d := by
  obtain ⟨before, after, rfl, -⟩ := List.lookup_eq_some_iff.mp h
  simp

/-- An address without a slot at the end has never had a value. -/
theorem get_eq_none_of_append {journal more : List Push} {addr : UInt16} (hzero : addr ≠ 0)
    (hnot : stored (replay (journal ++ more)) addr = none) (now : UInt32) :
    get (replay journal) addr (-1) now = none := by
  cases hget : get (replay journal) addr (-1) now with
  | none => rfl
  | some value =>
      have hstored := stored_append_isSome hzero ((get_replay hzero now).mp hget).1 more
      rw [hnot] at hstored
      cases hstored

/-- An answer that has the last values of what was pushed later brings a view up to date. -/
theorem view_receive {journal more : List Push} (rest : List Push) {d : List (UInt16 × List UInt8)} {addr : UInt16}
    (hzero : addr ≠ 0) (hvalues : ReadSystem.ValuesOf (journal ++ more) d)
    (hdelivers : ∀ r p, journal.length < r → LastPush (journal ++ more) addr r p →
      (stored (replay (journal ++ more ++ rest)) addr).isSome → (addr, keptValue p) ∈ d) :
    (d.lookup addr).or (get (replay journal) addr (-1) 0) = get (replay (journal ++ more)) addr (-1) 0 := by
  cases hlookup : d.lookup addr with
  | some value =>
      rw [Option.some_or]
      exact (hvalues addr value (mem_of_lookup hlookup) hzero).symm
  | none =>
      have habsent : ∀ value, (addr, value) ∉ d := by
        intro value hmem
        have hne := List.lookup_eq_none_iff.mp hlookup _ hmem
        simp at hne
      rw [Option.none_or]
      by_cases hpushed : ∃ p ∈ more, p.addr = addr
      · obtain ⟨p, hp, rfl⟩ := hpushed
        obtain ⟨r, q, hlast⟩ := exists_lastPush (List.mem_append_right journal hp)
        have hlater : journal.length < r := by
          rw [← hlast.pushed_after_iff journal.length, List.drop_left]
          exact ⟨p, hp, rfl⟩
        have hnot : stored (replay (journal ++ more ++ rest)) p.addr = none := by
          by_contra hstored
          exact habsent _ (hdelivers r q hlater hlast (Option.isSome_iff_ne_none.mpr hstored))
        rw [get_eq_none_of_append hzero hnot]
        rw [List.append_assoc] at hnot
        exact get_eq_none_of_append hzero hnot 0
      · rw [get_eq, get_eq, stored_append_of_ne journal hzero]
        exact fun q hq haddr => hpushed ⟨q, hq, haddr⟩

/-- The answer to a request, and the client after it. -/
theorem Current.poll (h : s.Current sub) {events : List ReadEvent} {response : ReadResponse}
    (hresponse : (s.served config sub events).reader.response = some response)
    (hkeeps : Along (ReadSystem.next config (s.client.request sub)) (ReadSystem.KeepsUp (s.client.request sub))
      (ReadSystem.start (s.client.request sub) s.journal s.covered) events) :
    Current sub ⟨(s.served config sub events).journal, s.client.receive response,
      (s.served config sub events).covered⟩ := by
  obtain ⟨low, hlow, hstart⟩ : ∃ low ≤ s.covered, ReadSystem.Serves (s.client.request sub) low s.covered
      (ReadSystem.start (s.client.request sub) s.journal s.covered) := by
    by_cases hpath : (s.client.request sub).startPos = 0
    · exact ⟨0, Nat.zero_le _, ReadSystem.start_serves_initialRead hpath h.covered_le⟩
    · have hindex : s.client.index = some (positionAfter s.covered) :=
        h.index.resolve_left fun hnone => hpath (CacheClient.request_startPos_none hnone)
      exact ⟨s.covered, le_rfl,
        ReadSystem.start_serves_poll hpath (CacheClient.request_startPos hindex) h.covered_le⟩
  have hserves : ReadSystem.Serves (s.client.request sub) low s.covered (s.served config sub events) :=
    run_invariant_along _ (fun _ _ hkeeps hs => hs.next CacheClient.request_maxAgeSec hkeeps) hkeeps hstart
  have hprefix : s.journal <+: (s.served config sub events).journal :=
    ReadSystem.journal_prefix_run config _ (ReadSystem.start (s.client.request sub) s.journal s.covered) events
  generalize s.served config sub events = final at hresponse hserves hprefix ⊢
  obtain ⟨hindex, hvalues, hdelivers⟩ := hserves.answers hresponse
  refine ⟨hserves.inv.covered_le, Or.inr (congrArg some hindex), fun addr haddr hzero => ?_⟩
  have hlength : (s.journal.take s.covered).length = s.covered := List.length_take_of_le h.covered_le
  obtain ⟨more, hmore⟩ : s.journal.take s.covered <+: final.journal.take final.covered :=
    List.prefix_take_iff.mpr ⟨(List.take_prefix _ _).trans hprefix, hlength.le.trans hserves.since_le⟩
  obtain ⟨rest, hrest⟩ := List.take_prefix final.covered final.journal
  simp only [CacheClient.receive, h.view addr haddr hzero]
  rw [← hmore] at hvalues hdelivers hrest ⊢
  refine view_receive rest hzero hvalues fun r p hr hlast hstored => ?_
  rw [hlength] at hr
  rw [hrest] at hstored
  exact hdelivers addr haddr hzero r p (hlow.trans_lt hr) hlast hstored

theorem Current.next (h : s.Current sub) {event : ClientEvent} (hevent : s.Undisturbed config sub event) :
    Current sub (s.next config sub event) := by
  cases event with
  | push p =>
      refine ⟨h.covered_le.trans (by simp [ClientSession.next]), h.index, fun addr haddr hzero => ?_⟩
      simp only [ClientSession.next, List.take_append_of_le_length h.covered_le]
      exact h.view addr haddr hzero
  | poll events =>
      simp only [ClientSession.next]
      cases hresponse : (s.served config sub events).reader.response with
      | some response => exact h.poll hresponse (hevent (by rw [hresponse]; rfl))
      | none =>
          obtain ⟨more, hmore⟩ : s.journal <+: (s.served config sub events).journal :=
            ReadSystem.journal_prefix_run config _ (ReadSystem.start (s.client.request sub) s.journal s.covered) events
          simp only [← hmore]
          refine ⟨h.covered_le.trans (by simp), h.index, fun addr haddr hzero => ?_⟩
          simp only [List.take_append_of_le_length h.covered_le]
          exact h.view addr haddr hzero

theorem start_current (sub : Subscription) (journal : List Push) : Current sub (start journal) where
  covered_le := Nat.zero_le _
  index := Or.inl rfl
  view addr _ hzero := by
    have hempty : get (replay ([] : List Push)) addr (-1) 0 = none := by
      cases hget : get (replay []) addr (-1) 0 with
      | none => rfl
      | some value =>
          obtain ⟨-, r, p, hlast, -⟩ := (get_replay hzero 0).mp hget
          exact absurd hlast.mem List.not_mem_nil
    exact hempty.symm

/-- **A client that follows the index knows the cache.** After any number of requests, answered or lost, and any
pushes during and between them, the index of the client is that of some number of pushes made so far, and for
every subscribed address but 0 the client has exactly the value that `get` gave after these pushes; in
particular the current one, if nothing has been pushed since. -/
theorem client_view_current (config : ReadConfig) (sub : Subscription) (journal : List Push)
    (events : List ClientEvent)
    (hundisturbed : Along (next config sub) (Undisturbed config sub) (start journal) events) :
    ∃ covered ≤ (run (next config sub) (start journal) events).journal.length,
      ((run (next config sub) (start journal) events).client.index = none ∨
        (run (next config sub) (start journal) events).client.index = some (positionAfter covered)) ∧
      ∀ addr ∈ sub.addrs, addr ≠ 0 → ∀ now, (run (next config sub) (start journal) events).client.view addr =
        get (replay ((run (next config sub) (start journal) events).journal.take covered)) addr (-1) now := by
  have hcurrent : Current sub (run (next config sub) (start journal) events) :=
    run_invariant_along (Current sub) (fun _ _ hevent h => h.next hevent) hundisturbed (start_current sub journal)
  refine ⟨_, hcurrent.covered_le, hcurrent.index, fun addr haddr hzero now => ?_⟩
  rw [hcurrent.view addr haddr hzero, get_eq, get_eq]
  rfl

def subscribedOne : Subscription := ⟨_, (ReadSystem.requestOne none).ascending⟩

/-- A client reads address 0/0/1 and polls for it; a push wakes the second request. -/
def readAndPoll : List ClientEvent :=
  let step := ReadEvent.step (ReadSystem.tickAt 0 0 .signalled)
  [.poll [step, step, step, step], .poll [step, step, step, .push ⟨1, [0x2b], 0⟩, step, step]]

theorem client_view_current_readAndPoll :
    (run (next ReadSystem.defaultConfig subscribedOne) (start [⟨1, [0x2a], 0⟩]) readAndPoll).client.view 1 =
        some [0x2b] ∧
      ∃ covered ≤ (run (next ReadSystem.defaultConfig subscribedOne) (start [⟨1, [0x2a], 0⟩]) readAndPoll).journal.length,
        get (replay ((run (next ReadSystem.defaultConfig subscribedOne) (start [⟨1, [0x2a], 0⟩])
          readAndPoll).journal.take covered)) 1 (-1) 0 = some [0x2b] := by
  have hvalue : (run (next ReadSystem.defaultConfig subscribedOne) (start [⟨1, [0x2a], 0⟩]) readAndPoll).client.view 1 =
      some [0x2b] := by decide
  obtain ⟨covered, hle, -, hview⟩ := client_view_current ReadSystem.defaultConfig subscribedOne [⟨1, [0x2a], 0⟩]
    readAndPoll
    ⟨fun _ => ⟨fun h => (by cases h), fun h => (by cases h), fun h => (by cases h), fun h => (by cases h), trivial⟩,
      fun _ => ⟨fun h => (by cases h), fun h => (by cases h), fun h => absurd h (by decide),
        fun todo h => (by cases (by decide : ReadPc.condWait 1 = _).trans h), fun h => absurd h (by decide),
        fun _ => by decide, trivial⟩,
      trivial⟩
  refine ⟨hvalue, covered, hle, ?_⟩
  rw [← hview 1 (List.mem_singleton_self 1) (by decide) 0, hvalue]

end ClientSession
end KnxdFcgi
