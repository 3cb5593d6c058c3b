import KnxdFcgi.ReadDelivery

/-! What the index of an answer is worth to a client that comes with one. With a `t` above zero, `get_delta`
leaves out what is older than `t` seconds while the index moves past it, so an update that the client has not seen
is lost for good. And the index of a client is taken as it is: unless the handler reads one from the cache, the
answer returns it, whether or not the cache was ever there. -/

namespace KnxdFcgi

open Machine SharedGroupCache

namespace ReadRequest

variable {req : ReadRequest}

theorem startPos_of_pos {t : Int32} (ht : req.t = some t) (hpos : 0 < t) : req.startPos = req.clientPos := by
  simp only [startPos, ht]
  exact if_neg (Int32.not_le.mpr hpos)

/-- The initial read is taken for a `t` of zero or less, and without an index. -/
theorem startPos_eq_zero_iff : req.startPos = 0 ↔ (∃ t, req.t = some t ∧ t ≤ 0) ∨ req.clientPos = 0 := by
  unfold startPos
  cases req.t with
  | none => simp
  | some t =>
      by_cases hle : t ≤ 0
      · simp [hle]
      · simp [hle]

theorem startPos_eq_clientPos (h : req.startPos ≠ 0) : req.startPos = req.clientPos := by
  unfold startPos at h ⊢
  split
  · rfl
  · split_ifs with hle
    · rename_i t ht
      simp [ht, hle] at h
    · rfl

end ReadRequest

namespace ReadSystem

/-- **When the age filter swallows no update.** A request with a `t` above zero and the index of `s` pushes is
answered like one without an age filter in every run in which, whenever `get_delta` is called, the subscribed
addresses pushed last after push number `s` are younger than `t` seconds. -/
theorem agedPoll_delivers (config : ReadConfig) (req : ReadRequest) (t : Int32) (ht : req.t = some t)
    (htpos : 0 < t) (journal : List Push) (s : Nat) (hs : s ≤ journal.length)
    (hindex : req.clientPos = position (replay (journal.take s))) (hpos : req.clientPos ≠ 0)
    (events : List ReadEvent)
    (hage : Along (next config req) (InAge req s) (start req journal s) events) (response : ReadResponse)
    (hresponse : (run (next config req) (start req journal s) events).reader.response = some response)
    (hnear : (run (next config req) (start req journal s) events).journal.length - s <
      kPositionModulus.toNat / 2) :
    (∃ s', s ≤ s' ∧ s' ≤ (run (next config req) (start req journal s) events).journal.length ∧
      response.i = positionAfter s') ∧
    ∀ s', s ≤ s' → s' ≤ (run (next config req) (start req journal s) events).journal.length →
      response.i = positionAfter s' → ∀ addr ∈ req.eibAddrs, addr ≠ 0 →
        (stored (run (next config req) (start req journal s) events).cache addr).isSome → ∀ r p,
          LastPush ((run (next config req) (start req journal s) events).journal.take s') addr r p →
            s < r → (addr, keptValue p) ∈ response.d :=
  (run_pollInv_inAge config (ReadRequest.startPos_of_pos ht htpos) hs hindex hpos hage).delivers hresponse hnear

/-- A request for address 0/0/1 with an age filter, from a client that has seen one push. -/
def requestAged (t : Int32) : ReadRequest := { requestOne (some 1) with t := some t }

/-- The clocks at one step, and how a wait ends. -/
def tickAt (now : UInt32) (elapsed : UInt16) (rc : CondResult) : Tick where
  now := now
  elapsed := elapsed.toNat
  elapsed_lt := elapsed.toNat_lt.trans (by decide)
  rc := rc

/-- A push of address 0/0/1 wakes the handler, which asks for the delta in the same second. -/
def agedEvents : List ReadEvent :=
  let step := ReadEvent.step (tickAt 0 0 .signalled)
  [step, step, step, .push ⟨1, [0x2a], 0⟩, step, step]

/-- The hypotheses are met by that run. -/
theorem agedPoll_delivers_woken :
    ∃ response, (run (next defaultConfig (requestAged 60)) (start (requestAged 60) [⟨2, [0x01], 0⟩] 1)
      agedEvents).reader.response = some response ∧ (1, [0x2a]) ∈ response.d := by
  have hage : Along (next defaultConfig (requestAged 60)) (InAge (requestAged 60) 1)
      (start (requestAged 60) [⟨2, [0x01], 0⟩] 1) agedEvents := by
    refine ⟨fun h => absurd h (by decide), fun h => absurd h (by decide), fun h => absurd h (by decide), trivial,
      fun h => absurd h (by decide), fun _ addr _ _ _ r p _ hlast => ?_, trivial⟩
    have hmem : p ∈ [(⟨2, [0x01], 0⟩ : Push), ⟨1, [0x2a], 0⟩] := hlast.mem
    have htime : p.time = 0 := by
      rcases List.mem_cons.mp hmem with rfl | hmem
      · rfl
      · rw [List.mem_singleton.mp hmem]
    rw [htime]
    decide
  exact ⟨⟨[(1, [0x2a])], 2⟩, by decide,
    (agedPoll_delivers defaultConfig (requestAged 60) 60 rfl (by decide) [⟨2, [0x01], 0⟩] 1 (by decide)
      (by decide) (by decide) agedEvents hage ⟨[(1, [0x2a])], 2⟩ (by decide) (by decide)).2 2 (by decide)
      (by decide) (by decide) 1 (List.mem_singleton_self 1) (by decide) (by decide) 2 ⟨1, [0x2a], 0⟩
      (lastPush_snoc [⟨2, [0x01], 0⟩] ⟨1, [0x2a], 0⟩) (by decide)⟩

/-- Address 0/0/1 was pushed after the client's index, 100 seconds before the request. A push of another address
wakes the handler, and the poll ends without data. -/
def swallowed : ReadSystem :=
  let step := ReadEvent.step (tickAt 100 0 .signalled)
  run (next defaultConfig (requestAged 1)) (start (requestAged 1) [⟨2, [0x01], 0⟩, ⟨1, [0x2a], 0⟩] 1)
    [step, step, step, .push ⟨2, [0x02], 100⟩, step, step, .step (tickAt 101 1 .signalled)]

/-- The index of the answer stands for all three pushes, and the value of 0/0/1 is not in it. -/
theorem swallowed_not_delivered :
    (requestAged 1).clientPos = position (replay ([⟨2, [0x01], 0⟩, ⟨1, [0x2a], 0⟩].take 1)) ∧
    swallowed.reader.response = some ⟨[], positionAfter 3⟩ ∧
    (stored swallowed.cache 1).isSome ∧
    LastPush (swallowed.journal.take 3) 1 2 ⟨1, [0x2a], 0⟩ ∧ 1 < 2 := by
  have hlast : LastPush [⟨2, [0x01], 0⟩, ⟨1, [0x2a], 0⟩] 1 2 ⟨1, [0x2a], 0⟩ :=
    lastPush_snoc [⟨2, [0x01], 0⟩] ⟨1, [0x2a], 0⟩
  have hmore : ∀ q ∈ [(⟨2, [0x02], 100⟩ : Push)], q.addr ≠ 1 := by decide
  exact ⟨by decide, by decide, by decide, hlast.append hmore, by decide⟩

/-- The number is `position()` at some moment from the beginning of the request, with the first journal, to its
end, with the last one. -/
def PositionDuring (journal final : List Push) (i : UInt32) : Prop :=
  ∃ k, journal.length ≤ k ∧ k ≤ final.length ∧ i = position (replay (final.take k))

theorem positionDuring_iff {journal final : List Push} {i : UInt32} :
    PositionDuring journal final i ↔ ∃ k, journal.length ≤ k ∧ k ≤ final.length ∧ i = positionAfter k := by
  constructor
  · rintro ⟨k, hge, hle, rfl⟩
    exact ⟨k, hge, hle, by rw [replay_position, List.length_take_of_le hle]⟩
  · rintro ⟨k, hge, hle, rfl⟩
    exact ⟨k, hge, hle, by rw [replay_position, List.length_take_of_le hle]⟩

theorem PositionDuring.snoc {journal final : List Push} {i : UInt32} (h : PositionDuring journal final i)
    (p : Push) : PositionDuring journal (final ++ [p]) i := by
  obtain ⟨k, hge, hle, hi⟩ := positionDuring_iff.mp h
  exact positionDuring_iff.mpr ⟨k, hge, hle.trans (by simp), hi⟩

/-- The index of the moment itself. -/
theorem positionDuring_position {journal : List Push} {s : ReadSystem}
    (h : journal.length ≤ s.journal.length) : PositionDuring journal s.journal (position s.cache) :=
  ⟨s.journal.length, h, le_rfl, by rw [List.take_length]; rfl⟩

variable {config : ReadConfig} {req : ReadRequest} {journal : List Push} {covered : Nat}

/-- The handler assigns its index at the end of the initial read and with every delta. -/
theorem step_lastpos (r : Reader) (cache : SharedCacheData) (tick : Tick) :
    (r.step config req cache tick).lastpos =
      if r.pc = .get [] ∨ r.pc = .getDelta then position cache else r.lastpos := by
  cases hpc : r.pc with
  | get todo =>
      cases todo with
      | nil => simp [Reader.step, hpc]
      | cons addr todo =>
          simp only [Reader.step, hpc]
          split <;> simp
  | getDelta => simp [Reader.step, hpc, SharedGroupCache.getDelta]
  | groupReads | loopHead | enterWait _ | condWait _ | done =>
      rw [if_neg (by simp)]
      exact (Reader.step_idle (by simp [hpc]) (by simp [hpc]) cache tick).2.1

/-- The handler's index has been read from the cache during the request. -/
def FromCache (journal : List Push) (s : ReadSystem) : Prop :=
  PositionDuring journal s.journal s.reader.lastpos

theorem FromCache.length_le {s : ReadSystem} (h : s.FromCache journal) :
    journal.length ≤ s.journal.length := by
  obtain ⟨k, hge, hle, -⟩ := h
  exact hge.trans hle

/-- Once it has, it always has. -/
theorem FromCache.next {s : ReadSystem} (h : s.FromCache journal) (event : ReadEvent) :
    FromCache journal (s.next config req event) := by
  cases event with
  | push p => exact PositionDuring.snoc h p
  | step tick =>
      simp only [FromCache, ReadSystem.next, step_lastpos]
      split_ifs
      · exact positionDuring_position h.length_le
      · exact h

/-- The initial read is still going on, or the index is from the cache. -/
def ReadsFirst (journal : List Push) (s : ReadSystem) : Prop :=
  journal.length ≤ s.journal.length ∧ ((∃ todo, s.reader.pc = .get todo) ∨ s.FromCache journal)

theorem ReadsFirst.next {s : ReadSystem} (h : s.ReadsFirst journal) (event : ReadEvent) :
    ReadsFirst journal (s.next config req event) := by
  obtain ⟨hle, ⟨todo, hpc⟩ | hfrom⟩ := h
  · cases event with
    | push p => exact ⟨hle.trans (by simp [ReadSystem.next]), Or.inl ⟨todo, hpc⟩⟩
    | step tick =>
        refine ⟨hle, ?_⟩
        cases todo with
        | nil =>
            refine Or.inr ?_
            simp only [FromCache, ReadSystem.next, step_lastpos, hpc, true_or, if_true]
            exact positionDuring_position hle
        | cons addr todo => exact Or.inl ⟨todo, Reader.step_get_pc hpc s.cache tick⟩
  · exact ⟨(hfrom.next event).length_le, Or.inr (hfrom.next event)⟩

/-- An answer after an initial read has its index from the cache. -/
theorem run_fromCache_initialRead (hpath : req.startPos = 0) (events : List ReadEvent)
    (hdone : (run (next config req) (start req journal covered) events).reader.pc = .done) :
    FromCache journal (run (next config req) (start req journal covered) events) := by
  have hstart : ReadsFirst journal (start req journal covered) :=
    ⟨le_rfl, Or.inl ⟨req.eibAddrs, if_pos hpath⟩⟩
  rcases (run_invariant (ReadsFirst journal) (fun _ event h => h.next event) events hstart).2 with
    ⟨todo, hpc⟩ | hfrom
  · rw [hdone] at hpc
    cases hpc
  · exact hfrom

/-- `get_delta` is not called. -/
def NoDelta (s : ReadSystem) : ReadEvent → Prop
  | .push _ => True
  | .step _ => s.reader.pc ≠ .getDelta

/-- The index is the one the client sent. -/
def KeepsClient (req : ReadRequest) (s : ReadSystem) : Prop :=
  s.reader.lastpos = req.clientPos ∧ ∀ todo, s.reader.pc ≠ .get todo

theorem KeepsClient.next {s : ReadSystem} (h : s.KeepsClient req) {event : ReadEvent}
    (hquiet : s.NoDelta event) : KeepsClient req (s.next config req event) := by
  cases event with
  | push p => exact h
  | step tick =>
      refine ⟨?_, step_pc_ne_get h.2 _ tick⟩
      simp only [ReadSystem.next, step_lastpos]
      rw [if_neg (not_or.mpr ⟨h.2 [], hquiet⟩)]
      exact h.1

/-- Without a delta, a client's index stays what it was. -/
theorem run_lastpos_noDelta (hpath : req.startPos ≠ 0) {events : List ReadEvent}
    (hquiet : Along (next config req) NoDelta (start req journal covered) events) :
    (run (next config req) (start req journal covered) events).reader.lastpos = req.clientPos := by
  have hstart : KeepsClient req (start req journal covered) :=
    ⟨ReadRequest.startPos_eq_clientPos hpath, fun todo => by simp [start, Reader.start, hpath]⟩
  exact (run_invariant_along (KeepsClient req) (fun _ _ hquiet h => h.next hquiet) hquiet hstart).1

theorem exists_delta {events : List ReadEvent}
    (h : ¬Along (next config req) NoDelta (start req journal covered) events) :
    ∃ before tick after, events = before ++ .step tick :: after ∧
      (run (next config req) (start req journal covered) before).reader.pc = .getDelta := by
  obtain ⟨before, event, after, hevents, -, hdelta⟩ := exists_of_not_along h
  cases event with
  | push p => exact absurd trivial hdelta
  | step tick => exact ⟨before, tick, after, hevents, not_not.mp hdelta⟩

/-- After a delta, the index is from the cache. -/
theorem run_fromCache_of_delta {events before : List ReadEvent} {tick : Tick} {after : List ReadEvent}
    (hevents : events = before ++ .step tick :: after)
    (hpc : (run (next config req) (start req journal covered) before).reader.pc = .getDelta) :
    FromCache journal (run (next config req) (start req journal covered) events) := by
  rw [hevents, run_append, run_cons]
  refine run_invariant (FromCache journal) (fun _ event h => h.next event) after ?_
  simp only [FromCache, next, step_lastpos, hpc, or_true, if_true]
  exact positionDuring_position
    (journal_prefix_run config req (start req journal covered) before).length_le

/-- **When the returned index is authoritative.** In every run of a request, the returned index is `position()` at
some moment of the request exactly if the initial read is taken, or the index that the client sent is one of that
kind itself, or the handler calls `get_delta`. -/
theorem index_authoritative_iff (config : ReadConfig) (req : ReadRequest) (journal : List Push) (covered : Nat)
    (events : List ReadEvent) (response : ReadResponse)
    (hresponse : (run (next config req) (start req journal covered) events).reader.response = some response) :
    PositionDuring journal (run (next config req) (start req journal covered) events).journal response.i ↔
      ((∃ t, req.t = some t ∧ t ≤ 0) ∨ req.clientPos = 0) ∨
      PositionDuring journal (run (next config req) (start req journal covered) events).journal req.clientPos ∨
      ∃ before tick after, events = before ++ .step tick :: after ∧
        (run (next config req) (start req journal covered) before).reader.pc = .getDelta := by
  obtain ⟨hdone, rfl⟩ := Reader.response_eq_some hresponse
  rw [← ReadRequest.startPos_eq_zero_iff]
  by_cases hpath : req.startPos = 0
  · exact iff_of_true (run_fromCache_initialRead hpath events hdone) (Or.inl hpath)
  by_cases hquiet : Along (next config req) NoDelta (start req journal covered) events
  · rw [run_lastpos_noDelta hpath hquiet]
    refine ⟨fun hclient => Or.inr (Or.inl hclient), ?_⟩
    rintro (hpath' | hclient | ⟨before, tick, after, hevents, hpc⟩)
    · exact absurd hpath' hpath
    · exact hclient
    · rw [← run_lastpos_noDelta hpath hquiet]
      exact run_fromCache_of_delta hevents hpc
  · obtain ⟨before, tick, after, hevents, hpc⟩ := exists_delta hquiet
    exact iff_of_true (run_fromCache_of_delta hevents hpc) (Or.inr (Or.inr ⟨before, tick, after, hevents, hpc⟩))

/-- The hypothesis is met by an initial read. -/
theorem index_authoritative_iff_initialRead :
    PositionDuring [⟨1, [0x2a], 0⟩] (run (next defaultConfig (requestOne none))
      (start (requestOne none) [⟨1, [0x2a], 0⟩] 0) [.step {}, .step {}, .step {}, .step {}]).journal 1 :=
  (index_authoritative_iff defaultConfig (requestOne none) [⟨1, [0x2a], 0⟩] 0
    [.step {}, .step {}, .step {}, .step {}] ⟨[(1, [0x2a])], 1⟩ (by decide)).mpr (Or.inl (Or.inr rfl))

/-- A client comes with the index of an earlier life of the cache, and its poll times out. -/
def staleIndex : ReadSystem :=
  let step := ReadEvent.step (tickAt 0 0 .signalled)
  run (next defaultConfig (requestOne (some 5))) (start (requestOne (some 5)) [⟨2, [0x01], 0⟩] 0)
    [step, step, step, .step (tickAt 0 300 .timedOut)]

/-- Only one push has been made, and the answer still says 5. -/
theorem staleIndex_not_position :
    staleIndex.reader.response = some ⟨[], 5⟩ ∧ ¬PositionDuring [⟨2, [0x01], 0⟩] staleIndex.journal 5 := by
  refine ⟨by decide, ?_⟩
  rw [positionDuring_iff]
  rintro ⟨k, hge, hle, hposition⟩
  have hlength : staleIndex.journal.length = 1 := by decide
  obtain rfl : k = 1 := le_antisymm (hlength ▸ hle) hge
  exact absurd hposition (by decide)

end ReadSystem
end KnxdFcgi
