import KnxdFcgi.ReadIndex
import KnxdFcgi.WorkerPackets

/-! The reads of a worker. Asked with `t=0`, a read sends a `GroupValueRead` for what it does not find in the cache;
but it waits for the answers only if it has found nothing at all. Where nobody feeds the cache, which is how the
program runs under spawn-fcgi, a read finds nothing and a write reaches nobody. A read is answered in any case. -/

namespace KnxdFcgi

open Machine

namespace Reader

variable {config : ReadConfig} {req : ReadRequest} {r : Reader}

/-- The addresses that a read with `t=0` has no value for. -/
def missing (req : ReadRequest) (r : Reader) : List UInt16 :=
  if req.t = some 0 then req.eibAddrs.filter (!r.alreadyWritten ·) else []

/-- All addresses of a read with `t=0`. -/
def sought (req : ReadRequest) : List UInt16 := if req.t = some 0 then req.eibAddrs else []

theorem missing_of_empty (hempty : r.values = []) : r.missing req = sought req := by
  have hnone : ∀ addr, r.alreadyWritten addr = false := by
    intro addr
    simp [alreadyWritten, hempty]
  simp [missing, sought, hnone]

/-- What has been asked of the bus, by the place in the handler: while it waits it has found nothing before, and then
`nothing` holds. -/
def Asked (req : ReadRequest) (nothing : Prop) (r : Reader) : Prop :=
  match r.pc with
  | .get _ | .groupReads => True
  | .loopHead => r.busReads = r.missing req ∧ (r.values = [] → nothing)
  | .enterWait _ | .condWait _ | .getDelta => r.busReads = sought req ∧ nothing
  | .done => r.busReads = r.missing req ∨ r.busReads = sought req ∧ nothing

theorem Asked.mono {nothing nothing' : Prop} (h : r.Asked req nothing) (himp : nothing → nothing') :
    r.Asked req nothing' := by
  unfold Asked at h ⊢
  cases hpc : r.pc with
  | get todo | groupReads => trivial
  | loopHead =>
      rw [hpc] at h
      exact h.imp id (himp ∘ ·)
  | enterWait timeoutMs | condWait genBefore | getDelta =>
      rw [hpc] at h
      exact h.imp id himp
  | done =>
      rw [hpc] at h
      exact h.imp id (And.imp id himp)

theorem Asked.afterWait {nothing : Prop} (h : r.busReads = sought req ∧ nothing) (newData : Bool) :
    (r.afterWait newData).Asked req nothing := by
  cases newData with
  | false => exact Or.inr h
  | true => exact h

theorem Asked.step {nothing : Prop} (h : r.Asked req nothing) (hnothing : r.pc = .groupReads → r.values = [] → nothing)
    (cache : SharedCacheData) (tick : Tick) : (r.step config req cache tick).Asked req nothing := by
  unfold Asked at h
  cases hpc : r.pc with
  | get todo =>
      cases todo with
      | nil => simp only [Reader.step, hpc, Asked]
      | cons addr todo =>
          simp only [Reader.step, hpc]
          split <;> simp only [Asked]
  | groupReads =>
      simp only [Reader.step, hpc]
      exact ⟨rfl, hnothing hpc⟩
  | loopHead =>
      simp only [hpc] at h
      simp only [Reader.step, hpc]
      split_ifs with htime hvalues hremaining
      · exact Or.inl h.1
      · exact Or.inl h.1
      · rw [not_not] at hvalues
        exact ⟨h.1.trans (missing_of_empty hvalues), h.2 hvalues⟩
      · exact Or.inl h.1
  | enterWait timeoutMs =>
      simp only [hpc] at h
      simp only [Reader.step, hpc]
      split_ifs
      · exact Asked.afterWait h _
      · exact h
  | condWait genBefore =>
      simp only [hpc] at h
      simp only [Reader.step, hpc]
      split_ifs
      · simp only [Asked, hpc]
        exact h
      · exact Asked.afterWait h _
  | getDelta =>
      simp only [hpc] at h
      simp only [Reader.step, hpc]
      split_ifs with hempty
      · exact ⟨h.1.trans (missing_of_empty hempty).symm, fun _ => h.2⟩
      · exact Or.inr h
  | done =>
      simp only [hpc] at h
      simp only [Reader.step, hpc, Asked]
      exact h

/-- The reader of a request that has run to its end beside a cache, which held the journal when it began. -/
def Completes (config : ReadConfig) (req : ReadRequest) (journal : List Push) (r : Reader) : Prop :=
  r.pc = .done ∧ ∃ events, r = (run (ReadSystem.next config req) (ReadSystem.start req journal 0) events).reader

/-- The reader has come out of its initial read without a value. -/
def FoundNothing (config : ReadConfig) (req : ReadRequest) (journal : List Push) (events : List ReadEvent) : Prop :=
  ∃ before after, events = before ++ after ∧
    (run (ReadSystem.next config req) (ReadSystem.start req journal 0) before).reader.pc = .groupReads ∧
    (run (ReadSystem.next config req) (ReadSystem.start req journal 0) before).reader.values = []

theorem FoundNothing.append {journal : List Push} {events : List ReadEvent}
    (h : FoundNothing config req journal events) (more : List ReadEvent) :
    FoundNothing config req journal (events ++ more) := by
  obtain ⟨before, after, rfl, hplace⟩ := h
  exact ⟨before, after ++ more, List.append_assoc _ _ _, hplace⟩

theorem run_asked (config : ReadConfig) (req : ReadRequest) (journal : List Push) (events : List ReadEvent) :
    (run (ReadSystem.next config req) (ReadSystem.start req journal 0) events).reader.Asked req
      (FoundNothing config req journal events) := by
  induction events using List.reverseRecOn with
  | nil =>
      simp only [Asked, run_nil, ReadSystem.start, Reader.start]
      split_ifs <;> trivial
  | append_singleton events event ih =>
      have hlater := ih.mono fun h => h.append [event]
      rw [run_append, run_cons, run_nil]
      cases event with
      | push p => exact hlater
      | step tick => exact Asked.step hlater (fun hpc hvalues => ⟨events, _, rfl, hpc, hvalues⟩) _ tick

theorem Completes.busReads {journal : List Push} (h : r.Completes config req journal) :
    r.busReads = r.missing req ∨ r.busReads = sought req ∧
      ∃ events, r = (run (ReadSystem.next config req) (ReadSystem.start req journal 0) events).reader ∧
        FoundNothing config req journal events := by
  obtain ⟨hdone, events, rfl⟩ := h
  have hasked := run_asked config req journal events
  rw [Asked, hdone] at hasked
  exact hasked.imp id (And.imp id fun h => ⟨events, rfl, h⟩)

/-- Every slot of a new cache is free, so it has a value for the address that marks a free slot, and no other. -/
theorem stored_replay_nil {addr : UInt16} {entry : SharedCacheEntry}
    (h : SharedGroupCache.stored (SharedGroupCache.replay []) addr = some entry) : addr = 0 ∧ entry.bytes = [] := by
  unfold SharedGroupCache.stored Probing.Layout.lookup at h
  split at h
  · split_ifs at h with hkey
    cases h
    exact ⟨hkey.symm, rfl⟩
  · cases h

theorem get_replay_nil {addr : UInt16} {maxAgeSec : Int} {now : UInt32} {value : List UInt8}
    (h : SharedGroupCache.get (SharedGroupCache.replay []) addr maxAgeSec now = some value) :
    (addr, value) = (0, []) := by
  rw [SharedGroupCache.get_eq] at h
  cases hstored : SharedGroupCache.stored (SharedGroupCache.replay []) addr with
  | none => simp only [hstored, reduceCtorEq] at h
  | some entry =>
      obtain ⟨rfl, hbytes⟩ := stored_replay_nil hstored
      simp only [hstored] at h
      split_ifs at h
      cases h
      rw [hbytes]

theorem mem_getDelta_replay_nil {sincePos : UInt32} {subscribed : List UInt16} {maxAgeSec : Int} {now : UInt32}
    {member : UInt16 × List UInt8}
    (h : member ∈ (SharedGroupCache.getDelta (SharedGroupCache.replay []) sincePos subscribed maxAgeSec now).values) :
    member = (0, []) := by
  obtain ⟨addr, -, hvalue⟩ := List.mem_filterMap.mp h
  rw [SharedGroupCache.deltaValue_eq] at hvalue
  cases hstored : SharedGroupCache.stored (SharedGroupCache.replay []) addr with
  | none => simp only [hstored, reduceCtorEq] at hvalue
  | some entry =>
      obtain ⟨rfl, hbytes⟩ := stored_replay_nil hstored
      simp only [hstored] at hvalue
      split_ifs at hvalue
      cases hvalue
      rw [hbytes]

/-- The reader has found nothing but that value. -/
def Barren (r : Reader) : Prop := ∀ member ∈ r.values, member = (0, [])

theorem Barren.step (h : r.Barren) (tick : Tick) :
    (r.step config req (SharedGroupCache.replay []) tick).Barren := by
  by_cases hget : ∃ todo, r.pc = .get todo
  · obtain ⟨todo, hpc⟩ := hget
    cases todo with
    | nil =>
        simp only [Reader.step, hpc]
        exact h
    | cons addr todo =>
        simp only [Reader.step, hpc]
        split
        · rename_i value hvalue
          intro member hmember
          rcases List.mem_append.mp hmember with hmember | hmember
          · exact h member hmember
          · rw [List.mem_singleton.mp hmember]
            exact get_replay_nil hvalue
        · exact h
  · by_cases hdelta : r.pc = .getDelta
    · simp only [Reader.step, hdelta]
      intro member hmember
      rcases List.mem_append.mp hmember with hmember | hmember
      · exact h member hmember
      · exact mem_getDelta_replay_nil (List.mem_filter.mp hmember).1
    · rw [Barren, (step_idle (not_exists.mp hget) hdelta _ tick).1]
      exact h

/-- The reader of a request in a process whose cache nobody feeds. -/
def Unfed (config : ReadConfig) (req : ReadRequest) (r : Reader) : Prop :=
  ∃ ticks : List Tick, r = (run (ReadSystem.next config req) (ReadSystem.start req [] 0) (ticks.map .step)).reader

theorem Unfed.barren (h : r.Unfed config req) : r.Barren := by
  obtain ⟨ticks, rfl⟩ := h
  have hguard : Along (ReadSystem.next config req) (fun _ event => ∃ tick, event = .step tick)
      (ReadSystem.start req [] 0) (ticks.map .step) := by
    refine along_of_forall fun event hevent _ => ?_
    obtain ⟨tick, -, rfl⟩ := List.mem_map.mp hevent
    exact ⟨tick, rfl⟩
  have hstep : ∀ (s : ReadSystem) event, (∃ tick, event = .step tick) → s.journal = [] ∧ s.reader.Barren →
      (s.next config req event).journal = [] ∧ (s.next config req event).reader.Barren := by
    rintro s _ ⟨tick, rfl⟩ ⟨hjournal, hbarren⟩
    refine ⟨hjournal, ?_⟩
    have hcache : s.cache = SharedGroupCache.replay [] := congrArg SharedGroupCache.replay hjournal
    rw [ReadSystem.next, hcache]
    exact hbarren.step tick
  have hstart : (Reader.start req).Barren := fun _ hmember => absurd hmember List.not_mem_nil
  exact (run_invariant_along _ hstep hguard ⟨rfl, hstart⟩).2

end Reader

namespace Worker

variable {config : WorkerConfig} {readConfig : ReadConfig} {w : Worker} {e : Serving}

theorem packets_read (hpath : e.request.path = text "/r") {req : ReadRequest}
    (hreq : ReadHandler.request config.defaultNamespace (fun id => (w.sessions.isValid id e.now).2)
      e.request.queryString = .ok req) :
    packets config w e = (e.reading req).busReads.map (·, [0x00, 0x00]) := by
  rw [packets, if_pos hpath, groupReads, hreq]

/-- **What a read asks the bus for.** Without `t=0` nothing. With it, the addresses that the answer has no value for;
or all of them, after an initial read that found nothing, since only then does the handler wait for telegrams. -/
theorem read_asks_bus (hpath : e.request.path = text "/r") {journal : List Push}
    {req : ReadRequest} (hreading : (e.reading req).Completes readConfig req journal)
    (hreq : ReadHandler.request config.defaultNamespace (fun id => (w.sessions.isValid id e.now).2)
      e.request.queryString = .ok req) :
    (req.t ≠ some 0 → packets config w e = []) ∧
      (req.t = some 0 →
        packets config w e =
            (req.eibAddrs.filter (!((e.collected req).d.map Prod.fst).contains ·)).map (·, [0x00, 0x00]) ∨
          packets config w e = req.eibAddrs.map (·, [0x00, 0x00]) ∧
            ∃ events,
              e.reading req = (run (ReadSystem.next readConfig req) (ReadSystem.start req journal 0) events).reader ∧
                Reader.FoundNothing readConfig req journal events) := by
  have hasked := hreading.busReads
  rw [packets_read hpath hreq]
  constructor
  · intro ht
    rw [Reader.missing, Reader.sought, if_neg ht, if_neg ht] at hasked
    rw [hasked.elim id And.left, List.map_nil]
  · intro ht
    rw [Reader.missing, Reader.sought, if_pos ht, if_pos ht] at hasked
    refine hasked.imp (fun h => ?_) (fun h => ⟨?_, h.2⟩)
    · rw [h]
      rfl
    · rw [h.1]

/-- A read of 1/2/3 with `t=0` from an empty cache, whose second is over before it waits. -/
def readFromBus : Serving where
  request := { pathInfo := text "/r", queryString := text "a=1/2/3&t=0" }
  num := 0
  cleaned := 0
  created := 0
  now := 0
  scripts := []
  reading := fun req =>
    let step := ReadEvent.step (ReadSystem.tickAt 0 0 .signalled)
    (run (ReadSystem.next ReadSystem.defaultConfig req) (ReadSystem.start req [] 0)
      [step, step, step, .step (ReadSystem.tickAt 0 1 .signalled)]).reader

theorem read_asks_bus_readFromBus : packets ⟨[], {}⟩ (start {}) readFromBus = [(2563, [0x00, 0x00])] := by
  let req : ReadRequest := ⟨some 0, none, [2563], List.pairwise_singleton _ _⟩
  have hreading : (readFromBus.reading req).Completes ReadSystem.defaultConfig req [] :=
    ⟨by decide +kernel, _, rfl⟩
  have hreq : ReadHandler.request [] (fun id => ((start {}).sessions.isValid id readFromBus.now).2)
      readFromBus.request.queryString = .ok req := rfl
  have hpath : readFromBus.request.path = text "/r" := by decide +kernel
  have hfound : (readFromBus.collected req).d = [] := by decide +kernel
  have hasked := (@read_asks_bus ⟨[], {}⟩ _ (start {}) _ hpath _ req hreading hreq).2 rfl
  rw [hfound] at hasked
  exact hasked.elim id And.left

/-- **Under spawn-fcgi the program has no bus.** `main` then neither connects the client of the process nor starts a
cache reader. Whatever it has served, the client is as new; a write is answered with 503; and a read has nothing
to report but an empty value for 0/0/0. -/
theorem spawnFcgi_isolated (config : WorkerConfig) (readConfig : ReadConfig) (served : List Serving) (e : Serving) :
    (run (next config) (start {}) served).client = {} ∧
      (e.request.path = text "/w" → packets config (run (next config) (start {}) served) e ≠ [] →
        (serve config (run (next config) (start {}) served) e).1.statusCode = 503) ∧
      (e.request.path = text "/r" → ∀ req, (e.reading req).Unfed readConfig req →
        ReadHandler.request config.defaultNamespace
            (fun id => ((run (next config) (start {}) served).sessions.isValid id e.now).2)
            e.request.queryString = .ok req →
          (serve config (run (next config) (start {}) served) e).1.body =
              (ReadHandler.reply config.defaultNamespace (e.collected req)).body ∧
            ∀ member ∈ (e.collected req).d, member = (0, [])) := by
  have hclient : (run (next config) (start {}) served).client = {} := run_noPath config rfl rfl served
  refine ⟨hclient, ?_, ?_⟩
  · intro hpath hpackets
    refine write_noPath ?_ ?_ hpath hpackets <;> rw [hclient]
  · intro hpath req hunfed hreq
    refine ⟨?_, hunfed.barren⟩
    rw [serve_read hpath]
    simp only [readHandler, ReadHandler.handle, hreq]

theorem spawnFcgi_isolated_writeOnce : (serve ⟨[], {}⟩ (start {}) writeOnce).1.statusCode = 503 := by
  have hpackets : packets ⟨[], {}⟩ (start {}) writeOnce ≠ [] := by
    rw [writeOnce_packets]
    exact List.cons_ne_nil _ _
  exact (spawnFcgi_isolated ⟨[], {}⟩ ReadSystem.defaultConfig [] writeOnce).2.1 writeOnce_path hpackets

end Worker

/-- The event is a step of the handler. -/
def ReadEvent.isStep : ReadEvent → Bool
  | .push _ => false
  | .step _ => true

theorem ReadPc.eq_done_of_rank {pc : ReadPc} (h : pc.rank = 0) : pc = .done := by
  cases pc with
  | done => rfl
  | get todo => cases h
  | groupReads => cases h
  | loopHead => cases h
  | enterWait timeoutMs => cases h
  | condWait genBefore => cases h
  | getDelta => cases h

/-- **Traffic on the bus cannot keep a read from its answer.** Once the timeout of the request has passed, the handler
answers after a number of its own steps that depends only on where it was, whatever is pushed between them. -/
theorem ReadSystem.answers_among_pushes (config : ReadConfig) (req : ReadRequest) (s : ReadSystem)
    {events : List ReadEvent}
    (hlate : ∀ tick, .step tick ∈ events → (req.timeoutSec config).toInt ≤ tick.elapsed ∧ tick.rc = .timedOut)
    (hsteps : s.reader.pc.rank ≤ events.countP ReadEvent.isStep) :
    (run (next config req) s events).reader.response.isSome := by
  have hrank : (run (next config req) s events).reader.pc.rank ≤ s.reader.pc.rank - events.countP ReadEvent.isStep := by
    refine run_measure_le (fun s : ReadSystem => s.reader.pc.rank) ReadEvent.isStep ?_ ?_
    · intro event hevent hmove s
      cases event with
      | push p => cases hmove
      | step tick => exact s.reader.rank_step (hlate tick hevent).1 (hlate tick hevent).2 s.cache
    · intro event _ hrest s
      cases event with
      | push p => exact le_rfl
      | step tick => cases hrest
  have hdone : (run (next config req) s events).reader.pc = .done := ReadPc.eq_done_of_rank (by omega)
  rw [Reader.response, if_pos hdone]
  rfl

/-- A read without `t` of an address that is not in the cache, with two pushes between its steps. -/
theorem answers_among_pushes_notFound :
    (run (ReadSystem.next ReadSystem.defaultConfig (ReadSystem.requestOne none))
      (ReadSystem.start (ReadSystem.requestOne none) [] 0)
      [.step { elapsed := 300, rc := .timedOut }, .push ⟨2, [0x01], 0⟩,
        .step { elapsed := 300, rc := .timedOut }, .step { elapsed := 300, rc := .timedOut },
        .push ⟨2, [0x02], 0⟩, .step { elapsed := 300, rc := .timedOut }]).reader.response.isSome := by
  refine ReadSystem.answers_among_pushes _ _ _ (fun tick htick => ?_) (by decide)
  simp only [List.mem_cons, ReadEvent.step.injEq, reduceCtorEq, List.not_mem_nil, or_false, false_or, or_self] at htick
  rw [htick]
  exact ⟨by decide, rfl⟩

end KnxdFcgi
