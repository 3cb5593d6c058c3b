import KnxdFcgi.JsonRoundTrip
import KnxdFcgi.ReadDelivery
import KnxdFcgi.ReadReply

/-! The members of `d`. Two loops append to them: the initial read takes every address of the request once, and
each `get_delta` leaves out what is already written. Their addresses are therefore distinct and among those of
the request. The key of a member is rendered anew from the 16 bits of the address, under the default namespace;
the rendering is injective, so the keys are distinct too, but the namespace that the client wrote is forgotten. -/

namespace KnxdFcgi

open Machine

namespace ReadHandler

theorem mem_foldl_insert {addr : UInt16} (parsed : List KnxAddress) (addrs : AddrSet) :
    addr ∈ (parsed.foldl (fun addrs parsed => addrs.insert parsed.group.toEibaddr) addrs).1 ↔
      addr ∈ addrs.1 ∨ ∃ address ∈ parsed, address.group.toEibaddr = addr := by
  induction parsed generalizing addrs with
  | nil => simp
  | cons first rest ih =>
      rw [List.foldl_cons, ih]
      have hfirst : addr ∈ (addrs.insert first.group.toEibaddr).1 ↔
          addr ∈ addrs.1 ∨ first.group.toEibaddr = addr := by
        rw [or_comm, eq_comm]
        exact mem_insertAddr
      simp only [hfirst, List.mem_cons, exists_eq_or_imp, or_assoc]

theorem mem_eibAddrs {defaultNamespace : Text} {addresses : List Text} {addr : UInt16} :
    addr ∈ (eibAddrs defaultNamespace addresses).1 ↔
      ∃ x ∈ addresses, ∃ address, KnxAddress.fromCometvisu defaultNamespace x = some address ∧
        address.group.toEibaddr = addr := by
  refine (mem_foldl_insert _ _).trans ?_
  simp only [List.not_mem_nil, false_or, List.mem_filterMap]
  constructor
  · rintro ⟨address, ⟨x, hx, haddress⟩, haddr⟩
    exact ⟨x, hx, address, haddress, haddr⟩
  · rintro ⟨x, hx, address, haddress, haddr⟩
    exact ⟨address, ⟨x, hx, haddress⟩, haddr⟩

theorem request_eibAddrs {defaultNamespace : Text} {isValid : Text → Bool} {query : Text} {req : ReadRequest}
    (h : request defaultNamespace isValid query = .ok req) :
    req.eibAddrs = (eibAddrs defaultNamespace ((QueryString.parse query).getAll (text "a"))).1 := by
  simp only [request] at h
  split_ifs at h
  · split at h <;> cases h
  · split at h
    · cases h
    · cases h
      rfl

end ReadHandler

/-- The addresses that `get_delta` returns stand in the order of the subscription. -/
theorem SharedGroupCache.getDelta_sublist (d : SharedCacheData) (sincePos : UInt32) (subscribed : List UInt16)
    (maxAgeSec : Int) (now : UInt32) :
    ((getDelta d sincePos subscribed maxAgeSec now).values.map Prod.fst).Sublist subscribed := by
  unfold getDelta
  induction subscribed with
  | nil => exact List.Sublist.refl _
  | cons addr rest ih =>
      cases hvalue : deltaValue d sincePos maxAgeSec now addr with
      | none =>
          rw [List.filterMap_cons_none hvalue]
          exact ih.cons addr
      | some v =>
          obtain ⟨addr', value⟩ := v
          obtain rfl := deltaValue_addr hvalue
          rw [List.filterMap_cons_some hvalue, List.map_cons]
          exact ih.cons_cons addr'

namespace Reader

/-- `d` has each address at most once and only those of the request; what the initial read has still to read is
not in it. -/
structure Distinct (req : ReadRequest) (r : Reader) : Prop where
  nodup : (r.values.map Prod.fst).Nodup
  requested : ∀ addr ∈ r.values.map Prod.fst, addr ∈ req.eibAddrs
  unread : ∀ todo, r.pc = .get todo →
    ∃ before, req.eibAddrs = before ++ todo ∧ ∀ addr ∈ r.values.map Prod.fst, addr ∈ before

variable {config : ReadConfig} {req : ReadRequest} {r : Reader}

theorem eibAddrs_nodup (req : ReadRequest) : req.eibAddrs.Nodup :=
  req.ascending.imp UInt16.ne_of_lt

theorem start_distinct (req : ReadRequest) : (Reader.start req).Distinct req where
  nodup := List.nodup_nil
  requested := by simp [Reader.start]
  unread := by
    intro todo htodo
    refine ⟨[], ?_, by simp [Reader.start]⟩
    unfold Reader.start at htodo
    dsimp only at htodo
    split_ifs at htodo
    exact ReadPc.get.inj htodo

/-- A step that leaves the members as they are and does not go back to the initial read. -/
theorem Distinct.of_values_eq (h : r.Distinct req) {r' : Reader} (hvalues : r'.values = r.values)
    (hpc : ∀ todo, r'.pc ≠ .get todo) : r'.Distinct req where
  nodup := hvalues ▸ h.nodup
  requested := hvalues ▸ h.requested
  unread := fun todo htodo => absurd htodo (hpc todo)

/-- One `get` of the initial read. -/
theorem Distinct.step_get (h : r.Distinct req) {addr : UInt16} {todo : List UInt16}
    (hpc : r.pc = .get (addr :: todo)) (cache : SharedCacheData) (tick : Tick) :
    (r.step config req cache tick).Distinct req := by
  obtain ⟨before, hsplit, hbefore⟩ := h.unread _ hpc
  have hmem : addr ∈ req.eibAddrs := by simp [hsplit]
  have hnew : addr ∉ r.values.map Prod.fst := by
    intro hold
    have hnodup := eibAddrs_nodup req
    rw [hsplit, List.nodup_append] at hnodup
    exact hnodup.2.2 addr (hbefore addr hold) addr List.mem_cons_self rfl
  have hsplit' : req.eibAddrs = (before ++ [addr]) ++ todo := by simp [hsplit]
  simp only [step, hpc]
  cases SharedGroupCache.get cache addr req.maxAgeSec tick.now with
  | none =>
      refine ⟨h.nodup, h.requested, ?_⟩
      intro todo' htodo
      obtain rfl := ReadPc.get.inj htodo
      exact ⟨before ++ [addr], hsplit', fun a ha => List.mem_append_left _ (hbefore a ha)⟩
  | some value =>
      have hvalues : ((r.values ++ [(addr, value)]).map Prod.fst) = r.values.map Prod.fst ++ [addr] := by simp
      refine ⟨?_, ?_, ?_⟩
      · rw [hvalues]
        exact List.nodup_append_comm.mp (List.nodup_cons.mpr ⟨hnew, h.nodup⟩)
      · rw [hvalues]
        intro a ha
        rcases List.mem_append.mp ha with ha | ha
        · exact h.requested a ha
        · exact List.mem_singleton.mp ha ▸ hmem
      · intro todo' htodo
        obtain rfl := ReadPc.get.inj htodo
        rw [hvalues]
        refine ⟨before ++ [addr], hsplit', fun a ha => ?_⟩
        rcases List.mem_append.mp ha with ha | ha
        · exact List.mem_append_left _ (hbefore a ha)
        · exact List.mem_append_right _ ha

/-- `get_delta` appends what is not already written. -/
theorem Distinct.step_getDelta (h : r.Distinct req) (hpc : r.pc = .getDelta) (cache : SharedCacheData)
    (tick : Tick) : (r.step config req cache tick).Distinct req := by
  let delta := SharedGroupCache.getDelta cache r.lastpos req.eibAddrs req.maxAgeSec tick.now
  have hsublist : (delta.values.map Prod.fst).Sublist req.eibAddrs :=
    SharedGroupCache.getDelta_sublist cache r.lastpos req.eibAddrs req.maxAgeSec tick.now
  have hvalues : (r.step config req cache tick).values.map Prod.fst =
      r.values.map Prod.fst ++ (delta.values.map Prod.fst).filter (!r.alreadyWritten ·) := by
    simp only [step, hpc, List.map_append, List.filter_map]
    rfl
  refine ⟨?_, ?_, fun todo htodo => ?_⟩
  · rw [hvalues, List.nodup_append]
    refine ⟨h.nodup, ((eibAddrs_nodup req).sublist hsublist).filter _, ?_⟩
    rintro addr hold _ hnew rfl
    have hfresh := (List.mem_filter.mp hnew).2
    rw [Bool.not_eq_true', alreadyWritten, List.contains_eq_mem, decide_eq_false_iff_not] at hfresh
    exact hfresh hold
  · rw [hvalues]
    intro addr haddr
    rcases List.mem_append.mp haddr with haddr | haddr
    · exact h.requested addr haddr
    · exact hsublist.mem (List.mem_filter.mp haddr).1
  · refine absurd htodo (ReadSystem.step_pc_ne_get (fun todo' => ?_) cache tick todo)
    rw [hpc]
    simp

theorem Distinct.step (h : r.Distinct req) (cache : SharedCacheData) (tick : Tick) :
    (r.step config req cache tick).Distinct req := by
  cases hpc : r.pc with
  | get todo =>
      cases todo with
      | nil =>
          refine h.of_values_eq ?_ fun todo => ?_ <;> simp [Reader.step, hpc]
      | cons addr todo => exact h.step_get hpc cache tick
  | getDelta => exact h.step_getDelta hpc cache tick
  | groupReads | loopHead | enterWait _ | condWait _ | done =>
      have hidle : (r.step config req cache tick).values = r.values ∧ _ :=
        Reader.step_idle (by simp [hpc]) (by simp [hpc]) cache tick
      exact h.of_values_eq hidle.1 hidle.2.2

end Reader

/-- The addresses of the members of an answer are distinct, and all of them were asked for. -/
theorem ReadSystem.response_distinct {config : ReadConfig} {req : ReadRequest} {journal : List Push}
    {covered : Nat} {events : List ReadEvent} {response : ReadResponse}
    (hresponse : (run (next config req) (start req journal covered) events).reader.response = some response) :
    (response.d.map Prod.fst).Nodup ∧ ∀ addr ∈ response.d.map Prod.fst, addr ∈ req.eibAddrs := by
  have hinv : (run (next config req) (start req journal covered) events).reader.Distinct req := by
    refine run_invariant (fun s : ReadSystem => s.reader.Distinct req) (fun s event h => ?_) events
      (Reader.start_distinct req)
    cases event with
    | push p => exact h
    | step tick => exact h.step s.cache tick
  obtain ⟨-, rfl⟩ := Reader.response_eq_some hresponse
  exact ⟨hinv.nodup, hinv.requested⟩

namespace ReadHandler

/-- The members of `d` as the client sees them. -/
def members (defaultNamespace : Text) (response : ReadResponse) : List (Text × Text) :=
  response.d.map fun (addr, value) => (addrKey defaultNamespace addr, hexEncode value)

theorem addMembers_string (json : JsonBuilder) (values : List (UInt16 × List UInt8)) (defaultNamespace : Text) :
    json.addMembers (values.map fun (addr, value) =>
        (addrKey defaultNamespace addr, JsonTree.string (hexEncode value))) =
      addValues defaultNamespace json values := by
  induction values generalizing json with
  | nil => rfl
  | cons v values ih => exact ih _

/-- The answer is the object of `d`, with these members, and `i`. -/
theorem reply_body (defaultNamespace : Text) (response : ReadResponse) :
    (reply defaultNamespace response).body =
      JsonBuilder.build
        [(text "d", .object ((members defaultNamespace response).map fun (key, value) => (key, .string value))),
          (text "i", .number response.i.toNat)] := by
  simp only [reply, JsonBuilder.build, JsonBuilder.addMembers, JsonBuilder.addMember, members, List.map_map]
  rw [← addMembers_string]
  rfl

theorem addrKey_injective (defaultNamespace : Text) : Function.Injective (addrKey defaultNamespace) := by
  intro addr addr' h
  have hgroup := congrArg KnxAddress.group (KnxAddress.toCometvisu_injective h)
  have haddr := congrArg KnxGroupAddress.toEibaddr hgroup
  rwa [KnxGroupAddress.toEibaddr_fromEibaddr, KnxGroupAddress.toEibaddr_fromEibaddr] at haddr

theorem members_keys (defaultNamespace : Text) (response : ReadResponse) :
    (members defaultNamespace response).map Prod.fst =
      (response.d.map Prod.fst).map (addrKey defaultNamespace) := by
  simp only [members, List.map_map]
  rfl

/-- **No answer repeats or invents an address.** In every run of a request, the keys of `d` are distinct, and
each is a group address that a parameter `a` denotes, rendered under the default namespace. -/
theorem reply_keys_distinct (defaultNamespace : Text) (isValid : Text → Bool) (query : Text)
    (req : ReadRequest) (hreq : request defaultNamespace isValid query = .ok req) (config : ReadConfig)
    (journal : List Push) (covered : Nat) (events : List ReadEvent) (response : ReadResponse)
    (hresponse : (run (ReadSystem.next config req) (ReadSystem.start req journal covered) events).reader.response =
      some response) :
    ((members defaultNamespace response).map Prod.fst).Nodup ∧
      ∀ key ∈ (members defaultNamespace response).map Prod.fst,
        ∃ x ∈ (QueryString.parse query).getAll (text "a"), ∃ address,
          KnxAddress.fromCometvisu defaultNamespace x = some address ∧
            key = KnxAddress.toCometvisu ⟨defaultNamespace, address.group⟩ := by
  obtain ⟨hnodup, hrequested⟩ := ReadSystem.response_distinct hresponse
  rw [members_keys]
  refine ⟨hnodup.map (addrKey_injective defaultNamespace), ?_⟩
  intro key hkey
  obtain ⟨addr, haddr, rfl⟩ := List.mem_map.mp hkey
  have hmem := hrequested addr haddr
  rw [request_eibAddrs hreq, mem_eibAddrs] at hmem
  obtain ⟨x, hx, address, haddress, rfl⟩ := hmem
  refine ⟨x, hx, address, haddress, ?_⟩
  rw [addrKey, KnxGroupAddress.fromEibaddr_toEibaddr]

/-- The group address 1/2/3, which is 2563 on the bus. -/
def group123 : KnxGroupAddress := ⟨1, 2, 3, by decide, by decide⟩

/-- Three spellings of one group address are answered with one member. -/
theorem reply_keys_distinct_spellings :
    ∃ req, request (text "KNX") (fun _ => true) (text "a=1/2/3&a=01/2/3&a=KNX:1/2/3&t=-1") = .ok req ∧
      ∃ response, (run (ReadSystem.next ReadSystem.defaultConfig req) (ReadSystem.start req [⟨2563, [0x2a], 0⟩] 0)
          [.step {}, .step {}, .step {}, .step {}]).reader.response = some response ∧
        members (text "KNX") response = [(text "KNX:1/2/3", text "2a")] ∧
        ((members (text "KNX") response).map Prod.fst).Nodup :=
  ⟨⟨some (-1), none, [2563], List.pairwise_singleton _ _⟩, rfl, ⟨[(2563, [0x2a])], 1⟩, by decide, by decide,
    (reply_keys_distinct (text "KNX") (fun _ => true) (text "a=1/2/3&a=01/2/3&a=KNX:1/2/3&t=-1") _ rfl
      ReadSystem.defaultConfig [⟨2563, [0x2a], 0⟩] 0 [.step {}, .step {}, .step {}, .step {}]
      ⟨[(2563, [0x2a])], 1⟩ (by decide)).1⟩

/-- **Under which address the client finds its value.** Whatever is answered, a value that is delivered for the address
that `x` was read as stands under its group address in the default namespace. This is the text of the address itself
exactly if `x` has no namespace or the default one. -/
theorem reply_names_request_iff (defaultNamespace x : Text) (address : KnxAddress)
    (hx : KnxAddress.fromCometvisu defaultNamespace x = some address) (response : ReadResponse)
    (value : List UInt8) (hvalue : (address.group.toEibaddr, value) ∈ response.d) :
    (KnxAddress.toCometvisu ⟨defaultNamespace, address.group⟩, hexEncode value) ∈ members defaultNamespace response ∧
      (KnxAddress.toCometvisu address ∈ (members defaultNamespace response).map Prod.fst ↔
        (ascii ':' ∈ x → x.takeWhile (· ≠ ascii ':') = defaultNamespace)) := by
  have hmember : (KnxAddress.toCometvisu ⟨defaultNamespace, address.group⟩, hexEncode value) ∈
      members defaultNamespace response := by
    have hkey : addrKey defaultNamespace address.group.toEibaddr =
        KnxAddress.toCometvisu ⟨defaultNamespace, address.group⟩ := by
      rw [addrKey, KnxGroupAddress.fromEibaddr_toEibaddr]
    exact List.mem_map.mpr ⟨_, hvalue, Prod.ext hkey rfl⟩
  refine ⟨hmember, ?_⟩
  rw [← KnxAddress.ns_eq_iff hx]
  constructor
  · intro hkey
    rw [members_keys] at hkey
    obtain ⟨addr, -, hkey⟩ := List.mem_map.mp hkey
    exact (congrArg KnxAddress.ns (KnxAddress.toCometvisu_injective hkey)).symm
  · intro hns
    have hsame : KnxAddress.toCometvisu address = KnxAddress.toCometvisu ⟨defaultNamespace, address.group⟩ := by
      rw [← hns]
    rw [hsame]
    exact List.mem_map.mpr ⟨_, hmember, rfl⟩

/-- Without a namespace in the request, the value is found under the text of the address. -/
theorem reply_names_request_iff_plain :
    KnxAddress.toCometvisu ⟨text "KNX", group123⟩ ∈ (members (text "KNX") ⟨[(2563, [0x2a])], 1⟩).map Prod.fst :=
  (reply_names_request_iff (text "KNX") (text "1/2/3") ⟨text "KNX", group123⟩ (by decide) ⟨[(2563, [0x2a])], 1⟩
    [0x2a] (by decide)).2.mpr fun hcolon => absurd hcolon (by decide)

/-- No default namespace is configured, and the client asks for `KNX:1/2/3`: the value is delivered as `1/2/3`. -/
theorem reply_forgets_namespace :
    KnxAddress.fromCometvisu [] (text "KNX:1/2/3") = some ⟨text "KNX", group123⟩ ∧
    ∃ req, request [] (fun _ => true) (text "a=KNX:1/2/3&t=-1") = .ok req ∧
      ∃ response, (run (ReadSystem.next ReadSystem.defaultConfig req) (ReadSystem.start req [⟨2563, [0x2a], 0⟩] 0)
          [.step {}, .step {}, .step {}, .step {}]).reader.response = some response ∧
        (group123.toEibaddr, [0x2a]) ∈ response.d ∧
        reply [] response = singleReply (text "1/2/3") [0x2a] 1 ∧
        KnxAddress.toCometvisu ⟨text "KNX", group123⟩ ∉ (members [] response).map Prod.fst :=
  ⟨by decide, ⟨some (-1), none, [2563], List.pairwise_singleton _ _⟩, rfl, ⟨[(2563, [0x2a])], 1⟩, by decide,
    by decide, reply_single [] 2563 [0x2a] 1, by decide⟩

end ReadHandler
end KnxdFcgi
