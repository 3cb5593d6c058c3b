import KnxdFcgi.WriteHandler

/-! What a query of `/w` puts on the bus. The calls of `send_group_packet` are determined by the query and the
session alone, one for each address that can be read and all with the same APDU; what the client then does with
them is a fold. Two checks of the handler are too weak: of the two bits that say which service an APDU asks for
only one is looked at, and the number of bytes is not looked at at all. -/

namespace KnxdFcgi

namespace WriteHandler

/-- The calls of `send_group_packet`, in their order. -/
def calls (defaultNamespace : Text) (isValid : Text → Bool) (query : Text) : List (UInt16 × List UInt8) :=
  let params := QueryString.parse query
  match (params.get (text "v")).bind apduOf with
  | none => []
  | some apdu =>
      if params.sessionInvalid isValid then []
      else (params.getAll (text "a")).filterMap fun addr =>
        (KnxAddress.fromCometvisu defaultNamespace addr).map fun parsed => (parsed.group.toEibaddr, apdu)

/-- The client makes the calls one after the other, each with its own script. -/
def sendAll : KnxdClient → List KnxdClient.SendScript → List (UInt16 × List UInt8) → KnxdClient
  | c, _, [] => c
  | c, scripts, (addr, apdu) :: rest =>
      sendAll (c.sendGroupPacket addr apdu (scripts.headD {})).1 scripts.tail rest

theorem writeEach_client (defaultNamespace : Text) (apdu : List UInt8) (addresses : List Text)
    (scripts : List KnxdClient.SendScript) (s : Loop) :
    (writeEach defaultNamespace apdu addresses scripts s).client =
      sendAll s.client scripts (addresses.filterMap fun addr =>
        (KnxAddress.fromCometvisu defaultNamespace addr).map fun parsed => (parsed.group.toEibaddr, apdu)) := by
  induction addresses generalizing scripts s with
  | nil => rfl
  | cons addr addresses ih =>
      unfold writeEach
      cases haddr : KnxAddress.fromCometvisu defaultNamespace addr with
      | none =>
          rw [List.filterMap_cons_none (by rw [haddr]; rfl)]
          exact ih scripts s
      | some parsed =>
          rw [List.filterMap_cons_some (by rw [haddr]; rfl)]
          exact ih scripts.tail _

/-- **The handler makes these calls and no others.** -/
theorem handle_client (defaultNamespace : Text) (isValid : Text → Bool) (c : KnxdClient)
    (scripts : List KnxdClient.SendScript) (query : Text) :
    (handle defaultNamespace isValid c scripts query).1 =
      sendAll c scripts (calls defaultNamespace isValid query) := by
  simp only [handle, calls]
  cases (QueryString.parse query).get (text "v") with
  | none => rfl
  | some value =>
      by_cases haddresses : (QueryString.parse query).getAll (text "a") = []
      · simp only [haddresses, if_true, Option.bind_some, List.filterMap_nil, ite_self]
        cases apduOf value <;> rfl
      · simp only [haddresses, if_false, Option.bind_some]
        cases hsession : (QueryString.parse query).sessionInvalid isValid with
        | true =>
            simp only [if_true]
            cases apduOf value <;> rfl
        | false =>
            simp only [Bool.false_eq_true, if_false]
            cases apduOf value with
            | none => rfl
            | some apdu => exact writeEach_client defaultNamespace apdu _ scripts { client := c }

theorem apduOf_eq_some_iff {value : Text} {apdu : List UInt8} :
    apduOf value = some apdu ↔
      ∃ apci data, hexDecode value = apci :: data ∧ apci &&& 0x80 = 0x80 ∧ apdu = 0x00 :: apci :: data := by
  unfold apduOf
  cases hexDecode value with
  | nil => simp
  | cons apci data =>
      by_cases hwrite : apci &&& 0x80 = 0x80
      · simp only [hwrite, ne_eq, not_true_eq_false, if_false, Option.some.injEq]
        constructor
        · rintro rfl
          exact ⟨apci, data, rfl, hwrite, rfl⟩
        · rintro ⟨_, _, hdata, -, rfl⟩
          rw [hdata]
      · simp only [hwrite, ne_eq, not_false_eq_true, if_true, reduceCtorEq, false_iff]
        rintro ⟨_, _, hdata, hwrite', -⟩
        obtain ⟨rfl, rfl⟩ := List.cons.inj hdata
        exact hwrite hwrite'

/-- The group address occurs, validly spelled, among the parameters `a`. -/
def Addressed (defaultNamespace query : Text) (addr : UInt16) : Prop :=
  ∃ x ∈ (QueryString.parse query).getAll (text "a"), ∃ address,
    KnxAddress.fromCometvisu defaultNamespace x = some address ∧ address.group.toEibaddr = addr

/-- The query asks for `value` to be written to a valid address, and its session is not refused. -/
def AsksFor (defaultNamespace : Text) (isValid : Text → Bool) (query value : Text) : Prop :=
  (QueryString.parse query).get (text "v") = some value ∧
    (QueryString.parse query).sessionInvalid isValid = false ∧ ∃ addr, Addressed defaultNamespace query addr

theorem mem_calls_iff {defaultNamespace : Text} {isValid : Text → Bool} {query : Text} {addr : UInt16}
    {apdu : List UInt8} :
    (addr, apdu) ∈ calls defaultNamespace isValid query ↔
      (∃ value, AsksFor defaultNamespace isValid query value ∧ apduOf value = some apdu) ∧
        Addressed defaultNamespace query addr := by
  simp only [calls]
  cases hvalue : ((QueryString.parse query).get (text "v")).bind apduOf with
  | none =>
      refine iff_of_false List.not_mem_nil ?_
      rintro ⟨⟨value, ⟨hget, -⟩, hapdu⟩, -⟩
      rw [hget, Option.bind_some, hapdu] at hvalue
      cases hvalue
  | some apdu' =>
      obtain ⟨value, hget, hapdu⟩ := Option.bind_eq_some_iff.mp hvalue
      cases hsession : (QueryString.parse query).sessionInvalid isValid with
      | true =>
          refine iff_of_false (by simp) ?_
          rintro ⟨⟨value, ⟨-, hvalid, -⟩, -⟩, -⟩
          rw [hsession] at hvalid
          cases hvalid
      | false =>
          simp only [Bool.false_eq_true, if_false, List.mem_filterMap, Option.map_eq_some_iff, Prod.mk.injEq]
          constructor
          · rintro ⟨x, hx, address, haddress, haddr, rfl⟩
            have hmem : Addressed defaultNamespace query addr := ⟨x, hx, address, haddress, haddr⟩
            exact ⟨⟨value, ⟨hget, hsession, addr, hmem⟩, hapdu⟩, hmem⟩
          · rintro ⟨⟨value', ⟨hget', -⟩, hapdu'⟩, x, hx, address, haddress, haddr⟩
            rw [hget, Option.some.injEq] at hget'
            rw [← hget', hapdu, Option.some.injEq] at hapdu'
            exact ⟨x, hx, address, haddress, haddr, hapdu'⟩

/-- What is asked for and has the bit of a write is sent somewhere. -/
theorem AsksFor.exists_call {defaultNamespace : Text} {isValid : Text → Bool} {query value : Text}
    (h : AsksFor defaultNamespace isValid query value) {apdu : List UInt8} (hapdu : apduOf value = some apdu) :
    ∃ addr, (addr, apdu) ∈ calls defaultNamespace isValid query := by
  obtain ⟨addr, haddr⟩ := h.2.2
  exact ⟨addr, mem_calls_iff.mpr ⟨⟨value, h, hapdu⟩, haddr⟩⟩

/-- A call that writes the value of the query to one of its addresses: a zero byte and the decoded bytes of `v`,
the first of which has `A_GroupValue_Write` in its upper two bits. -/
def IsGroupWrite (defaultNamespace query : Text) (call : UInt16 × List UInt8) : Prop :=
  (∃ value apci data, (QueryString.parse query).get (text "v") = some value ∧ hexDecode value = apci :: data ∧
    call.2 = 0x00 :: apci :: data ∧ apci &&& 0xC0 = 0x80) ∧ Addressed defaultNamespace query call.1

/-- The bit that is looked at leaves two services. -/
theorem apci_write_cases : ∀ apci : UInt8,
    (apci &&& 0x80 = 0x80 ↔ apci &&& 0xC0 = 0x80 ∨ apci &&& 0xC0 = 0xC0) ∧
      ¬(apci &&& 0xC0 = 0x80 ∧ apci &&& 0xC0 = 0xC0) := by
  decide +kernel

/-- **When only group writes are sent.** For every query and session, every call is a group write to an address of
the query exactly if the value that is asked for does not begin with a byte whose upper two bits are both set. -/
theorem calls_groupWrite_iff (defaultNamespace : Text) (isValid : Text → Bool) (query : Text) :
    (∀ call ∈ calls defaultNamespace isValid query, IsGroupWrite defaultNamespace query call) ↔
      ∀ value apci data, AsksFor defaultNamespace isValid query value → hexDecode value = apci :: data →
        apci &&& 0xC0 ≠ 0xC0 := by
  constructor
  · intro hall value apci data hasks hdata hboth
    have hwrite : apci &&& 0x80 = 0x80 := (apci_write_cases apci).1.mpr (Or.inr hboth)
    obtain ⟨addr, hcall⟩ := hasks.exists_call (apduOf_eq_some_iff.mpr ⟨apci, data, hdata, hwrite, rfl⟩)
    obtain ⟨⟨_, apci', _, -, -, hapdu, hgroup⟩, -⟩ := hall _ hcall
    obtain rfl : apci = apci' := (List.cons.inj (List.cons.inj hapdu).2).1
    exact (apci_write_cases apci).2 ⟨hgroup, hboth⟩
  · rintro hcond ⟨addr, apdu⟩ hcall
    obtain ⟨⟨value, hasks, hapdu⟩, haddr⟩ := mem_calls_iff.mp hcall
    obtain ⟨apci, data, hdata, hwrite, rfl⟩ := apduOf_eq_some_iff.mp hapdu
    refine ⟨⟨value, apci, data, hasks.1, hdata, rfl, ?_⟩, haddr⟩
    rcases (apci_write_cases apci).1.mp hwrite with hgroup | hboth
    · exact hgroup
    · exact absurd hboth (hcond value apci data hasks hdata)

/-- The value `c0` is sent, and it is no group write. -/
theorem calls_otherService :
    calls [] (fun _ => true) (text "a=1/2/3&v=c0") = [(2563, [0x00, 0xC0])] ∧
      ¬IsGroupWrite [] (text "a=1/2/3&v=c0") (2563, [0x00, 0xC0]) := by
  refine ⟨by rfl, ?_⟩
  rintro ⟨⟨value, apci, data, -, -, hapdu, hgroup⟩, -⟩
  obtain rfl : 0xC0 = apci := (List.cons.inj (List.cons.inj hapdu).2).1
  exact absurd hgroup (by decide)

theorem wellFramed_buildGroupPacket_iff (addr : UInt16) (apdu : List UInt8) :
    WellFramed (buildGroupPacket addr apdu) ↔ apdu.length ≤ 65531 := by
  rw [buildGroupPacket, wellFramed_buildEibdMessage_iff]
  simp only [List.length_append, List.length_cons, List.length_nil]
  omega

/-- **When every message is framed.** For every query and session, every message that is built for a call is taken
out of a stream as it is exactly if the value that is asked for is not written or has at most 65530 bytes. -/
theorem calls_wellFramed_iff (defaultNamespace : Text) (isValid : Text → Bool) (query : Text) :
    (∀ call ∈ calls defaultNamespace isValid query, WellFramed (buildGroupPacket call.1 call.2)) ↔
      ∀ value apci data, AsksFor defaultNamespace isValid query value → hexDecode value = apci :: data →
        apci &&& 0x80 = 0x80 → (hexDecode value).length ≤ 65530 := by
  constructor
  · intro hall value apci data hasks hdata hwrite
    obtain ⟨addr, hcall⟩ := hasks.exists_call (apduOf_eq_some_iff.mpr ⟨apci, data, hdata, hwrite, rfl⟩)
    have hlength := (wellFramed_buildGroupPacket_iff _ _).mp (hall _ hcall)
    rw [hdata]
    simp only [List.length_cons] at hlength ⊢
    omega
  · rintro hcond ⟨addr, apdu⟩ hcall
    obtain ⟨⟨value, hasks, hapdu⟩, -⟩ := mem_calls_iff.mp hcall
    obtain ⟨apci, data, hdata, hwrite, rfl⟩ := apduOf_eq_some_iff.mp hapdu
    have hlength := hcond value apci data hasks hdata hwrite
    rw [hdata] at hlength
    refine (wellFramed_buildGroupPacket_iff _ _).mpr ?_
    simp only [List.length_cons] at hlength ⊢
    omega

/-- A write to one address is one call. -/
theorem calls_query {defaultNamespace : Text} (isValid : Text → Bool) {addr value : Text} {address : KnxAddress}
    {apdu : List UInt8} (haddr : ascii '&' ∉ addr) (hvalue : ascii '&' ∉ value)
    (haddress : KnxAddress.fromCometvisu defaultNamespace (urlDecode addr) = some address)
    (hapdu : apduOf (urlDecode value) = some apdu) :
    calls defaultNamespace isValid (query addr value) = [(address.group.toEibaddr, apdu)] := by
  obtain ⟨ha, hv, hs⟩ := parse_query haddr hvalue
  simp [calls, ha, hv, hs, hapdu, haddress]

/-- One byte more makes a message of 65536 bytes after the header, which then says zero, so that what is extracted
is the header alone. -/
theorem extract_oversized (addr : UInt16) {value : List UInt8} (hlength : value.length = 65531) :
    ∃ rest, buildGroupPacket addr (0x00 :: value) = 0x00 :: 0x00 :: rest ∧ rest.length = 65536 ∧
      tryExtractMessage (buildGroupPacket addr (0x00 :: value)) = some ([0x00, 0x00], rest) := by
  have hmessage : ∃ rest, buildGroupPacket addr (0x00 :: value) = 0x00 :: 0x00 :: rest ∧ rest.length = 65536 := by
    simp only [buildGroupPacket, buildEibdMessage, List.length_append, List.length_cons, List.length_nil, hlength]
    exact ⟨_, rfl, by simp [hlength]⟩
  obtain ⟨rest, hrest, hcount⟩ := hmessage
  refine ⟨rest, hrest, hcount, ?_⟩
  rw [hrest]
  exact tryExtract_some_iff.mpr ⟨rfl, 0x00, 0x00, [], rfl, rfl⟩

/-- A value of that length. -/
def oversized : List UInt8 := 0x80 :: List.replicate 65530 0x00

/-- It is accepted, and its message is not framed. -/
theorem oversized_misframed :
    calls [] (fun _ => true) (query (text "1/2/3") (hexEncode oversized)) = [(2563, 0x00 :: oversized)] ∧
      ∃ rest, buildGroupPacket 2563 (0x00 :: oversized) = 0x00 :: 0x00 :: rest ∧ rest.length = 65536 ∧
        tryExtractMessage (buildGroupPacket 2563 (0x00 :: oversized)) = some ([0x00, 0x00], rest) := by
  have hlength : oversized.length = 65531 := by rw [oversized, List.length_cons, List.length_replicate]
  refine ⟨?_, extract_oversized 2563 hlength⟩
  have haddress : KnxAddress.fromCometvisu [] (urlDecode (text "1/2/3")) =
      some ⟨[], ⟨1, 2, 3, by decide, by decide⟩⟩ := by decide
  have hdigit : ∀ d ∈ [ascii '%', ascii '+', ascii '&'], d ∉ hexEncode oversized := by
    have hnot : ∀ d ∈ [ascii '%', ascii '+', ascii '&'], d ∉ text "0123456789abcdef" := by decide +kernel
    exact fun d hd hmem => hnot d hd (mem_hexEncode hmem)
  have hplain : urlDecode (hexEncode oversized) = hexEncode oversized := by
    refine urlDecode_plain fun c hc => ⟨?_, ?_⟩
    · rintro rfl
      exact hdigit (ascii '%') (by simp) hc
    · rintro rfl
      exact hdigit (ascii '+') (by simp) hc
  refine calls_query (fun _ => true) (by decide) (hdigit (ascii '&') (by simp)) haddress ?_
  rw [hplain]
  exact apduOf_eq_some_iff.mpr ⟨0x80, _, hexDecode_hexEncode oversized, by decide, rfl⟩

end WriteHandler
end KnxdFcgi
