import KnxdFcgi.KnxAddress
import KnxdFcgi.KnxdClient
import KnxdFcgi.QueryString

/-! `WriteHandler::handle`: the parameters of `/w`, the APDU, and one `send_group_packet` for each address
that can be read. -/

namespace KnxdFcgi

structure WriteResult where
  httpStatus : Nat := 200
  body : Text := []
  deriving DecidableEq

namespace WriteHandler

/-- The APDU for the value `v`; nothing is written for a value that is not hexadecimal, is empty or lacks
the bit of a write. -/
def apduOf (value : Text) : Option (List UInt8) :=
  match hexDecode value with
  | [] => none
  | apci :: data => if apci &&& 0x80 ≠ 0x80 then none else some (0x00 :: apci :: data)

/-- The variables of the loop over the addresses. -/
structure Loop where
  client : KnxdClient
  anyValid : Bool := false
  anyFailed : Bool := false

/-- The loop over the addresses; each packet sent has its own script. -/
def writeEach (defaultNamespace : Text) (apdu : List UInt8) :
    List Text → List KnxdClient.SendScript → Loop → Loop
  | [], _, s => s
  | addr :: addresses, scripts, s =>
      match KnxAddress.fromCometvisu defaultNamespace addr with
      | none => writeEach defaultNamespace apdu addresses scripts s
      | some parsed =>
          let sent := s.client.sendGroupPacket parsed.group.toEibaddr apdu (scripts.headD {})
          writeEach defaultNamespace apdu addresses scripts.tail
            { client := sent.1, anyValid := true, anyFailed := s.anyFailed || !sent.2 }

def Loop.result (s : Loop) : WriteResult :=
  if !s.anyValid then ⟨404, text "\x7b\"error\":\"invalid address format\"\x7d"⟩
  else if s.anyFailed then ⟨503, text "\x7b\"error\":\"write failed\"\x7d"⟩
  else {}

def handle (defaultNamespace : Text) (isValid : Text → Bool) (c : KnxdClient)
    (scripts : List KnxdClient.SendScript) (query : Text) : KnxdClient × WriteResult :=
  let params := QueryString.parse query
  let addresses := params.getAll (text "a")
  match params.get (text "v") with
  | none => (c, {})
  | some value =>
      if addresses = [] then (c, {})
      else if params.sessionInvalid isValid then (c, ⟨401, text "\x7b\"error\":\"invalid session\"\x7d"⟩)
      else
        match apduOf value with
        | none => (c, {})
        | some apdu =>
            let s := writeEach defaultNamespace apdu addresses scripts { client := c }
            (s.client, s.result)

/-- A write is refused exactly for the session it names. -/
theorem handle_unauthorized_iff (defaultNamespace : Text) (isValid : Text → Bool) (c : KnxdClient)
    (scripts : List KnxdClient.SendScript) (query : Text) :
    (handle defaultNamespace isValid c scripts query).2.httpStatus = 401 ↔
      (QueryString.parse query).getAll (text "a") ≠ [] ∧ (QueryString.parse query).get (text "v") ≠ none ∧
        (QueryString.parse query).sessionInvalid isValid = true := by
  unfold handle
  cases hv : (QueryString.parse query).get (text "v") with
  | none => simp [hv]
  | some value =>
      simp only [hv]
      split_ifs with ha hs
      · simp [ha]
      · simp [ha, hs]
      · refine iff_of_false ?_ fun h => hs h.2.2
        cases apduOf value with
        | none => exact (by decide : (200 : Nat) ≠ 401)
        | some apdu =>
            simp only [Loop.result]
            split_ifs <;> exact (by decide)

/-- The query `a=…&v=…` of one write. -/
def query (addr value : Text) : Text :=
  QueryString.pair (text "a") addr ++ ascii '&' :: QueryString.pair (text "v") value

theorem parse_query {addr value : Text} (haddr : ascii '&' ∉ addr) (hvalue : ascii '&' ∉ value) :
    (QueryString.parse (query addr value)).getAll (text "a") = [urlDecode addr] ∧
      (QueryString.parse (query addr value)).get (text "v") = some (urlDecode value) ∧
        ∀ isValid, (QueryString.parse (query addr value)).sessionInvalid isValid = false := by
  have hplain : QueryString.Plain (text "a") ∧ QueryString.Plain (text "v") := by decide
  have hne : text "a" ≠ text "v" := by decide
  exact ⟨QueryString.getAll_parse_two hplain.1 hplain.2 hne haddr hvalue,
    QueryString.get_parse_two hplain.1 hplain.2 hne haddr hvalue, fun isValid =>
      QueryString.sessionInvalid_parse_two hplain.1 hplain.2 hne haddr hvalue isValid (by decide) (by decide)⟩

/-- A write to one address is one packet, and its result says whether the packet went out. -/
theorem handle_query {defaultNamespace : Text} (isValid : Text → Bool) (c : KnxdClient)
    (scripts : List KnxdClient.SendScript) {addr value : Text} {address : KnxAddress} {apdu : List UInt8}
    (haddr : ascii '&' ∉ addr) (hvalue : ascii '&' ∉ value)
    (haddress : KnxAddress.fromCometvisu defaultNamespace (urlDecode addr) = some address)
    (hapdu : apduOf (urlDecode value) = some apdu) :
    handle defaultNamespace isValid c scripts (query addr value) =
      ((c.sendGroupPacket address.group.toEibaddr apdu (scripts.headD {})).1,
        if (c.sendGroupPacket address.group.toEibaddr apdu (scripts.headD {})).2 then {}
        else ⟨503, text "\x7b\"error\":\"write failed\"\x7d"⟩) := by
  obtain ⟨ha, hv, hs⟩ := parse_query haddr hvalue
  simp only [handle, ha, hv, hs, hapdu, writeEach, haddress, Loop.result]
  cases (c.sendGroupPacket address.group.toEibaddr apdu (scripts.headD {})).2 <;> simp

end WriteHandler
end KnxdFcgi
