import KnxdFcgi.JsonBuilder
import KnxdFcgi.KnxAddress
import KnxdFcgi.QueryString
import KnxdFcgi.ReadHandler

/-! The two ends of `ReadHandler::handle`: from the query of `/r` to the request that the handler then
serves, and from what it has collected to the text of the answer. -/

namespace KnxdFcgi

structure ReadResult where
  httpStatus : Nat := 200
  body : Text := []
  deriving DecidableEq

namespace ReadHandler

/-- A `std::set<uint16_t>`, in its order. -/
def AddrSet : Type := {addrs : List UInt16 // addrs.Pairwise (· < ·)}

def insertAddr (addr : UInt16) : List UInt16 → List UInt16
  | [] => [addr]
  | first :: rest =>
      if addr < first then addr :: first :: rest
      else if addr = first then first :: rest
      else first :: insertAddr addr rest

theorem mem_insertAddr {addr other : UInt16} {addrs : List UInt16} :
    other ∈ insertAddr addr addrs ↔ other = addr ∨ other ∈ addrs := by
  induction addrs with
  | nil => simp [insertAddr]
  | cons first rest ih =>
      unfold insertAddr
      split
      · simp
      · split
        · rename_i heq
          simp [heq]
        · simp only [List.mem_cons, ih]
          tauto

theorem insertAddr_pairwise (addr : UInt16) {addrs : List UInt16} (h : addrs.Pairwise (· < ·)) :
    (insertAddr addr addrs).Pairwise (· < ·) := by
  induction addrs with
  | nil => exact List.pairwise_singleton _ _
  | cons first rest ih =>
      obtain ⟨hfirst, hrest⟩ := List.pairwise_cons.mp h
      unfold insertAddr
      split
      · rename_i hlt
        refine List.pairwise_cons.mpr ⟨fun x hx => ?_, h⟩
        rcases List.mem_cons.mp hx with rfl | hx
        · exact hlt
        · exact UInt16.lt_trans hlt (hfirst x hx)
      · split
        · exact h
        · rename_i hge hne
          refine List.pairwise_cons.mpr ⟨fun x hx => ?_, ih hrest⟩
          rcases mem_insertAddr.mp hx with rfl | hx
          · exact UInt16.lt_of_le_of_ne (UInt16.not_lt.mp hge) (Ne.symm hne)
          · exact hfirst x hx

def AddrSet.insert (addrs : AddrSet) (addr : UInt16) : AddrSet :=
  ⟨insertAddr addr addrs.1, insertAddr_pairwise addr addrs.2⟩

/-- The addresses of the request that can be read. -/
def eibAddrs (defaultNamespace : Text) (addresses : List Text) : AddrSet :=
  (addresses.filterMap (KnxAddress.fromCometvisu defaultNamespace)).foldl
    (fun addrs parsed => addrs.insert parsed.group.toEibaddr) ⟨[], List.Pairwise.nil⟩

/-- The parameter `t`, if there is one; `none` if it is no number. -/
def timeoutParam (params : QueryString) : Option (Option Int32) :=
  match params.get (text "t") with
  | none => some none
  | some t => (parseInt t).map some

/-- The checks of the parameters, up to the point where the addresses are known. -/
def request (defaultNamespace : Text) (isValid : Text → Bool) (query : Text) : Except ReadResult ReadRequest :=
  let params := QueryString.parse query
  let addresses := params.getAll (text "a")
  if addresses = [] then .error ⟨400, text "\x7b\"error\":\"missing address\"\x7d"⟩
  else if params.sessionInvalid isValid then .error ⟨401, text "\x7b\"error\":\"invalid session\"\x7d"⟩
  else
    match timeoutParam params with
    | none => .error ⟨400, text "\x7b\"error\":\"invalid timeout\"\x7d"⟩
    | some t =>
        let addrs := eibAddrs defaultNamespace addresses
        if addrs.1 = [] then .error ⟨404, text "\x7b\"error\":\"no valid addresses\"\x7d"⟩
        else .ok ⟨t, (params.get (text "i")).bind parseInt, addrs.1, addrs.2⟩

def addrKey (defaultNamespace : Text) (addr : UInt16) : Text :=
  KnxAddress.toCometvisu ⟨defaultNamespace, KnxGroupAddress.fromEibaddr addr⟩

/-- The object `d` is open, and the values collected so far are in it. -/
def addValues (defaultNamespace : Text) (json : JsonBuilder) (values : List (UInt16 × List UInt8)) :
    JsonBuilder :=
  values.foldl (fun json (addr, value) => json.addString (addrKey defaultNamespace addr) (hexEncode value)) json

def reply (defaultNamespace : Text) (response : ReadResponse) : ReadResult where
  body :=
    let json := ((({} : JsonBuilder).startObject).addKey (text "d")).startObject
    let json := addValues defaultNamespace json response.d
    ((json.endObject).addNumber (text "i") response.i.toNat).endObject.buffer

/-- `handle`, with what it collects for a request that passes the checks. -/
def handle (defaultNamespace : Text) (isValid : Text → Bool) (collected : ReadRequest → ReadResponse)
    (query : Text) : ReadResult :=
  match request defaultNamespace isValid query with
  | .error result => result
  | .ok req => reply defaultNamespace (collected req)

/-- A read is refused exactly for the session it names. -/
theorem handle_unauthorized_iff (defaultNamespace : Text) (isValid : Text → Bool)
    (collected : ReadRequest → ReadResponse) (query : Text) :
    (handle defaultNamespace isValid collected query).httpStatus = 401 ↔
      (QueryString.parse query).getAll (text "a") ≠ [] ∧
        (QueryString.parse query).sessionInvalid isValid = true := by
  simp only [handle, request]
  split_ifs with ha hs haddrs
  · simp [ha]
  · simp [ha, hs]
  · refine iff_of_false ?_ fun h => hs h.2
    cases timeoutParam (QueryString.parse query) <;> simp
  · refine iff_of_false ?_ fun h => hs h.2
    cases timeoutParam (QueryString.parse query) <;> simp [reply]

/-- The answer with one member in `d`: its key, the digits of its value, and the index. -/
def singleReply (key : Text) (value : List UInt8) (i : Nat) : ReadResult where
  body := text "\x7b\"d\":\x7b" ++ JsonBuilder.quoted key ++ text ":\"" ++ hexEncode value ++
    text "\"\x7d,\"i\":" ++ decimal i ++ text "\x7d"

theorem reply_single (defaultNamespace : Text) (addr : UInt16) (value : List UInt8) (i : UInt32) :
    reply defaultNamespace ⟨[(addr, value)], i⟩ =
      singleReply (addrKey defaultNamespace addr) value i.toNat := by
  have hopen : text "\x7b\"d\":\x7b" =
      text "\x7b" ++ JsonBuilder.quoted (text "d") ++ text ":" ++ text "\x7b" := rfl
  have hcolon : text ":\"" = text ":" ++ text "\"" := rfl
  have hclose : text "\"\x7d,\"i\":" =
      text "\"" ++ text "\x7d" ++ text "," ++ JsonBuilder.quoted (text "i") ++ text ":" := rfl
  rw [singleReply, hopen, hcolon, hclose]
  simp [reply, addValues, JsonBuilder.startObject, JsonBuilder.addKey, JsonBuilder.addString,
    JsonBuilder.endObject, JsonBuilder.addNumber, JsonBuilder.comma, JsonBuilder.quoted_hexEncode, decimalInt]

/-- The query `a=…&t=-1` of a read from the cache alone. -/
def cacheQuery (addr : Text) : Text :=
  QueryString.pair (text "a") addr ++ ascii '&' :: QueryString.pair (text "t") (text "-1")

theorem request_cacheQuery {defaultNamespace : Text} (isValid : Text → Bool) {addr : Text}
    {address : KnxAddress} (haddr : ascii '&' ∉ addr)
    (haddress : KnxAddress.fromCometvisu defaultNamespace (urlDecode addr) = some address) :
    request defaultNamespace isValid (cacheQuery addr) =
      .ok ⟨some (-1), none, [address.group.toEibaddr], List.pairwise_singleton _ _⟩ := by
  have hplain : QueryString.Plain (text "a") ∧ QueryString.Plain (text "t") := by decide
  have hne : text "a" ≠ text "t" := by decide
  have hminus : ascii '&' ∉ text "-1" := by decide
  have ha : (QueryString.parse (cacheQuery addr)).getAll (text "a") = [urlDecode addr] :=
    QueryString.getAll_parse_two hplain.1 hplain.2 hne haddr hminus
  have ht : timeoutParam (QueryString.parse (cacheQuery addr)) = some (some (-1)) := by
    rw [timeoutParam, cacheQuery, QueryString.get_parse_two hplain.1 hplain.2 hne haddr hminus]
    decide
  have hi : (QueryString.parse (cacheQuery addr)).get (text "i") = none :=
    QueryString.get_parse_two_of_ne hplain.1 hplain.2 hne haddr hminus (by decide) (by decide)
  have hs : (QueryString.parse (cacheQuery addr)).sessionInvalid isValid = false :=
    QueryString.sessionInvalid_parse_two hplain.1 hplain.2 hne haddr hminus isValid (by decide) (by decide)
  have haddrs : eibAddrs defaultNamespace [urlDecode addr] =
      ⟨[address.group.toEibaddr], List.pairwise_singleton _ _⟩ := by
    simp only [eibAddrs, List.filterMap_cons_some haddress, List.filterMap_nil]
    rfl
  simp [request, ha, hs, ht, hi, haddrs]

end ReadHandler
end KnxdFcgi
