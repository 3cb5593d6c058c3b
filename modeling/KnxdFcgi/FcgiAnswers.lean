import KnxdFcgi.HeaderFields
import KnxdFcgi.ReadKeys
import KnxdFcgi.Worker

/-! What the web server gets to see. `FcgiServer::run` answers for itself where a read finds no token or a handler
throws, and otherwise passes on what the router says; `write_response` puts three header fields before the body. The
web server reads back exactly these fields and exactly this body, and the body is JSON, but for writes, which have
none. The addresses in the answer to a read can be asked for again, unless the default namespace has a colon. -/

namespace KnxdFcgi

open JsonBuilder JsonTree

namespace FcgiServer

/-- The answer to a request whose handler returns a response, or throws. -/
def invokeHandler : Option FcgiResponse → FcgiResponse
  | some response => response
  | none => { statusCode := 500, body := text "\x7b\"error\":\"internal error\"\x7d" }

/-- One turn of the loop in `run`: only a read takes tokens, first of the one semaphore and then of the other. -/
def answer (req : FcgiRequest) (concurrencyToken loadShedToken : Bool) (handled : Option FcgiResponse) :
    FcgiResponse :=
  if req.path = text "/r" ∧ concurrencyToken = false then
    { statusCode := 503, body := text "\x7b\"error\":\"all workers busy\"\x7d" }
  else if req.path = text "/r" ∧ loadShedToken = false then
    { statusCode := 503, body := text "\x7b\"error\":\"too many long-poll requests\"\x7d" }
  else invokeHandler handled

def writeResponse (response : FcgiResponse) : Text :=
  text "Status: " ++ decimal response.statusCode ++ text "\r\n" ++
    (text "Content-Type: " ++ response.contentType ++ text "; charset=utf-8\r\n") ++
    (text "Content-Length: " ++ decimal response.body.length ++ text "\r\n") ++ text "\r\n" ++ response.body

/-- The header fields of a response. -/
def fields (response : FcgiResponse) : List HeaderFields.Field :=
  [(text "Status", decimal response.statusCode),
    (text "Content-Type", response.contentType ++ text "; charset=utf-8"),
    (text "Content-Length", decimal response.body.length)]

theorem writeResponse_eq (response : FcgiResponse) :
    writeResponse response = HeaderFields.write (fields response) response.body := by
  have hstatus : text "Status: " = text "Status" ++ [HeaderFields.colon, HeaderFields.space] := by decide
  have htype : text "Content-Type: " = text "Content-Type" ++ [HeaderFields.colon, HeaderFields.space] := by decide
  have hlength : text "Content-Length: " = text "Content-Length" ++ [HeaderFields.colon, HeaderFields.space] := by decide
  have hcharset : text "; charset=utf-8\r\n" = text "; charset=utf-8" ++ [HeaderFields.cr, HeaderFields.lf] := by decide
  have hcrlf : text "\r\n" = [HeaderFields.cr, HeaderFields.lf] := by decide
  simp only [writeResponse, hstatus, htype, hlength, hcharset, hcrlf, fields, HeaderFields.write,
    HeaderFields.writeField, List.append_assoc, List.cons_append, List.nil_append]

theorem fits_decimal {name : Text} (hcolon : HeaderFields.colon ∉ name) (hline : HeaderFields.cr ∉ name) (n : Nat) :
    HeaderFields.Fits (name, decimal n) where
  name_colon := hcolon
  name_line := hline
  value_line h := absurd ((isDecimal_decimal n).isDigit _ h) (by decide)
  value_blank h := absurd ((isDecimal_decimal n).isDigit _ (List.mem_of_mem_head? h)) (by decide)

/-- The fields of a response as the program makes it fit their lines. -/
theorem fields_fit {response : FcgiResponse} (htype : response.contentType = text "application/json") :
    ∀ field ∈ fields response, HeaderFields.Fits field := by
  have htyped : HeaderFields.Fits (text "Content-Type", text "application/json" ++ text "; charset=utf-8") := by
    constructor <;> decide
  intro field hfield
  rw [fields, htype] at hfield
  simp only [List.mem_cons, List.not_mem_nil, or_false] at hfield
  rcases hfield with rfl | rfl | rfl
  · exact fits_decimal (by decide) (by decide) _
  · exact htyped
  · exact fits_decimal (by decide) (by decide) _

end FcgiServer

theorem parse_build_isSome {ms : List (Text × JsonTree)} (h : MembersWritable ms) : (Json.parse (build ms)).isSome := by
  obtain ⟨s, hs, hbuffer⟩ := addMembers_renders (startObject {}) h
  have htext : build ms = ascii '\x7b' :: (s ++ [ascii '\x7d']) := by
    rw [build, endObject, hbuffer]
    rfl
  rw [htext, Json.parse_of_renders (.object hs)]
  rfl

theorem membersWritable_strings {ms : List (Text × Text)} (h : ∀ m ∈ ms, Writable m.1 ∧ Writable m.2) :
    MembersWritable (ms.map fun (key, value) => (key, .string value)) := by
  induction ms with
  | nil => trivial
  | cons m ms ih =>
      obtain ⟨hkey, hvalue⟩ := h m List.mem_cons_self
      exact ⟨hkey, hvalue, ih fun m hm => h m (List.mem_cons_of_mem _ hm)⟩

theorem JsonTree.Writable.append {s t : Text} (hs : Writable s) (ht : Writable t) : Writable (s ++ t) := by
  intro c hc
  rcases List.mem_append.mp hc with hc | hc
  · exact hs c hc
  · exact ht c hc

theorem writable_decimal (n : Nat) : Writable (decimal n) := by
  have hdigit : ∀ c : UInt8, isDigit c = true → ¬c < 0x20 := by decide +kernel
  intro c hc hcontrol
  exact absurd hcontrol (hdigit c ((isDecimal_decimal n).isDigit c hc))

theorem writable_toCometvisu {address : KnxAddress} (hns : Writable address.ns) : Writable address.toCometvisu := by
  have hslash : Writable (text "/") := LoginHandler.writable_of_all (by decide +kernel)
  have hcolon : Writable (text ":") := LoginHandler.writable_of_all (by decide +kernel)
  have hgroup : Writable address.group.toString :=
    ((((writable_decimal _).append hslash).append (writable_decimal _)).append hslash).append (writable_decimal _)
  unfold KnxAddress.toCometvisu
  split_ifs
  · exact hgroup
  · exact (hns.append hcolon).append hgroup

theorem writable_hexEncode (data : List UInt8) : Writable (hexEncode data) := by
  have hdigits : Writable (text "0123456789abcdef") := LoginHandler.writable_of_all (by decide +kernel)
  exact fun c hc => hdigits c (mem_hexEncode hc)

/-- What a read has collected is JSON, whatever it is. -/
theorem ReadHandler.parse_reply {defaultNamespace : Text} (hns : Writable defaultNamespace) (response : ReadResponse) :
    (Json.parse (reply defaultNamespace response).body).isSome := by
  have hmembers : ∀ m ∈ members defaultNamespace response, Writable m.1 ∧ Writable m.2 := by
    intro m hm
    obtain ⟨⟨addr, value⟩, -, rfl⟩ := List.mem_map.mp hm
    exact ⟨writable_toCometvisu hns, writable_hexEncode value⟩
  rw [reply_body]
  refine parse_build_isSome ⟨?_, membersWritable_strings hmembers, ?_, trivial, trivial⟩
  · exact LoginHandler.writable_of_all (by decide +kernel)
  · exact LoginHandler.writable_of_all (by decide +kernel)

def statusCodes : List Nat := [200, 400, 401, 404, 500, 503]

/-- The status of an answer is one of these, and its body is JSON. -/
def Expected (status : Nat) (body : Text) : Prop := status ∈ statusCodes ∧ (Json.parse body).isSome

instance (status : Nat) (body : Text) : Decidable (Expected status body) := inferInstanceAs (Decidable (_ ∧ _))

theorem ReadHandler.request_error {defaultNamespace : Text} {isValid : Text → Bool} {query : Text}
    {result : ReadResult} (h : request defaultNamespace isValid query = .error result) :
    Expected result.httpStatus result.body := by
  simp only [request] at h
  split_ifs at h
  · cases h
    decide +kernel
  · cases h
    decide +kernel
  · cases htimeout : timeoutParam (QueryString.parse query) with
    | none =>
        simp only [htimeout] at h
        cases h
        decide +kernel
    | some t =>
        simp only [htimeout] at h
        cases h
        decide +kernel
  · cases htimeout : timeoutParam (QueryString.parse query) with
    | none =>
        simp only [htimeout] at h
        cases h
        decide +kernel
    | some t => simp only [htimeout, reduceCtorEq] at h

theorem WriteHandler.handle_httpStatus (defaultNamespace : Text) (isValid : Text → Bool) (c : KnxdClient)
    (scripts : List KnxdClient.SendScript) (query : Text) :
    (handle defaultNamespace isValid c scripts query).2.httpStatus ∈ statusCodes := by
  simp only [handle, Loop.result]
  split
  · simp [statusCodes]
  · split_ifs
    · simp [statusCodes]
    · simp [statusCodes]
    · split
      · simp [statusCodes]
      · split_ifs <;> simp [statusCodes]

namespace Worker

/-- What `main` reads from its environment can be written as JSON. -/
structure ConfigWritable (config : WorkerConfig) : Prop where
  defaultNamespace : Writable config.defaultNamespace
  login : LoginHandler.SettingsWritable config.login
  extra : ∃ extra, LoginHandler.AddsMembers config.login.extraConfig extra

variable {config : WorkerConfig}

theorem readHandler_httpStatus (e : Serving) (query : Text) (w : Worker) :
    (readHandler config e query w).1.httpStatus ∈ statusCodes := by
  simp only [readHandler, ReadHandler.handle]
  cases hreq : ReadHandler.request config.defaultNamespace (fun id => (w.sessions.isValid id e.now).2) query with
  | ok req => exact List.mem_cons_self
  | error result => exact (ReadHandler.request_error hreq).1

theorem readHandler_body (hns : Writable config.defaultNamespace) (e : Serving) (query : Text) (w : Worker) :
    (Json.parse (readHandler config e query w).1.body).isSome := by
  simp only [readHandler, ReadHandler.handle]
  cases hreq : ReadHandler.request config.defaultNamespace (fun id => (w.sessions.isValid id e.now).2) query with
  | ok req => exact ReadHandler.parse_reply hns _
  | error result => exact (ReadHandler.request_error hreq).2

/-- Every response of the router. -/
theorem serve_statusCode (config : WorkerConfig) (w : Worker) (e : Serving) :
    (serve config w e).1.contentType = text "application/json" ∧ (serve config w e).1.statusCode ∈ statusCodes := by
  by_cases hl : e.request.path = text "/l"
  · rw [serve_login hl]
    exact ⟨rfl, List.mem_cons_self⟩
  · by_cases hr : e.request.path = text "/r"
    · rw [serve_read hr]
      exact ⟨rfl, readHandler_httpStatus e _ w⟩
    · by_cases hw : e.request.path = text "/w"
      · rw [serve_write hw]
        exact ⟨rfl, WriteHandler.handle_httpStatus _ _ _ _ _⟩
      · have hunknown : 404 ∈ statusCodes := by decide
        rw [serve_other hl hr hw]
        exact ⟨rfl, hunknown⟩

/-- The body of a response of the router: a write has none. -/
theorem serve_body (hconfig : ConfigWritable config) (w : Worker) (e : Serving) :
    if e.request.path = text "/w" then (serve config w e).1.body = []
    else (Json.parse (serve config w e).1.body).isSome := by
  by_cases hl : e.request.path = text "/l"
  · obtain ⟨extra, hextra⟩ := hconfig.extra
    have hne : text "/l" ≠ text "/w" := by decide
    have hparse := parse_login hconfig.login hextra hl w
    rw [hl, if_neg hne, hparse]
    rfl
  · by_cases hr : e.request.path = text "/r"
    · have hne : text "/r" ≠ text "/w" := by decide
      rw [serve_read hr, hr, if_neg hne]
      exact readHandler_body hconfig.defaultNamespace e _ w
    · by_cases hw : e.request.path = text "/w"
      · rw [serve_write hw, if_pos hw]
      · have hunknown : (Json.parse (text "\x7b\"error\":\"unknown endpoint\"\x7d")).isSome := by decide +kernel
        rw [serve_other hl hr hw, if_neg hw]
        exact hunknown

/-- **Every answer can be read.** Whatever the worker has been through and whatever is asked, with or without tokens
and even if the handler throws, the web server reads the three fields and the body that the program means, and the
status is one of six. If what `main` reads from its environment can be written as JSON, the body is JSON, unless it is
the empty one of a write. -/
theorem answers_readable (config : WorkerConfig) (w : Worker) (e : Serving)
    (concurrencyToken loadShedToken : Bool) {handled : Option FcgiResponse}
    (hhandled : ∀ response, handled = some response → response = (serve config w e).1) :
    HeaderFields.read (FcgiServer.writeResponse
        (FcgiServer.answer e.request concurrencyToken loadShedToken handled)) =
      some ([(text "Status",
            decimal (FcgiServer.answer e.request concurrencyToken loadShedToken handled).statusCode),
          (text "Content-Type", text "application/json; charset=utf-8"),
          (text "Content-Length",
            decimal (FcgiServer.answer e.request concurrencyToken loadShedToken handled).body.length)],
        (FcgiServer.answer e.request concurrencyToken loadShedToken handled).body) ∧
      (FcgiServer.answer e.request concurrencyToken loadShedToken handled).statusCode ∈ statusCodes ∧
      (ConfigWritable config →
        (FcgiServer.answer e.request concurrencyToken loadShedToken handled).body = [] ∧
            e.request.path = text "/w" ∨
          (Json.parse (FcgiServer.answer e.request concurrencyToken loadShedToken handled).body).isSome) := by
  have hanswer : (FcgiServer.answer e.request concurrencyToken loadShedToken handled).contentType =
        text "application/json" ∧
      (FcgiServer.answer e.request concurrencyToken loadShedToken handled).statusCode ∈ statusCodes ∧
      (ConfigWritable config →
        (FcgiServer.answer e.request concurrencyToken loadShedToken handled).body = [] ∧
            e.request.path = text "/w" ∨
          (Json.parse (FcgiServer.answer e.request concurrencyToken loadShedToken handled).body).isSome) := by
    unfold FcgiServer.answer
    split_ifs
    · exact ⟨rfl, by decide, fun _ => Or.inr (by decide +kernel)⟩
    · exact ⟨rfl, by decide, fun _ => Or.inr (by decide +kernel)⟩
    · cases handled with
      | none => exact ⟨rfl, by decide, fun _ => Or.inr (by decide +kernel)⟩
      | some response =>
          obtain ⟨htype, hstatus⟩ := serve_statusCode config w e
          rw [FcgiServer.invokeHandler, hhandled response rfl]
          refine ⟨htype, hstatus, fun hconfig => ?_⟩
          have hbody := serve_body hconfig w e
          split_ifs at hbody with hw
          · exact Or.inl ⟨hbody, hw⟩
          · exact Or.inr hbody
  generalize FcgiServer.answer e.request concurrencyToken loadShedToken handled = response at hanswer ⊢
  obtain ⟨htype, hexpected⟩ := hanswer
  refine ⟨?_, hexpected⟩
  rw [FcgiServer.writeResponse_eq, HeaderFields.read_write (FcgiServer.fields_fit htype), FcgiServer.fields, htype]
  rfl

theorem answers_readable_login :
    (FcgiServer.answer loginByName.request true true (some (serve ⟨[], {}⟩ (start {}) loginByName).1)).statusCode ∈
        statusCodes ∧
      (Json.parse
        (FcgiServer.answer loginByName.request true true (some (serve ⟨[], {}⟩ (start {}) loginByName).1)).body).isSome := by
  have hlogin : LoginHandler.SettingsWritable {} := by
    constructor <;> decide +kernel
  have hconfig : ConfigWritable ⟨[], {}⟩ := ⟨nofun, hlogin, [], Or.inl ⟨rfl, rfl⟩⟩
  have hhandled : ∀ response, some (serve ⟨[], {}⟩ (start {}) loginByName).1 = some response →
      response = (serve ⟨[], {}⟩ (start {}) loginByName).1 := fun response h => (Option.some.inj h).symm
  obtain ⟨-, hstatus, hbody⟩ := answers_readable ⟨[], {}⟩ (start {}) loginByName true true hhandled
  have hpath : loginByName.request.path ≠ text "/w" := by decide +kernel
  exact ⟨hstatus, (hbody hconfig).resolve_left fun h => hpath h.2⟩

end Worker

namespace ReadHandler

theorem colon_not_mem_of_fromString {s : Text} {g : KnxGroupAddress} (h : KnxGroupAddress.fromString s = some g) :
    ascii ':' ∉ s := by
  obtain ⟨main, middle, sub, rfl, hmain, hmiddle, hsub, -⟩ := KnxGroupAddress.fromString_eq_some_iff.mp h
  have hdigits : ∀ {maxVal : Nat} {digits : Text}, KnxGroupAddress.IsLevel maxVal digits → ascii ':' ∉ digits :=
    fun hlevel hmem => absurd (hlevel.isDigit _ hmem) (by decide)
  have hslash : ascii ':' ≠ ascii '/' := by decide
  simp only [KnxGroupAddress.spelled, List.mem_append, List.mem_cons, hslash, hdigits hmain, hdigits hmiddle,
    hdigits hsub, or_self, not_false_eq_true]

theorem addrKey_of_ne_nil {defaultNamespace : Text} (hns : defaultNamespace ≠ []) (addr : UInt16) :
    addrKey defaultNamespace addr =
      defaultNamespace ++ ascii ':' :: (KnxGroupAddress.fromEibaddr addr).toString := by
  rw [addrKey, KnxAddress.toCometvisu, if_neg hns, List.append_assoc]
  rfl

theorem fromCometvisu_addrKey {defaultNamespace : Text} (hcolon : ascii ':' ∉ defaultNamespace) (addr : UInt16) :
    KnxAddress.fromCometvisu defaultNamespace (addrKey defaultNamespace addr) =
      some ⟨defaultNamespace, KnxGroupAddress.fromEibaddr addr⟩ := by
  by_cases hns : defaultNamespace = []
  · have hgroup := (KnxGroupAddress.fromEibaddr addr).colon_not_mem_toString
    rw [addrKey, KnxAddress.toCometvisu, if_pos hns, KnxAddress.fromCometvisu, if_neg hgroup,
      KnxGroupAddress.fromString_toString]
    rfl
  · have hplain : ∀ c ∈ defaultNamespace, decide (c ≠ ascii ':') = true := by
      intro c hc
      rw [decide_eq_true_eq]
      rintro rfl
      exact hcolon hc
    rw [addrKey_of_ne_nil hns, KnxAddress.fromCometvisu, if_pos (by simp), List.dropWhile_append_of_pos hplain,
      List.takeWhile_append_of_pos hplain, List.dropWhile_cons_of_neg (by simp), List.takeWhile_cons_of_neg (by simp),
      List.drop_one, List.tail_cons, KnxGroupAddress.fromString_toString, List.append_nil]
    rfl

/-- What follows the first colon has the colon of the key in it. -/
theorem fromCometvisu_addrKey_none {defaultNamespace : Text} (hcolon : ascii ':' ∈ defaultNamespace) (addr : UInt16) :
    KnxAddress.fromCometvisu defaultNamespace (addrKey defaultNamespace addr) = none := by
  obtain ⟨before, after, rfl, hbefore⟩ := List.eq_append_cons_of_mem hcolon
  have hplain : ∀ c ∈ before, decide (c ≠ ascii ':') = true := by
    intro c hc
    rw [decide_eq_true_eq]
    rintro rfl
    exact hbefore hc
  rw [addrKey_of_ne_nil (by simp), List.append_assoc, List.cons_append, KnxAddress.fromCometvisu, if_pos (by simp),
    List.dropWhile_append_of_pos hplain, List.dropWhile_cons_of_neg (by simp), List.drop_one, List.tail_cons]
  cases hread : KnxGroupAddress.fromString (after ++ ascii ':' :: (KnxGroupAddress.fromEibaddr addr).toString) with
  | none => rfl
  | some g => exact absurd (colon_not_mem_of_fromString hread) (by simp)

/-- **What an answer names can be asked for again**: a query with its keys is a query for its addresses, exactly if
the default namespace has no colon. -/
theorem reply_keys_askable_iff (defaultNamespace : Text) :
    (∀ (response : ReadResponse) (addr : UInt16),
        addr ∈ (eibAddrs defaultNamespace ((members defaultNamespace response).map Prod.fst)).1 ↔
          addr ∈ response.d.map Prod.fst) ↔
      ascii ':' ∉ defaultNamespace := by
  constructor
  · intro hall hcolon
    have hmem := (hall ⟨[(0, [])], 0⟩ 0).mpr List.mem_cons_self
    obtain ⟨x, hx, address, haddress, -⟩ := mem_eibAddrs.mp hmem
    obtain rfl : x = addrKey defaultNamespace 0 := List.mem_singleton.mp hx
    rw [fromCometvisu_addrKey_none hcolon] at haddress
    cases haddress
  · intro hcolon response addr
    rw [mem_eibAddrs, members_keys]
    constructor
    · rintro ⟨x, hx, address, haddress, rfl⟩
      obtain ⟨other, hother, rfl⟩ := List.mem_map.mp hx
      rw [fromCometvisu_addrKey hcolon, Option.some.injEq] at haddress
      rw [← haddress, KnxGroupAddress.toEibaddr_fromEibaddr]
      exact hother
    · intro haddr
      exact ⟨addrKey defaultNamespace addr, List.mem_map.mpr ⟨addr, haddr, rfl⟩, _, fromCometvisu_addrKey hcolon addr,
        KnxGroupAddress.toEibaddr_fromEibaddr addr⟩

end ReadHandler

end KnxdFcgi
