import KnxdFcgi.Text

/-! `FcgiServer::read_request`, twice: over `getenv`, and over an array of `NAME=VALUE` entries that it searches
itself. The search finds what `getenv` finds, in whatever order the entries stand, so the two copies see the same
variables. They differ in one test: over `getenv`, the length of a body is looked at without asking whether the
variable is there. -/

namespace KnxdFcgi

structure FcgiRequest where
  requestMethod : Text := []
  requestUri : Text := []
  queryString : Text := []
  contentType : Text := []
  content : List UInt8 := []
  scriptName : Text := []
  pathInfo : Text := []
  serverProtocol : Text := []
  deriving DecidableEq

/-- How a reader ends. -/
inductive RequestOutcome where
  | nullDereference
  | completed (req : FcgiRequest)
  deriving DecidableEq

/-- The variables of a request: each name has one value, and a name has no `=`. Names and values are C strings. -/
structure Environment where
  vars : AList fun _ : Text => Text
  named : ∀ p ∈ vars.entries, ascii '=' ∉ p.1
  terminated : ∀ p ∈ vars.entries, 0 ∉ p.1 ∧ 0 ∉ p.2

namespace Environment

def getenv (env : Environment) (name : Text) : Option Text := env.vars.lookup name

/-- The variables as the entries of an array. -/
def entries (env : Environment) : List Text := env.vars.entries.map fun p => p.1 ++ ascii '=' :: p.2

end Environment

namespace FcgiServer

def kMaxContentLength : Int32 := 64 * 1024

/-- The loop of `FCGI_fread`, over what the stream has to give at each call; a call that gives nothing
ends it. -/
def readBody (maxLen : Nat) : List (List UInt8) → List UInt8 → List UInt8
  | [], content => content
  | available :: rest, content =>
      if content.length < maxLen then
        let nread := available.take (maxLen - content.length)
        if nread = [] then content else readBody maxLen rest (content ++ nread)
      else content

/-- The body that goes with a `CONTENT_LENGTH`. -/
def readContent (contentLength : Text) (stdin : List (List UInt8)) : List UInt8 :=
  if contentLength = [] then []
  else
    match fromChars contentLength with
    | none => []
    | some n =>
        if n ≤ 0 then []
        else readBody (if kMaxContentLength < n then kMaxContentLength else n).toInt.toNat stdin []

/-- The fields that are taken over as they are; an absent variable is the empty text. -/
def header (getEnv : Text → Option Text) : FcgiRequest where
  requestMethod := (getEnv (text "REQUEST_METHOD")).getD []
  requestUri := (getEnv (text "REQUEST_URI")).getD []
  queryString := (getEnv (text "QUERY_STRING")).getD []
  contentType := (getEnv (text "CONTENT_TYPE")).getD []
  scriptName := (getEnv (text "SCRIPT_NAME")).getD []
  pathInfo := (getEnv (text "PATH_INFO")).getD []
  serverProtocol := (getEnv (text "SERVER_PROTOCOL")).getD []

/-- `read_request()`. -/
def readRequest (env : Environment) (stdin : List (List UInt8)) : RequestOutcome :=
  let req := header env.getenv
  if req.requestMethod = text "POST" ∨ req.requestMethod = text "PUT" then
    match env.getenv (text "CONTENT_LENGTH") with
    -- the first character is read without a test
    | none => .nullDereference
    | some contentLength => .completed { req with content := readContent contentLength stdin }
  else .completed req

/-- The value of an entry that begins with the name and an `=`. -/
def entryValue (name entry : Text) : Option Text :=
  if entry.take name.length = name then
    match entry.drop name.length with
    | [] => none
    | c :: value => if c = ascii '=' then some value else none
  else none

/-- `get_env` over the array: the first entry that has the name. -/
def getEnv (envArray : List Text) (name : Text) : Option Text := envArray.findSome? (entryValue name)

/-- `read_request(envp)`. -/
def readRequestEnvp (envp : Option (List Text)) (stdin : List (List UInt8)) : RequestOutcome :=
  match envp with
  | none => .completed {}
  | some envArray =>
      let req := header (getEnv envArray)
      if req.requestMethod = text "POST" ∨ req.requestMethod = text "PUT" then
        match getEnv envArray (text "CONTENT_LENGTH") with
        | none => .completed req
        | some contentLength => .completed { req with content := readContent contentLength stdin }
      else .completed req

theorem entryValue_eq_some_iff {name entry value : Text} :
    entryValue name entry = some value ↔ entry = name ++ ascii '=' :: value := by
  unfold entryValue
  constructor
  · intro h
    split_ifs at h with hname
    have hsplit := List.take_append_drop name.length entry
    rw [hname] at hsplit
    split at h
    · cases h
    · rename_i c rest hdrop
      split_ifs at h with hc
      rw [← hsplit, hdrop, hc, Option.some.inj h]
  · rintro rfl
    simp

/-- An entry with the name is that variable, with its value. -/
theorem mem_entries_iff {env : Environment} {name value : Text} (hname : ascii '=' ∉ name) :
    name ++ ascii '=' :: value ∈ env.entries ↔ env.getenv name = some value := by
  rw [Environment.getenv, ← Option.mem_def, AList.mem_lookup_iff, Environment.entries, List.mem_map]
  constructor
  · rintro ⟨⟨name', value'⟩, hmem, h⟩
    obtain ⟨rfl, rfl⟩ := append_cons_inj_first (env.named _ hmem) hname h
    exact hmem
  · intro hmem
    exact ⟨⟨name, value⟩, hmem, rfl⟩

/-- **The search finds what `getenv` finds**, whatever the order of the array. -/
theorem getEnv_eq_getenv {env : Environment} {envp : List Text} (hsame : envp.Perm env.entries) {name : Text}
    (hname : ascii '=' ∉ name) : getEnv envp name = env.getenv name := by
  have hfound : ∀ value, getEnv envp name = some value → env.getenv name = some value := by
    intro value h
    obtain ⟨entry, hmem, hvalue⟩ := List.exists_of_findSome?_eq_some h
    obtain rfl := entryValue_eq_some_iff.mp hvalue
    exact (mem_entries_iff hname).mp (hsame.mem_iff.mp hmem)
  cases hget : getEnv envp name with
  | some value => exact (hfound value hget).symm
  | none =>
      cases hvar : env.getenv name with
      | none => rfl
      | some value =>
          have hmem := hsame.mem_iff.mpr ((mem_entries_iff hname).mpr hvar)
          have hnone := List.findSome?_eq_none_iff.mp hget _ hmem
          rw [entryValue_eq_some_iff.mpr rfl] at hnone
          cases hnone

theorem header_getEnv {env : Environment} {envp : List Text} (hsame : envp.Perm env.entries) :
    header (getEnv envp) = header env.getenv := by
  have hget : ∀ name, ascii '=' ∉ name → getEnv envp name = env.getenv name :=
    fun name => getEnv_eq_getenv hsame
  unfold header
  rw [hget (text "REQUEST_METHOD") (by decide), hget (text "REQUEST_URI") (by decide),
    hget (text "QUERY_STRING") (by decide), hget (text "CONTENT_TYPE") (by decide),
    hget (text "SCRIPT_NAME") (by decide), hget (text "PATH_INFO") (by decide),
    hget (text "SERVER_PROTOCOL") (by decide)]

/-- The method asks for a body to be read. -/
def HasBody (env : Environment) : Prop :=
  env.getenv (text "REQUEST_METHOD") = some (text "POST") ∨
    env.getenv (text "REQUEST_METHOD") = some (text "PUT")

theorem hasBody_iff (env : Environment) :
    HasBody env ↔
      (header env.getenv).requestMethod = text "POST" ∨ (header env.getenv).requestMethod = text "PUT" := by
  have hne : text "POST" ≠ [] ∧ text "PUT" ≠ [] := by decide
  simp only [HasBody, header]
  cases env.getenv (text "REQUEST_METHOD") with
  | none => simp [Ne.symm hne.1, Ne.symm hne.2]
  | some method => simp

theorem readRequest_of_absent {env : Environment} (hbody : HasBody env)
    (habsent : env.getenv (text "CONTENT_LENGTH") = none) (stdin : List (List UInt8)) :
    readRequest env stdin = .nullDereference := by
  simp only [readRequest, if_pos ((hasBody_iff env).mp hbody), habsent]

/-- Where the test makes no difference, the two readers are one. -/
theorem readRequestEnvp_eq_readRequest {env : Environment} {envp : List Text} (hsame : envp.Perm env.entries)
    (h : ¬(HasBody env ∧ env.getenv (text "CONTENT_LENGTH") = none)) (stdin : List (List UInt8)) :
    readRequestEnvp (some envp) stdin = readRequest env stdin ∧
      ∃ req, readRequest env stdin = .completed req := by
  have hlength := getEnv_eq_getenv hsame (show ascii '=' ∉ text "CONTENT_LENGTH" by decide)
  simp only [readRequestEnvp, readRequest]
  rw [header_getEnv hsame, hlength]
  by_cases hbody : HasBody env
  · rw [if_pos ((hasBody_iff env).mp hbody), if_pos ((hasBody_iff env).mp hbody)]
    cases hvalue : env.getenv (text "CONTENT_LENGTH") with
    | none => exact absurd ⟨hbody, hvalue⟩ h
    | some contentLength => exact ⟨rfl, _, rfl⟩
  · rw [if_neg fun hmethod => hbody ((hasBody_iff env).mpr hmethod),
      if_neg fun hmethod => hbody ((hasBody_iff env).mpr hmethod)]
    exact ⟨rfl, _, rfl⟩

/-- **When the two readers agree.** For every environment, every order of its array and every stream, both readers
complete and return the same request exactly if the method asks for no body or there is a `CONTENT_LENGTH`. -/
theorem readRequest_agree_iff (env : Environment) (envp : List Text) (hsame : envp.Perm env.entries)
    (stdin : List (List UInt8)) :
    (∃ req, readRequest env stdin = .completed req ∧ readRequestEnvp (some envp) stdin = .completed req) ↔
      ¬(HasBody env ∧ env.getenv (text "CONTENT_LENGTH") = none) := by
  constructor
  · rintro ⟨req, hreq, -⟩ ⟨hbody, habsent⟩
    rw [readRequest_of_absent hbody habsent] at hreq
    cases hreq
  · intro h
    obtain ⟨hsameOutcome, req, hreq⟩ := readRequestEnvp_eq_readRequest hsame h stdin
    exact ⟨req, hreq, hsameOutcome.trans hreq⟩

/-- A `POST` with two variables. -/
def postTwo : Environment where
  vars := (AList.singleton (text "CONTENT_LENGTH") (text "2")).insert (text "REQUEST_METHOD") (text "POST")
  named := by decide
  terminated := by decide

/-- The array has them in the other order, and the stream more than it should. -/
theorem readRequest_agree_iff_post :
    ∃ req, readRequest postTwo [[0x61], [0x62, 0x63]] = .completed req ∧
      readRequestEnvp (some [text "CONTENT_LENGTH=2", text "REQUEST_METHOD=POST"]) [[0x61], [0x62, 0x63]] =
        .completed req :=
  (readRequest_agree_iff postTwo [text "CONTENT_LENGTH=2", text "REQUEST_METHOD=POST"]
    (List.Perm.swap (text "REQUEST_METHOD=POST") (text "CONTENT_LENGTH=2") []) [[0x61], [0x62, 0x63]]).mpr
      fun h => absurd h.2 (by decide)

/-- A `POST` without a length. -/
def postBare : Environment where
  vars := AList.singleton (text "REQUEST_METHOD") (text "POST")
  named := by decide
  terminated := by decide

/-- One reader completes, the other follows a null pointer. -/
theorem readRequest_postBare :
    readRequest postBare [] = .nullDereference ∧
      readRequestEnvp (some postBare.entries) [] =
        .completed { requestMethod := text "POST" } := by
  exact ⟨by decide, by decide⟩

end FcgiServer
end KnxdFcgi
