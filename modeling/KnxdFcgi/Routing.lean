import KnxdFcgi.ReadReply
import KnxdFcgi.RequestReader
import KnxdFcgi.Supervisor
import KnxdFcgi.WriteHandler

/-! From the variables of a request to its handler. `FcgiRequest::path` takes the endpoint from the first
variable that tells it: `PATH_INFO`, `REQUEST_URI` without its query and without `SCRIPT_NAME` in front of
it, or the last component of `SCRIPT_NAME`. Web servers differ in how they divide a path among the three; the
path comes out the same, so the router and the accept loop, which both go by it, see the same endpoint. -/

namespace KnxdFcgi

/-- `rfind`: where the last occurrence of a character is. -/
def rfind (c : UInt8) : Text → Option Nat
  | [] => none
  | first :: rest =>
      match rfind c rest with
      | some i => some (i + 1)
      | none => if first = c then some 0 else none

namespace FcgiRequest

/-- The text from its last slash on. -/
def fromLastSlash (s : Text) : Option Text := (rfind (ascii '/') s).map s.drop

/-- `SCRIPT_NAME` is taken off the path of the URI; where it is all of it, its last component is left. -/
def withoutScript (scriptName uriPath : Text) : Text :=
  if scriptName ≠ [] ∧ scriptName.length ≤ uriPath.length ∧
      uriPath.take scriptName.length = scriptName then
    let trail := uriPath.drop scriptName.length
    if trail ≠ [] then trail else (fromLastSlash scriptName).getD uriPath
  else uriPath

/-- What `SCRIPT_NAME` tells without a URI. -/
def lastComponent (scriptName : Text) : Text :=
  match fromLastSlash scriptName with
  | some tail => if tail ≠ text "/" then tail else []
  | none => []

def path (req : FcgiRequest) : Text :=
  if req.pathInfo ≠ [] then req.pathInfo
  else if req.requestUri ≠ [] then
    withoutScript req.scriptName (req.requestUri.takeWhile (· ≠ ascii '?'))
  else lastComponent req.scriptName

end FcgiRequest

structure FcgiResponse where
  statusCode : Nat := 200
  contentType : Text := text "application/json"
  body : Text := []
  deriving DecidableEq

/-- The handlers, over the state that they share. -/
structure Router (σ : Type) where
  loginHandler : Text → StateM σ Text
  readHandler : Text → StateM σ ReadResult
  writeHandler : Text → StateM σ WriteResult

namespace Router

variable {σ : Type}

/-- The part of `route` that follows the path; of a write only the status is passed on. -/
def dispatch (router : Router σ) (path query : Text) : StateM σ FcgiResponse := do
  if path = text "/l" then
    let body ← router.loginHandler query
    return { body := body }
  else if path = text "/r" then
    let result ← router.readHandler query
    return { statusCode := result.httpStatus, body := result.body }
  else if path = text "/w" then
    let result ← router.writeHandler query
    return { statusCode := result.httpStatus }
  else
    return { statusCode := 404, body := text "\x7b\"error\":\"unknown endpoint\"\x7d" }

def route (router : Router σ) (request : FcgiRequest) : StateM σ FcgiResponse :=
  router.dispatch request.path request.queryString

end Router

/-- A worker accepts the request; it needs tokens if the path is `/r`. -/
def FcgiServer.accept (pid : Nat) (req : FcgiRequest) : PoolEvent := .accept pid (req.path = text "/r")

namespace FcgiServer

/-- Over `getenv`, a request is its variables and a body. -/
theorem readRequest_eq {env : Environment} {stdin : List (List UInt8)} {req : FcgiRequest}
    (h : readRequest env stdin = .completed req) : ∃ content, req = { header env.getenv with content := content } := by
  simp only [readRequest] at h
  split_ifs at h
  · split at h
    · cases h
    · cases h
      exact ⟨_, rfl⟩
  · cases h
    exact ⟨[], rfl⟩

/-- Over the array, it is the same variables. -/
theorem readRequestEnvp_eq {env : Environment} {envp : List Text} (hsame : envp.Perm env.entries)
    {stdin : List (List UInt8)} {req : FcgiRequest} (h : readRequestEnvp (some envp) stdin = .completed req) :
    ∃ content, req = { header env.getenv with content := content } := by
  simp only [readRequestEnvp, header_getEnv hsame] at h
  split_ifs at h
  · split at h
    · cases h
      exact ⟨[], rfl⟩
    · cases h
      exact ⟨_, rfl⟩
  · cases h
    exact ⟨[], rfl⟩

/-- **Both modes route by the variables alone**, whatever is sent as a body. -/
theorem route_of_readers {env : Environment} {envp : List Text} (hsame : envp.Perm env.entries)
    {stdin : List (List UInt8)} {req : FcgiRequest}
    (h : readRequest env stdin = .completed req ∨ readRequestEnvp (some envp) stdin = .completed req)
    {σ : Type} (router : Router σ) (pid : Nat) :
    router.route req = router.route (header env.getenv) ∧ accept pid req = accept pid (header env.getenv) := by
  obtain ⟨content, rfl⟩ : ∃ content, req = { header env.getenv with content := content } := by
    rcases h with h | h
    · exact readRequest_eq h
    · exact readRequestEnvp_eq hsame h
  exact ⟨rfl, rfl⟩

end FcgiServer

/-- An endpoint: what follows the slash is one component of a path. -/
structure Endpoint where
  name : Text
  name_ne : name ≠ []
  no_slash : ascii '/' ∉ name
  no_query : ascii '?' ∉ name

def Endpoint.path (e : Endpoint) : Text := ascii '/' :: e.name

/-- The URI of a path, with a query or without. -/
def IsUri (uri path : Text) : Prop := uri = path ∨ ∃ query, uri = path ++ ascii '?' :: query

/-- How a web server may tell the endpoint that is reached under a base path. -/
inductive Deployed (base : Text) (e : Endpoint) (req : FcgiRequest) : Prop
  | pathInfo (hinfo : req.pathInfo = e.path)
  | scriptBefore (hinfo : req.pathInfo = []) (hscript : req.scriptName = base)
      (huri : IsUri req.requestUri (base ++ e.path))
  | scriptWhole (hinfo : req.pathInfo = []) (hscript : req.scriptName = base ++ e.path)
      (huri : IsUri req.requestUri (base ++ e.path))
  | scriptOnly (hinfo : req.pathInfo = []) (huri : req.requestUri = []) (hscript : req.scriptName = base ++ e.path)

theorem rfind_of_not_mem {c : UInt8} {s : Text} (h : c ∉ s) : rfind c s = none := by
  induction s with
  | nil => rfl
  | cons first rest ih =>
      rw [List.mem_cons, not_or] at h
      rw [rfind, ih h.2]
      exact if_neg (Ne.symm h.1)

theorem rfind_append {c : UInt8} {after : Text} (hafter : c ∉ after) (before : Text) :
    rfind c (before ++ c :: after) = some before.length := by
  induction before with
  | nil =>
      rw [List.nil_append, rfind, rfind_of_not_mem hafter]
      exact if_pos rfl
  | cons first rest ih =>
      rw [List.cons_append, rfind, ih]
      rfl

namespace Endpoint

variable (e : Endpoint) (base : Text)

theorem path_ne_nil : e.path ≠ [] := List.cons_ne_nil _ _

theorem path_ne_slash : e.path ≠ text "/" := by
  intro heq
  exact e.name_ne (List.cons.inj heq).2

theorem fromLastSlash_append : FcgiRequest.fromLastSlash (base ++ e.path) = some e.path := by
  rw [FcgiRequest.fromLastSlash, path, rfind_append e.no_slash, Option.map_some, List.drop_left]

theorem withoutScript_append : FcgiRequest.withoutScript base (base ++ e.path) = e.path := by
  unfold FcgiRequest.withoutScript
  by_cases hbase : base = []
  · rw [if_neg (fun h => h.1 hbase), hbase, List.nil_append]
  · rw [if_pos ⟨hbase, by simp, List.take_left⟩, List.drop_left]
    exact if_pos e.path_ne_nil

/-- Nothing is left of the path, and the name of the script is asked for its last component. -/
theorem withoutScript_self : FcgiRequest.withoutScript (base ++ e.path) (base ++ e.path) = e.path := by
  have hne : base ++ e.path ≠ [] := List.append_ne_nil_of_right_ne_nil base e.path_ne_nil
  unfold FcgiRequest.withoutScript
  rw [if_pos ⟨hne, le_refl _, List.take_length⟩, List.drop_length, if_neg (not_not_intro rfl),
    e.fromLastSlash_append base, Option.getD_some]

theorem lastComponent_append : FcgiRequest.lastComponent (base ++ e.path) = e.path := by
  rw [FcgiRequest.lastComponent, e.fromLastSlash_append base]
  exact if_pos e.path_ne_slash

end Endpoint

/-- What is left of a URI without its query. -/
theorem IsUri.takeWhile_ne {uri path : Text} (h : IsUri uri path) (hpath : ascii '?' ∉ path) :
    uri.takeWhile (· ≠ ascii '?') = path := by
  rcases h with rfl | ⟨query, rfl⟩
  · exact List.takeWhile_eq_self_iff.mpr (QueryString.ne_of_not_mem hpath)
  · exact QueryString.takeWhile_ne_append hpath query

theorem IsUri.ne_nil {uri path : Text} (h : IsUri uri path) (hpath : path ≠ []) : uri ≠ [] := by
  rcases h with rfl | ⟨query, rfl⟩
  · exact hpath
  · exact List.append_ne_nil_of_left_ne_nil hpath _

/-- Without `PATH_INFO`, a URI under the base path is stripped of `SCRIPT_NAME`. -/
theorem path_of_uri {base : Text} (hbase : ascii '?' ∉ base) {e : Endpoint} {req : FcgiRequest}
    (hinfo : req.pathInfo = []) (huri : IsUri req.requestUri (base ++ e.path)) :
    req.path = FcgiRequest.withoutScript req.scriptName (base ++ e.path) := by
  have hslash : ascii '?' ≠ ascii '/' := by decide
  have hquery : ascii '?' ∉ base ++ e.path := by simp [Endpoint.path, hbase, hslash, e.no_query]
  have hne : req.requestUri ≠ [] :=
    huri.ne_nil (List.append_ne_nil_of_right_ne_nil base e.path_ne_nil)
  rw [FcgiRequest.path, if_neg (not_not_intro hinfo), if_pos hne, huri.takeWhile_ne hquery]

theorem path_of_deployed {base : Text} (hbase : ascii '?' ∉ base) {e : Endpoint} {req : FcgiRequest}
    (h : Deployed base e req) : req.path = e.path := by
  cases h with
  | pathInfo hinfo =>
      rw [FcgiRequest.path, hinfo]
      exact if_pos e.path_ne_nil
  | scriptBefore hinfo hscript huri =>
      rw [path_of_uri hbase hinfo huri, hscript]
      exact e.withoutScript_append base
  | scriptWhole hinfo hscript huri =>
      rw [path_of_uri hbase hinfo huri, hscript]
      exact e.withoutScript_self base
  | scriptOnly hinfo huri hscript =>
      rw [FcgiRequest.path, if_neg (not_not_intro hinfo), if_neg (not_not_intro huri), hscript]
      exact e.lastComponent_append base

/-- **All deployments route alike.** Whatever the base path, the endpoint and the query: the path is the
endpoint in every one of them, the router goes to the handler of that endpoint, and tokens are taken exactly
for `/r`. -/
theorem deployments_route_alike (base : Text) (hbase : ascii '?' ∉ base) (e : Endpoint) (req : FcgiRequest)
    (h : Deployed base e req) :
    req.path = e.path ∧
      (∀ (σ : Type) (router : Router σ), router.route req = router.dispatch e.path req.queryString) ∧
      ∀ pid, FcgiServer.accept pid req = .accept pid (e.path = text "/r") := by
  have hpath := path_of_deployed hbase h
  refine ⟨hpath, fun σ router => ?_, fun pid => ?_⟩
  · rw [Router.route, hpath]
  · rw [FcgiServer.accept, hpath]

/-- The script is `/cgi-bin/r` itself, and the URI has a query with slashes in it. -/
theorem deployments_route_alike_script :
    ({ scriptName := text "/cgi-bin/r", requestUri := text "/cgi-bin/r?a=1/2/3&t=5" } : FcgiRequest).path =
      text "/r" :=
  (deployments_route_alike (text "/cgi-bin") (by decide) ⟨text "r", by decide, by decide, by decide⟩ _
    (.scriptWhole rfl rfl (Or.inr ⟨text "a=1/2/3&t=5", rfl⟩))).1

end KnxdFcgi
