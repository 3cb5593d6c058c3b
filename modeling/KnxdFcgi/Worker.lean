import KnxdFcgi.LoginHandler
import KnxdFcgi.Routing
import KnxdFcgi.WriteTelegrams

/-! One worker process: the router over the sessions and the connection of the process. Of every request at
most one call reaches the store, so the requests that a worker serves are a run of it. The id that a login
reports is accepted by the same worker for as long as the session is young and recent; an id that this worker
has not reported itself is refused, whichever worker it comes from. -/

namespace KnxdFcgi

open Machine SessionStore SessionStore.SessionRun

structure WorkerConfig where
  defaultNamespace : Text
  login : LoginConfig

/-- `sessions` and `knxd_writer` in `main`, of which every process has its own after the fork. -/
structure Worker where
  sessions : SessionStore
  client : KnxdClient

/-- A request, and what the process meets while it serves it: the number drawn for a session, the readings of
the clock by the store, how each packet fares, and the variables of a read when it is done with the cache. -/
structure Serving where
  request : FcgiRequest
  num : UInt64
  cleaned : Int
  created : Int
  now : Int
  scripts : List KnxdClient.SendScript
  reading : ReadRequest → Reader

/-- What a read has collected from the shared cache. -/
def Serving.collected (e : Serving) (req : ReadRequest) : ReadResponse :=
  ⟨(e.reading req).values, (e.reading req).lastpos⟩

namespace Worker

/-- The store after the check of `s`. -/
def checkSession (now : Int) (params : QueryString) (store : SessionStore) : SessionStore :=
  match params.get (text "s") with
  | some session => (store.isValid session now).1
  | none => store

def loginHandler (config : WorkerConfig) (e : Serving) (query : Text) : StateM Worker Text := fun w =>
  let (body, sessions) := LoginHandler.handle config.login e.num e.cleaned e.created query w.sessions
  (body, { w with sessions := sessions })

/-- The packets that a read sends: a `GroupValueRead` to each address that it found nothing for, if it is asked
to read from the bus. -/
def groupReads (defaultNamespace : Text) (isValid : Text → Bool) (e : Serving) (query : Text) :
    List (UInt16 × List UInt8) :=
  match ReadHandler.request defaultNamespace isValid query with
  | .error _ => []
  | .ok req => (e.reading req).busReads.map fun addr => (addr, [0x00, 0x00])

/-- Without an address the session is not looked at; how the packets fare makes no difference. -/
def readHandler (config : WorkerConfig) (e : Serving) (query : Text) : StateM Worker ReadResult := fun w =>
  let params := QueryString.parse query
  let isValid := fun id => (w.sessions.isValid id e.now).2
  (ReadHandler.handle config.defaultNamespace isValid e.collected query,
    { client := WriteHandler.sendAll w.client e.scripts (groupReads config.defaultNamespace isValid e query)
      sessions := if params.getAll (text "a") = [] then w.sessions else checkSession e.now params w.sessions })

/-- Nor is it without a value. -/
def writeHandler (config : WorkerConfig) (e : Serving) (query : Text) : StateM Worker WriteResult := fun w =>
  let params := QueryString.parse query
  let (client, result) := WriteHandler.handle config.defaultNamespace
    (fun id => (w.sessions.isValid id e.now).2) w.client e.scripts query
  (result, { client := client
             sessions := if params.getAll (text "a") = [] ∨ params.get (text "v") = none then w.sessions
               else checkSession e.now params w.sessions })

def router (config : WorkerConfig) (e : Serving) : Router Worker where
  loginHandler := loginHandler config e
  readHandler := readHandler config e
  writeHandler := writeHandler config e

/-- The answer to a request, and the worker after it. -/
def serve (config : WorkerConfig) (w : Worker) (e : Serving) : FcgiResponse × Worker :=
  (router config e).route e.request w

def next (config : WorkerConfig) (w : Worker) (e : Serving) : Worker := (serve config w e).2

/-- The session that a request of `/r` or `/w` is checked for. -/
def namedSession (path query : Text) : Option Text :=
  let params := QueryString.parse query
  if params.getAll (text "a") = [] then none
  else if path = text "/r" ∨ path = text "/w" ∧ params.get (text "v") ≠ none then params.get (text "s")
  else none

/-- The call on the store that a request makes. -/
def sessionCall (e : Serving) : Option SessionCall :=
  if e.request.path = text "/l" then
    some (.createSession (LoginHandler.isAnonymous e.request.queryString) e.num e.cleaned e.created)
  else (namedSession e.request.path e.request.queryString).map (.isValid · e.now)

variable {config : WorkerConfig} {w : Worker} {e : Serving}

theorem serve_login (hpath : e.request.path = text "/l") :
    serve config w e = ({ body := (loginHandler config e e.request.queryString w).1 },
      (loginHandler config e e.request.queryString w).2) := by
  rw [serve, Router.route, Router.dispatch, if_pos hpath]
  rfl

theorem serve_read (hpath : e.request.path = text "/r") :
    serve config w e = ({ statusCode := (readHandler config e e.request.queryString w).1.httpStatus
                          body := (readHandler config e e.request.queryString w).1.body },
      (readHandler config e e.request.queryString w).2) := by
  rw [serve, Router.route, Router.dispatch, hpath]
  rfl

theorem serve_write (hpath : e.request.path = text "/w") :
    serve config w e = ({ statusCode := (writeHandler config e e.request.queryString w).1.httpStatus },
      (writeHandler config e e.request.queryString w).2) := by
  rw [serve, Router.route, Router.dispatch, hpath]
  rfl

theorem serve_other (hl : e.request.path ≠ text "/l") (hr : e.request.path ≠ text "/r")
    (hw : e.request.path ≠ text "/w") :
    serve config w e = (⟨404, text "application/json", text "\x7b\"error\":\"unknown endpoint\"\x7d"⟩, w) := by
  rw [serve, Router.route, Router.dispatch, if_neg hl, if_neg hr, if_neg hw]
  rfl

theorem namedSession_read (query : Text) :
    namedSession (text "/r") query =
      if (QueryString.parse query).getAll (text "a") = [] then none else (QueryString.parse query).get (text "s") := by
  simp only [namedSession, true_or, if_true]

theorem namedSession_write (query : Text) :
    namedSession (text "/w") query =
      if (QueryString.parse query).getAll (text "a") = [] ∨ (QueryString.parse query).get (text "v") = none then none
      else (QueryString.parse query).get (text "s") := by
  have hne : text "/w" ≠ text "/r" := by decide
  simp only [namedSession, hne, false_or, true_and, ne_eq, ite_not, ite_or]

theorem namedSession_other {path : Text} (hr : path ≠ text "/r") (hw : path ≠ text "/w") (query : Text) :
    namedSession path query = none := by
  simp only [namedSession, hr, hw, false_and, or_self, if_false, ite_self]

/-- The check of `s` is the call that it makes, where it is made. -/
theorem checkSession_eq (skip : Prop) [Decidable skip] (now : Int) (params : QueryString) (store : SessionStore)
    (creations : List Creation) (clock : Int) :
    (if skip then store else checkSession now params store) =
      (run SessionRun.next ⟨store, creations, clock⟩
        ((if skip then none else params.get (text "s")).map (.isValid · now)).toList).store := by
  rw [checkSession]
  split_ifs
  · rfl
  · cases params.get (text "s") <;> rfl

/-- The store after a request is the store after its call. -/
theorem next_sessions (config : WorkerConfig) (w : Worker) (e : Serving) (creations : List Creation) (clock : Int) :
    (next config w e).sessions =
      (run SessionRun.next ⟨w.sessions, creations, clock⟩ (sessionCall e).toList).store := by
  rw [next, sessionCall]
  split_ifs with hl
  · rw [serve_login hl]
    rfl
  · by_cases hr : e.request.path = text "/r"
    · rw [serve_read hr, hr, namedSession_read, ← checkSession_eq, readHandler]
    · by_cases hw : e.request.path = text "/w"
      · rw [serve_write hw, hw, namedSession_write, ← checkSession_eq, writeHandler]
      · rw [serve_other hl hr hw, namedSession_other hr hw]
        rfl

/-- **A request is refused exactly for the session it names**, if the store does not find that valid. -/
theorem unauthorized_iff (config : WorkerConfig) (w : Worker) (e : Serving) :
    (serve config w e).1.statusCode = 401 ↔
      ∃ id, namedSession e.request.path e.request.queryString = some id ∧
        (w.sessions.isValid id e.now).2 = false := by
  have hinvalid : ∀ params : QueryString,
      params.sessionInvalid (fun id => (w.sessions.isValid id e.now).2) = true ↔
        ∃ id, params.get (text "s") = some id ∧ (w.sessions.isValid id e.now).2 = false := by
    intro params
    rw [QueryString.sessionInvalid]
    cases params.get (text "s") <;> simp
  by_cases hr : e.request.path = text "/r"
  · rw [serve_read hr, hr, namedSession_read]
    simp only [readHandler, ReadHandler.handle_unauthorized_iff, hinvalid]
    split_ifs with ha <;> simp [ha]
  · by_cases hw : e.request.path = text "/w"
    · rw [serve_write hw, hw, namedSession_write]
      simp only [writeHandler, WriteHandler.handle_unauthorized_iff, hinvalid]
      split_ifs with hnone
      · simp only [false_and, exists_false, iff_false]
        tauto
      · tauto
    · rw [namedSession_other hr hw]
      by_cases hl : e.request.path = text "/l"
      · simp [serve_login hl]
      · simp [serve_other hl hr hw]

theorem accepted_of_isValid (config : WorkerConfig) {id : Text}
    (hnamed : namedSession e.request.path e.request.queryString = some id)
    (hvalid : (w.sessions.isValid id e.now).2 = true) : (serve config w e).1.statusCode ≠ 401 := by
  rw [ne_eq, unauthorized_iff]
  rintro ⟨other, hother, hinvalid⟩
  rw [hnamed, Option.some.injEq] at hother
  rw [← hother, hvalid] at hinvalid
  cases hinvalid

/-! ### The sessions of a run -/

def calls (served : List Serving) : List SessionCall := served.filterMap sessionCall

theorem calls_cons (e : Serving) (served : List Serving) :
    calls (e :: served) = (sessionCall e).toList ++ calls served := by
  rw [calls, List.filterMap_cons]
  cases sessionCall e <;> rfl

/-- What a worker serves is a run of its store. -/
theorem run_sessions (config : WorkerConfig) (served : List Serving) {w : Worker} {s : SessionRun}
    (hsame : w.sessions = s.store) :
    (run (next config) w served).sessions = (run SessionRun.next s (calls served)).store := by
  induction served generalizing w s with
  | nil => exact hsame
  | cons e served ih =>
      rw [run_cons, calls_cons, run_append]
      apply ih
      rw [next_sessions config w e s.creations s.clock, hsame]

/-- The session that a call creates. -/
def creates : SessionCall → Option SessionStore.Session
  | .createSession false num _ created => some ⟨generateId num, created⟩
  | _ => none

theorem run_creations (s : SessionRun) {calls : List SessionCall} (hkeep : ∀ id, .remove id ∉ calls) :
    (run SessionRun.next s calls).creations = s.creations ++ (calls.filterMap creates).map (⟨·, false⟩) := by
  induction calls generalizing s with
  | nil => simp
  | cons call calls ih =>
      rw [run_cons, ih _ fun id hmem => hkeep id (List.mem_cons_of_mem _ hmem)]
      cases call with
      | createSession anonymous num cleaned created =>
          cases anonymous with
          | true => rfl
          | false => simp [SessionRun.next, creates]
      | isValid id now => rfl
      | remove id => exact absurd List.mem_cons_self (hkeep id)
      | cleanupExpired now => rfl

theorem remove_not_mem_calls (id : Text) (served : List Serving) : .remove id ∉ calls served := by
  intro hmem
  obtain ⟨e, -, he⟩ := List.mem_filterMap.mp hmem
  unfold sessionCall at he
  split_ifs at he
  · cases he
  · cases hnamed : namedSession e.request.path e.request.queryString <;> simp [hnamed] at he

/-- The sessions created for the logins with a user or a password. -/
def logins (served : List Serving) : List SessionStore.Session := (calls served).filterMap creates

/-- A worker that has served nothing; its store is the one that `main` creates. -/
def start (client : KnxdClient) : Worker where
  sessions := { sessionTtlSec := kDefaultSessionTtlSec, maxSessions := kDefaultMaxSessions }
  client := client

/-- The record of the store after some requests, the first of them later than `clock`. -/
def record (clock : Int) (served : List Serving) : SessionRun :=
  run SessionRun.next (opened kDefaultSessionTtlSec kDefaultMaxSessions clock) (calls served)

theorem record_creations (clock : Int) (served : List Serving) :
    (record clock served).creations = (logins served).map (⟨·, false⟩) := by
  rw [record, run_creations _ fun id => remove_not_mem_calls id served]
  rfl

variable {clock : Int} {served : List Serving}

/-- The clock goes on, and no number is drawn twice. -/
def Regular (clock : Int) (served : List Serving) : Prop :=
  Along SessionRun.next Proper (opened kDefaultSessionTtlSec kDefaultMaxSessions clock) (calls served)

theorem Regular.good (h : Regular clock served) :
    (record clock served).Good ∧ (record clock served).store.maxSessions = kDefaultMaxSessions ∧
      (record clock served).store.sessionTtlSec = kDefaultSessionTtlSec :=
  run_good (by decide) h

theorem run_start_sessions (config : WorkerConfig) (client : KnxdClient) (clock : Int) (served : List Serving) :
    (run (next config) (start client) served).sessions = (record clock served).store :=
  run_sessions config served rfl

/-- Only the worker's own sessions are accepted: apart from "0", an id that passes was reported by a login
to the same worker, and not longer ago than the TTL. -/
theorem accepted_cases (config : WorkerConfig) (client : KnxdClient) (h : Regular clock served) {e : Serving}
    {id : Text} (hnamed : namedSession e.request.path e.request.queryString = some id)
    (hnow : (record clock served).clock < e.now)
    (haccepted : (serve config (run (next config) (start client) served) e).1.statusCode ≠ 401) :
    id = text "0" ∨ ∃ session ∈ logins served, session.id = id ∧
      e.now - session.created < kDefaultSessionTtlSec.toInt * 1000000000 := by
  obtain ⟨hgood, -, httl⟩ := h.good
  rw [ne_eq, unauthorized_iff, run_start_sessions config client clock] at haccepted
  by_cases hid : id = text "0"
  · exact Or.inl hid
  · have hvalid : ((record clock served).store.isValid id e.now).2 = true := by
      by_contra hinvalid
      exact haccepted ⟨id, hnamed, Bool.not_eq_true _ ▸ hinvalid⟩
    obtain ⟨session, hmem, heq, hage⟩ := hgood.of_isValid hnow hid hvalid
    rw [record_creations, List.mem_map] at hmem
    obtain ⟨_, hlogin, ⟨⟩⟩ := hmem
    exact Or.inr ⟨session, hlogin, heq, httl ▸ hage⟩

/-- A session of the worker is accepted while it is young and among the last ones. -/
theorem accepted_of_login (config : WorkerConfig) (client : KnxdClient) (h : Regular clock served) {i : Nat}
    {session : SessionStore.Session} (hi : (logins served)[i]? = some session)
    (hrecent : (logins served).length ≤ i + kDefaultMaxSessions) {e : Serving}
    (hnamed : namedSession e.request.path e.request.queryString = some session.id)
    (hnow : (record clock served).clock < e.now)
    (hage : e.now - session.created < kDefaultSessionTtlSec.toInt * 1000000000) :
    (serve config (run (next config) (start client) served) e).1.statusCode ≠ 401 := by
  obtain ⟨hgood, hlimit, httl⟩ := h.good
  have hcreated : (record clock served).creations[i]? = some ⟨session, false⟩ := by
    rw [record_creations, List.getElem?_map, hi]
    rfl
  have hvalid := hgood.isValid hnow hcreated (httl ▸ hage)
    (by rw [record_creations, List.length_map, hlimit]; exact hrecent)
  rw [← run_start_sessions config client] at hvalid
  exact accepted_of_isValid config hnamed hvalid

/-- A login by name, and a read with its session a second later. -/
def loginByName : Serving :=
  ⟨{ pathInfo := text "/l", queryString := text "u=a" }, 7, 2, 3, 0, [], Reader.start⟩

def readByName : Serving :=
  ⟨{ pathInfo := text "/r", queryString := text "a=1/2/3&s=0000000000000007" }, 0, 0, 0, 1000000003, [], Reader.start⟩

theorem loginByName_regular : Regular 1 [loginByName] :=
  ⟨⟨by decide +kernel, fun _ _ _ _ => List.not_mem_nil⟩, trivial⟩

/-- The id that a login reports. -/
def reported (e : Serving) : Text :=
  if LoginHandler.isAnonymous e.request.queryString then text "0" else generateId e.num

theorem parse_login {config : WorkerConfig} (hconfig : LoginHandler.SettingsWritable config.login)
    {extra : List (Text × Json.Value)} (hextra : LoginHandler.AddsMembers config.login.extraConfig extra)
    {e : Serving} (hpath : e.request.path = text "/l") (w : Worker) :
    Json.parse (serve config w e).1.body = some (LoginHandler.answer config.login extra (reported e)) := by
  have hid : (w.sessions.createSession (LoginHandler.isAnonymous e.request.queryString) e.num e.cleaned
      e.created).2 = reported e := by
    rw [createSession, reported]
    split_ifs <;> rfl
  have hparse := (LoginHandler.parse_handle hconfig hextra e.num e.cleaned e.created e.request.queryString
    w.sessions).2
  rw [hid] at hparse
  rw [serve_login hpath]
  exact hparse

theorem logins_append (served more : List Serving) : logins (served ++ more) = logins served ++ logins more := by
  simp only [logins, calls, List.filterMap_append]

theorem logins_cons_login {e : Serving} (hpath : e.request.path = text "/l")
    (hnamed : LoginHandler.isAnonymous e.request.queryString = false) (served : List Serving) :
    logins (e :: served) = ⟨reported e, e.created⟩ :: logins served := by
  rw [logins, calls_cons, sessionCall, if_pos hpath, reported, hnamed]
  rfl

/-- **Who logs in may go on.** The id in the answer to a login, read as JSON and sent back to the same worker,
is accepted; without a user and a password always, and otherwise for half an hour, unless ten thousand others
have logged in since. -/
theorem login_accepted {config : WorkerConfig} (hconfig : LoginHandler.SettingsWritable config.login)
    {extra : List (Text × Json.Value)} (hextra : LoginHandler.AddsMembers config.login.extraConfig extra)
    (client : KnxdClient) {before after : List Serving} {login : Serving}
    (h : Regular clock (before ++ login :: after)) (hpath : login.request.path = text "/l") {id : Text}
    (hanswer : Json.parse (serve config (run (next config) (start client) before) login).1.body =
      some (LoginHandler.answer config.login extra id))
    {e : Serving} (hnamed : namedSession e.request.path e.request.queryString = some id)
    (hnow : (record clock (before ++ login :: after)).clock < e.now)
    (hvalid : id = text "0" ∨
      e.now - login.created < kDefaultSessionTtlSec.toInt * 1000000000 ∧ (logins after).length < kDefaultMaxSessions) :
    (serve config (run (next config) (start client) (before ++ login :: after)) e).1.statusCode ≠ 401 := by
  rw [parse_login hconfig hextra hpath, Option.some.injEq] at hanswer
  obtain rfl := LoginHandler.answer_injective config.login extra hanswer
  cases hanonymous : LoginHandler.isAnonymous login.request.queryString with
  | true =>
      have hzero : reported login = text "0" := by
        rw [reported, hanonymous]
        rfl
      refine accepted_of_isValid config hnamed ?_
      rw [hzero, SessionStore.isValid, if_pos rfl]
  | false =>
      have hne : reported login ≠ text "0" := by
        rw [reported, hanonymous]
        exact generateId_ne_zero login.num
      obtain ⟨hage, hfew⟩ := hvalid.resolve_left hne
      have hlogins : logins (before ++ login :: after) =
          logins before ++ ⟨reported login, login.created⟩ :: logins after := by
        rw [logins_append, logins_cons_login hpath hanonymous]
      have hi : (logins (before ++ login :: after))[(logins before).length]? =
          some ⟨reported login, login.created⟩ := by
        simp [hlogins]
      have hrecent : (logins (before ++ login :: after)).length ≤ (logins before).length + kDefaultMaxSessions := by
        rw [hlogins, List.length_append, List.length_cons]
        omega
      exact accepted_of_login config client h hi hrecent hnamed hnow hage

theorem login_accepted_readByName :
    (serve ⟨[], {}⟩ (run (next ⟨[], {}⟩) (start {}) ([] ++ loginByName :: [])) readByName).1.statusCode ≠ 401 := by
  have hconfig : LoginHandler.SettingsWritable {} := by
    constructor <;> decide +kernel
  have hadds : LoginHandler.AddsMembers [] [] := Or.inl ⟨rfl, rfl⟩
  have hpath : loginByName.request.path = text "/l" := by decide +kernel
  have hanswer := @parse_login ⟨[], {}⟩ hconfig [] hadds loginByName hpath (start {})
  exact @login_accepted 1 ⟨[], {}⟩ hconfig [] hadds {} [] [] loginByName loginByName_regular hpath _ hanswer readByName
    (by decide +kernel) (by decide +kernel) (Or.inr ⟨by decide +kernel, by decide +kernel⟩)

end Worker
end KnxdFcgi
