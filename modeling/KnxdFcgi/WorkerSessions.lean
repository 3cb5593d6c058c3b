import KnxdFcgi.Worker

/-! The sessions of the pool. The store is created before the workers are forked, so every process has a copy of its
own; a worker that takes the place of a dead one begins with an empty copy. Who logs in by name is known to the process
that served the login, for as long as it lives, and to no other; which process serves a request is up to the kernel. -/

namespace KnxdFcgi

open Machine SessionStore SessionStore.SessionRun

/-- A worker serves a request, or has died and another process takes its place. -/
inductive WorkersEvent (n : Nat) where
  | serve (i : Fin n) (e : Serving)
  | replace (i : Fin n) (client : KnxdClient)

/-- The processes in the places of the pool. -/
structure Workers (n : Nat) where
  process : Fin n → Worker

namespace Workers

variable {n : Nat} {config : WorkerConfig} {i j : Fin n}

def next (config : WorkerConfig) (pool : Workers n) : WorkersEvent n → Workers n
  | .serve i e => { process := Function.update pool.process i ((pool.process i).next config e) }
  | .replace i client => { process := Function.update pool.process i (Worker.start client) }

def start (clients : Fin n → KnxdClient) : Workers n := { process := fun i => Worker.start (clients i) }

/-- A process that is new has served nothing. -/
def remember (i : Fin n) (served : List Serving) : WorkersEvent n → List Serving
  | .serve j e => if j = i then served ++ [e] else served
  | .replace j _ => if j = i then [] else served

/-- The requests that the process in a place of the pool has served. -/
def served (i : Fin n) (events : List (WorkersEvent n)) : List Serving := run (remember i) [] events

/-- The process in a place of the pool is a worker that has served its own requests only. -/
theorem run_served (config : WorkerConfig) (clients : Fin n → KnxdClient) (i : Fin n)
    (events : List (WorkersEvent n)) : ∃ client,
      (run (next config) (start clients) events).process i =
        run (Worker.next config) (Worker.start client) (served i events) := by
  induction events using List.reverseRecOn with
  | nil => exact ⟨clients i, rfl⟩
  | append_singleton events event ih =>
      obtain ⟨client, hsame⟩ := ih
      simp only [served, run_append, run_cons, run_nil]
      cases event with
      | serve j e =>
          simp only [next, remember]
          split_ifs with hj
          · subst hj
            exact ⟨client, by rw [Function.update_self, hsame, run_append, run_cons, run_nil]; rfl⟩
          · exact ⟨client, by rw [Function.update_of_ne (Ne.symm hj)]; exact hsame⟩
      | replace j client' =>
          simp only [next, remember]
          split_ifs with hj
          · subst hj
            exact ⟨client', by rw [Function.update_self]; rfl⟩
          · exact ⟨client, by rw [Function.update_of_ne (Ne.symm hj)]; exact hsame⟩

/-- A process that is not replaced adds to what it has served. -/
theorem remember_append {events : List (WorkersEvent n)} (hkept : ∀ client, .replace i client ∉ events)
    (served : List Serving) : run (remember i) served events = served ++ run (remember i) [] events := by
  induction events using List.reverseRecOn with
  | nil => simp
  | append_singleton events event ih =>
      simp only [run_append, run_cons, run_nil]
      rw [ih fun client hmem => hkept client (List.mem_append_left _ hmem)]
      cases event with
      | serve j e =>
          simp only [remember]
          split_ifs
          · rw [List.append_assoc]
          · rfl
      | replace j client =>
          have hj : j ≠ i := fun hj => hkept client (by simp [hj])
          simp only [remember, if_neg hj]

theorem mem_remember {events : List (WorkersEvent n)} {before : List Serving} {e : Serving}
    (h : e ∈ run (remember i) before events) : e ∈ before ∨ .serve i e ∈ events := by
  induction events generalizing before with
  | nil => exact Or.inl h
  | cons event events ih =>
      rcases ih h with hmem | hmem
      · cases event with
        | serve j e' =>
            simp only [remember] at hmem
            split_ifs at hmem with hj
            · rcases List.mem_append.mp hmem with hmem | hmem
              · exact Or.inl hmem
              · exact Or.inr (by simp [hj, List.mem_singleton.mp hmem])
            · exact Or.inl hmem
        | replace j client =>
            simp only [remember] at hmem
            split_ifs at hmem
            · exact absurd hmem List.not_mem_nil
            · exact Or.inl hmem
      · exact Or.inr (List.mem_cons_of_mem _ hmem)

/-- A process that was put in place during the events has served nothing before them. -/
theorem mem_remember_of_replaced {events : List (WorkersEvent n)} {client : KnxdClient}
    (hreplaced : .replace i client ∈ events) {before : List Serving} {e : Serving}
    (h : e ∈ run (remember i) before events) : .serve i e ∈ events := by
  obtain ⟨first, rest, rfl⟩ := List.append_of_mem hreplaced
  rw [run_append, run_cons, remember, if_pos rfl] at h
  rcases mem_remember h with hmem | hmem
  · exact absurd hmem List.not_mem_nil
  · exact List.mem_append_right _ (List.mem_cons_of_mem _ hmem)

theorem exists_of_mem_logins {requests : List Serving} {session : SessionStore.Session}
    (h : session ∈ Worker.logins requests) :
    ∃ e ∈ requests, e.request.path = text "/l" ∧ Worker.reported e = session.id := by
  obtain ⟨call, hcall, hcreates⟩ := List.mem_filterMap.mp h
  obtain ⟨e, he, hcalls⟩ := List.mem_filterMap.mp hcall
  unfold Worker.sessionCall at hcalls
  split_ifs at hcalls with hpath
  · obtain rfl := Option.some.inj hcalls
    cases hanonymous : LoginHandler.isAnonymous e.request.queryString with
    | true => simp [Worker.creates, hanonymous] at hcreates
    | false =>
        refine ⟨e, he, hpath, ?_⟩
        rw [hanonymous] at hcreates
        obtain rfl := Option.some.inj hcreates
        rw [Worker.reported, hanonymous]
        rfl
  · cases hnamed : Worker.namedSession e.request.path e.request.queryString with
    | none => simp [hnamed] at hcalls
    | some id =>
        rw [hnamed] at hcalls
        obtain rfl := Option.some.inj hcalls
        cases hcreates

/-- **A session belongs to a process.** In every run of the pool, the id that a login by name has reported is accepted
by the process that served the login, and by no other: neither by another worker, nor by the one that has taken its
place. It must be younger than the TTL, fewer than ten thousand logins may have followed, and no other login may have
been given the same id. -/
theorem login_accepted_iff (config : WorkerConfig) (clients : Fin n → KnxdClient)
    {before after : List (WorkersEvent n)} {login e : Serving} {clock : Int}
    (hlogin : login.request.path = text "/l") (hname : LoginHandler.isAnonymous login.request.queryString = false)
    (hfresh : ∀ k other, .serve k other ∈ before ++ after → other.request.path = text "/l" →
      Worker.reported other ≠ Worker.reported login)
    (hregular : Worker.Regular clock (served j (before ++ .serve i login :: after)))
    (hnamed : Worker.namedSession e.request.path e.request.queryString = some (Worker.reported login))
    (hnow : (Worker.record clock (served j (before ++ .serve i login :: after))).clock < e.now)
    (hage : e.now - login.created < kDefaultSessionTtlSec.toInt * 1000000000)
    (hfew : (Worker.logins (served i after)).length < kDefaultMaxSessions) :
    (Worker.serve config ((run (next config) (start clients) (before ++ .serve i login :: after)).process j)
        e).1.statusCode ≠ 401 ↔
      j = i ∧ ∀ client, .replace i client ∉ after := by
  obtain ⟨client, hworker⟩ := run_served config clients j (before ++ .serve i login :: after)
  have hserved : served j (before ++ .serve i login :: after) =
      run (remember j) (remember j (served j before) (.serve i login)) after := by
    rw [served, run_append, run_cons, served]
  have hreported : Worker.reported login = generateId login.num := by
    rw [Worker.reported, hname]
    rfl
  rw [hworker]
  constructor
  · intro haccepted
    rcases Worker.accepted_cases config client hregular hnamed hnow haccepted with hzero | ⟨session, hmem, hid, -⟩
    · exact absurd (hreported.symm.trans hzero) (generateId_ne_zero login.num)
    · obtain ⟨other, hother, hpath, hsame⟩ := exists_of_mem_logins hmem
      have hnot : .serve j other ∉ before ++ after := fun h => hfresh j other h hpath (hsame.trans hid)
      rw [hserved] at hother
      have hin := mem_remember hother
      have hj : j = i := by
        by_contra hne
        rcases hin with hin | hin
        · rw [remember, if_neg (Ne.symm hne)] at hin
          rcases mem_remember hin with hin | hin
          · exact absurd hin List.not_mem_nil
          · exact hnot (List.mem_append_left _ hin)
        · exact hnot (List.mem_append_right _ hin)
      refine ⟨hj, fun client' hreplaced => ?_⟩
      subst hj
      exact hnot (List.mem_append_right _ (mem_remember_of_replaced hreplaced hother))
  · rintro ⟨rfl, hkept⟩
    have hsplit : served j (before ++ .serve j login :: after) = served j before ++ login :: served j after := by
      rw [hserved, remember, if_pos rfl, remember_append hkept, List.append_assoc]
      rfl
    rw [hsplit] at hregular hnow ⊢
    have hlogins : Worker.logins (served j before ++ login :: served j after) =
        Worker.logins (served j before) ++ ⟨Worker.reported login, login.created⟩ :: Worker.logins (served j after) := by
      rw [Worker.logins_append, Worker.logins_cons_login hlogin hname]
    have hi : (Worker.logins (served j before ++ login :: served j after))[(Worker.logins (served j before)).length]? =
        some ⟨Worker.reported login, login.created⟩ := by
      simp [hlogins]
    refine Worker.accepted_of_login config client hregular hi ?_ hnamed hnow hage
    rw [hlogins, List.length_append, List.length_cons]
    omega

theorem login_accepted_iff_other :
    (Worker.serve ⟨[], {}⟩ ((run (next ⟨[], {}⟩) (start fun _ : Fin 2 => {})
      [.serve 0 Worker.loginByName]).process 1) Worker.readByName).1.statusCode = 401 := by
  by_contra haccepted
  have hpath : Worker.loginByName.request.path = text "/l" := by decide +kernel
  have hcases := (@login_accepted_iff 2 0 1 ⟨[], {}⟩ (fun _ => {}) [] [] Worker.loginByName Worker.readByName 0 hpath
    (by decide +kernel) (fun _ _ h => absurd h List.not_mem_nil) trivial (by decide +kernel) (by decide +kernel)
    (by decide +kernel) (by decide +kernel)).mp haccepted
  exact absurd hcases.1 (by decide)

end Workers
end KnxdFcgi
