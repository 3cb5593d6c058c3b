import KnxdFcgi.Machine
import KnxdFcgi.Text

/-! `SessionStore`: sessions with the time of their creation, which expire, are removed, and make room for
newer ones. The clock is `steady_clock` in nanoseconds; ages are compared in whole seconds. Next to the store
stands the record of every session created. Whatever deletes an entry, one that is missing although nobody
removed it is either expired by the last reading of the clock, or at least as many sessions as the store
holds have been created after it. -/

namespace KnxdFcgi

open Machine

structure SessionStore.Session where
  id : Text
  created : Int
  deriving DecidableEq

/-- The map from ids to sessions. In which order it is iterated does not matter: no two sessions are created
at one time, so that there is one oldest. -/
structure SessionStore where
  sessionTtlSec : Int32
  maxSessions : Nat
  sessions : List SessionStore.Session := []
  ids_nodup : (sessions.map SessionStore.Session.id).Nodup := by exact List.nodup_nil

namespace SessionStore

def kDefaultSessionTtlSec : Int32 := 1800

def kDefaultMaxSessions : Nat := 10000

/-- The entries that are not erased. -/
def keep (store : SessionStore) (p : Session → Bool) : SessionStore :=
  { store with
    sessions := store.sessions.filter p
    ids_nodup := store.ids_nodup.sublist (List.filter_sublist.map Session.id) }

def erase (store : SessionStore) (id : Text) : SessionStore := store.keep (·.id ≠ id)

/-- `duration_cast<seconds>(now - created).count() >= session_ttl_sec_`. -/
def expired (store : SessionStore) (now : Int) (session : Session) : Bool :=
  store.sessionTtlSec.toInt ≤ (now - session.created).tdiv 1000000000

def cleanupExpired (store : SessionStore) (now : Int) : SessionStore :=
  store.keep fun session => !store.expired now session

/-- The scan for the session created first, from the best one so far. -/
def oldestFrom : Session → List Session → Session
  | oldest, [] => oldest
  | oldest, session :: rest => oldestFrom (if session.created < oldest.created then session else oldest) rest

/-- The eviction in `create_session`. -/
def evictOldest (store : SessionStore) : SessionStore :=
  match store.sessions with
  | [] => store
  | first :: rest =>
      if store.maxSessions ≤ store.sessions.length then store.erase (oldestFrom first (first :: rest)).id
      else store

/-- `sessions_[id] = ...`. -/
def insert (store : SessionStore) (session : Session) : SessionStore :=
  { store.erase session.id with
    sessions := (store.erase session.id).sessions ++ [session]
    ids_nodup := by
      rw [List.map_append, List.nodup_append]
      refine ⟨(store.erase session.id).ids_nodup, List.nodup_singleton _, fun id hid id' hid' heq => ?_⟩
      obtain ⟨other, hother, rfl⟩ := List.mem_map.mp hid
      have hne : other.id ≠ session.id := by simpa using (List.mem_filter.mp hother).2
      exact hne (heq.trans (List.mem_singleton.mp hid')) }

/-- `generate_id`: the sixteen digits of the number that the generator returns. -/
def generateId (num : UInt64) : Text :=
  (List.range 16).map fun i => hexChar ((num >>> UInt64.ofNat (60 - i * 4)) &&& 0xF).toUInt8

/-- `create_session`, with the number it draws and its two readings of the clock. -/
def createSession (store : SessionStore) (anonymous : Bool) (num : UInt64) (cleaned created : Int) :
    SessionStore × Text :=
  if anonymous then (store, text "0")
  else (((store.cleanupExpired cleaned).evictOldest).insert ⟨generateId num, created⟩, generateId num)

def isValid (store : SessionStore) (id : Text) (now : Int) : SessionStore × Bool :=
  if id = text "0" then (store, true)
  else
    match store.sessions.find? (·.id = id) with
    | none => (store, false)
    | some session => if store.expired now session then (store.erase id, false) else (store, true)

def remove (store : SessionStore) (id : Text) : SessionStore := if id = text "0" then store else store.erase id

/-- A call on the store. -/
inductive SessionCall where
  | createSession (anonymous : Bool) (num : UInt64) (cleaned created : Int)
  | isValid (id : Text) (now : Int)
  | remove (id : Text)
  | cleanupExpired (now : Int)

/-- A session that was created, and whether it has been removed since. -/
structure Creation where
  session : Session
  removed : Bool := false

/-- The store, the sessions created so far, and the last reading of the clock. -/
structure SessionRun where
  store : SessionStore
  creations : List Creation := []
  clock : Int

namespace SessionRun

def markRemoved (id : Text) (creation : Creation) : Creation :=
  if creation.session.id = id then { creation with removed := true } else creation

/-- The readings of the clock that a call makes. -/
def readings (store : SessionStore) : SessionCall → List Int
  | .createSession anonymous _ cleaned created => if anonymous then [] else [cleaned, created]
  | .isValid id now => if id = text "0" || (store.sessions.find? (·.id = id)).isNone then [] else [now]
  | .remove _ => []
  | .cleanupExpired now => [now]

def next (s : SessionRun) (call : SessionCall) : SessionRun where
  store := match call with
    | .createSession anonymous num cleaned created => (s.store.createSession anonymous num cleaned created).1
    | .isValid id now => (s.store.isValid id now).1
    | .remove id => s.store.remove id
    | .cleanupExpired now => s.store.cleanupExpired now
  creations := match call with
    | .createSession anonymous num _ created =>
        if anonymous then s.creations else s.creations ++ [⟨⟨generateId num, created⟩, false⟩]
    | .remove id => s.creations.map (markRemoved id)
    | _ => s.creations
  clock := (readings s.store call).getLastD s.clock

/-- The clock is strictly increasing, and an id is generated only once. -/
def Proper (s : SessionRun) (call : SessionCall) : Prop :=
  (s.clock :: readings s.store call).IsChain (· < ·) ∧
    ∀ num cleaned created, call = .createSession false num cleaned created →
      generateId num ∉ s.creations.map fun creation => creation.session.id

/-- The session is no longer younger than the TTL. -/
def ExpiredAt (store : SessionStore) (now : Int) (session : Session) : Prop :=
  store.sessionTtlSec.toInt * 1000000000 ≤ now - session.created

theorem expired_iff (store : SessionStore) {now : Int} {session : Session} (hle : session.created ≤ now) :
    store.expired now session = true ↔ ExpiredAt store now session := by
  rw [expired, decide_eq_true_eq, ExpiredAt, Int.tdiv_eq_ediv_of_nonneg (by omega)]
  omega

theorem oldestFrom_spec (oldest : Session) (sessions : List Session) :
    oldestFrom oldest sessions ∈ oldest :: sessions ∧
      ∀ session ∈ oldest :: sessions, (oldestFrom oldest sessions).created ≤ session.created := by
  induction sessions generalizing oldest with
  | nil => simp [oldestFrom]
  | cons session rest ih =>
      rw [oldestFrom]
      obtain ⟨hmem, hle⟩ := ih (if session.created < oldest.created then session else oldest)
      have hbest := hle _ List.mem_cons_self
      constructor
      · rcases List.mem_cons.mp hmem with heq | hrest
        · rw [heq]
          split_ifs <;> simp
        · exact List.mem_cons_of_mem _ (List.mem_cons_of_mem _ hrest)
      · intro other hother
        rcases List.mem_cons.mp hother with rfl | hother
        · split_ifs at hbest ⊢ <;> omega
        rcases List.mem_cons.mp hother with rfl | hother
        · split_ifs at hbest ⊢ <;> omega
        · exact hle other (List.mem_cons_of_mem _ hother)

theorem length_generateId (num : UInt64) : (generateId num).length = 16 := by simp [generateId]

theorem generateId_ne_zero (num : UInt64) : generateId num ≠ text "0" := by
  intro heq
  have hlength := length_generateId num
  rw [heq] at hlength
  exact absurd hlength (by decide)

/-- The lookup by an id. -/
theorem find_eq_some_iff {store : SessionStore} {id : Text} {session : Session} :
    store.sessions.find? (·.id = id) = some session ↔ session ∈ store.sessions ∧ session.id = id := by
  constructor
  · intro hfind
    exact ⟨List.mem_of_find?_eq_some hfind, by simpa using List.find?_some hfind⟩
  · rintro ⟨hs, rfl⟩
    cases hfind : store.sessions.find? (·.id = session.id) with
    | none => exact absurd (decide_eq_true rfl) (List.find?_eq_none.mp hfind session hs)
    | some found =>
        have hid : found.id = session.id := by simpa using List.find?_some hfind
        rw [List.inj_on_of_nodup_map store.ids_nodup (List.mem_of_find?_eq_some hfind) hs hid]

theorem mem_insert {store : SessionStore} {new session : Session} :
    session ∈ (store.insert new).sessions ↔
      (session ∈ store.sessions ∧ session.id ≠ new.id) ∨ session = new := by
  simp [SessionStore.insert, SessionStore.erase, SessionStore.keep]

theorem length_insert_le (store : SessionStore) (new : Session) :
    (store.insert new).sessions.length ≤ store.sessions.length + 1 := by
  have hfilter := List.length_filter_le (fun session : Session => decide (session.id ≠ new.id)) store.sessions
  simpa [SessionStore.insert, SessionStore.erase, SessionStore.keep] using hfilter

/-- The sessions were created one after another, under ids that differ. -/
structure Recorded (creations : List Creation) (clock : Int) : Prop where
  past : ∀ creation ∈ creations, creation.session.created ≤ clock
  ordered : creations.Pairwise fun a b => a.session.created < b.session.created
  ids : (creations.map fun creation => creation.session.id).Nodup
  named : ∀ creation ∈ creations, creation.session.id ≠ text "0"

variable {store : SessionStore} {creations : List Creation} {clock now : Int}

theorem recorded_nil (clock : Int) : Recorded [] clock where
  past := by simp
  ordered := List.Pairwise.nil
  ids := List.nodup_nil
  named := by simp

theorem Recorded.advance (h : Recorded creations clock) (hle : clock ≤ now) : Recorded creations now where
  past creation hc := (h.past creation hc).trans hle
  ordered := h.ordered
  ids := h.ids
  named := h.named

/-- Sessions with one id are the same, since the ids of all that were created differ. -/
theorem Recorded.eq_of_id (h : Recorded creations clock) {a b : Creation} (ha : a ∈ creations)
    (hb : b ∈ creations) (hid : a.session.id = b.session.id) : a = b :=
  List.inj_on_of_nodup_map h.ids ha hb hid

theorem Recorded.snoc (h : Recorded creations clock) {id : Text} {created : Int} (hclock : clock < created)
    (hnew : id ∉ creations.map fun creation => creation.session.id) (hzero : id ≠ text "0") :
    Recorded (creations ++ [⟨⟨id, created⟩, false⟩]) created where
  past creation hc := by
    rcases List.mem_append.mp hc with hc | hc
    · exact (h.past creation hc).trans hclock.le
    · rw [List.mem_singleton.mp hc]
  ordered := by
    refine List.pairwise_append.mpr ⟨h.ordered, List.pairwise_singleton _ _, fun creation hc new hnew => ?_⟩
    rw [List.mem_singleton.mp hnew]
    exact (h.past creation hc).trans_lt hclock
  ids := by
    rw [List.map_append, List.nodup_append]
    refine ⟨h.ids, List.nodup_singleton _, fun id' hid' new hsame heq => hnew ?_⟩
    have hsame : new = id := List.mem_singleton.mp hsame
    rwa [← hsame, ← heq]
  named creation hc := by
    rcases List.mem_append.mp hc with hc | hc
    · exact h.named creation hc
    · rw [List.mem_singleton.mp hc]
      exact hzero

theorem markRemoved_session (id : Text) (creation : Creation) :
    (markRemoved id creation).session = creation.session := by
  unfold markRemoved
  split_ifs <;> rfl

theorem markRemoved_eq_iff {id : Text} {creation : Creation} {session : Session} :
    markRemoved id creation = ⟨session, false⟩ ↔ creation = ⟨session, false⟩ ∧ session.id ≠ id := by
  unfold markRemoved
  obtain ⟨other, removed⟩ := creation
  split_ifs with hid
  · simp only [Creation.mk.injEq, Bool.true_eq_false, and_false, false_iff, not_and]
    rintro ⟨rfl, -⟩
    exact fun hne => hne hid
  · constructor
    · rintro heq
      obtain ⟨rfl, -⟩ := Creation.mk.inj heq
      exact ⟨heq, hid⟩
    · exact fun heq => heq.1

theorem Recorded.markRemoved (h : Recorded creations clock) (id : Text) :
    Recorded (creations.map (markRemoved id)) clock where
  past creation hc := by
    obtain ⟨before, hmem, rfl⟩ := List.mem_map.mp hc
    rw [markRemoved_session]
    exact h.past before hmem
  ordered := by
    rw [List.pairwise_map]
    simpa only [markRemoved_session] using h.ordered
  ids := by
    rw [List.map_map]
    simpa only [Function.comp_def, markRemoved_session] using h.ids
  named creation hc := by
    obtain ⟨before, hmem, rfl⟩ := List.mem_map.mp hc
    rw [markRemoved_session]
    exact h.named before hmem

/-! ### The invariant -/

/-- The store holds created sessions that were not removed, no more than its limit. One that it does not
hold is expired, or as many as the limit were created after it. -/
structure Inv (store : SessionStore) (creations : List Creation) (clock : Int) : Prop
    extends Recorded creations clock where
  size : store.sessions.length ≤ store.maxSessions
  source : ∀ session ∈ store.sessions, ⟨session, false⟩ ∈ creations
  kept : ∀ i session, creations[i]? = some ⟨session, false⟩ →
    session ∈ store.sessions ∨ ExpiredAt store clock session ∨ i + store.maxSessions < creations.length

theorem ExpiredAt.advance {session : Session} (h : ExpiredAt store clock session) (hle : clock ≤ now) :
    ExpiredAt store now session := by
  unfold ExpiredAt at h ⊢
  omega

theorem Inv.advance (h : Inv store creations clock) (hle : clock ≤ now) : Inv store creations now where
  toRecorded := h.toRecorded.advance hle
  size := h.size
  source := h.source
  kept i session hi := by
    rcases h.kept i session hi with hmem | hexpired | hlater
    · exact Or.inl hmem
    · exact Or.inr (Or.inl (hexpired.advance hle))
    · exact Or.inr (Or.inr hlater)

/-- Erasing nothing but what has expired. -/
theorem Inv.keep (h : Inv store creations clock) {p : Session → Bool}
    (hp : ∀ session ∈ store.sessions, p session = false → ExpiredAt store clock session) :
    Inv (store.keep p) creations clock where
  toRecorded := h.toRecorded
  size := (List.length_filter_le _ _).trans h.size
  source session hs := h.source session (List.mem_of_mem_filter hs)
  kept i session hi := by
    rcases h.kept i session hi with hmem | hexpired | hlater
    · cases hkeep : p session with
      | true => exact Or.inl (List.mem_filter.mpr ⟨hmem, hkeep⟩)
      | false => exact Or.inr (Or.inl (hp session hmem hkeep))
    · exact Or.inr (Or.inl hexpired)
    · exact Or.inr (Or.inr hlater)

theorem Inv.cleanupExpired (h : Inv store creations clock) : Inv (store.cleanupExpired clock) creations clock := by
  refine h.keep fun session hs hp => ?_
  have hle := h.past _ (h.source session hs)
  exact (expired_iff store hle).mp (by simpa using hp)

theorem Inv.isValid (h : Inv store creations clock) (id : Text) : Inv (store.isValid id clock).1 creations clock := by
  unfold SessionStore.isValid
  split_ifs
  · exact h
  · cases hfind : store.sessions.find? (·.id = id) with
    | none => exact h
    | some session =>
        obtain ⟨hmem, hid⟩ := find_eq_some_iff.mp hfind
        simp only
        split_ifs with hexpired
        · refine h.keep fun other hother hp => ?_
          have hsame : other.id = id := by simpa using hp
          have heq := h.eq_of_id (h.source other hother) (h.source session hmem) (hsame.trans hid.symm)
          rw [(Creation.mk.inj heq).1]
          exact (expired_iff store (h.past _ (h.source session hmem))).mp hexpired
        · exact h

theorem Inv.erase (h : Inv store creations clock) (id : Text) :
    Inv (store.erase id) (creations.map (markRemoved id)) clock where
  toRecorded := h.toRecorded.markRemoved id
  size := (List.length_filter_le _ _).trans h.size
  source session hs := by
    obtain ⟨hmem, hid⟩ := List.mem_filter.mp hs
    exact List.mem_map.mpr ⟨_, h.source session hmem, markRemoved_eq_iff.mpr ⟨rfl, by simpa using hid⟩⟩
  kept i session hi := by
    rw [List.getElem?_map, Option.map_eq_some_iff] at hi
    obtain ⟨creation, hi, hmark⟩ := hi
    obtain ⟨rfl, hid⟩ := markRemoved_eq_iff.mp hmark
    rw [List.length_map]
    rcases h.kept i session hi with hmem | hrest
    · exact Or.inl (List.mem_filter.mpr ⟨hmem, by simpa using hid⟩)
    · exact Or.inr hrest

theorem Inv.remove (h : Inv store creations clock) (id : Text) :
    Inv (store.remove id) (creations.map (markRemoved id)) clock := by
  unfold SessionStore.remove
  split_ifs with hzero
  · have hsame : creations.map (markRemoved id) = creations := by
      refine (List.map_congr_left fun creation hc => ?_).trans (List.map_id _)
      exact if_neg (hzero ▸ h.named creation hc)
    rwa [hsame]
  · exact h.erase id

/-- The sessions of the store were all created at the oldest one or after it. -/
theorem Inv.length_le (h : Inv store creations clock) {i : Nat} {oldest : Session}
    (hi : creations[i]? = some ⟨oldest, false⟩)
    (holdest : ∀ session ∈ store.sessions, oldest.created ≤ session.created) :
    i + store.sessions.length ≤ creations.length := by
  have hlater : store.sessions.map (fun session => (⟨session, false⟩ : Creation)) ⊆ creations.drop i := by
    intro creation hc
    obtain ⟨session, hs, rfl⟩ := List.mem_map.mp hc
    obtain ⟨j, hj⟩ := List.getElem?_of_mem (h.source session hs)
    by_cases hij : i ≤ j
    · refine List.mem_of_getElem? (i := j - i) ?_
      rwa [List.getElem?_drop, Nat.add_sub_cancel' hij]
    · obtain ⟨hjl, hj⟩ := List.getElem?_eq_some_iff.mp hj
      obtain ⟨hil, hi⟩ := List.getElem?_eq_some_iff.mp hi
      have hless := List.pairwise_iff_getElem.mp h.ordered j i hjl hil (by omega)
      rw [hj, hi] at hless
      exact absurd (holdest session hs) (by simp only at hless; omega)
  have hnodup : (store.sessions.map fun session => (⟨session, false⟩ : Creation)).Nodup := by
    refine (List.Nodup.of_map _ store.ids_nodup).map fun a b hab => ?_
    exact (Creation.mk.inj hab).1
  have hlength := (List.subperm_of_subset hnodup hlater).length_le
  obtain ⟨hil, -⟩ := List.getElem?_eq_some_iff.mp hi
  rw [List.length_map, List.length_drop] at hlength
  omega

theorem evictOldest_fields (store : SessionStore) :
    store.evictOldest.maxSessions = store.maxSessions ∧ store.evictOldest.sessionTtlSec = store.sessionTtlSec := by
  unfold evictOldest
  split
  · exact ⟨rfl, rfl⟩
  · split_ifs <;> exact ⟨rfl, rfl⟩

/-- The eviction makes room, and what it erases is followed by as many others as the store may hold. -/
theorem Inv.evictOldest (h : Inv store creations clock) (hmax : 1 ≤ store.maxSessions) :
    store.evictOldest.sessions.length < store.maxSessions ∧
      (∀ session ∈ store.evictOldest.sessions, session ∈ store.sessions) ∧
      ∀ i session, creations[i]? = some ⟨session, false⟩ → session ∈ store.sessions →
        session ∈ store.evictOldest.sessions ∨ i + store.maxSessions ≤ creations.length := by
  unfold SessionStore.evictOldest
  split
  · rename_i hnone
    rw [hnone]
    exact ⟨hmax, fun _ hs => hs, fun _ _ _ hs => Or.inl hs⟩
  · rename_i first rest hsessions
    obtain ⟨hoccurs, hleast⟩ := oldestFrom_spec first (first :: rest)
    generalize oldestFrom first (first :: rest) = oldest at hoccurs hleast
    rw [List.mem_cons, or_iff_right_of_imp (fun heq => heq ▸ List.mem_cons_self), ← hsessions] at hoccurs
    have hleast : ∀ session ∈ store.sessions, oldest.created ≤ session.created :=
      fun session hs => hleast session (List.mem_cons_of_mem _ (hsessions ▸ hs))
    split_ifs with hfull
    · refine ⟨?_, fun session hs => List.mem_of_mem_filter hs, fun i session hi hs => ?_⟩
      · refine lt_of_lt_of_le ?_ h.size
        exact List.length_filter_lt_length_iff_exists.mpr ⟨oldest, hoccurs, by simp⟩
      · by_cases hid : session.id = oldest.id
        · have heq := h.eq_of_id (h.source session hs) (h.source oldest hoccurs) hid
          have hlength := h.length_le ((Creation.mk.inj heq).1 ▸ hi) hleast
          exact Or.inr (by omega)
        · exact Or.inl (List.mem_filter.mpr ⟨hs, by simpa using hid⟩)
    · exact ⟨by omega, fun _ hs => hs, fun _ _ _ hs => Or.inl hs⟩

/-- What `create_session` does after the expired sessions are gone. -/
theorem Inv.insert (h : Inv store creations clock) (hmax : 1 ≤ store.maxSessions) {id : Text} {created : Int}
    (hclock : clock < created) (hnew : id ∉ creations.map fun creation => creation.session.id)
    (hzero : id ≠ text "0") :
    Inv (store.evictOldest.insert ⟨id, created⟩) (creations ++ [⟨⟨id, created⟩, false⟩]) created := by
  obtain ⟨hroom, hsubset, hevicted⟩ := h.evictOldest hmax
  obtain ⟨hlimit, httl⟩ := evictOldest_fields store
  have hother : ∀ session ∈ store.sessions, session.id ≠ id := by
    rintro session hs rfl
    exact hnew (List.mem_map.mpr ⟨_, h.source session hs, rfl⟩)
  refine ⟨h.toRecorded.snoc hclock hnew hzero, ?_, fun session hs => ?_, fun i session hi => ?_⟩
  · have hlength := length_insert_le store.evictOldest ⟨id, created⟩
    have hsame : (store.evictOldest.insert ⟨id, created⟩).maxSessions = store.maxSessions := hlimit
    omega
  · rcases mem_insert.mp hs with ⟨hs, -⟩ | rfl
    · exact List.mem_append_left _ (h.source session (hsubset session hs))
    · exact List.mem_append_right _ (List.mem_singleton.mpr rfl)
  · have hsameLimit : (store.evictOldest.insert ⟨id, created⟩).maxSessions = store.maxSessions := hlimit
    have hsameTtl : (store.evictOldest.insert ⟨id, created⟩).sessionTtlSec = store.sessionTtlSec := httl
    rw [mem_insert, List.length_append, List.length_singleton, hsameLimit, ExpiredAt, hsameTtl]
    rw [List.getElem?_append, List.getElem?_singleton] at hi
    split_ifs at hi
    · rcases h.kept i session hi with hs | hexpired | hlater
      · rcases hevicted i session hi hs with hkept | hlater
        · exact Or.inl (Or.inl ⟨hkept, hother session hs⟩)
        · exact Or.inr (Or.inr (by omega))
      · exact Or.inr (Or.inl (hexpired.advance hclock.le))
      · exact Or.inr (Or.inr (by omega))
    · exact Or.inl (Or.inr (Creation.mk.inj (Option.some.inj hi)).1.symm)

theorem start_inv (sessionTtlSec : Int32) (maxSessions : Nat) (clock : Int) :
    Inv { sessionTtlSec := sessionTtlSec, maxSessions := maxSessions } [] clock where
  toRecorded := recorded_nil clock
  size := Nat.zero_le _
  source := by simp
  kept := by simp

/-- The limits of a store never change. -/
theorem next_fields (s : SessionRun) (call : SessionCall) :
    (s.next call).store.maxSessions = s.store.maxSessions ∧
      (s.next call).store.sessionTtlSec = s.store.sessionTtlSec := by
  cases call with
  | createSession anonymous num cleaned created =>
      cases anonymous with
      | true => exact ⟨rfl, rfl⟩
      | false => exact evictOldest_fields (s.store.cleanupExpired cleaned)
  | isValid id now =>
      simp only [next, SessionStore.isValid]
      split_ifs
      · exact ⟨rfl, rfl⟩
      · split
        · exact ⟨rfl, rfl⟩
        · split_ifs <;> exact ⟨rfl, rfl⟩
  | remove id =>
      simp only [next, SessionStore.remove]
      split_ifs <;> exact ⟨rfl, rfl⟩
  | cleanupExpired now => exact ⟨rfl, rfl⟩

/-- The limit allows a session, and the invariant holds. -/
def Good (s : SessionRun) : Prop := 1 ≤ s.store.maxSessions ∧ Inv s.store s.creations s.clock

theorem Good.next {s : SessionRun} (h : s.Good) {call : SessionCall} (hproper : s.Proper call) :
    (s.next call).Good := by
  obtain ⟨hmax, hinv⟩ := h
  obtain ⟨hclock, hnew⟩ := hproper
  refine ⟨(next_fields s call).1 ▸ hmax, ?_⟩
  cases call with
  | createSession anonymous num cleaned created =>
      cases anonymous with
      | true => exact hinv
      | false =>
          simp only [readings, Bool.false_eq_true, if_false, List.isChain_cons_cons] at hclock
          have hcleaned := (hinv.advance hclock.1.le).cleanupExpired
          exact hcleaned.insert hmax hclock.2.1 (hnew num cleaned created rfl) (generateId_ne_zero num)
  | isValid id now =>
      simp only [SessionRun.next, readings] at hclock ⊢
      split_ifs at hclock ⊢ with hearly
      · have hsame : (s.store.isValid id now).1 = s.store := by
          unfold SessionStore.isValid
          split_ifs with hzero
          · rfl
          · have hfind : s.store.sessions.find? (·.id = id) = none := by simpa [hzero] using hearly
            simp only [hfind]
        rw [hsame]
        exact hinv
      · rw [List.isChain_cons_cons] at hclock
        exact (hinv.advance hclock.1.le).isValid id
  | remove id => exact hinv.remove id
  | cleanupExpired now =>
      simp only [readings, List.isChain_cons_cons] at hclock
      exact (hinv.advance hclock.1.le).cleanupExpired

/-- `is_valid` of an id other than "0". -/
theorem isValid_true_iff {store : SessionStore} {id : Text} (hid : id ≠ text "0") (now : Int) :
    (store.isValid id now).2 = true ↔
      ∃ session ∈ store.sessions, session.id = id ∧ store.expired now session = false := by
  rw [SessionStore.isValid, if_neg hid]
  cases hfind : store.sessions.find? (·.id = id) with
  | none =>
      refine iff_of_false Bool.false_ne_true ?_
      rintro ⟨session, hs, heq, -⟩
      rw [find_eq_some_iff.mpr ⟨hs, heq⟩] at hfind
      cases hfind
  | some found =>
      obtain ⟨hmem, hfound⟩ := find_eq_some_iff.mp hfind
      simp only
      split_ifs with hexpired
      · refine iff_of_false (by simp) ?_
        rintro ⟨session, hs, heq, hyoung⟩
        rw [find_eq_some_iff.mpr ⟨hs, heq⟩] at hfind
        rw [Option.some.inj hfind, hexpired] at hyoung
        cases hyoung
      · exact iff_of_true rfl ⟨found, hmem, hfound, Bool.not_eq_true _ ▸ hexpired⟩

/-- Of the sessions that are held, the valid ones are those younger than the TTL. -/
theorem Good.young_iff {s : SessionRun} (h : s.Good) {now : Int} (hnow : s.clock < now) {session : Session}
    (hs : session ∈ s.store.sessions) :
    s.store.expired now session = false ↔ now - session.created < s.store.sessionTtlSec.toInt * 1000000000 := by
  have hlater := h.2.advance hnow.le
  have hpast : session.created ≤ now := hlater.past _ (hlater.source session hs)
  rw [← Bool.not_eq_true, expired_iff s.store hpast, ExpiredAt]
  omega

/-- What is valid was created, not removed, and is young. -/
theorem Good.of_isValid {s : SessionRun} (h : s.Good) {now : Int} (hnow : s.clock < now) {id : Text}
    (hid : id ≠ text "0") (hvalid : (s.store.isValid id now).2 = true) :
    ∃ session, ⟨session, false⟩ ∈ s.creations ∧ session.id = id ∧
      now - session.created < s.store.sessionTtlSec.toInt * 1000000000 := by
  obtain ⟨session, hs, heq, hage⟩ := (isValid_true_iff hid now).mp hvalid
  exact ⟨session, h.2.source session hs, heq, (h.young_iff hnow hs).mp hage⟩

/-- A young session that was not removed is valid, if it is among the last ones created. -/
theorem Good.isValid {s : SessionRun} (h : s.Good) {now : Int} (hnow : s.clock < now) {i : Nat} {session : Session}
    (hi : s.creations[i]? = some ⟨session, false⟩)
    (hage : now - session.created < s.store.sessionTtlSec.toInt * 1000000000)
    (hrecent : s.creations.length ≤ i + s.store.maxSessions) : (s.store.isValid session.id now).2 = true := by
  rw [isValid_true_iff (h.2.named _ (List.mem_of_getElem? hi))]
  rcases (h.2.advance hnow.le).kept i session hi with hs | hexpired | hevicted
  · exact ⟨session, hs, rfl, (h.young_iff hnow hs).mpr hage⟩
  · rw [ExpiredAt] at hexpired
    omega
  · omega

/-- A new store, at some time. -/
def opened (sessionTtlSec : Int32) (maxSessions : Nat) (clock : Int) : SessionRun where
  store := { sessionTtlSec := sessionTtlSec, maxSessions := maxSessions }
  clock := clock

theorem run_good {sessionTtlSec : Int32} {maxSessions : Nat} (hmax : 1 ≤ maxSessions) {clock : Int}
    {calls : List SessionCall} (hproper : Along next Proper (opened sessionTtlSec maxSessions clock) calls) :
    (run next (opened sessionTtlSec maxSessions clock) calls).Good ∧
      (run next (opened sessionTtlSec maxSessions clock) calls).store.maxSessions = maxSessions ∧
      (run next (opened sessionTtlSec maxSessions clock) calls).store.sessionTtlSec = sessionTtlSec := by
  refine run_invariant_along
    (fun s => s.Good ∧ s.store.maxSessions = maxSessions ∧ s.store.sessionTtlSec = sessionTtlSec)
    (fun s call hcall h => ?_) hproper ⟨⟨hmax, start_inv _ _ _⟩, rfl, rfl⟩
  obtain ⟨hlimit, httl⟩ := next_fields s call
  exact ⟨h.1.next hcall, hlimit.trans h.2.1, httl.trans h.2.2⟩

/-- **Which sessions are valid.** After every sequence of calls under a strictly increasing clock and with
distinct ids: the store holds no more sessions than its limit; what is reported valid is "0", or was created,
not removed, and is younger than the TTL; and that is reported of every session which was created, not
removed, is younger than the TTL, and is among the last ones created, as many as the limit. -/
theorem session_validity (sessionTtlSec : Int32) (maxSessions : Nat) (hmax : 1 ≤ maxSessions) (clock : Int)
    (calls : List SessionCall) (hproper : Along next Proper (opened sessionTtlSec maxSessions clock) calls) :
    (run next (opened sessionTtlSec maxSessions clock) calls).store.sessions.length ≤ maxSessions ∧
    ∀ now, (run next (opened sessionTtlSec maxSessions clock) calls).clock < now →
      (∀ id, ((run next (opened sessionTtlSec maxSessions clock) calls).store.isValid id now).2 = true →
        id = text "0" ∨ ∃ session, ⟨session, false⟩ ∈
            (run next (opened sessionTtlSec maxSessions clock) calls).creations ∧
          session.id = id ∧ now - session.created < sessionTtlSec.toInt * 1000000000) ∧
      ∀ i session, (run next (opened sessionTtlSec maxSessions clock) calls).creations[i]? =
          some ⟨session, false⟩ →
        now - session.created < sessionTtlSec.toInt * 1000000000 →
        (run next (opened sessionTtlSec maxSessions clock) calls).creations.length ≤ i + maxSessions →
        ((run next (opened sessionTtlSec maxSessions clock) calls).store.isValid session.id now).2 = true := by
  obtain ⟨hgood, hlimit, httl⟩ := run_good hmax hproper
  generalize run next (opened sessionTtlSec maxSessions clock) calls = s at hgood hlimit httl ⊢
  subst hlimit httl
  refine ⟨hgood.2.size, fun now hnow => ⟨fun id hvalid => ?_, fun i session hi hage hrecent => ?_⟩⟩
  · by_cases hid : id = text "0"
    · exact Or.inl hid
    · exact Or.inr (hgood.of_isValid hnow hid hvalid)
  · exact hgood.isValid hnow hi hage hrecent

/-- A store for one session, half an hour at most: the second session is valid a second later. -/
theorem session_validity_second :
    ((run next (opened 1800 1 0) [.createSession false 7 1 2, .createSession false 8 3 4]).store.isValid
      (generateId 8) 1000000004).2 = true := by
  have hproper : Along next Proper (opened 1800 1 0)
      [.createSession false 7 1 2, .createSession false 8 3 4] := by
    refine ⟨⟨by decide, ?_⟩, ⟨by decide, ?_⟩, trivial⟩
    · rintro num cleaned created ⟨⟩
      decide
    · rintro num cleaned created ⟨⟩
      decide
  have h := session_validity 1800 1 (by decide) 0 _ hproper
  exact (h.2 1000000004 (by decide)).2 1 ⟨generateId 8, 4⟩ rfl (by decide) (by decide)

end SessionRun
end SessionStore
end KnxdFcgi
