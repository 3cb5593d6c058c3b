import KnxdFcgi.JsonRoundTrip
import KnxdFcgi.QueryString
import KnxdFcgi.SessionStore

/-! `LoginHandler::handle`: a session is created, anonymous where the query has neither a user nor a password,
and its id is reported with the version of the protocol and a block of configuration. The members of the block
are there or not, one by one, and the block is there exactly if it has a member. The answer is JSON, also with
the members that the environment adds to the block, provided that these are members of an object. -/

namespace KnxdFcgi

/-- What `version.h` tells of the build. -/
structure BuildInfo where
  version : Text := text "unknown"
  gitHash : Text := text "unknown"
  knxdBuildVersion : Text := []
  knxdBuildGitHash : Text := []

/-- `base_url_`, the build, and `LOGIN_EXTRA_CONFIG`, empty where it is not set. -/
structure LoginConfig where
  baseUrl : Text := []
  build : BuildInfo := {}
  extraConfig : Text := []

namespace LoginHandler

def kProtocolVersion : Text := text "0.0.2"

def isKnown (s : Text) : Bool := s ≠ [] ∧ s ≠ text "unknown"

def needConfig (c : LoginConfig) : Bool :=
  c.baseUrl ≠ [] || isKnown c.build.version || isKnown c.build.gitHash || c.build.knxdBuildVersion ≠ [] ||
    c.build.knxdBuildGitHash ≠ [] || c.extraConfig ≠ []

/-- A member that is there under a condition. -/
def addIf (cond : Bool) (key value : Text) (json : JsonBuilder) : JsonBuilder :=
  if cond then json.addString key value else json

/-- The members of the block `c`. -/
def addConfig (c : LoginConfig) (json : JsonBuilder) : JsonBuilder :=
  let json := addIf (c.baseUrl ≠ []) (text "baseURL") c.baseUrl json
  let json := addIf (isKnown c.build.version) (text "fcgiVersion") c.build.version json
  let json := addIf (isKnown c.build.gitHash) (text "fcgiGitHash") c.build.gitHash json
  let json := addIf (c.build.knxdBuildVersion ≠ []) (text "knxdBuildVersion") c.build.knxdBuildVersion json
  let json := addIf (c.build.knxdBuildGitHash ≠ []) (text "knxdBuildGitHash") c.build.knxdBuildGitHash json
  if c.extraConfig ≠ [] then json.addRaw c.extraConfig else json

/-- The answer to a login. -/
def body (c : LoginConfig) (sessionId : Text) : Text :=
  let json := ((({} : JsonBuilder).startObject).addString (text "v") kProtocolVersion).addString (text "s") sessionId
  let json := if needConfig c then (addConfig c (json.addKey (text "c")).startObject).endObject else json
  json.endObject.buffer

/-- A login without a user and without a password. -/
def isAnonymous (query : Text) : Bool :=
  let params := QueryString.parse query
  !params.has (text "u") && !params.has (text "p")

/-- `handle`, with the number that the generator draws and the two readings of the clock. -/
def handle (c : LoginConfig) (num : UInt64) (cleaned created : Int) (query : Text) : StateM SessionStore Text := do
  let sessionId ← modifyGet fun store => (store.createSession (isAnonymous query) num cleaned created).swap
  return body c sessionId

def memberIf (cond : Bool) (key value : Text) : List (Text × JsonTree) := if cond then [(key, .string value)] else []

/-- The members of the block but for those of the environment. -/
def configMembers (c : LoginConfig) : List (Text × JsonTree) :=
  memberIf (c.baseUrl ≠ []) (text "baseURL") c.baseUrl ++
    memberIf (isKnown c.build.version) (text "fcgiVersion") c.build.version ++
    memberIf (isKnown c.build.gitHash) (text "fcgiGitHash") c.build.gitHash ++
    memberIf (c.build.knxdBuildVersion ≠ []) (text "knxdBuildVersion") c.build.knxdBuildVersion ++
    memberIf (c.build.knxdBuildGitHash ≠ []) (text "knxdBuildGitHash") c.build.knxdBuildGitHash

theorem addMembers_append (json : JsonBuilder) (ms ms' : List (Text × JsonTree)) :
    json.addMembers (ms ++ ms') = (json.addMembers ms).addMembers ms' := by
  induction ms generalizing json with
  | nil => rfl
  | cons m ms ih => exact ih _

theorem addIf_eq (cond : Bool) (key value : Text) (json : JsonBuilder) :
    addIf cond key value json = json.addMembers (memberIf cond key value) := by
  cases cond <;> rfl

theorem addConfig_eq (c : LoginConfig) (json : JsonBuilder) :
    addConfig c json =
      if c.extraConfig ≠ [] then (json.addMembers (configMembers c)).addRaw c.extraConfig
      else json.addMembers (configMembers c) := by
  simp only [addConfig, configMembers, addIf_eq, addMembers_append]

open Json JsonBuilder JsonTree

/-- The settings can be written as strings. -/
structure SettingsWritable (c : LoginConfig) : Prop where
  baseUrl : Writable c.baseUrl
  version : Writable c.build.version
  gitHash : Writable c.build.gitHash
  knxdBuildVersion : Writable c.build.knxdBuildVersion
  knxdBuildGitHash : Writable c.build.knxdBuildGitHash

/-- The text that the environment adds is empty, or it is read as members of an object. -/
def AddsMembers (raw : Text) (extra : List (Text × Value)) : Prop :=
  raw = [] ∧ extra = [] ∨ extra ≠ [] ∧ Reads raw (.members true extra)

theorem membersWritable_append {ms ms' : List (Text × JsonTree)} (h : MembersWritable ms)
    (h' : MembersWritable ms') : MembersWritable (ms ++ ms') := by
  induction ms with
  | nil => exact h'
  | cons m ms ih => exact ⟨h.1, h.2.1, ih h.2.2⟩

theorem memberIf_writable {cond : Bool} {key value : Text} (hkey : Writable key) (hvalue : Writable value) :
    MembersWritable (memberIf cond key value) := by
  cases cond
  · trivial
  · exact ⟨hkey, hvalue, trivial⟩

/-- Printable texts are checked faster. -/
theorem writable_of_all {s : Text} (h : s.all (0x20 ≤ ·) = true) : Writable s := by
  intro c hc hcontrol
  have hle : 0x20 ≤ c := by simpa using List.all_eq_true.mp h c hc
  exact absurd hcontrol (UInt8.not_lt.mpr hle)

theorem SettingsWritable.configMembers {c : LoginConfig} (h : SettingsWritable c) :
    MembersWritable (configMembers c) := by
  refine membersWritable_append (membersWritable_append (membersWritable_append (membersWritable_append ?_ ?_)
    ?_) ?_) ?_
  · exact memberIf_writable (writable_of_all (by decide +kernel)) h.baseUrl
  · exact memberIf_writable (writable_of_all (by decide +kernel)) h.version
  · exact memberIf_writable (writable_of_all (by decide +kernel)) h.gitHash
  · exact memberIf_writable (writable_of_all (by decide +kernel)) h.knxdBuildVersion
  · exact memberIf_writable (writable_of_all (by decide +kernel)) h.knxdBuildGitHash

/-- Behind a member, the next one has a comma. -/
theorem addMembers_first (json : JsonBuilder) {ms : List (Text × JsonTree)} (hms : ms ≠ []) :
    (json.addMembers ms).first = false := by
  induction ms generalizing json with
  | nil => exact absurd rfl hms
  | cons m ms ih =>
      obtain ⟨key, member⟩ := m
      rw [addMembers]
      cases ms with
      | nil => cases member <;> rfl
      | cons m' ms => exact ih _ (List.cons_ne_nil _ _)

theorem toMembers_ne_nil {ms : List (Text × JsonTree)} (h : ms ≠ []) : toMembers ms ≠ [] := by
  obtain ⟨m, ms, rfl⟩ := List.exists_cons_of_ne_nil h
  exact List.cons_ne_nil _ _

/-- The block is read as its own members and those of the environment. -/
theorem addConfig_reads {c : LoginConfig} (hc : SettingsWritable c) {extra : List (Text × Value)}
    (hextra : AddsMembers c.extraConfig extra) {json : JsonBuilder} (hfirst : json.first = true) :
    ∃ s, Reads s (.members true (toMembers (configMembers c) ++ extra)) ∧
      (addConfig c json).buffer = json.buffer ++ s := by
  obtain ⟨s, hs, hbuffer⟩ := addMembers_renders json hc.configMembers
  rw [hfirst] at hs
  rw [addConfig_eq]
  rcases hextra with ⟨hraw, rfl⟩ | ⟨hne, hread⟩
  · rw [if_neg (not_not_intro hraw), List.append_nil]
    exact ⟨s, hs.reads, hbuffer⟩
  · rw [if_pos (hread.ne_nil hne)]
    by_cases hms : LoginHandler.configMembers c = []
    · refine ⟨c.extraConfig, ?_, ?_⟩
      · rw [hms]
        exact hread
      · simp [hms, addMembers, addRaw, comma, hfirst]
    · refine ⟨s ++ ascii ',' :: c.extraConfig, ?_, ?_⟩
      · exact hs.reads_append (Or.inl (toMembers_ne_nil hms)) (hread.comma hne) fun rest => ends_comma _
      · rw [addRaw, comma, addMembers_first json hms, hbuffer]
        simp [text]

/-- The members outside the block. -/
def sessionMembers (sessionId : Text) : List (Text × JsonTree) :=
  [(text "v", .string kProtocolVersion), (text "s", .string sessionId)]

/-- What the answer stands for. -/
def answer (c : LoginConfig) (extra : List (Text × Value)) (sessionId : Text) : Value :=
  .object (toMembers (sessionMembers sessionId) ++
    if needConfig c then [(text "c", .object (toMembers (configMembers c) ++ extra))] else [])

theorem answer_injective (c : LoginConfig) (extra : List (Text × Value)) {sessionId other : Text}
    (h : answer c extra sessionId = answer c extra other) : sessionId = other := by
  simpa [answer, sessionMembers, toMembers, toValue] using h

theorem sessionMembers_writable {sessionId : Text} (hid : Writable sessionId) :
    MembersWritable (sessionMembers sessionId) :=
  ⟨writable_of_all (by decide +kernel), show Writable kProtocolVersion from writable_of_all (by decide +kernel),
    writable_of_all (by decide +kernel), hid, trivial⟩

theorem body_eq (c : LoginConfig) (sessionId : Text) :
    body c sessionId =
      (if needConfig c then
        (addConfig c (((startObject {}).addMembers (sessionMembers sessionId)).addKey (text "c")).startObject).endObject
      else (startObject {}).addMembers (sessionMembers sessionId)).endObject.buffer := rfl

/-- The block is one more member, behind a comma. -/
theorem block_reads {c : LoginConfig} (hc : SettingsWritable c) {extra : List (Text × Value)}
    (hextra : AddsMembers c.extraConfig extra) {json : JsonBuilder} (hfirst : json.first = false) :
    ∃ s, Reads (ascii ',' :: s) (.members false [(text "c", .object (toMembers (configMembers c) ++ extra))]) ∧
      (addConfig c (json.addKey (text "c")).startObject).endObject.buffer = json.buffer ++ ascii ',' :: s := by
  have hstart : (json.addKey (text "c")).startObject.first = true := rfl
  obtain ⟨s, hs, hbuffer⟩ := addConfig_reads hc hextra hstart
  have hkey : Quotes (text "c") (text "c") := .plain (by decide) (by decide) (by decide) .nil
  refine ⟨_, reads_member false hkey (reads_object hs) (reads_none false) ends_brace, ?_⟩
  simp only [endObject, hbuffer]
  simp [startObject, addKey, comma, hfirst, quoted, text, escapeChar, ascii]

/-- **The answer to a login is JSON**, whether or not there is a block and whatever members it has. -/
theorem parse_body {c : LoginConfig} (hc : SettingsWritable c) {extra : List (Text × Value)}
    (hextra : AddsMembers c.extraConfig extra) {sessionId : Text} (hid : Writable sessionId) :
    Json.parse (body c sessionId) = some (answer c extra sessionId) := by
  have hne : sessionMembers sessionId ≠ [] := List.cons_ne_nil _ _
  obtain ⟨s, hs, hbuffer⟩ := addMembers_renders (startObject {}) (sessionMembers_writable hid)
  apply parse_of_reads
  rw [body_eq, answer]
  split_ifs with hneed
  · obtain ⟨block, hblock, happend⟩ := block_reads hc hextra (addMembers_first (startObject {}) hne)
    have hread := hs.reads_append (Or.inl (toMembers_ne_nil hne)) hblock fun rest => ends_comma _
    rw [endObject, happend, hbuffer, List.append_assoc (startObject {}).buffer]
    exact reads_object hread
  · rw [List.append_nil, endObject, hbuffer]
    exact reads_object hs.reads

theorem lowNibble_lt (num : UInt64) : (num &&& 0xF).toUInt8.toNat < 16 := by
  have hle : (num &&& 0xF).toNat ≤ 15 := by
    rw [UInt64.toNat_and]
    exact Nat.and_le_right
  rw [UInt64.toNat_toUInt8]
  omega

/-- A session id is the digit zero, or hexadecimal. -/
theorem createSession_writable (store : SessionStore) (anonymous : Bool) (num : UInt64) (cleaned created : Int) :
    Writable (store.createSession anonymous num cleaned created).2 := by
  have hdigit : ∀ b : UInt8, b.toNat < 16 → ¬hexChar b < 0x20 := by decide +kernel
  cases anonymous with
  | true => exact show Writable (text "0") from writable_of_all (by decide +kernel)
  | false =>
      intro c hc hcontrol
      obtain ⟨i, -, rfl⟩ := List.mem_map.mp hc
      exact absurd hcontrol (hdigit _ (lowNibble_lt _))

/-- **A login reports the session that it creates**, in an answer that is JSON. -/
theorem parse_handle {c : LoginConfig} (hc : SettingsWritable c) {extra : List (Text × Value)}
    (hextra : AddsMembers c.extraConfig extra) (num : UInt64) (cleaned created : Int) (query : Text)
    (store : SessionStore) :
    (handle c num cleaned created query store).2 =
        (store.createSession (isAnonymous query) num cleaned created).1 ∧
      Json.parse (handle c num cleaned created query store).1 =
        some (answer c extra (store.createSession (isAnonymous query) num cleaned created).2) :=
  ⟨rfl, parse_body hc hextra (createSession_writable store (isAnonymous query) num cleaned created)⟩

end LoginHandler
end KnxdFcgi
