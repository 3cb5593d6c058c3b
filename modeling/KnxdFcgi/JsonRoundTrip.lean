import KnxdFcgi.Json
import KnxdFcgi.JsonBuilder

/-! The texts of the builder are JSON. A tree of nested objects is built member by member; the flag of the
builder says throughout whether the member that comes next is the first of its object, so commas stand exactly
between members, and every escape is one of JSON's own. The text is therefore read back as the tree. -/

namespace KnxdFcgi

/-- What a member of an object may be. -/
inductive JsonTree where
  | string (s : Text)
  | number (z : Int)
  | object (members : List (Text × JsonTree))

namespace JsonBuilder

mutual

/-- A member is added with the call for its kind, and an object with its own members in between. -/
def addMember (json : JsonBuilder) (key : Text) : JsonTree → JsonBuilder
  | .string s => json.addString key s
  | .number z => json.addNumber key z
  | .object ms => (addMembers (json.addKey key).startObject ms).endObject

def addMembers (json : JsonBuilder) : List (Text × JsonTree) → JsonBuilder
  | [] => json
  | (key, member) :: ms => addMembers (json.addMember key member) ms

end

/-- The text of an object. -/
def build (ms : List (Text × JsonTree)) : Text := (addMembers (startObject {}) ms).endObject.buffer

end JsonBuilder

namespace JsonTree

mutual

def toValue : JsonTree → Json.Value
  | .string s => .string s
  | .number z => .number ⟨z, 0⟩
  | .object ms => .object (toMembers ms)

def toMembers : List (Text × JsonTree) → List (Text × Json.Value)
  | [] => []
  | (key, member) :: ms => (key, member.toValue) :: toMembers ms

end

/-- No byte below `0x20` but newline, carriage return and tab. -/
def Writable (s : Text) : Prop := ∀ c ∈ s, c < 0x20 → c ∈ text "\n\r\t"

instance (s : Text) : Decidable (Writable s) := inferInstanceAs (Decidable (∀ c ∈ s, c < 0x20 → c ∈ text "\n\r\t"))

mutual

/-- All keys and strings of the tree are writable. -/
def AllWritable : JsonTree → Prop
  | .string s => Writable s
  | .number _ => True
  | .object ms => MembersWritable ms

def MembersWritable : List (Text × JsonTree) → Prop
  | [] => True
  | (key, member) :: ms => Writable key ∧ member.AllWritable ∧ MembersWritable ms

end

mutual

theorem toValue_injective : ∀ {t t' : JsonTree}, t.toValue = t'.toValue → t = t'
  | .string s, t', h => by
      cases t' with
      | string s' => simpa [toValue] using h
      | number z' => simp [toValue] at h
      | object ms' => simp [toValue] at h
  | .number z, t', h => by
      cases t' with
      | string s' => simp [toValue] at h
      | number z' => simpa [toValue] using h
      | object ms' => simp [toValue] at h
  | .object ms, t', h => by
      cases t' with
      | string s' => simp [toValue] at h
      | number z' => simp [toValue] at h
      | object ms' =>
          simp only [toValue, Json.Value.object.injEq] at h
          rw [toMembers_injective h]

theorem toMembers_injective : ∀ {ms ms' : List (Text × JsonTree)}, toMembers ms = toMembers ms' → ms = ms'
  | [], ms', h => by
      cases ms' with
      | nil => rfl
      | cons m' ms' => simp [toMembers] at h
  | (key, member) :: ms, ms', h => by
      cases ms' with
      | nil => simp [toMembers] at h
      | cons m' ms' =>
          simp only [toMembers, List.cons.injEq, Prod.mk.injEq] at h
          rw [h.1.1, toValue_injective h.1.2, toMembers_injective h.2]

end

end JsonTree

namespace JsonBuilder

open Json JsonTree

/-- Escaping gives one of the texts that JSON has for a string. -/
theorem quotes_escape {s : Text} (h : Writable s) : Quotes s (s.flatMap escapeChar) := by
  induction s with
  | nil => exact .nil
  | cons c s ih =>
      have hs : Quotes s (s.flatMap escapeChar) := ih fun c' hc' => h c' (List.mem_cons_of_mem c hc')
      rw [List.flatMap_cons, escapeChar]
      split_ifs with hquote hslash hnewline hreturn htab
      · subst hquote
        exact .escape rfl hs
      · subst hslash
        exact .escape rfl hs
      · subst hnewline
        exact .escape rfl hs
      · subst hreturn
        exact .escape rfl hs
      · subst htab
        exact .escape rfl hs
      · refine .plain hquote hslash (fun hcontrol => ?_) hs
        have hspecial : c ∈ [ascii '\n', ascii '\r', ascii '\t'] := h c List.mem_cons_self hcontrol
        simp [hnewline, hreturn, htab] at hspecial

/-- `std::to_string` writes an integer as JSON does. -/
theorem renders_decimalInt (z : Int) : Renders (.value (.number ⟨z, 0⟩)) (decimalInt z) := by
  unfold decimalInt
  split_ifs with hz
  · obtain ⟨n, rfl⟩ : ∃ n : Nat, z = -n := ⟨z.natAbs, by omega⟩
    rw [Int.natAbs_neg, Int.natAbs_natCast]
    exact .negative (isDecimal_decimal n)
  · obtain ⟨n, rfl⟩ : ∃ n : Nat, z = n := ⟨z.natAbs, by omega⟩
    rw [Int.natAbs_natCast]
    exact .natural (isDecimal_decimal n)

/-- The comma is the one that stands before a member. -/
theorem comma_eq (json : JsonBuilder) : json.comma = if json.first then [] else [ascii ','] := rfl

mutual

/-- A member appends its comma, its key and the text of its value; the next one is not the first. -/
theorem addMember_renders (json : JsonBuilder) (key : Text) : ∀ {member : JsonTree}, member.AllWritable →
    ∃ s, Renders (.value member.toValue) s ∧
      json.addMember key member = ⟨json.buffer ++ json.comma ++ quoted key ++ text ":" ++ s, false⟩
  | .string s, h => ⟨quoted s, .string (quotes_escape h), rfl⟩
  | .number z, _ => ⟨decimalInt z, renders_decimalInt z, rfl⟩
  | .object ms, h => by
      obtain ⟨s, hs, hbuffer⟩ := addMembers_renders (json.addKey key).startObject h
      refine ⟨_, .object hs, ?_⟩
      simp only [addMember, endObject, hbuffer]
      simp [startObject, addKey, text]

/-- Members append the text of members, with a comma before the first of them unless the flag is set. -/
theorem addMembers_renders (json : JsonBuilder) : ∀ {ms : List (Text × JsonTree)}, MembersWritable ms →
    ∃ s, Renders (.members json.first (toMembers ms)) s ∧ (json.addMembers ms).buffer = json.buffer ++ s
  | [], _ => ⟨[], .none json.first, by rw [addMembers, List.append_nil]⟩
  | (key, member) :: ms, h => by
      obtain ⟨hkey, hmember, hms⟩ := h
      obtain ⟨s, hs, hadd⟩ := addMember_renders json key hmember
      obtain ⟨more, hmore, hbuffer⟩ := addMembers_renders (json.addMember key member) hms
      rw [hadd] at hmore hbuffer
      refine ⟨_, .member json.first (quotes_escape hkey) hs hmore, ?_⟩
      rw [addMembers, hadd, hbuffer, comma_eq]
      simp [quoted, text]

end

/-- **JSON output parses back to what was put in.** For every tree of nested objects with writable keys and
strings, the text that the builder makes is read as exactly that tree. -/
theorem parse_build (ms : List (Text × JsonTree)) (h : MembersWritable ms) :
    Json.parse (build ms) = some (.object (toMembers ms)) ∧
      ∀ ms', Json.parse (build ms) = some (.object (toMembers ms')) → ms' = ms := by
  obtain ⟨s, hs, hbuffer⟩ := addMembers_renders (startObject {}) h
  have htext : build ms = ascii '\x7b' :: (s ++ [ascii '\x7d']) := by
    rw [build, endObject, hbuffer]
    rfl
  have hparse : Json.parse (build ms) = some (.object (toMembers ms)) := by
    rw [htext]
    exact parse_of_renders (.object hs)
  refine ⟨hparse, fun ms' hparse' => ?_⟩
  rw [hparse, Option.some.injEq, Json.Value.object.injEq] at hparse'
  exact (toMembers_injective hparse').symm

/-- The hypothesis is met by a tree with an empty object in the middle and a quote in a key. -/
theorem parse_build_nested :
    Json.parse (build [(text "d", .object []), (text "a\"\n", .object [(text "b", .number (-7))]), ([], .string [])]) =
      some (.object [(text "d", .object []), (text "a\"\n", .object [(text "b", .number ⟨-7, 0⟩)]), ([], .string [])]) :=
  (parse_build [(text "d", .object []), (text "a\"\n", .object [(text "b", .number (-7))]), ([], .string [])]
    ⟨by decide +kernel, trivial, by decide +kernel, ⟨by decide +kernel, trivial, trivial⟩, by decide +kernel,
      show Writable [] by decide +kernel, trivial⟩).1

end JsonBuilder
end KnxdFcgi
