import KnxdFcgi.QueryString

/-! The round trip of a query string. A client may write a byte as itself, as an escape with digits of either
case or, if it is a space, as `+`; what it may not leave as it is are the bytes that structure the text.
Whatever it chooses, the parser finds the keys and values that were written, in their order. -/

namespace KnxdFcgi.QueryString

/-- The digit of a nibble in upper case; `hexChar` is the one in lower case. -/
def upperHexChar (nibble : UInt8) : UInt8 := (text "0123456789ABCDEF").getD nibble.toNat 0

def DigitOf (nibble c : UInt8) : Prop := c = hexChar nibble ∨ c = upperHexChar nibble

/-- The ways to write a byte where the bytes of `reserved` may not stand for themselves. -/
inductive EncodesByte (reserved : Text) : UInt8 → Text → Prop
  | plain {c : UInt8} (hc : c ∉ reserved) : EncodesByte reserved c [c]
  | space : EncodesByte reserved (ascii ' ') [ascii '+']
  | escape {c hi lo : UInt8} (hhi : DigitOf (c >>> 4) hi) (hlo : DigitOf (c &&& 0x0F) lo) :
      EncodesByte reserved c [ascii '%', hi, lo]

inductive Encodes (reserved : Text) : Text → Text → Prop
  | nil : Encodes reserved [] []
  | cons {c : UInt8} {s piece encoded : Text} (hc : EncodesByte reserved c piece)
      (hs : Encodes reserved s encoded) : Encodes reserved (c :: s) (piece ++ encoded)

/-- A key is written without `%`, `+`, `&` and `=`, a value without `%`, `+` and `&`. -/
def EncodesPair (p encoded : Text × Text) : Prop :=
  Encodes (text "%+&=") p.1 encoded.1 ∧ Encodes (text "%+&") p.2 encoded.2

theorem hexValue_of_digitOf {c hi lo : UInt8} (hhi : DigitOf (c >>> 4) hi) (hlo : DigitOf (c &&& 0x0F) lo) :
    hexValue hi = some (c >>> 4) ∧ hexValue lo = some (c &&& 0x0F) := by
  have hupper : ∀ b : UInt8, hexValue (upperHexChar (b >>> 4)) = some (b >>> 4) ∧
      hexValue (upperHexChar (b &&& 0x0F)) = some (b &&& 0x0F) := by decide +kernel
  constructor
  · rcases hhi with rfl | rfl
    · exact (hexValue_hexChar c).1
    · exact (hupper c).1
  · rcases hlo with rfl | rfl
    · exact (hexValue_hexChar c).2
    · exact (hupper c).2

section Decoding

variable {reserved : Text} (hpercent : ascii '%' ∈ reserved) (hplus : ascii '+' ∈ reserved)

include hpercent hplus

theorem EncodesByte.urlDecode_append {c : UInt8} {piece : Text} (h : EncodesByte reserved c piece)
    (rest : Text) : urlDecode (piece ++ rest) = c :: urlDecode rest := by
  cases h with
  | plain hc =>
      have hnotPercent : c ≠ ascii '%' := fun heq => hc (heq ▸ hpercent)
      have hnotPlus : c ≠ ascii '+' := fun heq => hc (heq ▸ hplus)
      rw [List.singleton_append, urlDecode_cons_of_ne hnotPercent, urlDecodeChar, if_neg hnotPlus]
  | space =>
      rw [List.singleton_append, urlDecode_cons_of_ne (by decide)]
      rfl
  | escape hhi hlo =>
      obtain ⟨hhi, hlo⟩ := hexValue_of_digitOf hhi hlo
      simp only [List.cons_append, List.nil_append, urlDecode, if_true, hhi, hlo, nibbles_or]

theorem Encodes.urlDecode {s encoded : Text} (h : Encodes reserved s encoded) : urlDecode encoded = s := by
  induction h with
  | nil => rfl
  | cons hc _ ih => rw [hc.urlDecode_append hpercent hplus, ih]

end Decoding

/-- What an escape and a `+` are made of. -/
def encodingChars : Text := text "%+0123456789abcdefABCDEF"

theorem DigitOf.mem {c d : UInt8} (h : DigitOf (c >>> 4) d ∨ DigitOf (c &&& 0x0F) d) : d ∈ encodingChars := by
  have hdigits : ∀ b : UInt8, hexChar (b >>> 4) ∈ encodingChars ∧ upperHexChar (b >>> 4) ∈ encodingChars ∧
      hexChar (b &&& 0x0F) ∈ encodingChars ∧ upperHexChar (b &&& 0x0F) ∈ encodingChars := by decide +kernel
  obtain ⟨h₁, h₂, h₃, h₄⟩ := hdigits c
  rcases h with (rfl | rfl) | (rfl | rfl)
  · exact h₁
  · exact h₂
  · exact h₃
  · exact h₄

/-- A reserved byte that is no part of an escape is not in the encoded text. -/
theorem Encodes.not_mem {reserved s encoded : Text} (h : Encodes reserved s encoded) {sep : UInt8}
    (hsep : sep ∈ reserved) (hplain : sep ∉ encodingChars) : sep ∉ encoded := by
  induction h with
  | nil => exact List.not_mem_nil
  | cons hc _ ih =>
      rw [List.mem_append, not_or]
      refine ⟨fun hmem => ?_, ih⟩
      cases hc with
      | plain hc =>
          rw [List.mem_singleton] at hmem
          exact hc (hmem ▸ hsep)
      | space =>
          rw [List.mem_singleton] at hmem
          exact hplain (hmem ▸ by decide)
      | escape hhi hlo =>
          simp only [List.mem_cons, List.not_mem_nil, or_false] at hmem
          rcases hmem with rfl | rfl | rfl
          · exact hplain (by decide)
          · exact hplain (DigitOf.mem (Or.inl hhi))
          · exact hplain (DigitOf.mem (Or.inr hlo))

theorem EncodesPair.separable {p encoded : Text × Text} (h : EncodesPair p encoded) : Separable encoded where
  key_no_eq := h.1.not_mem (by decide) (by decide)
  key_no_amp := h.1.not_mem (by decide) (by decide)
  value_no_amp := h.2.not_mem (by decide) (by decide)

theorem EncodesPair.urlDecode {p encoded : Text × Text} (h : EncodesPair p encoded) :
    (urlDecode encoded.1, urlDecode encoded.2) = p := by
  rw [h.1.urlDecode (by decide) (by decide), h.2.urlDecode (by decide) (by decide)]

/-- An encoded list of pairs is parsed into their insertions. -/
theorem parse_encoded {pairs encoded : List (Text × Text)} (hencoded : List.Forall₂ EncodesPair pairs encoded)
    (hlimit : pairs.length ≤ kMaxTotalPairs) : parse (joined encoded) = insertAll {} pairs := by
  have hpieces : (∀ p ∈ encoded, Separable p) ∧
      encoded.map (fun p => (urlDecode p.1, urlDecode p.2)) = pairs := by
    clear hlimit
    induction hencoded with
    | nil => exact ⟨fun _ h => absurd h List.not_mem_nil, rfl⟩
    | cons hp _ ih =>
        refine ⟨List.forall_mem_cons.mpr ⟨hp.separable, ih.1⟩, ?_⟩
        rw [List.map_cons, hp.urlDecode, ih.2]
  rw [parse_joined hpieces.1 (hencoded.length_eq ▸ hlimit), hpieces.2]

/-- **Query strings round-trip.** For every list of pairs within the limits and every way to encode it, the
values of a key come back in their order, the first of them is the one that is looked up, and the keys are
those of the list. -/
theorem parse_roundTrip (pairs encoded : List (Text × Text)) (hlimit : pairs.length ≤ kMaxTotalPairs)
    (hkeys : (pairs.map Prod.fst).toFinset.card ≤ kMaxQueryParams)
    (hvalues : ∀ key, (valuesOf pairs key).length ≤ kMaxValuesPerKey)
    (hencoded : List.Forall₂ EncodesPair pairs encoded) (key : Text) :
    (parse (joined encoded)).getAll key = valuesOf pairs key ∧
      (parse (joined encoded)).get key = (valuesOf pairs key).head? ∧
      ((parse (joined encoded)).has key = true ↔ key ∈ pairs.map Prod.fst) := by
  rw [parse_encoded hencoded hlimit, getAll, get, has, find_insertAll ⟨hkeys, hvalues⟩]
  by_cases hkey : key ∈ pairs.map Prod.fst
  · obtain ⟨value, values, heq⟩ := List.exists_cons_of_ne_nil (valuesOf_ne_nil.mpr hkey)
    simp [heq, hkey]
  · have hnone : valuesOf pairs key = [] := by
      by_contra hsome
      exact hkey (valuesOf_ne_nil.mp hsome)
    simp [hnone, hkey]

/-- The hypotheses are met by `a=1+2&=%3d&a=`: a key twice, and an empty key with the value `=`. -/
theorem parse_roundTrip_twice :
    (parse (joined [(text "a", text "1+2"), ([], text "%3d"), (text "a", [])])).getAll (text "a") =
      [text "1 2", []] := by
  have hplain : ∀ c ∈ text "12a", EncodesByte (text "%+&=") c [c] ∧ EncodesByte (text "%+&") c [c] := by
    intro c hc
    have hfree : ∀ c ∈ text "12a", c ∉ text "%+&=" ∧ c ∉ text "%+&" := by decide +kernel
    exact ⟨.plain (hfree c hc).1, .plain (hfree c hc).2⟩
  have ha : Encodes (text "%+&=") (text "a") (text "a") := .cons (hplain _ (by decide)).1 .nil
  have hspace : Encodes (text "%+&") (text "1 2") (text "1+2") :=
    .cons (hplain _ (by decide)).2 (.cons .space (.cons (hplain _ (by decide)).2 .nil))
  have heq : Encodes (text "%+&") (text "=") (text "%3d") :=
    .cons (.escape (Or.inl (by decide)) (Or.inl (by decide))) .nil
  have hfits : Fits [(text "a", text "1 2"), ([], text "="), (text "a", [])] := fits_of_length (by decide)
  exact (parse_roundTrip _ _ (by decide) hfits.keys hfits.values
    (.cons ⟨ha, hspace⟩ (.cons ⟨.nil, heq⟩ (.cons ⟨ha, .nil⟩ .nil))) (text "a")).1

end KnxdFcgi.QueryString
