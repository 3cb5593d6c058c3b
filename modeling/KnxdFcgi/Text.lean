import Mathlib

/-! Text as the program has it, a list of bytes, with the conversions of numbers and of hexadecimal that
the handlers use. The decimal text of a number is digits that stand for it, without a leading zero. Every byte
vector is read back from the text that `hex_encode` makes of it, and that text has nothing but lower-case
digits. -/

namespace KnxdFcgi

abbrev Text := List UInt8

def ascii (c : Char) : UInt8 := UInt8.ofNat c.toNat

/-- A literal of the source; all of them are ASCII. -/
def text (literal : String) : Text := literal.toList.map ascii

/-- `std::to_string` of a number that is not negative. -/
def decimal (n : Nat) : Text := (Nat.toDigits 10 n).map ascii

/-- `std::to_string` of a signed number. -/
def decimalInt (z : Int) : Text := if z < 0 then text "-" ++ decimal z.natAbs else decimal z.natAbs

def isDigit (c : UInt8) : Bool := ascii '0' ≤ c ∧ c ≤ ascii '9'

/-- The number that a string of digits stands for. -/
def digitsValue (digits : Text) : Nat := digits.foldl (fun n c => n * 10 + (c - ascii '0').toNat) 0

/-- `std::from_chars` into an `int`, where it has to use up the whole text. -/
def parseInt (s : Text) : Option Int32 :=
  let (negative, digits) := match s with
    | c :: rest => if c = ascii '-' then (true, rest) else (false, s)
    | [] => (false, [])
  if digits = [] ∨ ¬digits.all isDigit then none
  else
    let value : Int := if negative then -digitsValue digits else digitsValue digits
    if -2 ^ 31 ≤ value ∧ value < 2 ^ 31 then some (Int32.ofInt value) else none

/-- The sign and the digits at the front of a text. -/
def leadingNumber : Text → Text
  | [] => []
  | c :: rest => if c = ascii '-' then c :: rest.takeWhile isDigit else (c :: rest).takeWhile isDigit

/-- `std::from_chars` into an `int`; what follows the number is left alone. -/
def fromChars (s : Text) : Option Int32 := parseInt (leadingNumber s)

/-- What stands before the last separator, and what stands after it. -/
theorem append_cons_inj {c : UInt8} {x x' y y' : Text} (hy : c ∉ y) (hy' : c ∉ y')
    (h : x ++ c :: y = x' ++ c :: y') : x = x' ∧ y = y' := by
  rcases List.append_eq_append_iff.mp h with ⟨z, rfl, hz⟩ | ⟨z, rfl, hz⟩
  · cases z with
    | nil => simpa using hz
    | cons d z =>
        rw [List.cons_append, List.cons.injEq] at hz
        exact absurd (hz.2 ▸ by simp) hy
  · cases z with
    | nil => simpa using hz.symm
    | cons d z =>
        rw [List.cons_append, List.cons.injEq] at hz
        exact absurd (hz.2 ▸ by simp) hy'

/-- The same for the first separator. -/
theorem append_cons_inj_first {c : UInt8} {x x' y y' : Text} (hx : c ∉ x) (hx' : c ∉ x')
    (h : x ++ c :: y = x' ++ c :: y') : x = x' ∧ y = y' := by
  have hreverse := congrArg List.reverse h
  simp only [List.reverse_append, List.reverse_cons, List.append_assoc, List.singleton_append] at hreverse
  obtain ⟨hy, hx⟩ := append_cons_inj (by simpa using hx) (by simpa using hx') hreverse
  exact ⟨List.reverse_injective hx, List.reverse_injective hy⟩

/-- The digit of a number below ten. -/
def digitChar (n : Nat) : UInt8 := ascii '0' + UInt8.ofNat n

theorem digitChar_spec : ∀ n < 10, isDigit (digitChar n) = true ∧ (digitChar n - ascii '0').toNat = n := by
  decide

theorem decimal_of_lt {n : Nat} (h : n < 10) : decimal n = [digitChar n] := by
  rw [decimal, Nat.toDigits_of_lt_base h]
  revert n
  decide

theorem decimal_of_le {n : Nat} (h : 10 ≤ n) : decimal n = decimal (n / 10) ++ [digitChar (n % 10)] := by
  rw [decimal, Nat.toDigits_of_base_le (by decide) h, List.map_append, decimal]
  congr 1
  have hlt := Nat.mod_lt n (show 0 < 10 by decide)
  generalize n % 10 = d at hlt
  revert d
  decide

theorem digitsValue_snoc (digits : Text) (c : UInt8) :
    digitsValue (digits ++ [c]) = digitsValue digits * 10 + (c - ascii '0').toNat := by
  rw [digitsValue, List.foldl_append]
  rfl

/-- A number without a sign, as it is written: digits, and no zero in front of others. -/
structure IsDecimal (n : Nat) (digits : Text) : Prop where
  ne_nil : digits ≠ []
  isDigit : ∀ c ∈ digits, isDigit c = true
  value : digitsValue digits = n
  leading : digits.head? = some (ascii '0') → digits = [ascii '0']

theorem isDecimal_decimal (n : Nat) : IsDecimal n (decimal n) := by
  induction n using Nat.strong_induction_on with
  | _ n ih =>
      by_cases hn : n < 10
      · obtain ⟨hdigit, hvalue⟩ := digitChar_spec n hn
        rw [decimal_of_lt hn]
        refine ⟨List.cons_ne_nil _ _, by simpa using hdigit, ?_, fun h => ?_⟩
        · simpa [digitsValue] using hvalue
        · rw [List.head?_cons, Option.some.injEq] at h
          rw [h]
      · have hle : 10 ≤ n := Nat.le_of_not_lt hn
        have hquot := ih (n / 10) (by omega)
        obtain ⟨hdigit, hvalue⟩ := digitChar_spec (n % 10) (by omega)
        rw [decimal_of_le hle]
        refine ⟨by simp, ?_, ?_, fun h => ?_⟩
        · intro c hc
          rcases List.mem_append.mp hc with hc | hc
          · exact hquot.isDigit c hc
          · rw [List.mem_singleton.mp hc]
            exact hdigit
        · rw [digitsValue_snoc, hquot.value, hvalue]
          omega
        · obtain ⟨c, rest, hcons⟩ := List.exists_cons_of_ne_nil hquot.ne_nil
          rw [hcons, List.cons_append, List.head?_cons, ← List.head?_cons (l := rest), ← hcons] at h
          have hzero := hquot.value
          rw [hquot.leading h] at hzero
          have hten : digitsValue [ascii '0'] = 0 := by decide
          omega

/-- The value of a hexadecimal digit. -/
def hexValue (c : UInt8) : Option UInt8 :=
  if ascii '0' ≤ c ∧ c ≤ ascii '9' then some (c - ascii '0')
  else if ascii 'a' ≤ c ∧ c ≤ ascii 'f' then some (c - ascii 'a' + 10)
  else if ascii 'A' ≤ c ∧ c ≤ ascii 'F' then some (c - ascii 'A' + 10)
  else none

def hexPairs : Text → Option (List UInt8)
  | [] => some []
  | [_] => none
  | hi :: lo :: rest =>
      match hexValue hi, hexValue lo, hexPairs rest with
      | some h, some l, some bytes => some ((h <<< 4 ||| l) :: bytes)
      | _, _, _ => none

/-- An odd length or a character that is no digit gives the empty vector. -/
def hexDecode (hex : Text) : List UInt8 := (hexPairs hex).getD []

def hexChar (nibble : UInt8) : UInt8 := (text "0123456789abcdef").getD nibble.toNat 0

def hexEncode (data : List UInt8) : Text := data.flatMap fun b : UInt8 => [hexChar (b >>> 4), hexChar (b &&& 0x0F)]

theorem hexEncode_cons (b : UInt8) (data : List UInt8) :
    hexEncode (b :: data) = hexChar (b >>> 4) :: hexChar (b &&& 0x0F) :: hexEncode data := rfl

theorem hexValue_hexChar (b : UInt8) :
    hexValue (hexChar (b >>> 4)) = some (b >>> 4) ∧ hexValue (hexChar (b &&& 0x0F)) = some (b &&& 0x0F) := by
  revert b
  decide +kernel

theorem nibbles_or (b : UInt8) : (b >>> 4) <<< 4 ||| (b &&& 0x0F) = b := by
  revert b
  decide +kernel

theorem hexPairs_hexEncode (data : List UInt8) : hexPairs (hexEncode data) = some data := by
  induction data with
  | nil => rfl
  | cons b data ih =>
      obtain ⟨hhi, hlo⟩ := hexValue_hexChar b
      simp only [hexEncode_cons, hexPairs, hhi, hlo, ih, nibbles_or]

theorem hexDecode_hexEncode (data : List UInt8) : hexDecode (hexEncode data) = data := by
  rw [hexDecode, hexPairs_hexEncode, Option.getD_some]

theorem mem_hexEncode {data : List UInt8} {c : UInt8} (h : c ∈ hexEncode data) :
    c ∈ text "0123456789abcdef" := by
  have hchars : ∀ b : UInt8, hexChar (b >>> 4) ∈ text "0123456789abcdef" ∧
      hexChar (b &&& 0x0F) ∈ text "0123456789abcdef" := by decide +kernel
  obtain ⟨b, -, hc⟩ := List.mem_flatMap.mp h
  rcases List.mem_pair.mp hc with rfl | rfl
  · exact (hchars b).1
  · exact (hchars b).2

end KnxdFcgi
