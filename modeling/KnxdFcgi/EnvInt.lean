import KnxdFcgi.ReadHandler
import KnxdFcgi.Text

/-! The integers that `main` takes from the environment. `parse_env_int` reads a 64-bit number, compares it
with the lower bound, narrows it to an `int` and only then compares it with the upper bound. So a number from
`2^31` on is replaced by its low 32 bits before it is clamped; for every number the result is stated, and the
condition under which it is in its range and is the clamped number. -/

namespace KnxdFcgi
namespace EnvInt

/-- `std::isspace` of the C locale. -/
def isSpace (c : UInt8) : Bool := c = ascii ' ' ∨ (9 ≤ c ∧ c ≤ 13)

/-- Whether there is a minus sign, and what follows the sign. -/
def takeSign : Text → Bool × Text
  | c :: rest =>
      if c = ascii '-' then (true, rest) else if c = ascii '+' then (false, rest) else (false, c :: rest)
  | [] => (false, [])

/-- What does not fit a `long` of 64 bits becomes its nearest value. -/
def saturate (z : Int) : Int := max (-2 ^ 63) (min z (2 ^ 63 - 1))

def signed (negative : Bool) (digits : Text) : Int :=
  if negative then -digitsValue digits else digitsValue digits

/-- `std::strtol` with base 10: the number and the text at `end`; `none` where `end` is the beginning. -/
def strtol (s : Text) : Option (Int × Text) :=
  let (negative, s) := takeSign (s.dropWhile isSpace)
  let digits := s.takeWhile isDigit
  if digits = [] then none
  else some (saturate (signed negative digits), s.dropWhile isDigit)

/-- `parse_env_int`, with the answer of `getenv`. -/
def parseEnvInt (val : Option Text) (defaultVal minVal maxVal : Int32) : Int32 :=
  match val with
  | none => defaultVal
  | some val =>
      if val = [] then defaultVal
      else
        match strtol val with
        | none => defaultVal
        | some (raw, rest) =>
            if rest ≠ [] ∨ raw < minVal.toInt then defaultVal
            else
              let result := Int32.ofInt raw
              if maxVal < result then maxVal else result

def kMaxLongpollTimeoutSec : Int32 := 3600

/-- `longpoll_timeout` of `main`. -/
def longpollTimeout (val : Option Text) : Int32 := parseEnvInt val 300 1 kMaxLongpollTimeoutSec

/-- `num_workers` of `main`. -/
def numWorkers (val : Option Text) : Int32 := parseEnvInt val 20 1 256

/-- The text of a decimal integer: a sign, which may be missing, and digits. -/
def IsInteger (s : Text) (z : Int) : Prop :=
  ∃ digits, digits ≠ [] ∧ (∀ c ∈ digits, isDigit c = true) ∧
    ((s = digits ∨ s = ascii '+' :: digits) ∧ z = signed false digits ∨
      s = ascii '-' :: digits ∧ z = signed true digits)

/-- A decimal integer, with white space in front of it as one likes. -/
def Reads (s : Text) (z : Int) : Prop :=
  ∃ spaces number, s = spaces ++ number ∧ (∀ c ∈ spaces, isSpace c = true) ∧ IsInteger number z

theorem digit_spec {c : UInt8} (h : isDigit c = true) :
    isSpace c = false ∧ c ≠ ascii '-' ∧ c ≠ ascii '+' := by
  revert c
  decide +kernel

/-- The sign and the digits that follow it. -/
theorem IsInteger.takeSign {s : Text} {z : Int} (h : IsInteger s z) :
    ∃ negative digits, takeSign s = (negative, digits) ∧ digits ≠ [] ∧ (∀ c ∈ digits, isDigit c = true) ∧
      z = signed negative digits := by
  obtain ⟨digits, hne, hdigits, ⟨rfl | rfl, hz⟩ | ⟨rfl, hz⟩⟩ := h
  · obtain ⟨c, rest, rfl⟩ := List.exists_cons_of_ne_nil hne
    obtain ⟨-, hminus, hplus⟩ := digit_spec (hdigits c List.mem_cons_self)
    exact ⟨false, c :: rest, by rw [EnvInt.takeSign, if_neg hminus, if_neg hplus], hne, hdigits, hz⟩
  · exact ⟨false, digits, rfl, hne, hdigits, hz⟩
  · exact ⟨true, digits, rfl, hne, hdigits, hz⟩

theorem IsInteger.dropWhile_isSpace {s : Text} {z : Int} (h : IsInteger s z) : s.dropWhile isSpace = s := by
  obtain ⟨digits, hne, hdigits, ⟨rfl | rfl, -⟩ | ⟨rfl, -⟩⟩ := h
  · obtain ⟨c, rest, rfl⟩ := List.exists_cons_of_ne_nil hne
    rw [List.dropWhile_cons, (digit_spec (hdigits c List.mem_cons_self)).1]
    rfl
  · rfl
  · rfl

theorem strtol_of_reads {s : Text} {z : Int} (h : Reads s z) : strtol s = some (saturate z, []) := by
  obtain ⟨spaces, number, rfl, hspaces, hnumber⟩ := h
  obtain ⟨negative, digits, hsign, hne, hdigits, rfl⟩ := hnumber.takeSign
  simp only [strtol, List.dropWhile_append_of_pos hspaces, hnumber.dropWhile_isSpace, hsign,
    List.takeWhile_eq_self_iff.mpr hdigits, List.dropWhile_eq_nil_iff.mpr hdigits, if_neg hne]

theorem isInteger_of_takeSign {s digits : Text} {negative : Bool} (hsign : takeSign s = (negative, digits))
    (hne : digits ≠ []) (hdigits : ∀ c ∈ digits, isDigit c = true) :
    IsInteger s (signed negative digits) := by
  cases s with
  | nil =>
      cases hsign
      exact absurd rfl hne
  | cons c rest =>
      rw [takeSign] at hsign
      split_ifs at hsign with hminus hplus
      · cases hsign
        exact ⟨digits, hne, hdigits, Or.inr ⟨by rw [hminus], rfl⟩⟩
      · cases hsign
        exact ⟨digits, hne, hdigits, Or.inl ⟨Or.inr (by rw [hplus]), rfl⟩⟩
      · cases hsign
        exact ⟨c :: rest, hne, hdigits, Or.inl ⟨Or.inl rfl, rfl⟩⟩

/-- Nothing else uses up the whole text. -/
theorem reads_of_strtol {s : Text} {raw : Int} (h : strtol s = some (raw, [])) :
    ∃ z, Reads s z ∧ raw = saturate z := by
  cases hsign : takeSign (s.dropWhile isSpace) with
  | mk negative digits =>
      simp only [strtol, hsign] at h
      split_ifs at h with hnone
      obtain ⟨rfl, hall⟩ := Prod.mk.inj (Option.some.inj h)
      have hdigits : ∀ c ∈ digits, isDigit c = true := List.dropWhile_eq_nil_iff.mp hall
      rw [List.takeWhile_eq_self_iff.mpr hdigits] at hnone ⊢
      refine ⟨_, ⟨s.takeWhile isSpace, s.dropWhile isSpace, List.takeWhile_append_dropWhile.symm, ?_,
        isInteger_of_takeSign hsign hnone hdigits⟩, rfl⟩
      intro c hc
      exact List.mem_takeWhile_imp hc

/-- What an `int` holds after a number of any size has been read and assigned to it. -/
def narrowed (z : Int) : Int := (saturate z).bmod (2 ^ 32)

theorem toInt_ofInt_saturate (z : Int) : (Int32.ofInt (saturate z)).toInt = narrowed z := Int32.toInt_ofInt

theorem narrowed_of_fits {z : Int} (hlow : -2 ^ 31 ≤ z) (hhigh : z < 2 ^ 31) : narrowed z = z := by
  have hsame : saturate z = z := by
    unfold saturate
    omega
  rw [← toInt_ofInt_saturate, hsame, Int32.toInt_ofInt_of_le hlow hhigh]

section Bounds

variable {s : Text} {z : Int} (defaultVal minVal maxVal : Int32)

/-- The result for a number: the lower bound is compared with the number, the upper one with what is left
of it in an `int`. -/
theorem toInt_parseEnvInt (h : Reads s z) : (parseEnvInt (some s) defaultVal minVal maxVal).toInt =
    if z < minVal.toInt then defaultVal.toInt else min maxVal.toInt (narrowed z) := by
  have hmin := minVal.le_toInt
  have hmin' := minVal.toInt_lt
  have hne : s ≠ [] := by
    rintro rfl
    cases strtol_of_reads h
  have hbelow : saturate z < minVal.toInt ↔ z < minVal.toInt := by
    unfold saturate
    omega
  simp only [parseEnvInt, if_neg hne, strtol_of_reads h, ne_eq, not_true_eq_false, false_or, hbelow]
  split_ifs with hlow hhigh
  · rfl
  · rw [Int32.lt_iff_toInt_lt, toInt_ofInt_saturate] at hhigh
    omega
  · rw [Int32.lt_iff_toInt_lt, toInt_ofInt_saturate] at hhigh
    rw [toInt_ofInt_saturate]
    omega

theorem parseEnvInt_of_not_reads {val : Option Text} (h : ∀ s z, val = some s → ¬Reads s z) :
    parseEnvInt val defaultVal minVal maxVal = defaultVal := by
  cases val with
  | none => rfl
  | some s =>
      simp only [parseEnvInt]
      split_ifs
      · rfl
      · cases hread : strtol s with
        | none => rfl
        | some result =>
            obtain ⟨raw, rest⟩ := result
            refine if_pos (Or.inl fun hrest => ?_)
            subst hrest
            obtain ⟨z, hz, -⟩ := reads_of_strtol hread
            exact h s z rfl hz

theorem parseEnvInt_mem_iff (val : Option Text) (hdefault : minVal.toInt ≤ defaultVal.toInt)
    (hdefault' : defaultVal.toInt ≤ maxVal.toInt) :
    minVal.toInt ≤ (parseEnvInt val defaultVal minVal maxVal).toInt ∧
        (parseEnvInt val defaultVal minVal maxVal).toInt ≤ maxVal.toInt ↔
      ∀ s z, val = some s → Reads s z → z < 2 ^ 31 ∨ minVal.toInt ≤ narrowed z := by
  have hmin := minVal.le_toInt
  by_cases hreads : ∃ s z, val = some s ∧ Reads s z
  · constructor
    · rintro hrange s z rfl hz
      have hmax := maxVal.toInt_lt
      rw [toInt_parseEnvInt defaultVal minVal maxVal hz] at hrange
      split_ifs at hrange <;> omega
    · intro hcond
      obtain ⟨s, z, rfl, hz⟩ := hreads
      have hcond := hcond s z rfl hz
      have hfits : minVal.toInt ≤ z → z < 2 ^ 31 → narrowed z = z := fun hlow => narrowed_of_fits (by omega)
      rw [toInt_parseEnvInt defaultVal minVal maxVal hz]
      split_ifs <;> omega
  · have hnone : ∀ s z, val = some s → ¬Reads s z := fun s z hs hz => hreads ⟨s, z, hs, hz⟩
    rw [parseEnvInt_of_not_reads defaultVal minVal maxVal hnone]
    exact iff_of_true ⟨hdefault, hdefault'⟩ fun s z hs hz => absurd hz (hnone s z hs)

/-- **A number from `2^31` on is clamped by its low 32 bits.** The result is in its range exactly if those
are not below the lower bound, and is the clamped number exactly if they are not below the upper one; a
smaller number, and a text that is no number, is treated as it should be. -/
theorem parseEnvInt_clamps_iff (val : Option Text) (hdefault : minVal.toInt ≤ defaultVal.toInt)
    (hdefault' : defaultVal.toInt ≤ maxVal.toInt) :
    (minVal.toInt ≤ (parseEnvInt val defaultVal minVal maxVal).toInt ∧
        (parseEnvInt val defaultVal minVal maxVal).toInt ≤ maxVal.toInt ↔
      ∀ s z, val = some s → Reads s z → z < 2 ^ 31 ∨ minVal.toInt ≤ narrowed z) ∧
    ∀ s z, val = some s → Reads s z → minVal.toInt ≤ z →
      ((parseEnvInt val defaultVal minVal maxVal).toInt = min z maxVal.toInt ↔
        z < 2 ^ 31 ∨ maxVal.toInt ≤ narrowed z) := by
  refine ⟨parseEnvInt_mem_iff defaultVal minVal maxVal val hdefault hdefault', ?_⟩
  rintro s z rfl hz hlow
  have hmin := minVal.le_toInt
  have hmax := maxVal.toInt_lt
  have hfits : z < 2 ^ 31 → narrowed z = z := narrowed_of_fits (by omega)
  rw [toInt_parseEnvInt defaultVal minVal maxVal hz, if_neg (by omega)]
  omega

end Bounds

/-- A timeout of two hours is cut to one. -/
theorem longpollTimeout_two_hours : longpollTimeout (some (text "7200")) = kMaxLongpollTimeoutSec := by
  have hreads : Reads (text "7200") 7200 :=
    ⟨[], text "7200", rfl, by simp, text "7200", by decide, by decide +kernel, Or.inl ⟨Or.inl rfl, by decide⟩⟩
  have hclamps := parseEnvInt_clamps_iff 300 1 kMaxLongpollTimeoutSec (some (text "7200")) (by decide) (by decide)
  have hmin : min 7200 kMaxLongpollTimeoutSec.toInt = kMaxLongpollTimeoutSec.toInt := by decide
  have hresult := (hclamps.2 _ _ rfl hreads (by decide)).mpr (Or.inl (by norm_num))
  exact Int32.toInt_inj.mp (hresult.trans hmin)

/-- The largest number of 32 bits comes out as -1, below the lower bound of both settings. -/
theorem settings_negative : numWorkers (some (text "4294967295")) = -1 ∧
    longpollTimeout (some (text "4294967295")) = -1 := by
  decide

/-- The configuration of the read handler, for every text that is no number of `2^31` or more. -/
theorem exists_readConfig {val : Option Text} (h : ∀ s z, val = some s → Reads s z → z < 2 ^ 31) :
    ∃ config : ReadConfig, config.longpollTimeoutSec = longpollTimeout val := by
  have hrange := (parseEnvInt_mem_iff 300 1 kMaxLongpollTimeoutSec val (by decide) (by decide)).mpr
    fun s z hs hz => Or.inl (h s z hs hz)
  exact ⟨⟨longpollTimeout val, hrange.1, hrange.2⟩, rfl⟩

end EnvInt
end KnxdFcgi
