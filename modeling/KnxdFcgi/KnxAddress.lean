import KnxdFcgi.Text

/-! Group addresses: the three levels of `X/Y/Z`, their 16 bits on the bus, and the form with a namespace
that CometVisu uses. The scanner accepts exactly the texts of its grammar. The three levels, the 16 bits and
the text determine each other, so that the key under which a value is delivered names one group address,
however it was spelled. -/

namespace KnxdFcgi

/-- The levels fit the bits they have on the bus. -/
structure KnxGroupAddress where
  main : UInt8
  middle : UInt8
  sub : UInt8
  main_lt : main.toNat < 32
  middle_lt : middle.toNat < 8
  deriving DecidableEq

namespace KnxGroupAddress

/-- The digits of one level, from the value of those before; `none` once the value is too large. -/
def parseDigits (maxVal : Nat) :
    {val : Nat // val ≤ maxVal} → Text → Option ({val : Nat // val ≤ maxVal} × Text)
  | val, [] => some (val, [])
  | val, c :: rest =>
      if isDigit c then
        if h : val.1 * 10 + (c - ascii '0').toNat ≤ maxVal then parseDigits maxVal ⟨_, h⟩ rest else none
      else some (val, c :: rest)

/-- `parse_part`: one level and what follows it. -/
def parsePart (maxVal : Nat) (s : Text) : Option ({val : Nat // val ≤ maxVal} × Text) :=
  match s with
  | c :: _ => if isDigit c then parseDigits maxVal ⟨0, Nat.zero_le _⟩ s else none
  | [] => none

def skipSlash : Text → Option Text
  | c :: rest => if c = ascii '/' then some rest else none
  | [] => none

def fromString (s : Text) : Option KnxGroupAddress := do
  let (main, s) ← parsePart 31 s
  let s ← skipSlash s
  let (middle, s) ← parsePart 7 s
  let s ← skipSlash s
  let (sub, s) ← parsePart 255 s
  if s ≠ [] then none
  else
    some
      { main := UInt8.ofNat main
        middle := UInt8.ofNat middle
        sub := UInt8.ofNat sub
        main_lt := by
          have := main.2
          rw [UInt8.toNat_ofNat']
          omega
        middle_lt := by
          have := middle.2
          rw [UInt8.toNat_ofNat']
          omega }

def toString (g : KnxGroupAddress) : Text :=
  decimal g.main.toNat ++ text "/" ++ decimal g.middle.toNat ++ text "/" ++ decimal g.sub.toNat

def toEibaddr (g : KnxGroupAddress) : UInt16 :=
  (g.main.toUInt16 <<< 11) ||| (g.middle.toUInt16 <<< 8) ||| g.sub.toUInt16

/-- Shifting and masking take out a field. -/
theorem toNat_bits (addr : UInt16) {shift mask : UInt16} {width : Nat} (hshift : shift.toNat < 16)
    (hmask : mask.toNat = 2 ^ width - 1) (hwidth : width ≤ 8) :
    ((addr >>> shift) &&& mask).toUInt8.toNat = addr.toNat / 2 ^ shift.toNat % 2 ^ width := by
  have hbyte : addr.toNat / 2 ^ shift.toNat % 2 ^ width < 2 ^ 8 :=
    (Nat.mod_lt _ (Nat.two_pow_pos width)).trans_le (Nat.pow_le_pow_right (by decide) hwidth)
  rw [UInt16.toNat_toUInt8, UInt16.toNat_and, UInt16.toNat_shiftRight, hmask,
    Nat.and_two_pow_sub_one_eq_mod, Nat.mod_eq_of_lt hshift, Nat.shiftRight_eq_div_pow,
    Nat.mod_eq_of_lt hbyte]

theorem toNat_mainBits (addr : UInt16) : ((addr >>> 11) &&& 0x1F).toUInt8.toNat = addr.toNat / 2048 := by
  have hlt := addr.toNat_lt
  have hbits : ((addr >>> 11) &&& 0x1F).toUInt8.toNat = addr.toNat / 2048 % 32 :=
    toNat_bits addr (by decide) (show _ = 2 ^ 5 - 1 from rfl) (by decide)
  omega

theorem toNat_middleBits (addr : UInt16) : ((addr >>> 8) &&& 0x07).toUInt8.toNat = addr.toNat / 256 % 8 :=
  toNat_bits addr (by decide) (show _ = 2 ^ 3 - 1 from rfl) (by decide)

theorem toNat_subBits (addr : UInt16) : (addr &&& 0xFF).toUInt8.toNat = addr.toNat % 256 := by
  have hbits := toNat_bits addr (show (0 : UInt16).toNat < 16 by decide)
    (show (0xFF : UInt16).toNat = 2 ^ 8 - 1 from rfl) (by decide)
  simpa using hbits

def fromEibaddr (addr : UInt16) : KnxGroupAddress where
  main := ((addr >>> 11) &&& 0x1F).toUInt8
  middle := ((addr >>> 8) &&& 0x07).toUInt8
  sub := (addr &&& 0xFF).toUInt8
  main_lt := by
    have hlt := addr.toNat_lt
    rw [toNat_mainBits]
    omega
  middle_lt := by
    rw [toNat_middleBits]
    omega

theorem toNat_toEibaddr (g : KnxGroupAddress) :
    g.toEibaddr.toNat = g.main.toNat * 2048 + g.middle.toNat * 256 + g.sub.toNat := by
  have hmain := g.main_lt
  have hmiddle := g.middle_lt
  have hsub := g.sub.toNat_lt
  have hshiftMain : (g.main.toUInt16 <<< 11).toNat = g.main.toNat <<< 11 := by
    rw [UInt16.toNat_shiftLeft]
    simp [Nat.shiftLeft_eq]
    omega
  have hshiftMiddle : (g.middle.toUInt16 <<< 8).toNat = g.middle.toNat <<< 8 := by
    rw [UInt16.toNat_shiftLeft]
    simp [Nat.shiftLeft_eq]
    omega
  rw [toEibaddr, UInt16.toNat_or, UInt16.toNat_or, hshiftMain, hshiftMiddle, UInt8.toNat_toUInt16,
    Nat.or_assoc, ← Nat.shiftLeft_add_eq_or_of_lt hsub,
    ← Nat.shiftLeft_add_eq_or_of_lt (by rw [Nat.shiftLeft_eq]; omega), Nat.shiftLeft_eq, Nat.shiftLeft_eq]
  omega

theorem eq_of_levels {g g' : KnxGroupAddress} (hmain : g.main.toNat = g'.main.toNat)
    (hmiddle : g.middle.toNat = g'.middle.toNat) (hsub : g.sub.toNat = g'.sub.toNat) : g = g' := by
  obtain ⟨main, middle, sub, _, _⟩ := g
  obtain ⟨main', middle', sub', _, _⟩ := g'
  obtain rfl := UInt8.toNat_inj.mp hmain
  obtain rfl := UInt8.toNat_inj.mp hmiddle
  obtain rfl := UInt8.toNat_inj.mp hsub
  rfl

theorem fromEibaddr_toEibaddr (g : KnxGroupAddress) : fromEibaddr g.toEibaddr = g := by
  have hmain := g.main_lt
  have hmiddle := g.middle_lt
  have hsub := g.sub.toNat_lt
  have hbits := g.toNat_toEibaddr
  apply eq_of_levels
  · rw [fromEibaddr, toNat_mainBits]
    omega
  · rw [fromEibaddr, toNat_middleBits]
    omega
  · rw [fromEibaddr, toNat_subBits]
    omega

theorem toEibaddr_fromEibaddr (addr : UInt16) : (fromEibaddr addr).toEibaddr = addr := by
  have hlt := addr.toNat_lt
  apply UInt16.toNat_inj.mp
  rw [toNat_toEibaddr]
  change ((addr >>> 11) &&& 0x1F).toUInt8.toNat * 2048 + ((addr >>> 8) &&& 0x07).toUInt8.toNat * 256 +
    (addr &&& 0xFF).toUInt8.toNat = _
  rw [toNat_mainBits, toNat_middleBits, toNat_subBits]
  omega

/-! ### The text of an address -/

/-- One level as it may be written: digits, with zeros in front of them as one likes. -/
structure IsLevel (maxVal : Nat) (digits : Text) : Prop where
  ne_nil : digits ≠ []
  isDigit : ∀ c ∈ digits, isDigit c = true
  value_le : digitsValue digits ≤ maxVal

/-- What follows the digits of a level. -/
def NoDigitHead (rest : Text) : Prop := ∀ c s, rest = c :: s → isDigit c = false

theorem noDigitHead_nil : NoDigitHead [] := by
  intro c s h
  cases h

theorem noDigitHead_slash (s : Text) : NoDigitHead (ascii '/' :: s) := by
  intro c s' h
  cases h
  decide

/-- The value of the digits does not fall below what it began with. -/
theorem le_foldl_digits (digits : Text) (n : Nat) :
    n ≤ digits.foldl (fun n c => n * 10 + (c - ascii '0').toNat) n := by
  induction digits generalizing n with
  | nil => exact le_rfl
  | cons c digits ih =>
      have hstep := ih (n * 10 + (c - ascii '0').toNat)
      rw [List.foldl_cons]
      omega

theorem parseDigits_append {maxVal : Nat} (val : {val : Nat // val ≤ maxVal}) {digits rest : Text}
    (hdigits : ∀ c ∈ digits, isDigit c = true) (hrest : NoDigitHead rest)
    (hvalue : digits.foldl (fun n c => n * 10 + (c - ascii '0').toNat) val.1 ≤ maxVal) :
    parseDigits maxVal val (digits ++ rest) = some (⟨_, hvalue⟩, rest) := by
  induction digits generalizing val with
  | nil =>
      cases rest with
      | nil => rfl
      | cons c s => simp [parseDigits, hrest c s rfl]
  | cons c digits ih =>
      have hstep : val.1 * 10 + (c - ascii '0').toNat ≤ maxVal := (le_foldl_digits digits _).trans hvalue
      rw [List.cons_append, parseDigits, if_pos (hdigits c List.mem_cons_self), dif_pos hstep]
      exact ih ⟨_, hstep⟩ (fun c' hc' => hdigits c' (List.mem_cons_of_mem c hc')) hvalue

theorem parsePart_level {maxVal : Nat} {digits rest : Text} (hlevel : IsLevel maxVal digits)
    (hrest : NoDigitHead rest) :
    parsePart maxVal (digits ++ rest) = some (⟨digitsValue digits, hlevel.value_le⟩, rest) := by
  obtain ⟨c, more, hcons⟩ := List.exists_cons_of_ne_nil hlevel.ne_nil
  have hc : isDigit c = true := hlevel.isDigit c (hcons ▸ List.mem_cons_self)
  have hpart : parsePart maxVal (digits ++ rest) = parseDigits maxVal ⟨0, Nat.zero_le _⟩ (digits ++ rest) := by
    rw [hcons, List.cons_append, parsePart, if_pos hc]
  rw [hpart]
  exact parseDigits_append ⟨0, Nat.zero_le maxVal⟩ hlevel.isDigit hrest hlevel.value_le

/-- The digits that the loop has gone through, and their value. -/
theorem parseDigits_some {maxVal : Nat} {val val' : {val : Nat // val ≤ maxVal}} {s rest : Text}
    (h : parseDigits maxVal val s = some (val', rest)) :
    ∃ digits, s = digits ++ rest ∧ (∀ c ∈ digits, isDigit c = true) ∧
      digits.foldl (fun n c => n * 10 + (c - ascii '0').toNat) val.1 = val'.1 := by
  induction s generalizing val with
  | nil =>
      cases h
      exact ⟨[], rfl, by simp, rfl⟩
  | cons c s ih =>
      rw [parseDigits] at h
      split_ifs at h with hc hle
      · obtain ⟨digits, rfl, hdigits, hvalue⟩ := ih h
        exact ⟨c :: digits, rfl, List.forall_mem_cons.mpr ⟨hc, hdigits⟩, hvalue⟩
      · cases h
        exact ⟨[], rfl, by simp, rfl⟩

theorem parsePart_some {maxVal : Nat} {val : {val : Nat // val ≤ maxVal}} {s rest : Text}
    (h : parsePart maxVal s = some (val, rest)) :
    ∃ digits, s = digits ++ rest ∧ IsLevel maxVal digits := by
  cases s with
  | nil => cases h
  | cons c s =>
      rw [parsePart] at h
      split_ifs at h with hc
      rw [parseDigits, if_pos hc] at h
      split_ifs at h with hle
      obtain ⟨digits, rfl, hdigits, hvalue⟩ := parseDigits_some h
      have hval : digitsValue (c :: digits) = val.1 := hvalue
      exact ⟨c :: digits, rfl,
        List.cons_ne_nil _ _, List.forall_mem_cons.mpr ⟨hc, hdigits⟩, hval.trans_le val.2⟩

theorem skipSlash_eq_some_iff {s rest : Text} : skipSlash s = some rest ↔ s = ascii '/' :: rest := by
  cases s with
  | nil => simp [skipSlash]
  | cons c s =>
      rw [skipSlash]
      split_ifs with hc <;> simp [hc]

/-- The three levels with the slashes between them. -/
def spelled (main middle sub : Text) : Text := main ++ ascii '/' :: (middle ++ ascii '/' :: sub)

/-- The address of three levels. -/
theorem fromString_spelled {main middle sub : Text} (hmain : IsLevel 31 main) (hmiddle : IsLevel 7 middle)
    (hsub : IsLevel 255 sub) : ∃ g, fromString (spelled main middle sub) = some g ∧
      digitsValue main = g.main.toNat ∧ digitsValue middle = g.middle.toNat ∧
      digitsValue sub = g.sub.toNat := by
  have hskip : ∀ s : Text, skipSlash (ascii '/' :: s) = some s := fun s => skipSlash_eq_some_iff.mpr rfl
  have hlast := parsePart_level hsub noDigitHead_nil
  rw [List.append_nil] at hlast
  have hbyte : ∀ {n m : Nat}, n ≤ m → m < 256 → n = (UInt8.ofNat n).toNat := by
    intro n m hn hm
    rw [UInt8.toNat_ofNat', Nat.mod_eq_of_lt (by omega)]
  simp only [fromString, spelled, Option.bind_eq_bind, Option.bind_some, hskip, hlast,
    parsePart_level hmain (noDigitHead_slash _), parsePart_level hmiddle (noDigitHead_slash _)]
  exact ⟨_, rfl, hbyte hmain.value_le (by decide), hbyte hmiddle.value_le (by decide),
    hbyte hsub.value_le (by decide)⟩

theorem spelled_of_fromString {s : Text} {g : KnxGroupAddress} (h : fromString s = some g) :
    ∃ main middle sub, s = spelled main middle sub ∧ IsLevel 31 main ∧ IsLevel 7 middle ∧ IsLevel 255 sub := by
  simp only [fromString, Option.bind_eq_bind, Option.bind_eq_some_iff, Prod.exists, skipSlash_eq_some_iff] at h
  obtain ⟨_, _, hpart, _, rfl, _, _, hpart', _, rfl, _, rest, hpart'', hend⟩ := h
  obtain ⟨main, rfl, hmain⟩ := parsePart_some hpart
  obtain ⟨middle, rfl, hmiddle⟩ := parsePart_some hpart'
  obtain ⟨sub, rfl, hsub⟩ := parsePart_some hpart''
  split_ifs at hend with hrest
  rw [not_not.mp hrest, List.append_nil]
  exact ⟨main, middle, sub, rfl, hmain, hmiddle, hsub⟩

/-- What the scanner reads, from the text alone. -/
theorem fromString_eq_some_iff {s : Text} {g : KnxGroupAddress} : fromString s = some g ↔
    ∃ main middle sub, s = spelled main middle sub ∧ IsLevel 31 main ∧ IsLevel 7 middle ∧ IsLevel 255 sub ∧
      digitsValue main = g.main.toNat ∧ digitsValue middle = g.middle.toNat ∧ digitsValue sub = g.sub.toNat := by
  constructor
  · intro h
    obtain ⟨main, middle, sub, rfl, hmain, hmiddle, hsub⟩ := spelled_of_fromString h
    obtain ⟨g', hg', hvalues⟩ := fromString_spelled hmain hmiddle hsub
    obtain rfl := Option.some.inj (hg'.symm.trans h)
    exact ⟨main, middle, sub, rfl, hmain, hmiddle, hsub, hvalues⟩
  · rintro ⟨main, middle, sub, rfl, hmain, hmiddle, hsub, hv, hv', hv''⟩
    obtain ⟨g', hg', hw, hw', hw''⟩ := fromString_spelled hmain hmiddle hsub
    rw [hg', eq_of_levels (hw.symm.trans hv) (hw'.symm.trans hv') (hw''.symm.trans hv'')]

theorem isLevel_decimal {n maxVal : Nat} (hn : n ≤ maxVal) : IsLevel maxVal (decimal n) :=
  have hdecimal := isDecimal_decimal n
  ⟨hdecimal.ne_nil, hdecimal.isDigit, hdecimal.value.trans_le hn⟩

theorem toString_eq_spelled (g : KnxGroupAddress) :
    g.toString = spelled (decimal g.main.toNat) (decimal g.middle.toNat) (decimal g.sub.toNat) := by
  simp only [toString, spelled, List.append_assoc]
  rfl

/-- **Every address is read back from its text.** -/
theorem fromString_toString (g : KnxGroupAddress) : fromString g.toString = some g :=
  fromString_eq_some_iff.mpr ⟨_, _, _, g.toString_eq_spelled,
    isLevel_decimal (Nat.le_of_lt_succ g.main_lt), isLevel_decimal (Nat.le_of_lt_succ g.middle_lt),
    isLevel_decimal (Nat.le_of_lt_succ g.sub.toNat_lt),
    (isDecimal_decimal _).value, (isDecimal_decimal _).value, (isDecimal_decimal _).value⟩

theorem colon_not_mem_toString (g : KnxGroupAddress) : ascii ':' ∉ g.toString := by
  have hdigits : ∀ n, ascii ':' ∉ decimal n := by
    intro n hmem
    have := (isDecimal_decimal n).isDigit _ hmem
    revert this
    decide
  simp only [toString, List.mem_append, not_or]
  exact ⟨⟨⟨⟨hdigits _, by decide⟩, hdigits _⟩, by decide⟩, hdigits _⟩

/-- A result of `int` arithmetic; outside its range it is undefined. -/
def intResult (z : Int) : Option Int := if -2 ^ 31 ≤ z ∧ z < 2 ^ 31 then some z else none

/-- The loop of `parse_part` over the `int` that the source has; the outer `none` is an overflow. -/
def parseDigitsInt (maxVal : Int) : Int → Text → Option (Option (Int × Text))
  | val, [] => some (some (val, []))
  | val, c :: rest =>
      if isDigit c then do
        let tens ← intResult (val * 10)
        let val ← intResult (tens + (c - ascii '0').toNat)
        if maxVal < val then some none else parseDigitsInt maxVal val rest
      else some (some (val, c :: rest))

theorem intResult_natCast {n : Nat} (hn : n < 2 ^ 31) : intResult n = some (n : Int) :=
  if_pos ⟨by omega, by exact_mod_cast hn⟩

/-- The loop stops as soon as the value is too large, so that it never comes near an overflow. -/
theorem parseDigitsInt_eq {maxVal : Nat} (hmax : maxVal < 2 ^ 24) (val : {val : Nat // val ≤ maxVal}) (s : Text) :
    parseDigitsInt maxVal val.1 s = some ((parseDigits maxVal val s).map fun r => ((r.1.1 : Int), r.2)) := by
  induction s generalizing val with
  | nil => rfl
  | cons c s ih =>
      have hval := val.2
      have hbyte := (c - ascii '0').toNat_lt
      have htens : intResult ((val.1 : Int) * 10) = some ((val.1 * 10 : Nat) : Int) :=
        intResult_natCast (n := val.1 * 10) (by omega)
      have hsum : intResult (((val.1 * 10 : Nat) : Int) + ((c - ascii '0').toNat : Int)) =
          some ((val.1 * 10 + (c - ascii '0').toNat : Nat) : Int) :=
        intResult_natCast (n := val.1 * 10 + (c - ascii '0').toNat) (by omega)
      rw [parseDigitsInt, parseDigits]
      by_cases hc : isDigit c = true
      · rw [if_pos hc, if_pos hc, htens, Option.bind_eq_bind, Option.bind_some, hsum, Option.bind_some]
        by_cases hle : val.1 * 10 + (c - ascii '0').toNat ≤ maxVal
        · rw [if_neg (by omega), dif_pos hle]
          exact ih ⟨_, hle⟩
        · rw [if_pos (by omega), dif_neg hle]
          rfl
      · rw [if_neg hc, if_neg hc]
        rfl

/-- **The scanner accepts exactly three levels with single slashes between them**, as large as they may be
and with any zeros in front, and reads their values without an overflow; and it reads back the text of every
address of the bus. -/
theorem fromString_accepts_and_inverts :
    (∀ s, (fromString s).isSome ↔ ∃ main middle sub, s = spelled main middle sub ∧ IsLevel 31 main ∧
        IsLevel 7 middle ∧ IsLevel 255 sub) ∧
      (∀ s g, fromString s = some g ↔ ∃ main middle sub, s = spelled main middle sub ∧ IsLevel 31 main ∧
        IsLevel 7 middle ∧ IsLevel 255 sub ∧ digitsValue main = g.main.toNat ∧
        digitsValue middle = g.middle.toNat ∧ digitsValue sub = g.sub.toNat) ∧
      (∀ maxVal ∈ [31, 7, 255], ∀ s, parseDigitsInt (maxVal : Nat) 0 s =
        some ((parseDigits maxVal ⟨0, Nat.zero_le _⟩ s).map fun r => ((r.1.1 : Int), r.2))) ∧
      (∀ e : UInt16, ∃ g, fromString (fromEibaddr e).toString = some g ∧ g.toEibaddr = e) ∧
      ∀ e e' : UInt16, (fromEibaddr e).toString = (fromEibaddr e').toString → e = e' := by
  refine ⟨fun s => ?_, fun s g => fromString_eq_some_iff, fun maxVal hmax s => ?_, fun e => ?_,
    fun e e' h => ?_⟩
  · rw [Option.isSome_iff_exists]
    constructor
    · rintro ⟨g, hg⟩
      exact spelled_of_fromString hg
    · rintro ⟨main, middle, sub, rfl, hmain, hmiddle, hsub⟩
      obtain ⟨g, hg, -⟩ := fromString_spelled hmain hmiddle hsub
      exact ⟨g, hg⟩
  · have hlt : maxVal < 2 ^ 24 := by
      revert maxVal
      decide
    exact parseDigitsInt_eq hlt ⟨0, Nat.zero_le _⟩ s
  · exact ⟨fromEibaddr e, fromString_toString _, toEibaddr_fromEibaddr e⟩
  · have hread := fromString_toString (fromEibaddr e)
    rw [h, fromString_toString, Option.some.injEq] at hread
    rw [← toEibaddr_fromEibaddr e, ← hread, toEibaddr_fromEibaddr]

end KnxGroupAddress

structure KnxAddress where
  ns : Text
  group : KnxGroupAddress
  deriving DecidableEq

namespace KnxAddress

/-- `from_cometvisu`: what stands before the first colon is the namespace. -/
def fromCometvisu (defaultNamespace s : Text) : Option KnxAddress :=
  if ascii ':' ∈ s then
    (KnxGroupAddress.fromString ((s.dropWhile (· ≠ ascii ':')).drop 1)).map
      fun group => ⟨s.takeWhile (· ≠ ascii ':'), group⟩
  else (KnxGroupAddress.fromString s).map fun group => ⟨defaultNamespace, group⟩

def toCometvisu (address : KnxAddress) : Text :=
  if address.ns = [] then address.group.toString else address.ns ++ text ":" ++ address.group.toString

/-- **The text of an address names it**, whatever its namespace: the group has no colon. -/
theorem toCometvisu_injective {a b : KnxAddress} (h : a.toCometvisu = b.toCometvisu) : a = b := by
  obtain ⟨ns, group⟩ := a
  obtain ⟨ns', group'⟩ := b
  have hcolon := group.colon_not_mem_toString
  have hcolon' := group'.colon_not_mem_toString
  have hgroup : group.toString = group'.toString → group = group' := by
    intro heq
    have hread := group.fromString_toString
    rw [heq, group'.fromString_toString] at hread
    exact (Option.some.inj hread).symm
  have hjoin : ∀ ns group : Text, ns ++ text ":" ++ group = ns ++ ascii ':' :: group := by
    intro ns group
    rw [List.append_assoc]
    rfl
  simp only [toCometvisu, hjoin] at h
  split_ifs at h with hns hns' hns'
  · rw [hns, hns', hgroup h]
  · rw [h] at hcolon
    simp at hcolon
  · rw [← h] at hcolon'
    simp at hcolon'
  · obtain ⟨rfl, hsame⟩ := append_cons_inj hcolon hcolon' h
    rw [hgroup hsame]

/-- The namespace of what was read is the default one, unless another one was written. -/
theorem ns_eq_iff {defaultNamespace x : Text} {address : KnxAddress}
    (hx : fromCometvisu defaultNamespace x = some address) :
    address.ns = defaultNamespace ↔ (ascii ':' ∈ x → x.takeWhile (· ≠ ascii ':') = defaultNamespace) := by
  unfold fromCometvisu at hx
  split_ifs at hx with hcolon
  · obtain ⟨group, -, rfl⟩ := Option.map_eq_some_iff.mp hx
    exact (imp_iff_right hcolon).symm
  · obtain ⟨group, -, rfl⟩ := Option.map_eq_some_iff.mp hx
    exact iff_of_true rfl fun h => absurd h hcolon

end KnxAddress
end KnxdFcgi
