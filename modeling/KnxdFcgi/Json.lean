import KnxdFcgi.Text

/-! JSON texts. The parser reads the whole grammar: the three literals, numbers with fraction and exponent,
strings with every escape, arrays, objects, and space between any two tokens. A string is the bytes it stands
for, and a byte from `0x80` on is content; an object keeps its members in their order, also where a key comes
twice. The parser recurses on a bound that the length of the text always meets. `Renders` says which texts
without space a value of strings, integers and objects may be written as, and the parser reads every one of
them back. -/

namespace KnxdFcgi.Json

/-- `mantissa * 10 ^ exponent`. -/
structure Number where
  mantissa : Int
  exponent : Int
  deriving DecidableEq

inductive Value where
  | null
  | bool (b : Bool)
  | number (n : Number)
  | string (s : Text)
  | array (elements : List Value)
  | object (members : List (Text × Value))

def isSpace (c : UInt8) : Bool := c ∈ text " \n\r\t"

def skipSpace (s : Text) : Text := s.dropWhile isSpace

/-- The token `c`, after any space. -/
def token (c : UInt8) (s : Text) : Option Text :=
  match skipSpace s with
  | first :: rest => if first = c then some rest else none
  | [] => none

def codeUnit : Text → Option (Nat × Text)
  | a :: b :: c :: d :: rest => do
      let a ← hexValue a
      let b ← hexValue b
      let c ← hexValue c
      let d ← hexValue d
      some (((a.toNat * 16 + b.toNat) * 16 + c.toNat) * 16 + d.toNat, rest)
  | _ => none

def utf8 (code : Nat) : Text :=
  if code < 0x80 then [UInt8.ofNat code]
  else if code < 0x800 then [UInt8.ofNat (0xC0 + code / 0x40), UInt8.ofNat (0x80 + code % 0x40)]
  else if code < 0x10000 then
    [UInt8.ofNat (0xE0 + code / 0x1000), UInt8.ofNat (0x80 + code / 0x40 % 0x40), UInt8.ofNat (0x80 + code % 0x40)]
  else
    [UInt8.ofNat (0xF0 + code / 0x40000), UInt8.ofNat (0x80 + code / 0x1000 % 0x40),
      UInt8.ofNat (0x80 + code / 0x40 % 0x40), UInt8.ofNat (0x80 + code % 0x40)]

/-- The escape `\uXXXX`; a high surrogate needs a low one behind it, and a low one cannot stand alone. -/
def unicodeEscape (s : Text) : Option (Text × Text) := do
  let (unit, s) ← codeUnit s
  if 0xD800 ≤ unit ∧ unit < 0xDC00 then
    match s with
    | slash :: u :: s =>
        if slash = ascii '\\' ∧ u = ascii 'u' then do
          let (low, s) ← codeUnit s
          if 0xDC00 ≤ low ∧ low < 0xE000 then
            some (utf8 (0x10000 + (unit - 0xD800) * 0x400 + (low - 0xDC00)), s)
          else none
        else none
    | _ => none
  else if 0xDC00 ≤ unit ∧ unit < 0xE000 then none
  else some (utf8 unit, s)

/-- The escapes of one character, with the byte that each stands for. -/
def shortEscapes : List (UInt8 × UInt8) :=
  [(ascii '"', ascii '"'), (ascii '\\', ascii '\\'), (ascii '/', ascii '/'), (ascii 'b', 0x08),
    (ascii 'f', 0x0C), (ascii 'n', ascii '\n'), (ascii 'r', ascii '\r'), (ascii 't', ascii '\t')]

/-- What follows a backslash: the bytes it stands for, and the rest. -/
def escape : Text → Option (Text × Text)
  | [] => none
  | c :: s =>
      match shortEscapes.lookup c with
      | some b => some ([b], s)
      | none => if c = ascii 'u' then unicodeEscape s else none

/-- The content of a string up to its closing quote. -/
def stringBody : Nat → Text → Option (Text × Text)
  | 0, _ => none
  | _ + 1, [] => none
  | bound + 1, c :: s =>
      if c = ascii '"' then some ([], s)
      else if c = ascii '\\' then do
        let (content, s) ← escape s
        let (more, s) ← stringBody bound s
        some (content ++ more, s)
      else if c < 0x20 then none
      else do
        let (more, s) ← stringBody bound s
        some (c :: more, s)

def fraction (s : Text) : Option (Text × Text) :=
  match s with
  | c :: rest =>
      if c = ascii '.' then
        if rest.takeWhile isDigit = [] then none else some (rest.takeWhile isDigit, rest.dropWhile isDigit)
      else some ([], s)
  | [] => some ([], [])

def sign (s : Text) : Bool × Text :=
  match s with
  | c :: rest => if c = ascii '-' then (true, rest) else (false, s)
  | [] => (false, [])

def exponent (s : Text) : Option (Int × Text) :=
  match s with
  | c :: rest =>
      if c = ascii 'e' ∨ c = ascii 'E' then
        let (negative, rest) := match rest with
          | plus :: rest' => if plus = ascii '+' then (false, rest') else sign rest
          | [] => (false, [])
        if rest.takeWhile isDigit = [] then none
        else
          let magnitude : Int := digitsValue (rest.takeWhile isDigit)
          some (if negative then -magnitude else magnitude, rest.dropWhile isDigit)
      else some (0, s)
  | [] => some (0, [])

def number (s : Text) : Option (Number × Text) := do
  let (negative, s) := sign s
  let digits := s.takeWhile isDigit
  if digits = [] ∨ (digits.head? = some (ascii '0') ∧ digits ≠ [ascii '0']) then none
  else do
    let (decimals, s) ← fraction (s.dropWhile isDigit)
    let (power, s) ← exponent s
    let magnitude : Int := digitsValue (digits ++ decimals)
    some (⟨if negative then -magnitude else magnitude, power - decimals.length⟩, s)

/-- A word that stands for a value. -/
def literal (s : Text) : Option (Value × Text) :=
  if text "null" <+: s then some (.null, s.drop 4)
  else if text "true" <+: s then some (.bool true, s.drop 4)
  else if text "false" <+: s then some (.bool false, s.drop 5)
  else none

/-- What comes after an item: a comma and more items, or the end. -/
def moreItems {α : Type} (close : UInt8) (items : Text → Option (List α × Text)) (s : Text) :
    Option (List α × Text) :=
  match token (ascii ',') s with
  | some s => items s
  | none => (token close s).map fun s => ([], s)

/-- No item and the end, or items. -/
def allItems {α : Type} (close : UInt8) (items : Text → Option (List α × Text)) (s : Text) :
    Option (List α × Text) :=
  match token close s with
  | some s => some ([], s)
  | none => items s

mutual

def value : Nat → Text → Option (Value × Text)
  | 0, _ => none
  | bound + 1, s =>
      match skipSpace s with
      | [] => none
      | c :: rest =>
          if c = ascii '\x7b' then
            (allItems (ascii '\x7d') (members bound) rest).map fun (ms, s) => (.object ms, s)
          else if c = ascii '[' then
            (allItems (ascii ']') (elements bound) rest).map fun (es, s) => (.array es, s)
          else if c = ascii '"' then (stringBody rest.length rest).map fun (content, s) => (.string content, s)
          else if c = ascii '-' ∨ isDigit c then (number (c :: rest)).map fun (n, s) => (.number n, s)
          else literal (c :: rest)

def elements : Nat → Text → Option (List Value × Text)
  | 0, _ => none
  | bound + 1, s => do
      let (element, s) ← value bound s
      let (more, s) ← moreItems (ascii ']') (elements bound) s
      some (element :: more, s)

def members : Nat → Text → Option (List (Text × Value) × Text)
  | 0, _ => none
  | bound + 1, s => do
      let s ← token (ascii '"') s
      let (key, s) ← stringBody s.length s
      let s ← token (ascii ':') s
      let (member, s) ← value bound s
      let (more, s) ← moreItems (ascii '\x7d') (members bound) s
      some ((key, member) :: more, s)

end

/-- A text is a value with nothing but space around it. -/
def parse (s : Text) : Option Value := do
  let (v, rest) ← value (s.length + 1) s
  if skipSpace rest = [] then some v else none

/-- The text between the quotes of a string. -/
inductive Quotes : Text → Text → Prop
  | nil : Quotes [] []
  | plain {c : UInt8} {s quoted : Text} (hquote : c ≠ ascii '"') (hslash : c ≠ ascii '\\') (hcontrol : ¬c < 0x20)
      (hs : Quotes s quoted) : Quotes (c :: s) (c :: quoted)
  | escape {letter b : UInt8} {s quoted : Text} (hletter : shortEscapes.lookup letter = some b)
      (hs : Quotes s quoted) : Quotes (b :: s) (ascii '\\' :: letter :: quoted)

/-- What a part of a text stands for: a value, or members of an object of which the first has no comma
before it if it is the first of all. -/
inductive Part where
  | value (v : Value)
  | members (first : Bool) (ms : List (Text × Value))

inductive Renders : Part → Text → Prop
  | string {s quoted : Text} (hs : Quotes s quoted) :
      Renders (.value (.string s)) (ascii '"' :: (quoted ++ [ascii '"']))
  | natural {n : Nat} {digits : Text} (hn : IsDecimal n digits) : Renders (.value (.number ⟨n, 0⟩)) digits
  | negative {n : Nat} {digits : Text} (hn : IsDecimal n digits) :
      Renders (.value (.number ⟨-n, 0⟩)) (ascii '-' :: digits)
  | object {ms : List (Text × Value)} {s : Text} (hms : Renders (.members true ms) s) :
      Renders (.value (.object ms)) (ascii '\x7b' :: (s ++ [ascii '\x7d']))
  | none (first : Bool) : Renders (.members first []) []
  | member (first : Bool) {key quoted : Text} {v : Value} {ms : List (Text × Value)} {s more : Text}
      (hkey : Quotes key quoted) (hv : Renders (.value v) s) (hms : Renders (.members false ms) more) :
      Renders (.members first ((key, v) :: ms))
        ((if first then [] else [ascii ',']) ++
          ascii '"' :: (quoted ++ ascii '"' :: ascii ':' :: (s ++ more)))

theorem skipSpace_cons {c : UInt8} (hc : isSpace c = false) (s : Text) : skipSpace (c :: s) = c :: s := by
  rw [skipSpace, List.dropWhile_cons_of_neg (by simp [hc])]

theorem token_self {c : UInt8} (hc : isSpace c = false) (s : Text) : token c (c :: s) = some s := by
  rw [token, skipSpace_cons hc]
  exact if_pos rfl

theorem token_of_ne {c first : UInt8} (hfirst : isSpace first = false) (hne : first ≠ c) (s : Text) :
    token c (first :: s) = none := by
  rw [token, skipSpace_cons hfirst]
  exact if_neg hne

theorem stringBody_quotes {s quoted : Text} (h : Quotes s quoted) (rest : Text) {bound : Nat}
    (hbound : quoted.length < bound) : stringBody bound (quoted ++ ascii '"' :: rest) = some (s, rest) := by
  induction h generalizing bound with
  | nil =>
      obtain ⟨bound, rfl⟩ : ∃ n, bound = n + 1 := ⟨bound - 1, by omega⟩
      rfl
  | plain hquote hslash hcontrol _ ih =>
      obtain ⟨bound, rfl⟩ : ∃ n, bound = n + 1 := ⟨bound - 1, by omega⟩
      rw [List.cons_append, stringBody, if_neg hquote, if_neg hslash, if_neg hcontrol,
        ih (by simpa using hbound)]
      rfl
  | escape hletter _ ih =>
      obtain ⟨bound, rfl⟩ : ∃ n, bound = n + 1 := ⟨bound - 1, by omega⟩
      have hslash : ascii '\\' ≠ ascii '"' := by decide
      simp only [List.length_cons] at hbound
      simp only [List.cons_append, stringBody, if_neg hslash, if_true, escape, hletter,
        Option.bind_eq_bind, Option.bind_some, ih (show _ < bound by omega), List.nil_append]

/-- The length of the text is bound enough. -/
theorem stringBody_length {s quoted : Text} (h : Quotes s quoted) (rest : Text) :
    stringBody (quoted ++ ascii '"' :: rest).length (quoted ++ ascii '"' :: rest) = some (s, rest) :=
  stringBody_quotes h rest (by simp)

/-- A value ends at a comma, at a brace or with the text. -/
def Ends (rest : Text) : Prop := ∀ c s, rest = c :: s → c = ascii ',' ∨ c = ascii '\x7d'

theorem ends_nil : Ends [] := by
  intro c s h
  cases h

theorem ends_comma (s : Text) : Ends (ascii ',' :: s) := by
  rintro c s' ⟨⟩
  exact Or.inl rfl

theorem ends_brace (s : Text) : Ends (ascii '\x7d' :: s) := by
  rintro c s' ⟨⟩
  exact Or.inr rfl

theorem Ends.fraction {rest : Text} (h : Ends rest) : fraction rest = some ([], rest) := by
  cases rest with
  | nil => rfl
  | cons c s =>
      have hc : c ≠ ascii '.' := by
        rcases h c s rfl with rfl | rfl <;> decide
      exact if_neg hc

theorem Ends.exponent {rest : Text} (h : Ends rest) : exponent rest = some (0, rest) := by
  cases rest with
  | nil => rfl
  | cons c s =>
      have hc : ¬(c = ascii 'e' ∨ c = ascii 'E') := by
        rcases h c s rfl with rfl | rfl <;> decide
      exact if_neg hc

theorem Ends.span {rest digits : Text} (h : Ends rest) (hdigits : ∀ c ∈ digits, isDigit c = true) :
    (digits ++ rest).takeWhile isDigit = digits ∧ (digits ++ rest).dropWhile isDigit = rest := by
  rw [List.takeWhile_append_of_pos hdigits, List.dropWhile_append_of_pos hdigits]
  cases rest with
  | nil => simp
  | cons c s =>
      have hc : ¬isDigit c = true := by
        rcases h c s rfl with rfl | rfl <;> decide
      rw [List.takeWhile_cons_of_neg hc, List.dropWhile_cons_of_neg hc, List.append_nil]
      exact ⟨rfl, rfl⟩

theorem isDigit_ne {c other : UInt8} (hc : isDigit c = true) (hother : isDigit other = false) : c ≠ other := by
  rintro rfl
  rw [hc] at hother
  cases hother

/-- The digits of a number behind its sign. -/
theorem number_of_sign {s : Text} {negative : Bool} {n : Nat} {digits rest : Text} (hn : IsDecimal n digits)
    (hrest : Ends rest) (hsign : sign s = (negative, digits ++ rest)) :
    number s = some (⟨if negative then -n else n, 0⟩, rest) := by
  obtain ⟨htake, hdrop⟩ := hrest.span hn.isDigit
  have hwell : ¬(digits = [] ∨ (digits.head? = some (ascii '0') ∧ digits ≠ [ascii '0'])) := by
    rintro (hnil | ⟨hzero, hmore⟩)
    · exact hn.ne_nil hnil
    · exact hmore (hn.leading hzero)
  simp only [number, hsign, htake, hdrop, if_neg hwell, hrest.fraction, hrest.exponent, Option.bind_eq_bind,
    Option.bind_some, List.append_nil, hn.value, List.length_nil]
  rfl

theorem number_natural {n : Nat} {digits rest : Text} (hn : IsDecimal n digits) (hrest : Ends rest) :
    number (digits ++ rest) = some (⟨n, 0⟩, rest) := by
  have hsign : sign (digits ++ rest) = (false, digits ++ rest) := by
    obtain ⟨c, more, rfl⟩ := List.exists_cons_of_ne_nil hn.ne_nil
    exact if_neg (isDigit_ne (hn.isDigit c List.mem_cons_self) (by decide))
  exact number_of_sign hn hrest hsign

theorem number_negative {n : Nat} {digits rest : Text} (hn : IsDecimal n digits) (hrest : Ends rest) :
    number (ascii '-' :: (digits ++ rest)) = some (⟨-n, 0⟩, rest) := by
  have hsign : sign (ascii '-' :: (digits ++ rest)) = (true, digits ++ rest) := rfl
  exact number_of_sign hn hrest hsign

/-! ### Values are read back -/

/-- What the parser makes of the text of a part, with any text that may follow. -/
def Reads (s : Text) : Part → Prop
  | .value v => ∀ bound rest, s.length ≤ bound → Ends rest → value bound (s ++ rest) = some (v, rest)
  | .members true ms => ∀ bound rest, s.length ≤ bound →
      allItems (ascii '\x7d') (members bound) (s ++ ascii '\x7d' :: rest) = some (ms, rest)
  | .members false ms => ∀ bound rest, s.length ≤ bound →
      moreItems (ascii '\x7d') (members bound) (s ++ ascii '\x7d' :: rest) = some (ms, rest)

/-- Further members begin with a comma. -/
theorem Renders.ends_append {ms : List (Text × Value)} {s rest : Text} (h : Renders (.members false ms) s)
    (hrest : Ends rest) : Ends (s ++ rest) := by
  intro c s' heq
  cases h with
  | none => exact hrest c s' heq
  | member =>
      cases heq
      exact Or.inl rfl

/-- Behind a member comes a comma or the end of its object. -/
theorem Renders.ends {ms : List (Text × Value)} {s : Text} (h : Renders (.members false ms) s) (rest : Text) :
    Ends (s ++ ascii '\x7d' :: rest) :=
  h.ends_append (ends_brace rest)

theorem reads_string {s quoted : Text} (hs : Quotes s quoted) :
    Reads (ascii '"' :: (quoted ++ [ascii '"'])) (.value (.string s)) := by
  intro bound rest hbound _
  obtain ⟨bound, rfl⟩ : ∃ n, bound = n + 1 := ⟨bound - 1, by simp at hbound; omega⟩
  rw [List.cons_append, List.append_assoc, List.singleton_append, value, skipSpace_cons (by decide)]
  dsimp only
  rw [if_neg (by decide), if_neg (by decide), if_pos rfl, stringBody_length hs]
  rfl

theorem value_of_number {c : UInt8} (hc : c = ascii '-' ∨ isDigit c = true) {s : Text} {n : Number} {rest : Text}
    (hnumber : number (c :: s) = some (n, rest)) (bound : Nat) :
    value (bound + 1) (c :: s) = some (.number n, rest) := by
  have hplain : ∀ c : UInt8, c = ascii '-' ∨ isDigit c = true →
      isSpace c = false ∧ c ≠ ascii '\x7b' ∧ c ≠ ascii '[' ∧ c ≠ ascii '"' := by decide +kernel
  obtain ⟨hspace, hbrace, hbracket, hquote⟩ := hplain c hc
  rw [value, skipSpace_cons hspace]
  dsimp only
  rw [if_neg hbrace, if_neg hbracket, if_neg hquote, if_pos hc, hnumber]
  rfl

theorem reads_natural {n : Nat} {digits : Text} (hn : IsDecimal n digits) :
    Reads digits (.value (.number ⟨n, 0⟩)) := by
  intro bound rest hbound hrest
  have hnumber := number_natural hn hrest
  obtain ⟨c, more, rfl⟩ := List.exists_cons_of_ne_nil hn.ne_nil
  obtain ⟨bound, rfl⟩ : ∃ n, bound = n + 1 := ⟨bound - 1, by simp at hbound; omega⟩
  exact value_of_number (Or.inr (hn.isDigit c List.mem_cons_self)) hnumber bound

theorem reads_negative {n : Nat} {digits : Text} (hn : IsDecimal n digits) :
    Reads (ascii '-' :: digits) (.value (.number ⟨-n, 0⟩)) := by
  intro bound rest hbound hrest
  obtain ⟨bound, rfl⟩ : ∃ n, bound = n + 1 := ⟨bound - 1, by simp at hbound; omega⟩
  exact value_of_number (Or.inl rfl) (number_negative hn hrest) bound

theorem reads_object {ms : List (Text × Value)} {s : Text} (h : Reads s (.members true ms)) :
    Reads (ascii '\x7b' :: (s ++ [ascii '\x7d'])) (.value (.object ms)) := by
  intro bound rest hbound _
  obtain ⟨bound, rfl⟩ : ∃ n, bound = n + 1 := ⟨bound - 1, by simp at hbound; omega⟩
  have hitems := h bound rest (by simp at hbound; omega)
  rw [List.cons_append, List.append_assoc, List.singleton_append, value, skipSpace_cons (by decide)]
  dsimp only
  rw [if_pos rfl, hitems]
  rfl

theorem reads_none (first : Bool) : Reads [] (.members first []) := by
  have hend : ∀ rest, token (ascii '\x7d') (ascii '\x7d' :: rest) = some rest := token_self (by decide)
  cases first with
  | true =>
      intro bound rest _
      rw [List.nil_append, allItems, hend]
  | false =>
      intro bound rest _
      rw [List.nil_append, moreItems, token_of_ne (by decide) (by decide), hend]
      rfl

/-- One member and what follows it. -/
theorem members_member {key quoted : Text} {v : Value} {ms : List (Text × Value)} {s after rest : Text}
    {bound : Nat} (hkey : Quotes key quoted) (hv : value bound (s ++ after) = some (v, after))
    (hms : moreItems (ascii '\x7d') (members bound) after = some (ms, rest)) :
    members (bound + 1) (ascii '"' :: (quoted ++ ascii '"' :: ascii ':' :: (s ++ after))) =
      some ((key, v) :: ms, rest) := by
  have hbody := stringBody_length hkey (ascii ':' :: (s ++ after))
  have hquote := token_self (show isSpace (ascii '"') = false by decide)
  have hcolon := token_self (show isSpace (ascii ':') = false by decide)
  simp only [members, hquote, Option.bind_eq_bind, Option.bind_some, hbody, hcolon, hv, hms]

theorem reads_member (first : Bool) {key quoted : Text} {v : Value} {ms : List (Text × Value)} {s more : Text}
    (hkey : Quotes key quoted) (hv : Reads s (.value v)) (hms : Reads more (.members false ms))
    (hends : ∀ rest, Ends (more ++ ascii '\x7d' :: rest)) :
    Reads ((if first then [] else [ascii ',']) ++ ascii '"' :: (quoted ++ ascii '"' :: ascii ':' :: (s ++ more)))
      (.members first ((key, v) :: ms)) := by
  have hmember : ∀ bound rest, s.length ≤ bound → more.length ≤ bound →
      members (bound + 1) (ascii '"' :: (quoted ++ ascii '"' :: ascii ':' :: (s ++ (more ++ ascii '\x7d' :: rest)))) =
        some ((key, v) :: ms, rest) := fun bound rest hs hmore =>
    members_member hkey (hv bound _ hs (hends rest)) (hms bound rest hmore)
  cases first with
  | true =>
      intro bound rest hbound
      simp only [if_true, List.nil_append, List.length_cons, List.length_append] at hbound
      obtain ⟨bound, rfl⟩ : ∃ n, bound = n + 1 := ⟨bound - 1, by omega⟩
      simp only [if_true, List.nil_append, List.cons_append, List.append_assoc, allItems]
      rw [token_of_ne (by decide) (by decide)]
      exact hmember bound rest (by omega) (by omega)
  | false =>
      intro bound rest hbound
      simp only [Bool.false_eq_true, if_false, List.length_cons, List.length_append, List.length_nil] at hbound
      obtain ⟨bound, rfl⟩ : ∃ n, bound = n + 1 := ⟨bound - 1, by omega⟩
      simp only [Bool.false_eq_true, if_false, List.nil_append, List.cons_append, List.append_assoc, moreItems]
      rw [token_self (by decide)]
      exact hmember bound rest (by omega) (by omega)

/-- **Every part is read back as what it stands for.** -/
theorem Renders.reads {part : Part} {s : Text} (h : Renders part s) : Reads s part := by
  induction h with
  | string hs => exact reads_string hs
  | natural hn => exact reads_natural hn
  | negative hn => exact reads_negative hn
  | object _ ih => exact reads_object ih
  | none first => exact reads_none first
  | member first hkey _ hms ihv ihms => exact reads_member first hkey ihv ihms hms.ends

theorem parse_of_reads {v : Value} {s : Text} (h : Reads s (.value v)) : parse s = some v := by
  have hread : value (s.length + 1) (s ++ []) = some (v, []) := h _ [] (Nat.le_succ _) ends_nil
  rw [List.append_nil] at hread
  simp only [parse, hread, Option.bind_eq_bind, Option.bind_some]
  rfl

theorem parse_of_renders {v : Value} {s : Text} (h : Renders (.value v) s) : parse s = some v :=
  parse_of_reads h.reads

/-- Without a text there are no members. -/
theorem Reads.ne_nil {ms : List (Text × Value)} {s : Text} (h : Reads s (.members true ms)) (hms : ms ≠ []) :
    s ≠ [] := by
  rintro rfl
  have hread := (reads_none true 0 [] (Nat.zero_le _)).symm.trans (h 0 [] (Nat.zero_le _))
  rw [Option.some.injEq, Prod.mk.injEq] at hread
  exact hms hread.1.symm

/-- Members that are read from a text of their own are read behind others, with a comma before them. -/
theorem Reads.comma {ms : List (Text × Value)} {s : Text} (h : Reads s (.members true ms)) (hms : ms ≠ []) :
    Reads (ascii ',' :: s) (.members false ms) := by
  intro bound rest hbound
  have hitems := h bound rest (by simp at hbound; omega)
  rw [List.cons_append, moreItems, token_self (by decide)]
  simp only [allItems] at hitems
  split at hitems
  · cases hitems
    exact absurd rfl hms
  · exact hitems

/-- Members of both kinds, one after the other. -/
theorem Renders.reads_append {first : Bool} {ms extra : List (Text × Value)} {s more : Text}
    (h : Renders (.members first ms) s) (hms : ms ≠ [] ∨ first = false) (hmore : Reads more (.members false extra))
    (hends : ∀ rest, Ends (more ++ ascii '\x7d' :: rest)) : Reads (s ++ more) (.members first (ms ++ extra)) := by
  induction ms generalizing first s with
  | nil =>
      obtain rfl := hms.resolve_left (not_not_intro rfl)
      cases h
      exact hmore
  | cons m ms ih =>
      cases h with
      | @member _ key quoted v _ s more' hkey hv hms' =>
          have hends' : ∀ rest, Ends (more' ++ more ++ ascii '\x7d' :: rest) := by
            intro rest
            rw [List.append_assoc]
            exact hms'.ends_append (hends rest)
          have hread := reads_member first hkey hv.reads (ih hms' (Or.inr rfl)) hends'
          simpa only [List.append_assoc, List.cons_append] using hread

end KnxdFcgi.Json
