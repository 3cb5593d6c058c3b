import Mathlib

/-! Blocks of header fields before a body, as CGI and HTTP have them: a line `name: value` for each field, an empty
line, and then the body, which may be anything. A block whose names and values stay on their lines is read back as it
was written, whatever the body. -/

namespace KnxdFcgi.HeaderFields

/-- A field: its name and its value. -/
abbrev Field := List UInt8 × List UInt8

def cr : UInt8 := 0x0D
def lf : UInt8 := 0x0A
def colon : UInt8 := 0x3A
def space : UInt8 := 0x20

/-- A line up to the first CR LF, and what follows it. -/
def splitLine : List UInt8 → Option (List UInt8 × List UInt8)
  | [] => none
  | c :: rest =>
      if c = cr ∧ rest.head? = some lf then some ([], rest.tail)
      else (splitLine rest).map fun (line, rest) => (c :: line, rest)

theorem splitLine_append {line : List UInt8} (hline : cr ∉ line) (rest : List UInt8) :
    splitLine (line ++ cr :: lf :: rest) = some (line, rest) := by
  induction line with
  | nil => rfl
  | cons c line ih =>
      rw [List.mem_cons, not_or] at hline
      rw [List.cons_append, splitLine, if_neg fun h => hline.1 h.1.symm, ih hline.2]
      rfl

/-- The name before the first colon, and the value after it and after the blanks that follow it. -/
def splitField (line : List UInt8) : Option Field :=
  match line.dropWhile (· ≠ colon) with
  | [] => none
  | _ :: value => some (line.takeWhile (· ≠ colon), value.dropWhile (· = space))

/-- A field that its line can carry. -/
structure Fits (field : Field) : Prop where
  name_colon : colon ∉ field.1
  name_line : cr ∉ field.1
  value_line : cr ∉ field.2
  value_blank : field.2.head? ≠ some space

def writeField (field : Field) : List UInt8 := field.1 ++ colon :: space :: field.2

theorem splitField_writeField {field : Field} (h : Fits field) : splitField (writeField field) = some field := by
  have hname : ∀ c ∈ field.1, decide (c ≠ colon) = true := by
    intro c hc
    rw [decide_eq_true_eq]
    rintro rfl
    exact h.name_colon hc
  have hvalue : field.2.dropWhile (· = space) = field.2 := by
    cases hfield : field.2 with
    | nil => rfl
    | cons c value =>
        have hc : c ≠ space := fun heq => h.value_blank (by rw [hfield, heq]; rfl)
        rw [List.dropWhile_cons_of_neg (by simpa using hc)]
  have hdrop : (writeField field).dropWhile (· ≠ colon) = colon :: space :: field.2 := by
    rw [writeField, List.dropWhile_append_of_pos hname, List.dropWhile_cons_of_neg (by simp)]
  have htake : (writeField field).takeWhile (· ≠ colon) = field.1 := by
    rw [writeField, List.takeWhile_append_of_pos hname, List.takeWhile_cons_of_neg (by simp), List.append_nil]
  rw [splitField, hdrop]
  simp only [htake, List.dropWhile_cons_of_pos, decide_true, hvalue]

theorem cr_not_mem_writeField {field : Field} (h : Fits field) : cr ∉ writeField field := by
  have hcolon : cr ≠ colon ∧ cr ≠ space := by decide
  rw [writeField, List.mem_append, List.mem_cons, List.mem_cons]
  exact not_or.mpr ⟨h.name_line, not_or.mpr ⟨hcolon.1, not_or.mpr ⟨hcolon.2, h.value_line⟩⟩⟩

theorem writeField_ne_nil (field : Field) : writeField field ≠ [] := by
  rw [writeField]
  exact List.append_ne_nil_of_right_ne_nil _ (List.cons_ne_nil _ _)

def write : List Field → List UInt8 → List UInt8
  | [], body => cr :: lf :: body
  | field :: fields, body => writeField field ++ cr :: lf :: write fields body

/-- At most `bound` lines are read. -/
def readLines : Nat → List UInt8 → Option (List Field × List UInt8)
  | 0, _ => none
  | bound + 1, s =>
      match splitLine s with
      | none => none
      | some ([], body) => some ([], body)
      | some (line, rest) =>
          match splitField line, readLines bound rest with
          | some field, some (fields, body) => some (field :: fields, body)
          | _, _ => none

def read (s : List UInt8) : Option (List Field × List UInt8) := readLines s.length s

theorem readLines_write {fields : List Field} (h : ∀ field ∈ fields, Fits field) (body : List UInt8) {bound : Nat}
    (hbound : fields.length < bound) : readLines bound (write fields body) = some (fields, body) := by
  induction fields generalizing bound with
  | nil =>
      obtain ⟨bound, rfl⟩ := Nat.exists_eq_add_of_lt hbound
      rfl
  | cons field fields ih =>
      obtain ⟨bound, rfl⟩ : ∃ b, bound = b + 1 := ⟨bound - 1, by omega⟩
      have hfield := h field List.mem_cons_self
      have hless : fields.length < bound := by
        rw [List.length_cons] at hbound
        omega
      have hrest := ih (fun f hf => h f (List.mem_cons_of_mem _ hf)) hless
      obtain ⟨c, line, hline⟩ := List.exists_cons_of_ne_nil (writeField_ne_nil field)
      have hsplit := splitField_writeField hfield
      rw [hline] at hsplit
      rw [readLines, write, splitLine_append (cr_not_mem_writeField hfield), hline]
      simp only [hsplit, hrest]

theorem length_lt_write (fields : List Field) (body : List UInt8) : fields.length < (write fields body).length := by
  induction fields with
  | nil => simp [write]
  | cons field fields ih =>
      simp only [write, List.length_append, List.length_cons]
      omega

/-- **A block is read back as it was written**, and so is the body. -/
theorem read_write {fields : List Field} (h : ∀ field ∈ fields, Fits field) (body : List UInt8) :
    read (write fields body) = some (fields, body) :=
  readLines_write h body (length_lt_write fields body)

end KnxdFcgi.HeaderFields
