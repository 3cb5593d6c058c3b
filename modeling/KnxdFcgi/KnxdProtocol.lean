import KnxdFcgi.Framing

/-! The eibd wire format: a two-byte big-endian length, a two-byte type, and data. The builders write
the low 16 bits of the length whatever the size of the data; the extraction takes the first message
whose length prefix is covered by the buffer. -/

namespace KnxdFcgi

namespace EibMessageType

def apduPacket : UInt16 := 0x0025
def openGroupcon : UInt16 := 0x0026
def groupPacket : UInt16 := 0x0027

end EibMessageType

/-- `(hi << 8) | lo`. -/
def bigEndian (hi lo : UInt8) : Nat := hi.toNat * 256 + lo.toNat

def buildEibdMessage (type : UInt16) (data : List UInt8) : List UInt8 :=
  let payloadSize := 2 + data.length
  [UInt8.ofNat (payloadSize / 256), UInt8.ofNat payloadSize,
    UInt8.ofNat (type.toNat / 256), UInt8.ofNat type.toNat] ++ data

/-- What `parse_eibd_message` makes of a byte vector. A length below 2 in a longer vector passes both
size tests, and the range that is copied then ends before it begins. -/
inductive EibdParse where
  | rejected
  | illFormedRange
  | parsed (type : UInt16) (data : List UInt8)
  deriving DecidableEq

def parseEibdMessage (raw : List UInt8) : EibdParse :=
  match raw with
  | len0 :: len1 :: type0 :: type1 :: _ =>
      let payloadLen := bigEndian len0 len1
      if raw.length < payloadLen + 2 then .rejected
      else if 2 + payloadLen < 4 then .illFormedRange
      else .parsed (UInt16.ofNat (bigEndian type0 type1)) ((raw.take (2 + payloadLen)).drop 4)
  | _ => .rejected

/-- The message and the rest of the buffer. -/
def tryExtractMessage (buffer : List UInt8) : Option (List UInt8 × List UInt8) :=
  match buffer with
  | len0 :: len1 :: _ =>
      let totalNeeded := 2 + bigEndian len0 len1
      if buffer.length < totalNeeded then none
      else some (buffer.take totalNeeded, buffer.drop totalNeeded)
  | _ => none

def buildOpenGroupcon (writeOnly : Bool) : List UInt8 :=
  buildEibdMessage EibMessageType.openGroupcon [0x00, 0x00, if writeOnly then 0x01 else 0x00]

def buildGroupPacket (groupAddr : UInt16) (apdu : List UInt8) : List UInt8 :=
  buildEibdMessage EibMessageType.groupPacket
    ([UInt8.ofNat (groupAddr.toNat / 256), UInt8.ofNat groupAddr.toNat] ++ apdu)

theorem bigEndian_lt (hi lo : UInt8) : bigEndian hi lo < 65536 := by
  have hhi := hi.toNat_lt
  have hlo := lo.toNat_lt
  unfold bigEndian
  omega

/-- Two bytes keep the low 16 bits. -/
theorem bigEndian_ofNat_mod (n : Nat) : bigEndian (UInt8.ofNat (n / 256)) (UInt8.ofNat n) = n % 65536 := by
  rw [bigEndian, UInt8.toNat_ofNat', UInt8.toNat_ofNat']
  omega

theorem bigEndian_ofNat {n : Nat} (hn : n < 65536) :
    bigEndian (UInt8.ofNat (n / 256)) (UInt8.ofNat n) = n := by
  rw [bigEndian_ofNat_mod, Nat.mod_eq_of_lt hn]

/-- A buffer with no complete message is short of the longest message. -/
theorem length_of_tryExtract_none {buffer : List UInt8} (h : tryExtractMessage buffer = none) :
    buffer.length ≤ 65536 := by
  match buffer with
  | [] => simp
  | [_] => simp
  | len0 :: len1 :: rest =>
      have hlt := bigEndian_lt len0 len1
      rw [tryExtractMessage] at h
      split at h
      · rename_i hshort
        omega
      · cases h

theorem tryExtract_some_iff {buffer message rest : List UInt8} :
    tryExtractMessage buffer = some (message, rest) ↔
      message ++ rest = buffer ∧ ∃ len0 len1 tail, message = len0 :: len1 :: tail ∧
        tail.length = bigEndian len0 len1 := by
  constructor
  · intro h
    match buffer with
    | [] => cases h
    | [_] => cases h
    | len0 :: len1 :: rest =>
        rw [tryExtractMessage] at h
        split at h
        · cases h
        · rename_i hlong
          cases h
          refine ⟨List.take_append_drop _ _, len0, len1, rest.take (bigEndian len0 len1), ?_, ?_⟩
          · rw [Nat.add_comm, List.take_succ_cons, List.take_succ_cons]
          · simp only [List.length_cons] at hlong
            rw [List.length_take]
            omega
  · rintro ⟨rfl, len0, len1, tail, rfl, htail⟩
    simp only [List.cons_append, tryExtractMessage, List.length_cons, List.length_append]
    rw [if_neg (by omega), show 2 + bigEndian len0 len1 = tail.length + 1 + 1 by omega]
    simp

/-- The extraction as a splitter: it depends on the bytes of the first message alone. -/
def eibdSplitter : Framing.Splitter UInt8 where
  split := tryExtractMessage
  split_append h := (tryExtract_some_iff.mp h).1
  split_ne_nil h := by
    obtain ⟨-, len0, len1, tail, rfl, -⟩ := tryExtract_some_iff.mp h
    exact List.cons_ne_nil _ _
  split_more more h := by
    obtain ⟨rfl, hmessage⟩ := tryExtract_some_iff.mp h
    exact tryExtract_some_iff.mpr ⟨by rw [List.append_assoc], hmessage⟩

theorem tryExtract_buildEibdMessage (type : UInt16) {data : List UInt8} (hdata : data.length ≤ 65533) :
    tryExtractMessage (buildEibdMessage type data) = some (buildEibdMessage type data, []) := by
  refine tryExtract_some_iff.mpr ⟨List.append_nil _, _, _, _, rfl, ?_⟩
  rw [bigEndian_ofNat (by omega)]
  simp
  omega

/-- The length header of a message counts the bytes that follow it, and whatever comes after the message, the
extraction returns the message alone. -/
def WellFramed (message : List UInt8) : Prop :=
  (∃ len0 len1 tail, message = len0 :: len1 :: tail ∧ tail.length = bigEndian len0 len1) ∧
    ∀ more, tryExtractMessage (message ++ more) = some (message, more)

theorem wellFramed_buildEibdMessage_iff (type : UInt16) (data : List UInt8) :
    WellFramed (buildEibdMessage type data) ↔ data.length ≤ 65533 := by
  constructor
  · rintro ⟨⟨len0, len1, tail, hmessage, htail⟩, -⟩
    simp only [buildEibdMessage, List.cons_append, List.nil_append, List.cons.injEq] at hmessage
    obtain ⟨rfl, rfl, rfl⟩ := hmessage
    rw [bigEndian_ofNat_mod] at htail
    simp only [List.length_cons] at htail
    omega
  · intro hdata
    have hmessage := (tryExtract_some_iff.mp (tryExtract_buildEibdMessage type hdata)).2
    exact ⟨hmessage, fun more => tryExtract_some_iff.mpr ⟨rfl, hmessage⟩⟩

theorem parseEibdMessage_build (type : UInt16) {data : List UInt8} (hdata : data.length ≤ 65533) :
    parseEibdMessage (buildEibdMessage type data) = .parsed type data := by
  have hlen : bigEndian (UInt8.ofNat ((2 + data.length) / 256)) (UInt8.ofNat (2 + data.length)) =
      2 + data.length := bigEndian_ofNat (by omega)
  have htype : UInt16.ofNat (bigEndian (UInt8.ofNat (type.toNat / 256)) (UInt8.ofNat type.toNat)) =
      type := by
    rw [bigEndian_ofNat type.toNat_lt, UInt16.ofNat_toNat]
  simp only [buildEibdMessage, parseEibdMessage, List.cons_append, List.nil_append, List.length_cons,
    hlen, htype]
  rw [if_neg (by omega), if_neg (by omega), List.take_of_length_le (by simp; omega)]
  rfl

/-- `payload_len` of a vector that has its two bytes. -/
def payloadLen : List UInt8 → Nat
  | len0 :: len1 :: _ => bigEndian len0 len1
  | _ => 0

/-- Where the iterators stand that `parse_eibd_message` hands to `assign`; `none` where it has returned
false before. -/
def copiedRange (raw : List UInt8) : Option (Nat × Nat) :=
  if raw.length < 4 then none
  else if raw.length < payloadLen raw + 2 then none
  else some (4, 2 + payloadLen raw)

/-- The parse copies that range. -/
theorem parseEibdMessage_copies (raw : List UInt8) :
    (copiedRange raw = none → parseEibdMessage raw = .rejected) ∧
      ∀ first last, copiedRange raw = some (first, last) →
        if last < first then parseEibdMessage raw = .illFormedRange
        else ∃ type, parseEibdMessage raw = .parsed type ((raw.take last).drop first) := by
  match raw with
  | [] | [_] | [_, _] | [_, _, _] => exact ⟨fun _ => rfl, fun first last h => by cases h⟩
  | len0 :: len1 :: type0 :: type1 :: rest =>
      have hlong : ¬(len0 :: len1 :: type0 :: type1 :: rest).length < 4 := by simp
      have hrange : copiedRange (len0 :: len1 :: type0 :: type1 :: rest) =
          if (len0 :: len1 :: type0 :: type1 :: rest).length < bigEndian len0 len1 + 2 then none
          else some (4, 2 + bigEndian len0 len1) := if_neg hlong
      simp only [hrange, parseEibdMessage]
      split_ifs with hshort hempty
      · exact ⟨fun _ => rfl, fun first last h => by cases h⟩
      · refine ⟨fun h => (by cases h), fun first last h => ?_⟩
        cases h
        rw [if_pos hempty]
      · refine ⟨fun h => (by cases h), fun first last h => ?_⟩
        cases h
        rw [if_neg hempty]
        exact ⟨_, rfl⟩

/-- The vector is refused, or the range that is copied lies within it in the right order, and the data is
what the length says. -/
def CopiesWellFormed (raw : List UInt8) : Prop :=
  parseEibdMessage raw = .rejected ∨
    ∃ type data, parseEibdMessage raw = .parsed type data ∧ copiedRange raw = some (4, 2 + payloadLen raw) ∧
      4 ≤ 2 + payloadLen raw ∧ 2 + payloadLen raw ≤ raw.length ∧ data.length = payloadLen raw - 2

theorem copiesWellFormed_of_length {raw : List UInt8} (h : raw.length < 4 ∨ 2 ≤ payloadLen raw) :
    CopiesWellFormed raw := by
  obtain ⟨hnone, hsome⟩ := parseEibdMessage_copies raw
  cases hrange : copiedRange raw with
  | none => exact Or.inl (hnone hrange)
  | some range =>
      have hbounds := hrange
      rw [copiedRange] at hbounds
      split_ifs at hbounds with hfour hlong
      obtain rfl := Option.some.inj hbounds
      have hparse := hsome _ _ hrange
      rw [if_neg (by omega)] at hparse
      obtain ⟨type, hparsed⟩ := hparse
      refine Or.inr ⟨type, _, hparsed, hrange, by omega, by omega, ?_⟩
      rw [List.length_drop, List.length_take]
      omega

/-- **The range is well formed exactly if the vector is too short for a header or its length covers the
type.** A length of 0 or 1 passes both size tests, and the end of the range then lies before its beginning. -/
theorem copiesWellFormed_iff (raw : List UInt8) : CopiesWellFormed raw ↔ raw.length < 4 ∨ 2 ≤ payloadLen raw := by
  refine ⟨fun h => ?_, copiesWellFormed_of_length⟩
  by_contra hnot
  have hrange : copiedRange raw = some (4, 2 + payloadLen raw) := by
    rw [copiedRange, if_neg (by omega), if_neg (by omega)]
  have hill := (parseEibdMessage_copies raw).2 _ _ hrange
  rw [if_pos (by omega)] at hill
  rcases h with hrejected | ⟨type, data, hparsed, -⟩
  · rw [hill] at hrejected
    cases hrejected
  · rw [hill] at hparsed
    cases hparsed

/-- A length of zero before a type: the range would end two bytes before it begins. -/
theorem copiedRange_zero_length :
    copiedRange [0, 0, 0, 0x26] = some (4, 2) ∧ parseEibdMessage [0, 0, 0, 0x26] = .illFormedRange := by
  decide

/-- What the extraction hands on is never such a vector: it is as long as its length says. -/
theorem copiesWellFormed_of_extract {buffer message rest : List UInt8}
    (h : tryExtractMessage buffer = some (message, rest)) : CopiesWellFormed message := by
  obtain ⟨-, len0, len1, tail, rfl, htail⟩ := tryExtract_some_iff.mp h
  have hlength : (len0 :: len1 :: tail).length = payloadLen (len0 :: len1 :: tail) + 2 := by
    rw [List.length_cons, List.length_cons, htail, payloadLen]
  exact copiesWellFormed_of_length (by omega)

end KnxdFcgi
