import KnxdFcgi.CacheReader
import KnxdFcgi.SharedGroupCache

/-! What `drain_telegrams` puts into the cache. The cache is there for group values, which are the APDUs
of a response or a write. The filter of the loop is another one: it drops what `parse_apdu` refuses and
what it calls a read, so an APDU whose APCI bits name neither of the three is pushed as well, with the
empty value that `parse_apdu` leaves. -/

namespace KnxdFcgi

open Machine

/-- What a `poll_group_telegram` that returns true leaves in its arguments, and the clock at the push that
may follow. -/
structure Telegram where
  addr : UInt16
  apdu : List UInt8
  time : UInt32

namespace Telegram

/-- The push that `drain_telegrams` makes for a telegram, if any. -/
def pushOf (t : Telegram) : Option Push := (pushedValue t.apdu).map fun value => ⟨t.addr, value, t.time⟩

/-- The pushes that `drain_telegrams` makes for the telegrams it takes. -/
def pushes (telegrams : List Telegram) : List Push := telegrams.filterMap pushOf

def apci (t : Telegram) : UInt8 := t.apdu.getD 1 0 &&& 0xC0

/-- The telegram is a response or a write of a group value. -/
def CarriesValue (t : Telegram) : Prop := 2 ≤ t.apdu.length ∧ (t.apci = 0x40 ∨ t.apci = 0x80)

instance (t : Telegram) : Decidable t.CarriesValue := by
  unfold CarriesValue
  infer_instance

/-- The value in an APDU: the six low bits of its second byte, or the bytes that follow it. -/
def value (t : Telegram) : List UInt8 :=
  if t.apdu.length = 2 then [t.apdu.getD 1 0 &&& 0x3F] else t.apdu.drop 2

/-- The group values among the telegrams, in their order. -/
def groupValues (telegrams : List Telegram) : List Push :=
  (telegrams.filter (·.CarriesValue)).map fun t => ⟨t.addr, t.value, t.time⟩

end Telegram

open Telegram

/-- `drain_telegrams`, for the telegrams that `poll_group_telegram` returns before it returns false: the
cache it leaves and the number it returns. -/
def drainTelegrams : List Telegram → SharedCacheData → SharedCacheData × Nat
  | [], cache => (cache, 0)
  | t :: telegrams, cache =>
      match pushedValue t.apdu with
      | none => drainTelegrams telegrams cache
      | some value =>
          let rest := drainTelegrams telegrams (SharedGroupCache.push cache ⟨t.addr, value, t.time⟩)
          (rest.1, rest.2 + 1)

theorem drainTelegrams_eq (telegrams : List Telegram) (cache : SharedCacheData) :
    drainTelegrams telegrams cache =
      ((pushes telegrams).foldl SharedGroupCache.push cache, (pushes telegrams).length) := by
  induction telegrams generalizing cache with
  | nil => rfl
  | cons t telegrams ih =>
      cases hvalue : pushedValue t.apdu with
      | none =>
          have hpush : t.pushOf = none := by rw [pushOf, hvalue, Option.map_none]
          simp only [drainTelegrams, hvalue, ih, pushes, List.filterMap_cons_none hpush]
      | some value =>
          have hpush : t.pushOf = some ⟨t.addr, value, t.time⟩ := by rw [pushOf, hvalue, Option.map_some]
          simp only [drainTelegrams, hvalue, ih, pushes, List.filterMap_cons_some hpush, List.foldl_cons,
            List.length_cons]

/-- The bits of the APCI leave four cases. -/
theorem apci_cases (b : UInt8) :
    b &&& 0xC0 = 0x00 ∨ b &&& 0xC0 = 0x40 ∨ b &&& 0xC0 = 0x80 ∨ b &&& 0xC0 = 0xC0 := by
  revert b
  decide +kernel

namespace Telegram

/-- What is pushed for a telegram, by its APCI bits. -/
theorem pushOf_cons (addr : UInt16) (b0 b1 : UInt8) (rest : List UInt8) (time : UInt32) :
    pushOf ⟨addr, b0 :: b1 :: rest, time⟩ =
      if b1 &&& 0xC0 = 0x00 then none
      else if b1 &&& 0xC0 = 0xC0 then some ⟨addr, [], time⟩
      else some ⟨addr, if rest = [] then [b1 &&& 0x3F] else rest, time⟩ := by
  unfold pushOf pushedValue parseApdu ApduType.ofByte
  rcases apci_cases b1 with h | h | h | h <;> simp [h]

theorem value_cons (addr : UInt16) (b0 b1 : UInt8) (rest : List UInt8) (time : UInt32) :
    value ⟨addr, b0 :: b1 :: rest, time⟩ = if rest = [] then [b1 &&& 0x3F] else rest := by
  simp [value]

theorem value_ne_nil {t : Telegram} (h : t.CarriesValue) : t.value ≠ [] := by
  unfold value
  split_ifs with htwo
  · simp
  · intro hnil
    have hlong := h.1
    have hshort := List.drop_eq_nil_iff.mp hnil
    omega

/-- Without the fourth value of the APCI bits, what is pushed for a telegram is its group value. -/
theorem pushOf_eq {t : Telegram} (h : 2 ≤ t.apdu.length → t.apci ≠ 0xC0) :
    t.pushOf = if t.CarriesValue then some ⟨t.addr, t.value, t.time⟩ else none := by
  obtain ⟨addr, apdu, time⟩ := t
  match apdu, h with
  | [], _ => rfl
  | [_], _ => rfl
  | b0 :: b1 :: rest, h =>
      have hapci : b1 &&& 0xC0 ≠ 0xC0 := h (by simp)
      rw [pushOf_cons, value_cons]
      rcases apci_cases b1 with hb | hb | hb | hb
      · simp [CarriesValue, apci, hb]
      · simp [CarriesValue, apci, hb]
      · simp [CarriesValue, apci, hb]
      · exact absurd hb hapci

/-- With it, the empty value is pushed. -/
theorem pushOf_other {t : Telegram} (hlong : 2 ≤ t.apdu.length) (hother : t.apci = 0xC0) :
    t.pushOf = some ⟨t.addr, [], t.time⟩ := by
  obtain ⟨addr, apdu, time⟩ := t
  match apdu, hlong, hother with
  | b0 :: b1 :: rest, _, hother =>
      have hapci : b1 &&& 0xC0 = 0xC0 := hother
      rw [pushOf_cons, hapci]
      rfl

theorem groupValues_cons (t : Telegram) (telegrams : List Telegram) :
    groupValues (t :: telegrams) =
      (if t.CarriesValue then [⟨t.addr, t.value, t.time⟩] else []) ++ groupValues telegrams := by
  by_cases h : t.CarriesValue
  · simp [groupValues, h]
  · simp [groupValues, h]

theorem mem_groupValues_value {telegrams : List Telegram} {p : Push} (h : p ∈ groupValues telegrams) :
    p.value ≠ [] := by
  obtain ⟨t, ht, rfl⟩ := List.mem_map.mp h
  exact value_ne_nil (of_decide_eq_true (List.mem_filter.mp ht).2)

theorem pushes_eq {telegrams : List Telegram}
    (h : ∀ t ∈ telegrams, 2 ≤ t.apdu.length → t.apci ≠ 0xC0) : pushes telegrams = groupValues telegrams := by
  induction telegrams with
  | nil => rfl
  | cons t telegrams ih =>
      have hhead := pushOf_eq (h t List.mem_cons_self)
      have htail : pushes telegrams = groupValues telegrams :=
        ih fun t ht => h t (List.mem_cons_of_mem _ ht)
      rw [groupValues_cons, ← htail]
      split_ifs at hhead ⊢
      · exact List.filterMap_cons_some hhead
      · exact List.filterMap_cons_none hhead

/-- **Only group values enter the cache, but for one kind of APDU.** A drain pushes the responses and
writes among its telegrams, in their order and each with a value that is not empty, and leaves the cache
otherwise as it was, if and only if none of the telegrams has both APCI bits set. -/
theorem drain_groupValues_iff (telegrams : List Telegram) :
    (pushes telegrams = groupValues telegrams ∧ (∀ p ∈ pushes telegrams, p.value ≠ []) ∧
        ∀ cache, drainTelegrams telegrams cache =
          ((groupValues telegrams).foldl SharedGroupCache.push cache, (groupValues telegrams).length)) ↔
      ∀ t ∈ telegrams, 2 ≤ t.apdu.length → t.apci ≠ 0xC0 := by
  constructor
  · rintro ⟨-, hvalue, -⟩ t ht hlong hother
    have hpush : ⟨t.addr, [], t.time⟩ ∈ pushes telegrams :=
      List.mem_filterMap.mpr ⟨t, ht, pushOf_other hlong hother⟩
    exact hvalue _ hpush rfl
  · intro h
    have heq := pushes_eq h
    refine ⟨heq, ?_, fun cache => ?_⟩
    · rw [heq]
      exact fun p => mem_groupValues_value
    · rw [drainTelegrams_eq, heq]

/-- The value 1 for 1/1/1, and an APDU of the same address with both APCI bits set. -/
def overwritten : List Telegram := [⟨0x0901, [0x00, 0x81], 5⟩, ⟨0x0901, [0x00, 0xC0], 7⟩]

/-- The second telegram is no group value, and yet replaces the first one's by an empty one. -/
theorem drain_other_overwrites :
    groupValues overwritten = [⟨0x0901, [0x01], 5⟩] ∧
      SharedGroupCache.get (drainTelegrams (overwritten.take 1) {}).1 0x0901 (-1) 7 = some [0x01] ∧
      SharedGroupCache.get (drainTelegrams overwritten {}).1 0x0901 (-1) 7 = some [] := by
  decide

end Telegram

namespace CacheReader

/-- The telegram that an event of the loop takes off the socket, if any. -/
def taken (s : CacheReader) (script : ReaderScript) : Option Telegram :=
  match s.pc with
  | .top => none
  | .draining _ =>
      (s.client.pollGroupTelegram script.poll).2.map fun (addr, apdu) => ⟨addr, apdu, script.time⟩

/-- The telegrams that a run takes. -/
def telegrams (options : CacheReaderOptions) : CacheReader → List ReaderScript → List Telegram
  | _, [] => []
  | s, script :: scripts => (s.taken script).toList ++ telegrams options (s.next options script) scripts

variable {options : CacheReaderOptions} {s : CacheReader}

theorem attemptConnect_journal (script : HandshakeScript) :
    (s.attemptConnect options script).journal = s.journal := by
  unfold attemptConnect
  split
  · rfl
  · split <;> rfl

theorem drain_journal (pushed : Nat) (script : ReaderScript) :
    (s.drain options pushed script).journal = s.journal ++
      pushes ((s.client.pollGroupTelegram script.poll).2.map fun (addr, apdu) =>
        (⟨addr, apdu, script.time⟩ : Telegram)).toList := by
  unfold drain
  generalize s.client.pollGroupTelegram script.poll = result
  obtain ⟨c, telegram⟩ := result
  cases telegram with
  | none => exact (List.append_nil _).symm
  | some telegram =>
      obtain ⟨addr, apdu⟩ := telegram
      cases hvalue : pushedValue apdu with
      | none => simp [hvalue, pushes, pushOf]
      | some value => simp [hvalue, pushes, pushOf]

theorem next_journal (script : ReaderScript) :
    (s.next options script).journal = s.journal ++ pushes (s.taken script).toList := by
  unfold next taken
  cases s.pc with
  | draining pushed => exact drain_journal pushed script
  | top =>
      simp only [Option.toList_none, pushes, List.filterMap_nil, List.append_nil]
      split_ifs
      · cases s.client.waitForActivity script.activity <;> rfl
      · exact attemptConnect_journal script.handshake

/-- A run pushes what draining the telegrams it takes pushes. -/
theorem run_journal (scripts : List ReaderScript) :
    (run (next options) s scripts).journal = s.journal ++ pushes (telegrams options s scripts) := by
  induction scripts generalizing s with
  | nil => simp [telegrams, pushes]
  | cons script scripts ih =>
      rw [run_cons, ih, next_journal, telegrams, pushes, pushes, pushes, List.filterMap_append,
        List.append_assoc]

/-- The cache of a reader that has made its pushes into a fresh one. -/
theorem run_replay (scripts : List ReaderScript) :
    SharedGroupCache.replay (run (next options) (start options) scripts).journal =
      (drainTelegrams (telegrams options (start options) scripts) {}).1 := by
  rw [run_journal, drainTelegrams_eq]
  rfl

end CacheReader
end KnxdFcgi
