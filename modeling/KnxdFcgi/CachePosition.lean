import Mathlib

/-! Positions of the group caches. Both caches count pushes in a `uint32_t`, hand the count out
reduced modulo `kPositionModulus`, and store the reduced count with every entry; a delta query compares
the client's position, the current one and the entry's by their modular distances. The tests that the
two `get_delta` functions share are stated here once. The counter wraps at `2^32`, which is no multiple
of the modulus, so positions jump by `2^32 % kPositionModulus` there; less than half a modulus of pushes
still keeps the distances in the order of the pushes. -/

namespace KnxdFcgi

/-- `kPositionModulus`: the client-facing index wraps here. -/
def kPositionModulus : UInt32 := 100000

/-- The index a raw push counter stands for. -/
def wrappedPosition (raw : UInt32) : UInt32 := raw % kPositionModulus

/-- The index after `n` pushes; the raw counter itself wraps at `2^32`. -/
def positionAfter (n : Nat) : UInt32 := wrappedPosition (UInt32.ofNat n)

/-- `(reached - since_pos + kPositionModulus) % kPositionModulus` in `uint32_t` arithmetic. -/
def modularDistance (sincePos reached : UInt32) : UInt32 :=
  (reached - sincePos + kPositionModulus) % kPositionModulus

/-- The client is half the modulus or more away: it is taken to be from an earlier epoch. -/
def epochMismatch (sincePos position : UInt32) : Bool :=
  sincePos != 0 && decide (kPositionModulus / 2 ≤ modularDistance sincePos position)

/-- The position filter of `get_delta` for one entry. -/
def isNewer (sincePos position pushedAt : UInt32) : Bool :=
  if epochMismatch sincePos position then true
  else if modularDistance sincePos pushedAt > modularDistance sincePos position then false
  else if sincePos != 0 && modularDistance sincePos pushedAt == 0 then false
  else true

/-- The age filter of `get_delta`: a negative `max_age_sec` switches it off. -/
def tooOld (maxAgeSec : Int) (now timestamp : UInt32) : Bool :=
  decide (0 ≤ maxAgeSec) && decide (UInt32.ofNat maxAgeSec.toNat ≤ now - timestamp)

@[simp] theorem tooOld_neg_one (now timestamp : UInt32) : tooOld (-1) now timestamp = false := rfl

theorem positionAfter_toNat (n : Nat) : (positionAfter n).toNat = n % 4294967296 % 100000 := by
  rw [positionAfter, wrappedPosition, kPositionModulus, UInt32.toNat_mod, UInt32.toNat_ofNat']
  rfl

theorem wrappedPosition_succ (n : Nat) :
    wrappedPosition (UInt32.ofNat n + 1) = positionAfter (n + 1) := by
  rw [positionAfter, UInt32.ofNat_add]
  rfl

theorem modularDistance_toNat {sincePos reached : UInt32} (hsince : sincePos.toNat < 100000)
    (hreached : reached.toNat < 100000) :
    (modularDistance sincePos reached).toNat = (reached.toNat + 100000 - sincePos.toNat) % 100000 := by
  have hmod : kPositionModulus.toNat = 100000 := rfl
  rw [modularDistance, UInt32.toNat_mod, UInt32.toNat_add, UInt32.toNat_sub, hmod]
  omega

/-- The modular distance between the positions after `m` and after `n` pushes. -/
def pushDistance (m n : Nat) : Nat := (modularDistance (positionAfter m) (positionAfter n)).toNat

theorem positionAfter_lt (n : Nat) : (positionAfter n).toNat < 100000 := by
  rw [positionAfter_toNat]
  omega

theorem pushDistance_eq (m n : Nat) :
    pushDistance m n =
      (n % 4294967296 % 100000 + 100000 - m % 4294967296 % 100000) % 100000 := by
  rw [pushDistance, modularDistance_toNat (positionAfter_lt m) (positionAfter_lt n),
    positionAfter_toNat, positionAfter_toNat]

/-- Within half a modulus the distance counts the pushes, plus one constant jump once the raw counter
has wrapped in between. -/
theorem pushDistance_near {m n : Nat} (hle : m ≤ n) (hnear : n < m + 50000) :
    (pushDistance m n = n - m ∧ n / 4294967296 = m / 4294967296) ∨
      (pushDistance m n = n - m + 32704 ∧ n / 4294967296 = m / 4294967296 + 1) := by
  rw [pushDistance_eq]
  have hraw : (n % 4294967296 = m % 4294967296 + (n - m) ∧ n / 4294967296 = m / 4294967296) ∨
      (n % 4294967296 + 4294967296 = m % 4294967296 + (n - m) ∧
        n / 4294967296 = m / 4294967296 + 1) := by
    omega
  rcases hraw with ⟨hraw, hepoch⟩ | ⟨hraw, hepoch⟩
  · refine Or.inl ⟨?_, hepoch⟩
    rw [hraw]
    generalize m % 4294967296 = raw
    omega
  · refine Or.inr ⟨?_, hepoch⟩
    have hraw' : m % 4294967296 < 4294967296 := Nat.mod_lt _ (by decide)
    generalize m % 4294967296 = raw at *
    generalize n % 4294967296 = raw' at *
    omega

/-- Distances from one moment are strictly increasing for half a modulus of pushes, also across the
wrap of the raw counter. -/
theorem pushDistance_lt {s m n : Nat} (hsm : s ≤ m) (hmn : m < n) (hnear : n < s + 50000) :
    pushDistance s m < pushDistance s n := by
  have hdiv : m / 4294967296 ≤ n / 4294967296 := Nat.div_le_div_right hmn.le
  rcases pushDistance_near hsm (hmn.trans hnear) with ⟨hm, hm'⟩ | ⟨hm, hm'⟩ <;>
    rcases pushDistance_near (hsm.trans hmn.le) hnear with ⟨hn, hn'⟩ | ⟨hn, hn'⟩ <;>
    omega

theorem positionAfter_inj_near {s m n : Nat} (hsm : s ≤ m) (hsn : s ≤ n) (hm : m < s + 50000)
    (hn : n < s + 50000) (heq : positionAfter m = positionAfter n) : m = n := by
  have hdist : pushDistance s m = pushDistance s n := by rw [pushDistance, pushDistance, heq]
  rcases Nat.lt_trichotomy m n with hlt | heq | hgt
  · have := pushDistance_lt hsm hlt hn
    omega
  · exact heq
  · have := pushDistance_lt hsn hgt hm
    omega

theorem epochMismatch_positionAfter (s c : Nat) :
    epochMismatch (positionAfter s) (positionAfter c) = true ↔
      positionAfter s ≠ 0 ∧ 50000 ≤ pushDistance s c := by
  rw [epochMismatch, Bool.and_eq_true, bne_iff_ne, decide_eq_true_eq, UInt32.le_iff_toNat_le]
  rfl

theorem isNewer_positionAfter (s c r : Nat) :
    isNewer (positionAfter s) (positionAfter c) (positionAfter r) = true ↔
      (positionAfter s ≠ 0 ∧ 50000 ≤ pushDistance s c) ∨
        (pushDistance s r ≤ pushDistance s c ∧ (positionAfter s ≠ 0 → pushDistance s r ≠ 0)) := by
  unfold isNewer
  have hcmp : modularDistance (positionAfter s) (positionAfter r) >
      modularDistance (positionAfter s) (positionAfter c) ↔ pushDistance s c < pushDistance s r :=
    UInt32.lt_iff_toNat_lt
  have hzero : modularDistance (positionAfter s) (positionAfter r) = 0 ↔ pushDistance s r = 0 :=
    UInt32.toNat_inj.symm
  by_cases hmis : epochMismatch (positionAfter s) (positionAfter c) = true
  · rw [if_pos hmis]
    exact iff_of_true rfl (Or.inl ((epochMismatch_positionAfter s c).mp hmis))
  · rw [if_neg hmis]
    have hnot := fun h => hmis ((epochMismatch_positionAfter s c).mpr h)
    rw [or_iff_right hnot]
    by_cases hgt : pushDistance s c < pushDistance s r
    · rw [if_pos (hcmp.mpr hgt)]
      exact iff_of_false Bool.false_ne_true (fun h => absurd h.1 (Nat.not_le.mpr hgt))
    · rw [if_neg (fun h => hgt (hcmp.mp h))]
      by_cases hold : positionAfter s ≠ 0 ∧ pushDistance s r = 0
      · have htest : (positionAfter s != 0 &&
            modularDistance (positionAfter s) (positionAfter r) == 0) = true := by
          rw [Bool.and_eq_true, bne_iff_ne, beq_iff_eq, hzero]
          exact hold
        rw [if_pos htest]
        exact iff_of_false Bool.false_ne_true (fun h => h.2 hold.1 hold.2)
      · have htest : ¬(positionAfter s != 0 &&
            modularDistance (positionAfter s) (positionAfter r) == 0) = true := by
          rw [Bool.and_eq_true, bne_iff_ne, beq_iff_eq, hzero]
          exact hold
        rw [if_neg htest]
        exact iff_of_true rfl ⟨Nat.not_lt.mp hgt, fun hs hr => hold ⟨hs, hr⟩⟩

/-- **No push is filtered out.** An entry pushed after the client's position passes, as long as less
than half a modulus of pushes lie between the client's position and the query: either it lies within
the distance of the query, or the distance itself asks for a full refresh. -/
theorem isNewer_of_lt {s r c : Nat} (hsr : s < r) (hrc : r ≤ c) (hnear : c < s + 50000) :
    isNewer (positionAfter s) (positionAfter c) (positionAfter r) = true := by
  rw [isNewer_positionAfter]
  refine Or.inr ⟨?_, fun _ => ?_⟩
  · rcases Nat.lt_or_eq_of_le hrc with hlt | rfl
    · exact (pushDistance_lt hsr.le hlt hnear).le
    · exact le_rfl
  · have := pushDistance_lt le_rfl hsr (hrc.trans_lt hnear)
    omega

/-- **Which old pushes pass as new.** Below `2^32` pushes the filter cannot tell a push from one a
whole number of moduli later. -/
theorem isNewer_iff {s r c : Nat} (hsc : s ≤ c) (hrc : r ≤ c) (hnear : c < s + 50000)
    (hraw : c < 4294967296) (hs : positionAfter s ≠ 0) :
    isNewer (positionAfter s) (positionAfter c) (positionAfter r) = true ↔
      ∃ k, s < r + k * 100000 ∧ r + k * 100000 ≤ c := by
  have hc : pushDistance s c = c - s := by
    rcases pushDistance_near hsc hnear with ⟨h, -⟩ | ⟨-, h⟩ <;> omega
  rw [isNewer_positionAfter, hc, pushDistance_eq, Nat.mod_eq_of_lt (show s < 4294967296 by omega),
    Nat.mod_eq_of_lt (show r < 4294967296 by omega)]
  constructor
  · rintro (⟨-, h⟩ | ⟨hle, hne⟩)
    · omega
    · have hne := hne hs
      refine ⟨((r % 100000 + 100000 - s % 100000) % 100000 + s - r) / 100000, ?_⟩
      omega
  · rintro ⟨k, hlow, hhigh⟩
    right
    constructor <;> omega

end KnxdFcgi
