import KnxdFcgi.GroupCache
import KnxdFcgi.SharedGroupCache

/-! Which addresses a delta query returns although they were not pushed since the client's position.
An entry keeps only its wrapped position, so an address that has been silent for a whole number of
moduli looks freshly pushed while that position passes again. This is the only way: the law "a delta
has only newer entries" holds of both caches exactly where no subscribed address is in that case. -/

namespace KnxdFcgi

/-- Every address of the delta was pushed after push number `s`. -/
def OnlyNewer (journal : List Push) (s : Nat) (delta : Delta) : Prop :=
  ∀ addr value, (addr, value) ∈ delta.values → ∃ q ∈ journal.drop s, q.addr = addr

/-- The last push of the address is not after push number `s`, but a whole number of moduli brings its
number into the pushes after `s`. -/
def Recurs (journal : List Push) (s : Nat) (addr : UInt16) : Prop :=
  ∃ r p k, LastPush journal addr r p ∧ r ≤ s ∧ s < r + k * kPositionModulus.toNat ∧
    r + k * kPositionModulus.toNat ≤ journal.length

section Delta

variable {journal : List Push} {s : Nat}

/-- For a push that passes the filter, being newer is the same as not recurring. -/
theorem pushed_after_iff_not_recurs {addr : UInt16} {r : Nat} {p : Push}
    (hlast : LastPush journal addr r p)
    (hnew : ∃ k, s < r + k * 100000 ∧ r + k * 100000 ≤ journal.length) :
    (∃ q ∈ journal.drop s, q.addr = addr) ↔ ¬Recurs journal s addr := by
  rw [hlast.pushed_after_iff]
  constructor
  · rintro hlt ⟨r', p', k, hlast', hle, -⟩
    obtain ⟨rfl, -⟩ := hlast.unique hlast'
    omega
  · intro hnot
    by_contra hle
    obtain ⟨k, hlow, hhigh⟩ := hnew
    exact hnot ⟨r, p, k, hlast, Nat.not_lt.mp hle, hlow, hhigh⟩

variable (hs : s ≤ journal.length) (hnear : journal.length < s + kPositionModulus.toNat / 2)
  (hraw : journal.length < 2 ^ 32) (hpos : positionAfter s ≠ 0)

include hs hnear hraw hpos

theorem isNewer_lastPush_iff {addr : UInt16} {r : Nat} {p : Push}
    (hlast : LastPush journal addr r p) :
    isNewer (positionAfter s) (positionAfter journal.length) (positionAfter r) = true ↔
      ∃ k, s < r + k * 100000 ∧ r + k * 100000 ≤ journal.length :=
  isNewer_iff hs hlast.le_length.2 hnear hraw hpos

theorem groupCache_onlyNewer_iff (subscribed : List UInt16) (now : UInt32) :
    OnlyNewer journal s
        ((GroupCache.replay journal).getDelta (positionAfter s) subscribed (-1) now) ↔
      ∀ addr ∈ subscribed, ¬Recurs journal s addr := by
  constructor
  · intro honly addr haddr hrecurs
    obtain ⟨r, p, k, hlast, hle, hlow, hhigh⟩ := hrecurs
    have hnew : ∃ k, s < r + k * 100000 ∧ r + k * 100000 ≤ journal.length := ⟨k, hlow, hhigh⟩
    have hmem := honly addr p.value ((GroupCache.mem_getDelta_iff _ _ _ _ _ _).mpr
      ⟨haddr, r, p, hlast, rfl, (isNewer_lastPush_iff hs hnear hraw hpos hlast).mpr hnew⟩)
    exact (pushed_after_iff_not_recurs hlast hnew).mp hmem ⟨r, p, k, hlast, hle, hlow, hhigh⟩
  · intro hnot addr value hmem
    obtain ⟨haddr, r, p, hlast, -, hnew⟩ := (GroupCache.mem_getDelta_iff _ _ _ _ _ _).mp hmem
    have hnew := (isNewer_lastPush_iff hs hnear hraw hpos hlast).mp hnew
    exact (pushed_after_iff_not_recurs hlast hnew).mpr (hnot addr haddr)

theorem sharedGroupCache_onlyNewer_iff (subscribed : List UInt16) (hsub : ∀ addr ∈ subscribed, addr ≠ 0)
    (now : UInt32) :
    OnlyNewer journal s
        (SharedGroupCache.getDelta (SharedGroupCache.replay journal) (positionAfter s) subscribed (-1) now) ↔
      ∀ addr ∈ subscribed, (SharedGroupCache.stored (SharedGroupCache.replay journal) addr).isSome →
        ¬Recurs journal s addr := by
  constructor
  · intro honly addr haddr hstored hrecurs
    obtain ⟨r, p, k, hlast, hle, hlow, hhigh⟩ := hrecurs
    have hnew : ∃ k, s < r + k * 100000 ∧ r + k * 100000 ≤ journal.length := ⟨k, hlow, hhigh⟩
    have hmem := honly addr (SharedGroupCache.keptValue p)
      ((SharedGroupCache.mem_getDelta_iff (hsub addr haddr) _ _ _ _).mpr ⟨haddr, hstored, r, p, hlast, rfl,
        (isNewer_lastPush_iff hs hnear hraw hpos hlast).mpr hnew⟩)
    exact (pushed_after_iff_not_recurs hlast hnew).mp hmem ⟨r, p, k, hlast, hle, hlow, hhigh⟩
  · intro hnot addr value hmem
    have hzero := hsub addr (SharedGroupCache.mem_getDelta_subscribed hmem)
    obtain ⟨haddr, hstored, r, p, hlast, -, hnew⟩ :=
      (SharedGroupCache.mem_getDelta_iff hzero _ _ _ _).mp hmem
    have hnew := (isNewer_lastPush_iff hs hnear hraw hpos hlast).mp hnew
    exact (pushed_after_iff_not_recurs hlast hnew).mpr (hnot addr haddr hstored)

end Delta

/-- **When a delta has only newer entries.** After fewer than `2^32` pushes, less than half a modulus
of them after the client's (non-zero) position, a delta query of either cache returns only addresses
pushed since, exactly if no subscribed address (for the shared cache: none that has a slot) recurs. -/
theorem getDelta_onlyNewer_iff (journal : List Push) (s : Nat) (hs : s ≤ journal.length)
    (hnear : journal.length - s < kPositionModulus.toNat / 2) (hraw : journal.length < 2 ^ 32)
    (hpos : GroupCache.position (GroupCache.replay (journal.take s)) ≠ 0)
    (subscribed : List UInt16) (hsub : ∀ addr ∈ subscribed, addr ≠ 0) (now : UInt32) :
    (OnlyNewer journal s ((GroupCache.replay journal).getDelta
        (GroupCache.position (GroupCache.replay (journal.take s))) subscribed (-1) now) ↔
      ∀ addr ∈ subscribed, ¬Recurs journal s addr) ∧
    (OnlyNewer journal s (SharedGroupCache.getDelta (SharedGroupCache.replay journal)
        (SharedGroupCache.position (SharedGroupCache.replay (journal.take s))) subscribed (-1) now) ↔
      ∀ addr ∈ subscribed, (SharedGroupCache.stored (SharedGroupCache.replay journal) addr).isSome →
        ¬Recurs journal s addr) := by
  have hlen : (journal.take s).length = s := List.length_take_of_le hs
  rw [GroupCache.replay_position, hlen] at hpos ⊢
  rw [SharedGroupCache.replay_position, hlen]
  have hnear : journal.length < s + kPositionModulus.toNat / 2 := by omega
  exact ⟨groupCache_onlyNewer_iff hs hnear hraw hpos subscribed now,
    sharedGroupCache_onlyNewer_iff hs hnear hraw hpos subscribed hsub now⟩

/-- The hypotheses are met by a client that has not seen the second of two pushes, and is told its address. -/
theorem getDelta_onlyNewer_second :
    let journal : List Push := [⟨2, [0x01], 0⟩, ⟨1, [0x2a], 0⟩]
    let delta := SharedGroupCache.getDelta (SharedGroupCache.replay journal)
      (SharedGroupCache.position (SharedGroupCache.replay (journal.take 1))) [1, 2] (-1) 0
    delta.values = [(1, [0x2a])] ∧ OnlyNewer journal 1 delta := by
  refine ⟨by decide, (getDelta_onlyNewer_iff [⟨2, [0x01], 0⟩, ⟨1, [0x2a], 0⟩] 1 (by decide) (by decide) (by decide)
    (by decide) [1, 2] (by simp) 0).2.mpr ?_⟩
  rintro addr - - ⟨r, p, k, hlast, hle, hlow, hhigh⟩
  have hr := hlast.le_length
  have hmod : kPositionModulus.toNat = 100000 := rfl
  simp only [List.length_cons, List.length_nil, hmod] at hr hlow hhigh
  omega

/-- Address 1 is pushed once, second; then a whole modulus of pushes of address 2 follows. -/
def staleJournal : List Push :=
  [⟨2, [0x01], 0⟩, ⟨1, [0x2a], 0⟩] ++ List.replicate 100000 ⟨2, [0x01], 0⟩

theorem staleJournal_length : staleJournal.length = 100002 := by
  rw [staleJournal, List.length_append, List.length_replicate]
  rfl

theorem staleJournal_recurs : Recurs staleJournal 100001 1 := by
  have hlast : LastPush staleJournal 1 2 ⟨1, [0x2a], 0⟩ :=
    LastPush.append (lastPush_snoc [⟨2, [0x01], 0⟩] ⟨1, [0x2a], 0⟩) fun q hq => by
      rw [List.eq_of_mem_replicate hq]
      decide
  refine ⟨2, _, 1, hlast, by decide, by decide, ?_⟩
  rw [staleJournal_length]
  decide

theorem staleJournal_stored :
    (SharedGroupCache.stored (SharedGroupCache.replay staleJournal) 1).isSome := by
  rw [staleJournal, SharedGroupCache.stored_append_of_ne _ (by decide) fun q hq => by
    rw [List.eq_of_mem_replicate hq]
    decide]
  have hslot : SharedGroupCache.findSlot (SharedGroupCache.replay [⟨2, [0x01], 0⟩]) 1 = some 1 := by
    decide
  rw [show [(⟨2, [0x01], 0⟩ : Push), ⟨1, [0x2a], 0⟩] = [⟨2, [0x01], 0⟩] ++ [⟨1, [0x2a], 0⟩] from rfl,
    SharedGroupCache.stored_snoc_self [⟨2, [0x01], 0⟩] ⟨1, [0x2a], 0⟩ hslot]
  rfl

/-- The delta after the last push alone returns address 1 again, whose value has been unchanged for
the whole modulus. -/
theorem staleJournal_not_onlyNewer :
    staleJournal.length = 100002 ∧
    GroupCache.position (GroupCache.replay (staleJournal.take 100001)) ≠ 0 ∧
    ¬OnlyNewer staleJournal 100001 ((GroupCache.replay staleJournal).getDelta
        (GroupCache.position (GroupCache.replay (staleJournal.take 100001))) [1] (-1) 0) ∧
    SharedGroupCache.position (SharedGroupCache.replay (staleJournal.take 100001)) ≠ 0 ∧
    ¬OnlyNewer staleJournal 100001 (SharedGroupCache.getDelta (SharedGroupCache.replay staleJournal)
        (SharedGroupCache.position (SharedGroupCache.replay (staleJournal.take 100001))) [1] (-1) 0) := by
  have hlen := staleJournal_length
  have htake : (staleJournal.take 100001).length = 100001 := by
    rw [List.length_take, hlen]
    rfl
  rw [GroupCache.replay_position, SharedGroupCache.replay_position, htake]
  have hs : 100001 ≤ staleJournal.length := by omega
  have hnear : staleJournal.length < 100001 + kPositionModulus.toNat / 2 := by
    rw [hlen]
    decide
  have hraw : staleJournal.length < 2 ^ 32 := by
    rw [hlen]
    decide
  have hpos : positionAfter 100001 ≠ 0 := by decide
  rw [groupCache_onlyNewer_iff hs hnear hraw hpos,
    sharedGroupCache_onlyNewer_iff hs hnear hraw hpos [1] (by simp)]
  exact ⟨hlen, hpos, fun h => h 1 (List.mem_singleton_self 1) staleJournal_recurs, hpos,
    fun h => h 1 (List.mem_singleton_self 1) staleJournal_stored staleJournal_recurs⟩

end KnxdFcgi
