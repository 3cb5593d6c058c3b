import KnxdFcgi.GroupCache
import KnxdFcgi.SharedGroupCache

/-! The numbers of the two caches at their edges. The position is the count of pushes only as long as the
`uint32_t` counter does not wrap; the distance from an index is a residue only as long as the index is at
most one modulus above what it is compared with; and whole seconds, compared strictly, take a value for
older than it is. In each case the exact condition is stated for both caches. -/

namespace KnxdFcgi

theorem positionAfter_succ_iff (n : Nat) :
    (positionAfter (n + 1)).toNat = ((positionAfter n).toNat + 1) % 100000 ↔ ¬4294967296 ∣ n + 1 := by
  rw [positionAfter_toNat, positionAfter_toNat]
  by_cases hwrap : 4294967296 ∣ n + 1
  · have hlast : n % 4294967296 = 4294967295 := by omega
    rw [Nat.mod_eq_zero_of_dvd hwrap, hlast]
    exact iff_of_false (by decide) (not_not_intro hwrap)
  · have hnext : (n + 1) % 4294967296 = n % 4294967296 + 1 := by omega
    rw [hnext, Nat.mod_add_mod]
    exact iff_of_true rfl hwrap

/-- Less than a modulus of pushes is counted exactly if the raw counter has not wrapped in between. -/
theorem pushDistance_eq_sub_iff {m n : Nat} (hle : m ≤ n) (hnear : n < m + 100000) :
    pushDistance m n = n - m ↔ m / 4294967296 = n / 4294967296 := by
  rw [pushDistance_eq]
  have hraw : (n % 4294967296 = m % 4294967296 + (n - m) ∧ n / 4294967296 = m / 4294967296) ∨
      (n % 4294967296 + 4294967296 = m % 4294967296 + (n - m) ∧ n / 4294967296 = m / 4294967296 + 1) := by
    omega
  have hm : m % 4294967296 < 4294967296 := Nat.mod_lt _ (by decide)
  rcases hraw with ⟨hraw, hepoch⟩ | ⟨hraw, hepoch⟩
  · rw [hraw]
    generalize m % 4294967296 = raw
    omega
  · generalize m % 4294967296 = raw at *
    generalize n % 4294967296 = raw' at *
    omega

/-- One push counts: the position goes up by one modulo `kPositionModulus`, and the entry that the push
has left, if it found a place, is marked with the new position. -/
def CountsPush (before after : UInt32) (pushedAt : Option UInt32) : Prop :=
  after.toNat = (before.toNat + 1) % kPositionModulus.toNat ∧ ∀ mark, pushedAt = some mark → mark = after

theorem countsPush_iff {n : Nat} {pushedAt : Option UInt32}
    (hmark : ∀ mark, pushedAt = some mark → mark = positionAfter (n + 1)) :
    CountsPush (positionAfter n) (positionAfter (n + 1)) pushedAt ↔ ¬2 ^ 32 ∣ n + 1 :=
  (and_iff_left hmark).trans (positionAfter_succ_iff n)

theorem SharedGroupCache.countsPush_snoc_iff (journal : List Push) (p : Push) :
    CountsPush (position (replay journal)) (position (replay (journal ++ [p])))
        ((stored (replay (journal ++ [p])) p.addr).map SharedCacheEntry.pushedAt) ↔
      ¬2 ^ 32 ∣ journal.length + 1 := by
  rw [replay_position, replay_position, List.length_append]
  apply countsPush_iff
  cases hslot : findSlot (replay journal) p.addr with
  | none =>
      rw [stored_of_full (findSlot_append_none hslot [p])]
      simp
  | some slot =>
      rw [stored_snoc_self journal p hslot]
      rintro mark ⟨⟩
      rfl

theorem GroupCache.countsPush_snoc_iff (journal : List Push) (p : Push) :
    CountsPush (replay journal).position (replay (journal ++ [p])).position
        (((replay (journal ++ [p])).entries p.addr).map GroupCacheEntry.pushedAt) ↔
      ¬2 ^ 32 ∣ journal.length + 1 := by
  rw [replay_position, replay_position, List.length_append,
    (replay_entries _ _ _).mpr ⟨_, p, lastPush_snoc journal p, rfl⟩]
  apply countsPush_iff
  rintro mark ⟨⟩
  rfl

/-- **The position counts the pushes up to the wrap of the raw counter, and not across it**, for both
caches: a push counts exactly if it does not bring the number of pushes to a multiple of `2^32`, and a
distance below the modulus is the number of pushes exactly if no such multiple lies between. -/
theorem position_counts_iff (journal : List Push) :
    (∀ p : Push,
      (CountsPush (SharedGroupCache.position (SharedGroupCache.replay journal))
          (SharedGroupCache.position (SharedGroupCache.replay (journal ++ [p])))
          ((SharedGroupCache.stored (SharedGroupCache.replay (journal ++ [p])) p.addr).map
            SharedCacheEntry.pushedAt) ↔ ¬2 ^ 32 ∣ journal.length + 1) ∧
      (CountsPush (GroupCache.replay journal).position (GroupCache.replay (journal ++ [p])).position
          (((GroupCache.replay (journal ++ [p])).entries p.addr).map GroupCacheEntry.pushedAt) ↔
        ¬2 ^ 32 ∣ journal.length + 1)) ∧
    ∀ more : List Push, more.length < kPositionModulus.toNat →
      ((modularDistance (SharedGroupCache.position (SharedGroupCache.replay journal))
          (SharedGroupCache.position (SharedGroupCache.replay (journal ++ more)))).toNat = more.length ↔
        journal.length / 2 ^ 32 = (journal.length + more.length) / 2 ^ 32) ∧
      ((modularDistance (GroupCache.replay journal).position
          (GroupCache.replay (journal ++ more)).position).toNat = more.length ↔
        journal.length / 2 ^ 32 = (journal.length + more.length) / 2 ^ 32) := by
  refine ⟨fun p => ⟨SharedGroupCache.countsPush_snoc_iff journal p, GroupCache.countsPush_snoc_iff journal p⟩,
    fun more hmore => ?_⟩
  have hdistance := pushDistance_eq_sub_iff (Nat.le_add_right journal.length more.length)
    (Nat.add_lt_add_left (show more.length < 100000 from hmore) journal.length)
  rw [Nat.add_sub_cancel_left] at hdistance
  rw [SharedGroupCache.replay_position, SharedGroupCache.replay_position, GroupCache.replay_position,
    GroupCache.replay_position, List.length_append]
  exact ⟨hdistance, hdistance⟩

/-- The push that brings the raw counter back to zero: the position goes from 67295 to 0. -/
theorem position_jumps_at_wrap : ∃ (journal : List Push) (p : Push), journal.length + 1 = 2 ^ 32 ∧
    (SharedGroupCache.position (SharedGroupCache.replay journal)).toNat = 67295 ∧
    (SharedGroupCache.position (SharedGroupCache.replay (journal ++ [p]))).toNat = 0 ∧
    (GroupCache.replay journal).position.toNat = 67295 ∧
    (GroupCache.replay (journal ++ [p])).position.toNat = 0 ∧
    (modularDistance (SharedGroupCache.position (SharedGroupCache.replay journal))
      (SharedGroupCache.position (SharedGroupCache.replay (journal ++ [p])))).toNat = 32705 := by
  obtain ⟨journal, hlen⟩ : ∃ journal : List Push, journal.length = 4294967295 :=
    ⟨List.replicate 4294967295 ⟨1, [], 0⟩, List.length_replicate⟩
  refine ⟨journal, ⟨1, [], 0⟩, by rw [hlen]; rfl, ?_⟩
  rw [SharedGroupCache.replay_position, SharedGroupCache.replay_position, GroupCache.replay_position,
    GroupCache.replay_position, List.length_append, hlen]
  decide

/-! ### Indices of clients -/

/-- The residue of `reached - since_pos` that `get_delta` is after. -/
def residue (sincePos reached : UInt32) : Nat :=
  (((reached.toNat : Int) - sincePos.toNat) % (kPositionModulus.toNat : Int)).toNat

theorem residue_cast (sincePos reached : UInt32) :
    (residue sincePos reached : Int) = ((reached.toNat : Int) - sincePos.toNat) % 100000 :=
  Int.toNat_of_nonneg (Int.emod_nonneg _ (by decide))

/-- Only one modulus is added before the reduction, so an index that lies further above takes the
subtraction through `2^32`, which is no multiple of the modulus. -/
theorem modularDistance_eq_residue_iff {sincePos reached : UInt32} (hsince : sincePos.toNat < 2 ^ 31)
    (hreached : reached.toNat < 100000) :
    (modularDistance sincePos reached).toNat = residue sincePos reached ↔
      sincePos.toNat ≤ reached.toNat + 100000 := by
  have hmod : kPositionModulus.toNat = 100000 := rfl
  have hdistance : (modularDistance sincePos reached).toNat =
      ((2 ^ 32 - sincePos.toNat + reached.toNat) % 2 ^ 32 + 100000) % 2 ^ 32 % 100000 := by
    rw [modularDistance, UInt32.toNat_mod, UInt32.toNat_add, UInt32.toNat_sub, hmod]
  have hcast := residue_cast sincePos reached
  rw [hdistance]
  generalize residue sincePos reached = residue at *
  generalize sincePos.toNat = since at *
  generalize reached.toNat = reached at *
  by_cases hle : since ≤ reached + 100000
  · have hvalue : ((2 ^ 32 - since + reached) % 2 ^ 32 + 100000) % 2 ^ 32 = reached + 100000 - since := by
      omega
    rw [hvalue]
    exact iff_of_true (by omega) hle
  · have hvalue : ((2 ^ 32 - since + reached) % 2 ^ 32 + 100000) % 2 ^ 32 =
        2 ^ 32 + (reached + 100000) - since := by
      omega
    have hapart : ((2 ^ 32 + (reached + 100000) - since : Nat) : Int) - ((reached : Int) - since) =
        2 ^ 32 + 100000 := by
      clear hvalue hcast
      omega
    rw [hvalue]
    refine iff_of_false (fun heq => ?_) hle
    have hresidues : ((2 ^ 32 + (reached + 100000) - since : Nat) : Int) % 100000 =
        ((reached : Int) - since) % 100000 := by
      rw [← hcast, ← heq]
      exact (Int.natCast_mod _ _).symm
    rw [Int.emod_eq_emod_iff_emod_sub_eq_zero, hapart] at hresidues
    exact absurd hresidues (by decide)

theorem residue_mod (sincePos reached : UInt32) :
    residue (sincePos % kPositionModulus) reached = residue sincePos reached := by
  have hmod : kPositionModulus.toNat = 100000 := rfl
  rw [residue, residue, UInt32.toNat_mod, hmod]
  omega

/-- An index above the modulus that is still near counts like its residue. -/
theorem modularDistance_mod {sincePos reached : UInt32} (hsince : sincePos.toNat < 2 ^ 31)
    (hreached : reached.toNat < 100000) (hnear : sincePos.toNat ≤ reached.toNat + 100000) :
    modularDistance sincePos reached = modularDistance (sincePos % kPositionModulus) reached := by
  have hmod : (sincePos % kPositionModulus).toNat = sincePos.toNat % 100000 := UInt32.toNat_mod _ _
  apply UInt32.toNat_inj.mp
  rw [(modularDistance_eq_residue_iff hsince hreached).mpr hnear,
    (modularDistance_eq_residue_iff (by omega) hreached).mpr (by omega), residue_mod]

theorem isNewer_mod {sincePos position pushedAt : UInt32} (hsince : sincePos.toNat < 2 ^ 31)
    (hzero : sincePos % kPositionModulus ≠ 0) (hposition : position.toNat < 100000)
    (hpushed : pushedAt.toNat < 100000) (hnear : sincePos.toNat ≤ position.toNat + 100000)
    (hnear' : sincePos.toNat ≤ pushedAt.toNat + 100000) :
    isNewer sincePos position pushedAt = isNewer (sincePos % kPositionModulus) position pushedAt := by
  have hne : sincePos ≠ 0 := by
    rintro rfl
    exact hzero rfl
  have htest : (sincePos != 0) = true := bne_iff_ne.mpr hne
  have htest' : (sincePos % kPositionModulus != 0) = true := bne_iff_ne.mpr hzero
  rw [isNewer, isNewer, epochMismatch, epochMismatch, htest, htest',
    modularDistance_mod hsince hposition hnear, modularDistance_mod hsince hpushed hnear']

/-- The index is compared as its residue: with the position, and with every mark. -/
def ComparesResidues (sincePos position : UInt32) (marks : Set UInt32) : Prop :=
  (modularDistance sincePos position).toNat = residue sincePos position ∧
    ∀ mark ∈ marks, (modularDistance sincePos mark).toNat = residue sincePos mark

/-- The index lies at most one modulus above the position and above every mark. -/
def NearIndex (sincePos position : UInt32) (marks : Set UInt32) : Prop :=
  sincePos.toNat ≤ position.toNat + kPositionModulus.toNat ∧
    ∀ mark ∈ marks, sincePos.toNat ≤ mark.toNat + kPositionModulus.toNat

theorem comparesResidues_iff {sincePos position : UInt32} {marks : Set UInt32}
    (hsince : sincePos.toNat < 2 ^ 31) (hposition : position.toNat < 100000)
    (hmarks : ∀ mark ∈ marks, mark.toNat < 100000) :
    ComparesResidues sincePos position marks ↔ NearIndex sincePos position marks :=
  and_congr (modularDistance_eq_residue_iff hsince hposition)
    (forall₂_congr fun mark hmark => modularDistance_eq_residue_iff hsince (hmarks mark hmark))

namespace SharedGroupCache

theorem replay_pushedAt_lt (journal : List Push) (slot : Fin kSharedCacheCapacity) :
    ((replay journal).entries slot).pushedAt.toNat < 100000 := by
  induction journal using List.reverseRecOn with
  | nil => exact (by decide : (0 : UInt32).toNat < 100000)
  | append_singleton journal p ih =>
      rw [replay_snoc_entries, Probing.Layout.insert]
      cases layout.find (replay journal).entries p.addr with
      | none => exact ih
      | some found =>
          by_cases hslot : slot = found
          · subst hslot
            simp only [Function.update_self]
            exact positionAfter_lt _
          · simp only [Function.update_of_ne hslot]
            exact ih

/-- The marks that a query of the addresses compares the index with. -/
def marks (d : SharedCacheData) (subscribed : List UInt16) : Set UInt32 :=
  {mark | ∃ addr ∈ subscribed, ∃ e, stored d addr = some e ∧ e.pushedAt = mark}

theorem marks_lt {journal : List Push} {subscribed : List UInt16} :
    ∀ mark ∈ marks (replay journal) subscribed, mark.toNat < 100000 := by
  rintro mark ⟨addr, -, e, he, rfl⟩
  obtain ⟨-, slot, rfl⟩ := Probing.Layout.lookup_some_mem he
  exact replay_pushedAt_lt journal slot

theorem getDelta_mod {journal : List Push} {subscribed : List UInt16} {sincePos : UInt32}
    (hsince : sincePos.toNat < 2 ^ 31) (hzero : sincePos % kPositionModulus ≠ 0)
    (hnear : NearIndex sincePos (position (replay journal)) (marks (replay journal) subscribed))
    (maxAgeSec : Int) (now : UInt32) :
    getDelta (replay journal) sincePos subscribed maxAgeSec now =
      getDelta (replay journal) (sincePos % kPositionModulus) subscribed maxAgeSec now := by
  have hposition : (position (replay journal)).toNat < 100000 := by
    rw [replay_position]
    exact positionAfter_lt _
  simp only [getDelta, Delta.mk.injEq, and_true]
  apply List.filterMap_congr
  intro addr haddr
  rw [deltaValue_eq, deltaValue_eq]
  cases he : stored (replay journal) addr with
  | none => rfl
  | some e =>
      have hmark : e.pushedAt ∈ marks (replay journal) subscribed := ⟨addr, haddr, e, he, rfl⟩
      simp only [isNewer_mod hsince hzero hposition (marks_lt _ hmark) hnear.1 (hnear.2 _ hmark)]

end SharedGroupCache

namespace GroupCache

def marks (cache : GroupCache) (subscribed : List UInt16) : Set UInt32 :=
  {mark | ∃ addr ∈ subscribed, ∃ e, cache.entries addr = some e ∧ e.pushedAt = mark}

theorem marks_lt {journal : List Push} {subscribed : List UInt16} :
    ∀ mark ∈ (replay journal).marks subscribed, mark.toNat < 100000 := by
  rintro mark ⟨addr, -, e, he, rfl⟩
  obtain ⟨r, p, -, rfl⟩ := (replay_entries journal addr e).mp he
  exact positionAfter_lt r

theorem getDelta_mod {journal : List Push} {subscribed : List UInt16} {sincePos : UInt32}
    (hsince : sincePos.toNat < 2 ^ 31) (hzero : sincePos % kPositionModulus ≠ 0)
    (hnear : NearIndex sincePos (replay journal).position ((replay journal).marks subscribed))
    (maxAgeSec : Int) (now : UInt32) :
    (replay journal).getDelta sincePos subscribed maxAgeSec now =
      (replay journal).getDelta (sincePos % kPositionModulus) subscribed maxAgeSec now := by
  have hposition : (replay journal).position.toNat < 100000 := by
    rw [replay_position]
    exact positionAfter_lt _
  simp only [getDelta, Delta.mk.injEq, and_true]
  apply List.filterMap_congr
  intro addr haddr
  unfold deltaValue
  cases he : (replay journal).entries addr with
  | none => rfl
  | some e =>
      have hmark : e.pushedAt ∈ (replay journal).marks subscribed := ⟨addr, haddr, e, he, rfl⟩
      simp only [isNewer_mod hsince hzero hposition (marks_lt _ hmark) hnear.1 (hnear.2 _ hmark)]

end GroupCache

/-- **An index is compared modulo `kPositionModulus` exactly if it is near**: at most one modulus above the
position and above the mark of every subscribed entry that is stored. Then the answer is the one for its
residue. -/
theorem getDelta_residue_iff (journal : List Push) (subscribed : List UInt16) (sincePos : UInt32)
    (hlt : sincePos.toNat < 2 ^ 31) (hzero : sincePos % kPositionModulus ≠ 0) (maxAgeSec : Int) (now : UInt32) :
    (SharedGroupCache.getDelta (SharedGroupCache.replay journal) sincePos subscribed maxAgeSec now =
          SharedGroupCache.getDelta (SharedGroupCache.replay journal) (sincePos % kPositionModulus) subscribed
            maxAgeSec now ∧
        ComparesResidues sincePos (SharedGroupCache.position (SharedGroupCache.replay journal))
          (SharedGroupCache.marks (SharedGroupCache.replay journal) subscribed) ↔
      NearIndex sincePos (SharedGroupCache.position (SharedGroupCache.replay journal))
        (SharedGroupCache.marks (SharedGroupCache.replay journal) subscribed)) ∧
    ((GroupCache.replay journal).getDelta sincePos subscribed maxAgeSec now =
          (GroupCache.replay journal).getDelta (sincePos % kPositionModulus) subscribed maxAgeSec now ∧
        ComparesResidues sincePos (GroupCache.replay journal).position
          ((GroupCache.replay journal).marks subscribed) ↔
      NearIndex sincePos (GroupCache.replay journal).position
        ((GroupCache.replay journal).marks subscribed)) := by
  have hposition : (SharedGroupCache.position (SharedGroupCache.replay journal)).toNat < 100000 := by
    rw [SharedGroupCache.replay_position]
    exact positionAfter_lt _
  have hposition' : (GroupCache.replay journal).position.toNat < 100000 := by
    rw [GroupCache.replay_position]
    exact positionAfter_lt _
  constructor
  · rw [comparesResidues_iff hlt hposition SharedGroupCache.marks_lt, and_iff_right_iff_imp]
    exact fun hnear => SharedGroupCache.getDelta_mod hlt hzero hnear maxAgeSec now
  · rw [comparesResidues_iff hlt hposition' GroupCache.marks_lt, and_iff_right_iff_imp]
    exact fun hnear => GroupCache.getDelta_mod hlt hzero hnear maxAgeSec now

/-- The cache after one push of address 1, with an index one modulus above the position. -/
theorem getDelta_residue_near :
    SharedGroupCache.getDelta (SharedGroupCache.replay [⟨1, [0x42], 0⟩]) 100001 [1] (-1) 0 =
      SharedGroupCache.getDelta (SharedGroupCache.replay [⟨1, [0x42], 0⟩]) (100001 % kPositionModulus) [1] (-1) 0 := by
  have hiff := getDelta_residue_iff [⟨1, [0x42], 0⟩] [1] 100001 (by decide) (by decide) (-1) 0
  refine (hiff.1.mpr ⟨by decide, ?_⟩).1
  rintro mark ⟨addr, haddr, e, he, rfl⟩
  obtain rfl := List.mem_singleton.mp haddr
  have hone : SharedGroupCache.stored (SharedGroupCache.replay [⟨1, [0x42], 0⟩]) 1 =
      some (SharedGroupCache.entryOf 1 ⟨1, [0x42], 0⟩) := by decide
  obtain rfl := Option.some.inj (hone.symm.trans he)
  decide

/-- Two moduli above, the value that the client has already seen is sent again. -/
theorem getDelta_far_index :
    (SharedGroupCache.getDelta (SharedGroupCache.replay [⟨1, [0x42], 0⟩]) 200001 [1] (-1) 0).values =
        [(1, [0x42])] ∧
      (SharedGroupCache.getDelta (SharedGroupCache.replay [⟨1, [0x42], 0⟩]) (200001 % kPositionModulus) [1] (-1)
        0).values = [] ∧
      ((GroupCache.replay [⟨1, [0x42], 0⟩]).getDelta 200001 [1] (-1) 0).values = [(1, [0x42])] ∧
      ((GroupCache.replay [⟨1, [0x42], 0⟩]).getDelta (200001 % kPositionModulus) [1] (-1) 0).values = [] := by
  decide

/-- `static_cast<uint32_t>(std::time(nullptr))` at a time in milliseconds. -/
def clockSeconds (ms : Nat) : UInt32 := UInt32.ofNat (ms / 1000)

/-- Both readings wrap alike, so that their difference is the number of seconds between them. -/
theorem clockSeconds_sub {p q : Nat} (hle : p ≤ q) (hnear : q / 1000 - p / 1000 < 2 ^ 32) :
    (clockSeconds q - clockSeconds p).toNat = q / 1000 - p / 1000 := by
  have hdiv : p / 1000 ≤ q / 1000 := Nat.div_le_div_right hle
  rw [UInt32.toNat_sub, clockSeconds, clockSeconds, UInt32.toNat_ofNat', UInt32.toNat_ofNat']
  omega

/-- A value within its age is kept exactly if fewer than `t` second boundaries lie between. -/
theorem tooOld_clockSeconds {p q t : Nat} (hle : p ≤ q) (ht : t < 2 ^ 31) (hage : q - p ≤ 1000 * t) :
    tooOld t (clockSeconds q) (clockSeconds p) = false ↔ q / 1000 - p / 1000 < t := by
  have hsub := clockSeconds_sub hle (by omega)
  have hlimit : (UInt32.ofNat t).toNat = t := by
    rw [UInt32.toNat_ofNat', Nat.mod_eq_of_lt (by omega)]
  rw [SharedGroupCache.not_tooOld_iff, imp_iff_right (Int.natCast_nonneg t), Int.toNat_natCast,
    UInt32.lt_iff_toNat_lt, hsub, hlimit]

/-- The value of an address passes the age filter: `get` returns it, and `get_delta` has it wherever it has
it without a limit. -/
def PassesAge (got : Option (List UInt8)) (value : List UInt8) (addr : UInt16)
    (delta : UInt32 → List UInt16 → Int → Delta) (t : Nat) : Prop :=
  got = some value ∧
    ∀ sincePos subscribed, (addr, value) ∈ (delta sincePos subscribed (-1)).values →
      (addr, value) ∈ (delta sincePos subscribed t).values

theorem SharedGroupCache.passesAge_iff {d : SharedCacheData} {addr : UInt16} {e : SharedCacheEntry}
    (he : stored d addr = some e) (now : UInt32) (t : Nat) :
    PassesAge (get d addr t now) e.bytes addr (fun sincePos subscribed age => getDelta d sincePos subscribed age now)
      t ↔ tooOld t now e.timestamp = false := by
  constructor
  · rintro ⟨hget, -⟩
    simp only [get_eq, he] at hget
    split_ifs at hget with hold
    exact Bool.not_eq_true _ ▸ hold
  · intro hage
    refine ⟨by simp only [get_eq, he, hage, Bool.false_eq_true, if_false], fun sincePos subscribed hmem => ?_⟩
    obtain ⟨a, ha, hvalue⟩ := List.mem_filterMap.mp hmem
    obtain rfl := deltaValue_addr hvalue
    refine List.mem_filterMap.mpr ⟨_, ha, ?_⟩
    rw [deltaValue_eq, he] at hvalue ⊢
    simp only [hage, tooOld_neg_one, Bool.false_eq_true, if_false] at hvalue ⊢
    exact hvalue

theorem GroupCache.deltaValue_addr {cache : GroupCache} {sincePos : UInt32} {maxAgeSec : Int} {now : UInt32}
    {addr addr' : UInt16} {value : List UInt8}
    (h : cache.deltaValue sincePos maxAgeSec now addr = some (addr', value)) : addr' = addr := by
  unfold deltaValue at h
  split at h
  · cases h
  · split_ifs at h
    cases h
    rfl

theorem GroupCache.passesAge_iff {cache : GroupCache} {addr : UInt16} {e : GroupCacheEntry}
    (he : cache.entries addr = some e) (now : UInt32) (t : Nat) :
    PassesAge (cache.get addr t now) e.value addr
      (fun sincePos subscribed age => cache.getDelta sincePos subscribed age now) t ↔
        tooOld t now e.timestamp = false := by
  constructor
  · rintro ⟨hget, -⟩
    simp only [get, he] at hget
    split_ifs at hget with hold
    exact Bool.not_eq_true _ ▸ hold
  · intro hage
    refine ⟨by simp only [get, he, hage, Bool.false_eq_true, if_false], fun sincePos subscribed hmem => ?_⟩
    obtain ⟨a, ha, hvalue⟩ := List.mem_filterMap.mp hmem
    obtain rfl := GroupCache.deltaValue_addr hvalue
    refine List.mem_filterMap.mpr ⟨_, ha, ?_⟩
    rw [deltaValue, he] at hvalue ⊢
    simp only [hage, tooOld_neg_one, Bool.false_eq_true, if_false] at hvalue ⊢
    exact hvalue

/-- **A value no older than `t` seconds passes the age filter exactly if fewer than `t` second boundaries
lie between its push and the query**, for both caches: the clock is read in whole seconds, and a difference
of `t` of them already counts as too old. -/
theorem passesAge_clock_iff (journal : List Push) (addr : UInt16) (r : Nat) (x : Push) (p q t : Nat)
    (hle : p ≤ q) (ht : t < 2 ^ 31) (hage : q - p ≤ 1000 * t) (hx : x.time = clockSeconds p) :
    (SharedGroupCache.stored (SharedGroupCache.replay journal) addr = some (SharedGroupCache.entryOf r x) →
      (PassesAge (SharedGroupCache.get (SharedGroupCache.replay journal) addr t (clockSeconds q))
          (SharedGroupCache.keptValue x) addr
          (fun sincePos subscribed age =>
            SharedGroupCache.getDelta (SharedGroupCache.replay journal) sincePos subscribed age (clockSeconds q)) t ↔
        q / 1000 - p / 1000 < t)) ∧
    ((GroupCache.replay journal).entries addr = some (GroupCache.entryOf r x) →
      (PassesAge ((GroupCache.replay journal).get addr t (clockSeconds q)) x.value addr
          (fun sincePos subscribed age =>
            (GroupCache.replay journal).getDelta sincePos subscribed age (clockSeconds q)) t ↔
        q / 1000 - p / 1000 < t)) := by
  have hclock := tooOld_clockSeconds hle ht hage
  constructor
  · intro hstored
    have hpasses := SharedGroupCache.passesAge_iff hstored (clockSeconds q) t
    have hbytes : (SharedGroupCache.entryOf r x).bytes = SharedGroupCache.keptValue x :=
      SharedGroupCache.makeEntry_bytes x _
    have htime : (SharedGroupCache.entryOf r x).timestamp = clockSeconds p := hx
    rwa [hbytes, htime, hclock] at hpasses
  · intro hstored
    have hpasses := GroupCache.passesAge_iff hstored (clockSeconds q) t
    have htime : (GroupCache.entryOf r x).timestamp = clockSeconds p := hx
    rwa [htime, hclock] at hpasses

/-- A value of the same second, for `t = 1`. -/
theorem passesAge_same_second :
    SharedGroupCache.get (SharedGroupCache.replay [⟨1, [0x42], 0⟩]) 1 1 (clockSeconds 500) = some [0x42] := by
  have hiff := passesAge_clock_iff [⟨1, [0x42], 0⟩] 1 1 ⟨1, [0x42], 0⟩ 0 500 1 (by decide) (by decide) (by decide) rfl
  exact ((hiff.1 (by decide)).mpr (by decide)).1

/-- A value one millisecond old, which is refused because a second begins in between. -/
theorem get_fresh_refused :
    SharedGroupCache.get (SharedGroupCache.replay [⟨1, [0x42], clockSeconds 999⟩]) 1 1 (clockSeconds 1000) = none ∧
      SharedGroupCache.get (SharedGroupCache.replay [⟨1, [0x42], clockSeconds 999⟩]) 1 (-1) (clockSeconds 1000) =
        some [0x42] ∧
      (SharedGroupCache.getDelta (SharedGroupCache.replay [⟨1, [0x42], clockSeconds 999⟩]) 0 [1] 1
        (clockSeconds 1000)).values = [] ∧
      (GroupCache.replay [⟨1, [0x42], clockSeconds 999⟩]).get 1 1 (clockSeconds 1000) = none := by
  decide

end KnxdFcgi
