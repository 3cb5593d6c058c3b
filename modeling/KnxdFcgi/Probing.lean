import Mathlib

/-! Open addressing with linear probing, for any capacity and any types of keys and entries. A slot
is free when its entry carries the layout's vacant key, so the vacant key itself can be searched for
but never stored as a key of its own. The invariant is that every occupied slot is the one the search
for its key ends at; it gives that a key occupies at most one slot, and that inserting one key changes
the lookup of no other key. Nothing is ever removed. -/

namespace KnxdFcgi.Probing

section Scan

variable {n : Nat} [NeZero n]

/-- The first slot at which `stop` holds, trying `fuel` slots from `slot` on and continuing at the
beginning after the last one. -/
def scan (stop : Fin n → Bool) : Nat → Fin n → Option (Fin n)
  | 0, _ => none
  | fuel + 1, slot => if stop slot then some slot else scan stop fuel (slot + 1)

theorem scan_stop {stop : Fin n → Bool} {fuel : Nat} {slot found : Fin n}
    (h : scan stop fuel slot = some found) : stop found = true := by
  induction fuel generalizing slot with
  | zero => cases h
  | succ fuel ih =>
      unfold scan at h
      split at h
      · rename_i hstop
        cases h
        exact hstop
      · exact ih h

/-- A search that stops at fewer slots, but still at the one found, finds the same slot. -/
theorem scan_mono {stop stop' : Fin n → Bool} (hle : ∀ slot, stop' slot = true → stop slot = true)
    {fuel : Nat} {slot found : Fin n} (h : scan stop fuel slot = some found)
    (hfound : stop' found = true) : scan stop' fuel slot = some found := by
  induction fuel generalizing slot with
  | zero => cases h
  | succ fuel ih =>
      unfold scan at h ⊢
      by_cases hstop : stop slot = true
      · rw [if_pos hstop] at h
        cases h
        rw [if_pos hfound]
      · rw [if_neg hstop] at h
        rw [if_neg fun hstop' => hstop (hle slot hstop')]
        exact ih h

theorem succ_add_ofNat (slot : Fin n) (i : Nat) : slot + 1 + Fin.ofNat n i = slot + Fin.ofNat n (i + 1) := by
  rw [add_assoc]
  congr 1
  apply Fin.ext
  simp only [Fin.val_add, Fin.val_ofNat, Fin.val_one', Nat.add_mod_mod, Nat.mod_add_mod]
  rw [Nat.add_comm]

theorem scan_none_offset {stop : Fin n → Bool} {fuel : Nat} {slot : Fin n}
    (h : scan stop fuel slot = none) : ∀ i < fuel, stop (slot + Fin.ofNat n i) = false := by
  induction fuel generalizing slot with
  | zero => intro i hi; exact absurd hi (Nat.not_lt_zero i)
  | succ fuel ih =>
      intro i hi
      unfold scan at h
      split at h
      · cases h
      · rename_i hstop
        cases i with
        | zero => simpa using hstop
        | succ i =>
            rw [← succ_add_ofNat]
            exact ih h i (Nat.lt_of_succ_lt_succ hi)

/-- The slot found is some steps away, and the search stopped at none of the slots before. -/
theorem scan_some_offset {stop : Fin n → Bool} {fuel : Nat} {slot found : Fin n}
    (h : scan stop fuel slot = some found) :
    ∃ d < fuel, found = slot + Fin.ofNat n d ∧ ∀ i < d, stop (slot + Fin.ofNat n i) = false := by
  induction fuel generalizing slot with
  | zero => cases h
  | succ fuel ih =>
      unfold scan at h
      split at h
      · cases h
        exact ⟨0, Nat.succ_pos fuel, by simp, fun i hi => absurd hi (Nat.not_lt_zero i)⟩
      · rename_i hstop
        obtain ⟨d, hd, rfl, hseen⟩ := ih h
        refine ⟨d + 1, Nat.succ_lt_succ hd, succ_add_ofNat slot d, fun i hi => ?_⟩
        cases i with
        | zero => simpa using hstop
        | succ i =>
            rw [← succ_add_ofNat]
            exact hseen i (Nat.lt_of_succ_lt_succ hi)

/-- A search over the whole table that finds nothing has seen every slot. -/
theorem scan_none {stop : Fin n → Bool} {start : Fin n} (h : scan stop n start = none)
    (slot : Fin n) : stop slot = false := by
  have hseen := scan_none_offset h (slot - start).val (slot - start).isLt
  simpa using hseen

end Scan

/-- What the table needs to know of its entries: the key of an entry, the key that marks a free
slot, and the slot at which the search for a key begins. -/
structure Layout (n : Nat) (κ ε : Type) where
  key : ε → κ
  vacant : κ
  home : κ → Fin n

namespace Layout

variable {n : Nat} [NeZero n] {κ ε : Type} [DecidableEq κ] (L : Layout n κ ε)

/-- The search for a key ends at the key or at a free slot. -/
def stopAt (table : Fin n → ε) (key : κ) (slot : Fin n) : Bool :=
  L.key (table slot) == key || L.key (table slot) == L.vacant

def find (table : Fin n → ε) (key : κ) : Option (Fin n) :=
  scan (L.stopAt table key) n (L.home key)

def lookup (table : Fin n → ε) (key : κ) : Option ε :=
  match L.find table key with
  | some slot => if L.key (table slot) = key then some (table slot) else none
  | none => none

/-- Stores an entry in the slot found for `key`; a full table is left as it is. -/
def insert (table : Fin n → ε) (key : κ) (entry : ε) : Fin n → ε :=
  match L.find table key with
  | some slot => Function.update table slot entry
  | none => table

/-- Every occupied slot is the one the search for its key ends at. -/
def WellPlaced (table : Fin n → ε) : Prop :=
  ∀ slot, L.key (table slot) ≠ L.vacant → L.find table (L.key (table slot)) = some slot

variable {L} {table : Fin n → ε} {key other : κ} {entry : ε}

omit [NeZero n] in
theorem stopAt_iff {slot : Fin n} :
    L.stopAt table key slot = true ↔ L.key (table slot) = key ∨ L.key (table slot) = L.vacant := by
  simp only [stopAt, Bool.or_eq_true, beq_iff_eq]

theorem find_key {slot : Fin n} (h : L.find table key = some slot) :
    L.key (table slot) = key ∨ L.key (table slot) = L.vacant :=
  stopAt_iff.mp (scan_stop h)

/-- The search fails only in a table that is completely occupied by other keys. -/
theorem find_none (h : L.find table key = none) (slot : Fin n) :
    L.key (table slot) ≠ key ∧ L.key (table slot) ≠ L.vacant := by
  have hstop : L.stopAt table key slot = false := scan_none h slot
  rw [← Bool.not_eq_true, stopAt_iff, not_or] at hstop
  exact hstop

theorem lookup_some_mem (h : L.lookup table key = some entry) :
    L.key entry = key ∧ ∃ slot, table slot = entry := by
  unfold lookup at h
  split at h
  · split at h
    · rename_i hkey
      cases h
      exact ⟨hkey, _, rfl⟩
    · cases h
  · cases h

theorem WellPlaced.lookup_eq (hplaced : L.WellPlaced table) {slot : Fin n}
    (hslot : L.key (table slot) ≠ L.vacant) :
    L.lookup table (L.key (table slot)) = some (table slot) := by
  rw [lookup, hplaced slot hslot]
  exact if_pos rfl

/-- In a well placed table, looking a key up means finding it anywhere. -/
theorem WellPlaced.lookup_iff (hplaced : L.WellPlaced table) (hkey : key ≠ L.vacant) :
    L.lookup table key = some entry ↔ L.key entry = key ∧ ∃ slot, table slot = entry := by
  refine ⟨lookup_some_mem, ?_⟩
  rintro ⟨rfl, slot, rfl⟩
  exact hplaced.lookup_eq hkey

theorem WellPlaced.slot_unique (hplaced : L.WellPlaced table) {slot slot' : Fin n}
    (hslot : L.key (table slot) ≠ L.vacant) (heq : L.key (table slot) = L.key (table slot')) :
    slot = slot' := by
  have hfirst := hplaced slot hslot
  have hsecond := hplaced slot' (heq ▸ hslot)
  rw [heq, hsecond] at hfirst
  exact (Option.some.inj hfirst).symm

/-- An occupied slot is met by the search for its key, and no slot that the search meets before is
free. -/
theorem WellPlaced.path_occupied (hplaced : L.WellPlaced table) {slot : Fin n}
    (hslot : L.key (table slot) ≠ L.vacant) :
    ∃ d < n, slot = L.home (L.key (table slot)) + Fin.ofNat n d ∧
      ∀ i ≤ d, L.key (table (L.home (L.key (table slot)) + Fin.ofNat n i)) ≠ L.vacant := by
  obtain ⟨d, hd, heq, hseen⟩ := scan_some_offset (hplaced slot hslot)
  refine ⟨d, hd, heq, fun i hi => ?_⟩
  rcases Nat.lt_or_eq_of_le hi with hlt | rfl
  · intro hvacant
    exact absurd (stopAt_iff.mpr (Or.inr hvacant)) (Bool.not_eq_true _ ▸ hseen i hlt)
  · rwa [← heq]

/-- An occupied slot keeps its key. -/
theorem insert_key_of_occupied (hentry : L.key entry = key) {slot : Fin n}
    (hslot : L.key (table slot) ≠ L.vacant) : L.key (L.insert table key entry slot) = L.key (table slot) := by
  cases hfind : L.find table key with
  | none => simp only [Layout.insert, hfind]
  | some taken =>
      simp only [Layout.insert, hfind]
      by_cases hsame : slot = taken
      · subst hsame
        rw [Function.update_self, hentry]
        exact ((find_key hfind).resolve_right hslot).symm
      · rw [Function.update_of_ne hsame]

/-- The search fails exactly in a table that is completely occupied by other keys. -/
theorem find_none_iff : L.find table key = none ↔
    ∀ slot, L.key (table slot) ≠ key ∧ L.key (table slot) ≠ L.vacant := by
  refine ⟨find_none, fun hfull => ?_⟩
  rw [Option.eq_none_iff_forall_ne_some]
  intro slot hslot
  rcases find_key hslot with h | h
  · exact (hfull slot).1 h
  · exact (hfull slot).2 h

omit [NeZero n] in
theorem stopAt_update_le {slot : Fin n} (hslot : L.key (table slot) = key ∨ L.key (table slot) = L.vacant)
    (hentry : L.key entry = key) (probe : Fin n)
    (h : L.stopAt (Function.update table slot entry) other probe = true) :
    L.stopAt table other probe = true := by
  rw [stopAt_iff] at h ⊢
  by_cases hprobe : probe = slot
  · subst hprobe
    rw [Function.update_self, hentry] at h
    rcases h with h | h
    · subst h
      exact hslot
    · rcases hslot with hslot | hslot
      · exact Or.inr (hslot.trans h)
      · exact Or.inr hslot
  · rwa [Function.update_of_ne hprobe] at h

/-- **Inserting keeps the placement**, also when the table is full and when the vacant key itself is
inserted (its entry goes to a free slot, which stays free). -/
theorem WellPlaced.insert (hplaced : L.WellPlaced table) (hentry : L.key entry = key) :
    L.WellPlaced (L.insert table key entry) := by
  unfold Layout.insert
  split
  · rename_i slot hfind
    have hslot := find_key hfind
    intro probe hprobe
    by_cases hsame : probe = slot
    · subst hsame
      rw [Function.update_self, hentry] at hprobe ⊢
      apply scan_mono (stopAt_update_le hslot hentry) hfind
      rw [stopAt_iff, Function.update_self]
      exact Or.inl hentry
    · rw [Function.update_of_ne hsame] at hprobe ⊢
      apply scan_mono (stopAt_update_le hslot hentry) (hplaced probe hprobe)
      rw [stopAt_iff, Function.update_of_ne hsame]
      exact Or.inl rfl
  · exact hplaced

/-- A key that found no slot finds none later. -/
theorem find_insert_none (hfull : L.find table other = none) (hentry : L.key entry = key) :
    L.find (L.insert table key entry) other = none := by
  unfold Layout.insert
  split
  · rename_i slot hfind
    rw [Option.eq_none_iff_forall_ne_some]
    intro probe hprobe
    have hstop := stopAt_update_le (find_key hfind) hentry probe (scan_stop hprobe)
    obtain ⟨hkey, hvacant⟩ := find_none hfull probe
    rcases stopAt_iff.mp hstop with h | h
    · exact hkey h
    · exact hvacant h
  · exact hfull

/-- The slot an insertion went to is found again, for the vacant key too. -/
theorem lookup_insert_self {slot : Fin n} (hfind : L.find table key = some slot)
    (hentry : L.key entry = key) : L.lookup (L.insert table key entry) key = some entry := by
  have hagain : L.find (Function.update table slot entry) key = some slot := by
    apply scan_mono (stopAt_update_le (find_key hfind) hentry) hfind
    rw [stopAt_iff, Function.update_self]
    exact Or.inl hentry
  rw [Layout.insert, hfind, lookup]
  simp only [hagain, Function.update_self, hentry, if_true]

/-- Inserting one key changes the lookup of no other key. -/
theorem WellPlaced.lookup_insert_of_ne (hplaced : L.WellPlaced table) (hentry : L.key entry = key)
    (hother : other ≠ L.vacant) (hne : other ≠ key) :
    L.lookup (L.insert table key entry) other = L.lookup table other := by
  ext found
  rw [(hplaced.insert hentry).lookup_iff hother, hplaced.lookup_iff hother]
  apply and_congr_right
  intro hfound
  cases hfind : L.find table key with
  | none => simp only [Layout.insert, hfind]
  | some slot =>
      simp only [Layout.insert, hfind]
      constructor
      · rintro ⟨probe, hprobe⟩
        by_cases hsame : probe = slot
        · subst hsame
          rw [Function.update_self] at hprobe
          exact absurd (hfound.symm.trans (hprobe ▸ hentry)) hne
        · exact ⟨probe, by rwa [Function.update_of_ne hsame] at hprobe⟩
      · rintro ⟨probe, hprobe⟩
        refine ⟨probe, ?_⟩
        rw [Function.update_of_ne, hprobe]
        rintro rfl
        rcases find_key hfind with h | h
        · exact hne (hfound.symm.trans (hprobe ▸ h))
        · exact hother (hfound.symm.trans (hprobe ▸ h))

/-- Inserting a key changes a slot only by occupying it. -/
theorem insert_of_vacant (hentry : L.key entry = key) (hkey : key ≠ L.vacant) {slot : Fin n}
    (hslot : L.key (L.insert table key entry slot) = L.vacant) :
    L.insert table key entry slot = table slot := by
  cases hfind : L.find table key with
  | none => simp only [Layout.insert, hfind]
  | some taken =>
      simp only [Layout.insert, hfind] at hslot ⊢
      by_cases hsame : slot = taken
      · subst hsame
        rw [Function.update_self, hentry] at hslot
        exact absurd hslot hkey
      · exact Function.update_of_ne hsame _ _

/-- The first free slot stays the first free one as long as it is free. -/
theorem find_vacant_insert {slot : Fin n} (hfind : L.find table L.vacant = some slot)
    (hentry : L.key entry = key) (hslot : L.key (L.insert table key entry slot) = L.vacant) :
    L.find (L.insert table key entry) L.vacant = some slot := by
  cases hkey : L.find table key with
  | none => simpa only [Layout.insert, hkey] using hfind
  | some taken =>
      simp only [Layout.insert, hkey] at hslot ⊢
      exact scan_mono (stopAt_update_le (find_key hkey) hentry) hfind (stopAt_iff.mpr (Or.inl hslot))

/-- A table without the key still has room for it, unless it holds as many other keys as it has
slots: `keys` are the keys that may occur. -/
theorem WellPlaced.find_isSome (hplaced : L.WellPlaced table) (keys : Finset κ)
    (hkeys : ∀ slot, L.key (table slot) ≠ L.vacant → L.key (table slot) ∈ keys)
    (hkey : key ∈ keys) (hcard : keys.card ≤ n) : (L.find table key).isSome := by
  by_contra hnone
  rw [Bool.not_eq_true, Option.isSome_eq_false_iff, Option.isNone_iff_eq_none] at hnone
  have hfull := find_none hnone
  have hinj : Function.Injective fun slot => L.key (table slot) :=
    fun slot slot' heq => hplaced.slot_unique (hfull slot).2 heq
  have hsub : Finset.univ.image (fun slot => L.key (table slot)) ⊆ keys.erase key := by
    intro k hk
    obtain ⟨slot, -, rfl⟩ := Finset.mem_image.mp hk
    exact Finset.mem_erase.mpr ⟨(hfull slot).1, hkeys slot (hfull slot).2⟩
  have hle := Finset.card_le_card hsub
  rw [Finset.card_image_of_injective _ hinj, Finset.card_univ, Fintype.card_fin,
    Finset.card_erase_of_mem hkey] at hle
  have hpos : 0 < keys.card := Finset.card_pos.mpr ⟨key, hkey⟩
  omega

end Layout
end KnxdFcgi.Probing
