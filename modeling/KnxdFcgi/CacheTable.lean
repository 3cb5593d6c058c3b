import KnxdFcgi.SharedGroupCache

/-! The slots of the shared table after any journal of pushes: who occupies which slot, how the slot is
found, who ever gets one, and what is read from it. Addresses are never removed, so a slot once taken
stays with its address; an address stays without one exactly if the table was full of others at each of
its pushes. -/

namespace KnxdFcgi
namespace SharedGroupCache

def Occupies (d : SharedCacheData) (addr : UInt16) (slot : Fin kSharedCacheCapacity) : Prop :=
  (d.entries slot).addr = addr

/-- Every slot is occupied, by an address other than this one. -/
def FilledByOthers (d : SharedCacheData) (addr : UInt16) : Prop :=
  ∀ slot, (d.entries slot).addr ≠ 0 ∧ (d.entries slot).addr ≠ addr

/-- The slot that the search for an address tries after `i` others. -/
def probe (addr : UInt16) (i : Nat) : Fin kSharedCacheCapacity :=
  Fin.ofNat kSharedCacheCapacity (addr.toNat + i)

theorem probe_eq (addr : UInt16) (i : Nat) :
    probe addr i = layout.home addr + Fin.ofNat kSharedCacheCapacity i := by
  apply Fin.ext
  rw [Fin.val_add]
  exact Nat.add_mod _ _ _

theorem findSlot_none_iff {d : SharedCacheData} {addr : UInt16} :
    findSlot d addr = none ↔ FilledByOthers d addr := by
  apply Probing.Layout.find_none_iff.trans
  exact forall_congr' fun slot => and_comm

theorem occupies_unique (journal : List Push) {addr : UInt16} (hzero : addr ≠ 0)
    {slot slot' : Fin kSharedCacheCapacity} (h : Occupies (replay journal) addr slot)
    (h' : Occupies (replay journal) addr slot') : slot = slot' := by
  unfold Occupies at h h'
  apply (replay_wellPlaced journal).slot_unique
  · show ((replay journal).entries slot).addr ≠ 0
    rwa [h]
  · show ((replay journal).entries slot).addr = ((replay journal).entries slot').addr
    rw [h, h']

/-- The probe reaches the slot of an address over occupied slots only. -/
theorem occupies_path (journal : List Push) {addr : UInt16} (hzero : addr ≠ 0)
    {slot : Fin kSharedCacheCapacity} (h : Occupies (replay journal) addr slot) :
    ∃ d < kSharedCacheCapacity, probe addr d = slot ∧
      ∀ i ≤ d, ((replay journal).entries (probe addr i)).addr ≠ 0 := by
  unfold Occupies at h
  subst h
  obtain ⟨d, hd, heq, hpath⟩ := (replay_wellPlaced journal).path_occupied hzero
  refine ⟨d, hd, ?_, fun i hi => ?_⟩
  · rw [probe_eq]
    exact heq.symm
  · rw [probe_eq]
    exact hpath i hi

theorem occupies_snoc (journal : List Push) (p : Push) {addr : UInt16} (hzero : addr ≠ 0)
    {slot : Fin kSharedCacheCapacity} (h : Occupies (replay journal) addr slot) :
    Occupies (replay (journal ++ [p])) addr slot := by
  unfold Occupies at h ⊢
  subst h
  rw [replay_snoc_entries]
  exact Probing.Layout.insert_key_of_occupied (entryOf_key _ p) hzero

theorem occupies_append (journal : List Push) {addr : UInt16} (hzero : addr ≠ 0)
    {slot : Fin kSharedCacheCapacity} (h : Occupies (replay journal) addr slot) (more : List Push) :
    Occupies (replay (journal ++ more)) addr slot := by
  induction more using List.reverseRecOn with
  | nil => rwa [List.append_nil]
  | append_singleton more p ih =>
      rw [← List.append_assoc]
      exact occupies_snoc _ p hzero ih

theorem stored_isSome_iff (journal : List Push) {addr : UInt16} (hzero : addr ≠ 0) :
    (stored (replay journal) addr).isSome ↔ ∃ slot, Occupies (replay journal) addr slot := by
  rw [Option.isSome_iff_exists]
  constructor
  · rintro ⟨e, he⟩
    obtain ⟨haddr, slot, rfl⟩ := Probing.Layout.lookup_some_mem he
    exact ⟨slot, haddr⟩
  · rintro ⟨slot, hslot⟩
    unfold Occupies at hslot
    subst hslot
    exact ⟨_, (replay_wellPlaced journal).lookup_eq hzero⟩

/-- A push that does not meet a table full of other addresses leaves its address with a slot. -/
theorem stored_snoc_of_room (journal : List Push) (p : Push)
    (hroom : ¬FilledByOthers (replay journal) p.addr) :
    (stored (replay (journal ++ [p])) p.addr).isSome := by
  rw [← findSlot_none_iff] at hroom
  obtain ⟨slot, hslot⟩ := Option.ne_none_iff_exists'.mp hroom
  rw [stored_snoc_self journal p hslot]
  rfl

/-- An address has a slot exactly if one of its pushes met a table that was not full of others. -/
theorem stored_iff_room (journal : List Push) {addr : UInt16} (hzero : addr ≠ 0) :
    (stored (replay journal) addr).isSome ↔
      ∃ before p later, journal = before ++ p :: later ∧ p.addr = addr ∧
        ¬FilledByOthers (replay before) addr := by
  constructor
  · intro hstored
    obtain ⟨e, he⟩ := Option.isSome_iff_exists.mp hstored
    obtain ⟨n, p, ⟨before, later, rfl, -, rfl, -⟩, -⟩ := stored_lastPush hzero he
    refine ⟨before, p, later, rfl, rfl, fun hfull => ?_⟩
    have hnone := findSlot_append_none (findSlot_none_iff.mpr hfull) (p :: later)
    rw [stored_of_full hnone] at hstored
    cases hstored
  · rintro ⟨before, p, later, rfl, rfl, hroom⟩
    rw [List.append_cons]
    exact stored_append_isSome hzero (stored_snoc_of_room before p hroom) later

/-- **The table.** After every journal, an address other than 0 occupies at most one slot, and every slot
that its probe meets on the way there is occupied; it keeps the slot, and `get` returns from it what the
table keeps of the last value pushed; it has a slot exactly if one of its pushes did not meet a table full
of other addresses; and a push that does meet one changes no entry. -/
theorem table_invariant (journal : List Push) (addr : UInt16) (hzero : addr ≠ 0) :
    (∀ slot slot', Occupies (replay journal) addr slot → Occupies (replay journal) addr slot' → slot = slot') ∧
    (∀ slot, Occupies (replay journal) addr slot →
      ∃ d < kSharedCacheCapacity, probe addr d = slot ∧
        ∀ i ≤ d, ((replay journal).entries (probe addr i)).addr ≠ 0) ∧
    (∀ slot, Occupies (replay journal) addr slot →
      ∀ more, Occupies (replay (journal ++ more)) addr slot) ∧
    (∀ slot, Occupies (replay journal) addr slot →
      ∃ n p, LastPush journal addr n p ∧
        ∀ now, get (replay journal) addr (-1) now = some (p.value.take kMaxSharedValueBytes)) ∧
    ((∃ slot, Occupies (replay journal) addr slot) ↔
      ∃ before p later, journal = before ++ p :: later ∧ p.addr = addr ∧
        ¬FilledByOthers (replay before) addr) ∧
    ∀ p, FilledByOthers (replay journal) p.addr →
      (replay (journal ++ [p])).entries = (replay journal).entries := by
  refine ⟨fun slot slot' => occupies_unique journal hzero, fun slot => occupies_path journal hzero,
    fun slot => occupies_append journal hzero, fun slot hslot => ?_, ?_, fun p hfull => ?_⟩
  · have hstored := (stored_isSome_iff journal hzero).mpr ⟨slot, hslot⟩
    obtain ⟨e, he⟩ := Option.isSome_iff_exists.mp hstored
    obtain ⟨n, p, hlast, -⟩ := stored_lastPush hzero he
    exact ⟨n, p, hlast, fun now => (get_replay hzero now).mpr ⟨hstored, n, p, hlast, rfl⟩⟩
  · rw [← stored_isSome_iff journal hzero]
    exact stored_iff_room journal hzero
  · exact replay_snoc_full journal p (findSlot_none_iff.mpr hfull)

/-- Two addresses with the same home slot: the second one is one probe step away. -/
theorem table_invariant_collision :
    ∃ d < kSharedCacheCapacity, probe 2049 d = 2 ∧
      ∀ i ≤ d, ((replay [⟨1, [0x2a], 0⟩, ⟨2049, [0x2b], 0⟩]).entries (probe 2049 i)).addr ≠ 0 :=
  (table_invariant [⟨1, [0x2a], 0⟩, ⟨2049, [0x2b], 0⟩] 2049 (by decide)).2.1 2 rfl

end SharedGroupCache
end KnxdFcgi
