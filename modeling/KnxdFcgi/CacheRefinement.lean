import KnxdFcgi.GroupCache
import KnxdFcgi.SharedGroupCache

/-! The shared cache against the reference cache. The table answers every query about addresses other
than 0 as the map does, while at most `kSharedCacheCapacity` addresses occur and no value is cut.
Address 0 is the mark of a free slot: asking for it reads the first free slot, which holds the last
push of address 0 only as long as no other address has taken that slot. -/

namespace KnxdFcgi

/-- A question to a cache; the queries with an age filter read the clock. -/
inductive CacheQuery where
  | get (addr : UInt16) (maxAgeSec : Int) (now : UInt32)
  | getDelta (sincePos : UInt32) (subscribed : List UInt16) (maxAgeSec : Int) (now : UInt32)
  | position

inductive CacheAnswer where
  | value (value : Option (List UInt8))
  | delta (delta : Delta)
  | position (position : UInt32)
  deriving DecidableEq

/-- The addresses a query asks for. -/
def CacheQuery.addresses : CacheQuery → List UInt16
  | .get addr _ _ => [addr]
  | .getDelta _ subscribed _ _ => subscribed
  | .position => []

def GroupCache.answer (cache : GroupCache) : CacheQuery → CacheAnswer
  | .get addr maxAgeSec now => .value (cache.get addr maxAgeSec now)
  | .getDelta sincePos subscribed maxAgeSec now =>
      .delta (cache.getDelta sincePos subscribed maxAgeSec now)
  | .position => .position cache.position

def SharedGroupCache.answer (d : SharedCacheData) : CacheQuery → CacheAnswer
  | .get addr maxAgeSec now => .value (SharedGroupCache.get d addr maxAgeSec now)
  | .getDelta sincePos subscribed maxAgeSec now =>
      .delta (SharedGroupCache.getDelta d sincePos subscribed maxAgeSec now)
  | .position => .position (SharedGroupCache.position d)

namespace SharedGroupCache

/-- The addresses of a journal fit into the table, and its values into the entries. -/
structure Fits (journal : List Push) : Prop where
  addresses : (journal.map Push.addr).toFinset.card ≤ kSharedCacheCapacity
  values : ∀ p ∈ journal, p.value.length ≤ kMaxSharedValueBytes

theorem Fits.init {journal : List Push} {p : Push} (h : Fits (journal ++ [p])) : Fits journal where
  addresses := by
    refine le_trans (Finset.card_le_card ?_) h.addresses
    intro addr haddr
    rw [List.mem_toFinset] at haddr ⊢
    rw [List.map_append]
    exact List.mem_append_left _ haddr
  values q hq := h.values q (List.mem_append_left _ hq)

theorem occupied_pushed (journal : List Push) (slot : Fin kSharedCacheCapacity)
    (hslot : ((replay journal).entries slot).addr ≠ 0) :
    ((replay journal).entries slot).addr ∈ (journal.map Push.addr).toFinset := by
  have hstored := (replay_wellPlaced journal).lookup_eq hslot
  obtain ⟨r, p, hlast, -⟩ := stored_lastPush hslot hstored
  rw [List.mem_toFinset, List.mem_map]
  exact ⟨p, List.mem_of_getElem? hlast.get, hlast.addr_eq⟩

/-- While the addresses fit, the search for one of them never finds the table full. -/
theorem findSlot_isSome {journal : List Push} {addresses : Finset UInt16}
    (hsub : (journal.map Push.addr).toFinset ⊆ addresses) (hcard : addresses.card ≤ kSharedCacheCapacity)
    {addr : UInt16} (haddr : addr ∈ addresses) : (findSlot (replay journal) addr).isSome :=
  (replay_wellPlaced journal).find_isSome addresses
    (fun slot hslot => hsub (occupied_pushed journal slot hslot)) haddr hcard

/-- Every address that was pushed is stored. -/
theorem stored_of_pushed {journal : List Push} (hfits : Fits journal) {p : Push} (hp : p ∈ journal)
    (hzero : p.addr ≠ 0) : (stored (replay journal) p.addr).isSome := by
  induction journal using List.reverseRecOn with
  | nil => cases hp
  | append_singleton journal last ih =>
      by_cases haddr : last.addr = p.addr
      · have hsub : (journal.map Push.addr).toFinset ⊆ ((journal ++ [last]).map Push.addr).toFinset := by
          intro addr h
          rw [List.mem_toFinset] at h ⊢
          rw [List.map_append]
          exact List.mem_append_left _ h
        have hmem : last.addr ∈ ((journal ++ [last]).map Push.addr).toFinset := by simp
        obtain ⟨slot, hslot⟩ := Option.isSome_iff_exists.mp
          (findSlot_isSome hsub hfits.addresses hmem)
        rw [← haddr, stored_snoc_self journal last hslot]
        rfl
      · rw [stored_snoc_of_ne journal last hzero (Ne.symm haddr)]
        rcases List.mem_append.mp hp with hp | hp
        · exact ih hfits.init hp
        · rw [List.mem_singleton.mp hp] at haddr
          exact absurd rfl haddr

/-- A stored entry as an entry of the reference cache. -/
def view (e : SharedCacheEntry) : GroupCacheEntry := ⟨e.bytes, e.timestamp, e.pushedAt⟩

theorem view_entryOf {p : Push} (hp : p.value.length ≤ kMaxSharedValueBytes) (n : Nat) :
    view (entryOf n p) = GroupCache.entryOf n p := by
  have hbytes : (entryOf n p).bytes = p.value := by
    rw [entryOf, makeEntry_bytes, keptValue, List.take_of_length_le hp]
  rw [view, hbytes]
  rfl

theorem view_stored {journal : List Push} (hfits : Fits journal) {addr : UInt16} (hzero : addr ≠ 0) :
    (stored (replay journal) addr).map view = (GroupCache.replay journal).entries addr := by
  cases hstored : stored (replay journal) addr with
  | some e =>
      obtain ⟨r, p, hlast, rfl⟩ := stored_lastPush hzero hstored
      rw [Option.map_some, view_entryOf (hfits.values p (List.mem_of_getElem? hlast.get))]
      exact ((GroupCache.replay_entries journal addr _).mpr ⟨r, p, hlast, rfl⟩).symm
  | none =>
      cases hentry : (GroupCache.replay journal).entries addr with
      | none => rfl
      | some g =>
          obtain ⟨r, p, hlast, -⟩ := (GroupCache.replay_entries journal addr g).mp hentry
          have h := stored_of_pushed hfits (List.mem_of_getElem? hlast.get) (hlast.addr_eq ▸ hzero)
          rw [hlast.addr_eq, hstored] at h
          cases h

/-- Address 0 is answered for as long as the slot its last push went to is still the first free one,
or no slot is free at all. -/
def ZeroKept (journal : List Push) : Prop :=
  findSlot (replay journal) 0 = none ∨
    ∃ before p later, journal = before ++ p :: later ∧ p.addr = 0 ∧ (∀ q ∈ later, q.addr ≠ 0) ∧
      findSlot (replay journal) 0 = findSlot (replay before) 0

/-- Pushes of other addresses change a slot only by occupying it. -/
theorem free_slot_append (journal : List Push) {later : List Push} (hlater : ∀ q ∈ later, q.addr ≠ 0)
    {slot : Fin kSharedCacheCapacity} (hfree : ((replay (journal ++ later)).entries slot).addr = 0) :
    (replay (journal ++ later)).entries slot = (replay journal).entries slot := by
  induction later using List.reverseRecOn with
  | nil => rw [List.append_nil]
  | append_singleton later q ih =>
      have hq : q.addr ≠ 0 := hlater q (by simp)
      rw [← List.append_assoc] at hfree ⊢
      have hsame : (replay (journal ++ later ++ [q])).entries slot =
          (replay (journal ++ later)).entries slot := by
        rw [replay_snoc_entries] at hfree ⊢
        exact Probing.Layout.insert_of_vacant (entryOf_key _ q) hq hfree
      rw [hsame] at hfree ⊢
      exact ih (fun x hx => hlater x (List.mem_append_left _ hx)) hfree

theorem view_stored_zero {journal : List Push} (hfits : Fits journal) (hkept : ZeroKept journal) :
    (stored (replay journal) 0).map view = (GroupCache.replay journal).entries 0 := by
  by_cases hfull : findSlot (replay journal) 0 = none
  · rw [stored_of_full hfull]
    cases hentry : (GroupCache.replay journal).entries 0 with
    | none => rfl
    | some g =>
        obtain ⟨r, p, hlast, -⟩ := (GroupCache.replay_entries journal 0 g).mp hentry
        have hmem : (0 : UInt16) ∈ (journal.map Push.addr).toFinset := by
          rw [List.mem_toFinset, List.mem_map]
          exact ⟨p, List.mem_of_getElem? hlast.get, hlast.addr_eq⟩
        have h := findSlot_isSome (Finset.Subset.refl _) hfits.addresses hmem
        rw [hfull] at h
        cases h
  · obtain ⟨before, p, later, rfl, hp, hlater, hslot⟩ := hkept.resolve_left hfull
    obtain ⟨slot, hfound⟩ := Option.ne_none_iff_exists'.mp hfull
    have hfree : ((replay (before ++ p :: later)).entries slot).addr = 0 :=
      (Probing.Layout.find_key hfound).elim id id
    rw [show before ++ p :: later = before ++ [p] ++ later by simp] at hfree hfound ⊢
    have hentry : (replay (before ++ [p])).entries slot = entryOf (before.length + 1) p := by
      have hbefore : layout.find (replay before).entries p.addr = some slot := by
        rw [hp]
        exact hslot.symm.trans (by rw [← hfound]; simp)
      rw [replay_snoc_entries, Probing.Layout.insert, hbefore]
      exact Function.update_self _ _ _
    have hlast : LastPush (before ++ [p] ++ later) 0 (before.length + 1) p :=
      LastPush.append (hp ▸ lastPush_snoc before p) hlater
    have hsame := free_slot_append (before ++ [p]) hlater hfree
    have hstored : stored (replay (before ++ [p] ++ later)) 0 = some (entryOf (before.length + 1) p) := by
      unfold stored Probing.Layout.lookup
      unfold findSlot at hfound
      have hkey : layout.key (entryOf (before.length + 1) p) = 0 := hp
      simp only [hfound, hsame, hentry, if_pos hkey]
    rw [hstored, Option.map_some,
      view_entryOf (hfits.values p (by simp)) (before.length + 1)]
    exact ((GroupCache.replay_entries _ 0 _).mpr ⟨_, p, hlast, rfl⟩).symm

/-- A free slot other than the first one has never been written. -/
theorem spare_slot_default (journal : List Push) {slot : Fin kSharedCacheCapacity}
    (hfree : ((replay journal).entries slot).addr = 0) (hspare : findSlot (replay journal) 0 ≠ some slot) :
    (replay journal).entries slot = {} := by
  induction journal using List.reverseRecOn with
  | nil => rfl
  | append_singleton journal q ih =>
      unfold findSlot at hspare
      rw [replay_snoc_entries] at hfree hspare ⊢
      have hbefore : layout.find (replay journal).entries 0 ≠ some slot := fun hfirst =>
        hspare (Probing.Layout.find_vacant_insert hfirst (entryOf_key _ q) hfree)
      have hsame : layout.insert (replay journal).entries q.addr (entryOf (journal.length + 1) q) slot =
          (replay journal).entries slot := by
        cases hfind : layout.find (replay journal).entries q.addr with
        | none => simp only [Probing.Layout.insert, hfind]
        | some taken =>
            simp only [Probing.Layout.insert, hfind] at hfree ⊢
            refine Function.update_of_ne ?_ _ _
            rintro rfl
            have hq : q.addr = 0 := by rwa [Function.update_self] at hfree
            exact hbefore (hq ▸ hfind)
      rw [hsame] at hfree ⊢
      exact ih hfree hbefore

/-- Where the slot of address 0 was lost, the first free slot has never been written. -/
theorem first_slot_default {journal : List Push} {slot : Fin kSharedCacheCapacity}
    (hslot : findSlot (replay journal) 0 = some slot) (hlost : ¬ZeroKept journal) {r : Nat} {p : Push}
    (hlast : LastPush journal 0 r p) : (replay journal).entries slot = {} := by
  obtain ⟨before, later, rfl, -, hp, hlater⟩ := hlast
  have hfree : ((replay (before ++ p :: later)).entries slot).addr = 0 :=
    (Probing.Layout.find_key hslot).elim id id
  have hmoved : findSlot (replay before) 0 ≠ some slot := fun h =>
    hlost (Or.inr ⟨before, p, later, rfl, hp, hlater, hslot.trans h.symm⟩)
  rw [show before ++ p :: later = before ++ [p] ++ later by simp] at hslot hfree ⊢
  have hsame := free_slot_append (before ++ [p]) hlater hfree
  rw [hsame] at hfree ⊢
  apply spare_slot_default (before ++ [p]) hfree
  intro hfirst
  cases htaken : findSlot (replay before) 0 with
  | none =>
      rw [findSlot_append_none htaken] at hfirst
      cases hfirst
  | some taken =>
      have hkept : findSlot (replay (before ++ [p])) 0 = some taken := by
        rw [findSlot, replay_snoc_entries]
        apply Probing.Layout.find_vacant_insert htaken (entryOf_key _ p)
        unfold findSlot at htaken
        simp only [hp, Probing.Layout.insert, htaken, Function.update_self]
        exact hp
      rw [hkept] at hfirst
      exact hmoved (htaken.trans hfirst)

/-- A lost or never pushed address 0 is answered for by the first free slot. An empty value pushed at
time 0 is what that slot holds; any other value is told apart from it. -/
theorem get_zero_ne {journal : List Push} (hlost : ¬ZeroKept journal)
    (hpushed : ∀ r p, LastPush journal 0 r p → p.value ≠ [] ∨ p.time ≠ 0) :
    ∃ maxAgeSec now,
      get (replay journal) 0 maxAgeSec now ≠ (GroupCache.replay journal).get 0 maxAgeSec now := by
  obtain ⟨slot, hslot⟩ := Option.ne_none_iff_exists'.mp fun h => hlost (Or.inl h)
  have hfree : ((replay journal).entries slot).addr = 0 :=
    (Probing.Layout.find_key hslot).elim id id
  have hget : get (replay journal) 0 (-1) 0 = some ((replay journal).entries slot).bytes := by
    rw [get, hslot]
    simp [hfree]
  cases hentry : (GroupCache.replay journal).entries 0 with
  | none =>
      refine ⟨-1, 0, ?_⟩
      rw [hget, GroupCache.get, hentry]
      simp
  | some g =>
      obtain ⟨r, p, hlast, rfl⟩ := (GroupCache.replay_entries journal 0 g).mp hentry
      have hdefault := first_slot_default hslot hlost hlast
      rcases hpushed r p hlast with hvalue | htime
      · refine ⟨-1, 0, ?_⟩
        rw [hget, GroupCache.get, hentry, hdefault]
        simp only [tooOld_neg_one]
        intro heq
        exact hvalue (Option.some.inj heq).symm
      · refine ⟨1, 0, ?_⟩
        have hold : tooOld 1 0 p.time = true := by
          rw [tooOld, Bool.and_eq_true, decide_eq_true_eq, decide_eq_true_eq]
          refine ⟨by decide, ?_⟩
          rw [← UInt32.not_lt]
          intro hlt
          apply htime
          have hzero : (0 - p.time).toNat < 1 := UInt32.lt_iff_toNat_lt.mp hlt
          rw [UInt32.toNat_sub] at hzero
          apply UInt32.toNat_inj.mp
          have hbound := p.time.toNat_lt
          simp only [UInt32.toNat_zero] at hzero ⊢
          omega
        have hfresh : get (replay journal) 0 1 0 = some [] := by
          rw [get, hslot]
          simp only [hdefault]
          rfl
        rw [hfresh, GroupCache.get, hentry]
        simp [GroupCache.entryOf, hold]

theorem get_eq_of_view {d : SharedCacheData} {cache : GroupCache} {addr : UInt16}
    (hview : (stored d addr).map view = cache.entries addr) (maxAgeSec : Int) (now : UInt32) :
    get d addr maxAgeSec now = cache.get addr maxAgeSec now := by
  rw [get_eq, GroupCache.get, ← hview]
  cases stored d addr <;> rfl

theorem deltaValue_eq_of_view {d : SharedCacheData} {cache : GroupCache} {addr : UInt16}
    (hview : (stored d addr).map view = cache.entries addr) (hpos : position d = cache.position)
    (sincePos : UInt32) (maxAgeSec : Int) (now : UInt32) :
    deltaValue d sincePos maxAgeSec now addr = cache.deltaValue sincePos maxAgeSec now addr := by
  rw [deltaValue_eq, GroupCache.deltaValue, ← hview, hpos]
  cases stored d addr <;> rfl

/-- For queries that do not ask for address 0, and for those that do while its last push is still in
the first free slot, the answers agree. -/
theorem answer_eq {journal : List Push} (hfits : Fits journal) {query : CacheQuery}
    (hquery : ∀ addr ∈ query.addresses, addr ≠ 0 ∨ ZeroKept journal) :
    answer (replay journal) query = (GroupCache.replay journal).answer query := by
  have hview : ∀ addr ∈ query.addresses,
      (stored (replay journal) addr).map view = (GroupCache.replay journal).entries addr := by
    intro addr haddr
    by_cases hzero : addr = 0
    · rw [hzero]
      exact view_stored_zero hfits ((hquery addr haddr).resolve_left (not_not.mpr hzero))
    · exact view_stored hfits hzero
  have hpos : position (replay journal) = (GroupCache.replay journal).position := by
    rw [replay_position, GroupCache.replay_position]
  cases query with
  | get addr maxAgeSec now =>
      exact congrArg CacheAnswer.value
        (get_eq_of_view (hview addr (List.mem_singleton_self addr)) maxAgeSec now)
  | getDelta sincePos subscribed maxAgeSec now =>
      have hvalues : subscribed.filterMap (deltaValue (replay journal) sincePos maxAgeSec now) =
          subscribed.filterMap ((GroupCache.replay journal).deltaValue sincePos maxAgeSec now) :=
        List.filterMap_congr fun addr haddr =>
          deltaValue_eq_of_view (hview addr haddr) hpos sincePos maxAgeSec now
      rw [answer, GroupCache.answer, getDelta, GroupCache.getDelta, hvalues, hpos]
  | position => exact congrArg CacheAnswer.position hpos

/-- **Where the shared cache refines the reference cache.** After a journal that fits, both give the same
answer to every query that does not ask for address 0; and they give the same answer to every query
whatsoever exactly if the last push of address 0 is still in the first free slot, unless that push was of
an empty value at time 0. -/
theorem answer_eq_groupCache_iff (journal : List Push) (hfits : Fits journal) :
    (∀ query : CacheQuery, (∀ addr ∈ query.addresses, addr ≠ 0) →
      answer (replay journal) query = (GroupCache.replay journal).answer query) ∧
    (ZeroKept journal → ∀ query : CacheQuery,
      answer (replay journal) query = (GroupCache.replay journal).answer query) ∧
    ((∀ r p, LastPush journal 0 r p → p.value ≠ [] ∨ p.time ≠ 0) →
      (∀ query : CacheQuery, answer (replay journal) query = (GroupCache.replay journal).answer query) →
        ZeroKept journal) := by
  refine ⟨fun query hquery => answer_eq hfits fun addr haddr => Or.inl (hquery addr haddr),
    fun hkept query => answer_eq hfits fun _ _ => Or.inr hkept, fun hpushed hagree => ?_⟩
  by_contra hlost
  obtain ⟨maxAgeSec, now, hne⟩ := get_zero_ne hlost hpushed
  exact hne (CacheAnswer.value.inj (hagree (.get 0 maxAgeSec now)))

/-- A pushed address 0 is answered for, also next to another address. -/
theorem answer_eq_groupCache_zero :
    answer (replay [⟨1, [0x2a], 7⟩, ⟨0, [0x01], 8⟩]) (.get 0 (-1) 9) =
      (GroupCache.replay [⟨1, [0x2a], 7⟩, ⟨0, [0x01], 8⟩]).answer (.get 0 (-1) 9) :=
  (answer_eq_groupCache_iff _ ⟨by decide, by simp [kMaxSharedValueBytes]⟩).2.1
    (Or.inr ⟨[⟨1, [0x2a], 7⟩], ⟨0, [0x01], 8⟩, [], rfl, rfl, by simp, by decide⟩) _

/-- In a cache without any push, address 0 has an empty value, and no other cache knows of it. -/
theorem get_zero_never_pushed :
    answer (replay []) (.get 0 (-1) 0) = .value (some []) ∧
      (GroupCache.replay []).answer (.get 0 (-1) 0) = .value none := by
  decide

end SharedGroupCache
end KnxdFcgi
