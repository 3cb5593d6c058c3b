import KnxdFcgi.CacheJournal
import KnxdFcgi.Probing

/-! The shared-memory cache `SharedGroupCache`: a fixed table with open addressing, whose free slots
are marked by address 0. The operations here are the bodies of the critical sections, on the data of
an initialised cache; the locking around them is the subject of `SharedMutex`. For every address but
0, the table holds what the last push of the address left, or the address has never found a slot. -/

namespace KnxdFcgi

/-- `kSharedCacheCapacity`. -/
def kSharedCacheCapacity : Nat := 2048

/-- `kMaxSharedValueBytes`. -/
def kMaxSharedValueBytes : Nat := 14

instance : NeZero kSharedCacheCapacity := ⟨by decide⟩

structure SharedCacheEntry where
  addr : UInt16 := 0
  valueLen : UInt16 := 0
  timestamp : UInt32 := 0
  pushedAt : UInt32 := 0
  value : List UInt8 := List.replicate kMaxSharedValueBytes 0
  deriving DecidableEq

/-- The bytes of the entry that are in use. -/
def SharedCacheEntry.bytes (e : SharedCacheEntry) : List UInt8 := e.value.take e.valueLen.toNat

/-- The shared region, as zero-initialised by `create`. -/
structure SharedCacheData where
  position : UInt32 := 0
  generation : UInt32 := 0
  numEntries : UInt32 := 0
  entries : Fin kSharedCacheCapacity → SharedCacheEntry := fun _ => {}

/-- How `pthread_cond_timedwait` returns: `0`, `ETIMEDOUT` or another error. -/
inductive CondResult where
  | signalled | timedOut | failed
  deriving DecidableEq

namespace SharedGroupCache

/-- Address 0 marks a free slot; the search for an address begins at its remainder. -/
def layout : Probing.Layout kSharedCacheCapacity UInt16 SharedCacheEntry where
  key := SharedCacheEntry.addr
  vacant := 0
  home addr := Fin.ofNat kSharedCacheCapacity addr.toNat

/-- `none` stands for `kSharedCacheCapacity`: the table is full. -/
def findSlot (d : SharedCacheData) (addr : UInt16) : Option (Fin kSharedCacheCapacity) :=
  layout.find d.entries addr

def insertLocked (d : SharedCacheData) (addr : UInt16) (entry : SharedCacheEntry) : SharedCacheData :=
  match findSlot d addr with
  | none => d
  | some slot =>
      let isNew := (d.entries slot).addr == 0
      { d with
        entries := Function.update d.entries slot entry
        numEntries := if isNew then d.numEntries + 1 else d.numEntries }

/-- The entry a push builds: a longer value is cut to the size of the slot's array. -/
def makeEntry (p : Push) (wrappedPos : UInt32) : SharedCacheEntry :=
  let valueLen := min p.value.length kMaxSharedValueBytes
  { addr := p.addr
    valueLen := UInt16.ofNat valueLen
    timestamp := p.time
    pushedAt := wrappedPos
    value := p.value.take valueLen ++ List.replicate (kMaxSharedValueBytes - valueLen) 0 }

def push (d : SharedCacheData) (p : Push) : SharedCacheData :=
  let rawPos := d.position
  let wrappedPos := (rawPos + 1) % kPositionModulus
  let entry := makeEntry p wrappedPos
  let d := insertLocked { d with position := rawPos + 1 } p.addr entry
  { d with generation := d.generation + 1 }

def get (d : SharedCacheData) (addr : UInt16) (maxAgeSec : Int) (now : UInt32) : Option (List UInt8) :=
  match findSlot d addr with
  | none => none
  | some slot =>
      let e := d.entries slot
      if e.addr = addr then
        if 0 ≤ maxAgeSec then
          if now - e.timestamp < UInt32.ofNat maxAgeSec.toNat then some e.bytes else none
        else some e.bytes
      else none

def position (d : SharedCacheData) : UInt32 := wrappedPosition d.position

/-- What one subscribed address contributes to a delta. -/
def deltaValue (d : SharedCacheData) (sincePos : UInt32) (maxAgeSec : Int) (now : UInt32)
    (addr : UInt16) : Option (UInt16 × List UInt8) :=
  match findSlot d addr with
  | none => none
  | some slot =>
      let e := d.entries slot
      if e.addr ≠ addr then none
      else if tooOld maxAgeSec now e.timestamp then none
      else if isNewer sincePos (position d) e.pushedAt then some (addr, e.bytes)
      else none

def getDelta (d : SharedCacheData) (sincePos : UInt32) (subscribed : List UInt16) (maxAgeSec : Int)
    (now : UInt32) : Delta where
  values := subscribed.filterMap (deltaValue d sincePos maxAgeSec now)
  position := position d

/-- The cache after a journal of pushes. -/
def replay (journal : List Push) : SharedCacheData := journal.foldl push {}

/-- The entry of an address, where it has a slot. -/
def stored (d : SharedCacheData) (addr : UInt16) : Option SharedCacheEntry :=
  layout.lookup d.entries addr

/-- The entry that push number `n` leaves. -/
def entryOf (n : Nat) (p : Push) : SharedCacheEntry := makeEntry p (positionAfter n)

/-- The value kept of a push: at most `kMaxSharedValueBytes` bytes. -/
def keptValue (p : Push) : List UInt8 := p.value.take kMaxSharedValueBytes

theorem makeEntry_addr (p : Push) (pos : UInt32) : (makeEntry p pos).addr = p.addr := rfl

theorem makeEntry_bytes (p : Push) (pos : UInt32) : (makeEntry p pos).bytes = keptValue p := by
  have hlen : (UInt16.ofNat (min p.value.length kMaxSharedValueBytes)).toNat =
      min p.value.length kMaxSharedValueBytes := by
    rw [UInt16.toNat_ofNat']
    apply Nat.mod_eq_of_lt
    simp only [kMaxSharedValueBytes]
    omega
  unfold SharedCacheEntry.bytes makeEntry keptValue
  simp only [hlen]
  rw [List.take_append_of_le_length (by simp), List.take_take, Nat.min_self, Nat.min_comm,
    List.take_eq_take_min (i := kMaxSharedValueBytes)]

theorem not_tooOld_iff (maxAgeSec : Int) (now timestamp : UInt32) :
    tooOld maxAgeSec now timestamp = false ↔
      (0 ≤ maxAgeSec → now - timestamp < UInt32.ofNat maxAgeSec.toNat) := by
  rw [tooOld, Bool.and_eq_false_iff, decide_eq_false_iff_not, decide_eq_false_iff_not,
    UInt32.not_le, ← imp_iff_not_or]

theorem get_eq (d : SharedCacheData) (addr : UInt16) (maxAgeSec : Int) (now : UInt32) :
    get d addr maxAgeSec now = match stored d addr with
      | none => none
      | some e => if tooOld maxAgeSec now e.timestamp then none else some e.bytes := by
  unfold get stored Probing.Layout.lookup findSlot
  cases hfind : layout.find d.entries addr with
  | none => rfl
  | some slot =>
      by_cases haddr : (d.entries slot).addr = addr
      · have hkey : layout.key (d.entries slot) = addr := haddr
        simp only [if_pos haddr, if_pos hkey]
        cases hold : tooOld maxAgeSec now (d.entries slot).timestamp with
        | false =>
            have hage := (not_tooOld_iff _ _ _).mp hold
            by_cases hneg : 0 ≤ maxAgeSec
            · simp [hneg, hage hneg]
            · simp [hneg]
        | true =>
            rw [tooOld, Bool.and_eq_true, decide_eq_true_eq, decide_eq_true_eq] at hold
            rw [if_pos hold.1, if_neg (UInt32.not_lt.mpr hold.2)]
            rfl
      · have hkey : ¬layout.key (d.entries slot) = addr := haddr
        simp only [if_neg haddr, if_neg hkey]

theorem deltaValue_eq (d : SharedCacheData) (sincePos : UInt32) (maxAgeSec : Int) (now : UInt32)
    (addr : UInt16) :
    deltaValue d sincePos maxAgeSec now addr = match stored d addr with
      | none => none
      | some e =>
          if tooOld maxAgeSec now e.timestamp then none
          else if isNewer sincePos (position d) e.pushedAt then some (addr, e.bytes)
          else none := by
  unfold deltaValue stored Probing.Layout.lookup findSlot
  cases hfind : layout.find d.entries addr with
  | none => rfl
  | some slot =>
      by_cases haddr : (d.entries slot).addr = addr
      · have hkey : layout.key (d.entries slot) = addr := haddr
        simp only [if_pos hkey, if_neg (not_not.mpr haddr)]
      · have hkey : ¬layout.key (d.entries slot) = addr := haddr
        simp only [if_neg hkey, if_pos haddr]

theorem deltaValue_addr {d : SharedCacheData} {sincePos : UInt32} {maxAgeSec : Int} {now : UInt32}
    {addr addr' : UInt16} {value : List UInt8}
    (h : deltaValue d sincePos maxAgeSec now addr = some (addr', value)) : addr' = addr := by
  rw [deltaValue_eq] at h
  split at h
  · cases h
  · split_ifs at h
    cases h
    rfl

theorem mem_getDelta_subscribed {d : SharedCacheData} {sincePos : UInt32} {subscribed : List UInt16}
    {maxAgeSec : Int} {now : UInt32} {addr : UInt16} {value : List UInt8}
    (h : (addr, value) ∈ (getDelta d sincePos subscribed maxAgeSec now).values) : addr ∈ subscribed := by
  obtain ⟨a, ha, hvalue⟩ := List.mem_filterMap.mp h
  rwa [deltaValue_addr hvalue]

theorem push_position (d : SharedCacheData) (p : Push) : (push d p).position = d.position + 1 := by
  simp only [push, insertLocked]
  split <;> rfl

theorem insertLocked_generation (d : SharedCacheData) (addr : UInt16) (entry : SharedCacheEntry) :
    (insertLocked d addr entry).generation = d.generation := by
  unfold insertLocked
  split <;> rfl

theorem push_generation (d : SharedCacheData) (p : Push) :
    (push d p).generation = d.generation + 1 := by
  simp only [push, insertLocked_generation]

theorem push_entries (d : SharedCacheData) (p : Push) :
    (push d p).entries =
      layout.insert d.entries p.addr (makeEntry p ((d.position + 1) % kPositionModulus)) := by
  simp only [push, insertLocked, findSlot, Probing.Layout.insert]
  cases layout.find d.entries p.addr <;> rfl

theorem replay_snoc (journal : List Push) (p : Push) :
    replay (journal ++ [p]) = push (replay journal) p := by
  rw [replay, List.foldl_append]
  rfl

theorem replay_rawPosition (journal : List Push) :
    (replay journal).position = UInt32.ofNat journal.length := by
  induction journal using List.reverseRecOn with
  | nil => rfl
  | append_singleton journal p ih =>
      rw [replay_snoc, push_position, ih, List.length_append, UInt32.ofNat_add]
      rfl

theorem replay_generation (journal : List Push) :
    (replay journal).generation = UInt32.ofNat journal.length := by
  induction journal using List.reverseRecOn with
  | nil => rfl
  | append_singleton journal p ih =>
      rw [replay_snoc, push_generation, ih, List.length_append, UInt32.ofNat_add]
      rfl

theorem replay_position (journal : List Push) :
    position (replay journal) = positionAfter journal.length := by
  rw [position, replay_rawPosition, positionAfter]

theorem replay_snoc_entries (journal : List Push) (p : Push) :
    (replay (journal ++ [p])).entries =
      layout.insert (replay journal).entries p.addr (entryOf (journal.length + 1) p) := by
  rw [replay_snoc, push_entries, entryOf, ← wrappedPosition_succ, wrappedPosition, replay_rawPosition]

/-! ### The table after a journal -/

theorem entryOf_key (n : Nat) (p : Push) : layout.key (entryOf n p) = p.addr := rfl

theorem replay_wellPlaced (journal : List Push) : layout.WellPlaced (replay journal).entries := by
  induction journal using List.reverseRecOn with
  | nil => exact fun _ h => absurd rfl h
  | append_singleton journal p ih =>
      rw [replay_snoc_entries]
      exact ih.insert (entryOf_key _ p)

/-- A push of one address leaves every other address but 0 as it was. -/
theorem stored_snoc_of_ne (journal : List Push) (p : Push) {addr : UInt16} (hzero : addr ≠ 0)
    (hne : addr ≠ p.addr) : stored (replay (journal ++ [p])) addr = stored (replay journal) addr := by
  rw [stored, stored, replay_snoc_entries]
  exact (replay_wellPlaced journal).lookup_insert_of_ne (entryOf_key _ p) hzero hne

theorem stored_append_of_ne (journal : List Push) {more : List Push} {addr : UInt16} (hzero : addr ≠ 0)
    (hne : ∀ q ∈ more, q.addr ≠ addr) :
    stored (replay (journal ++ more)) addr = stored (replay journal) addr := by
  induction more using List.reverseRecOn with
  | nil => rw [List.append_nil]
  | append_singleton more q ih =>
      rw [← List.append_assoc, stored_snoc_of_ne _ q hzero (Ne.symm (hne q (by simp)))]
      exact ih fun x hx => hne x (List.mem_append_left _ hx)

theorem stored_snoc_self (journal : List Push) (p : Push) {slot : Fin kSharedCacheCapacity}
    (hslot : findSlot (replay journal) p.addr = some slot) :
    stored (replay (journal ++ [p])) p.addr = some (entryOf (journal.length + 1) p) := by
  rw [stored, replay_snoc_entries]
  exact Probing.Layout.lookup_insert_self hslot (entryOf_key _ p)

theorem findSlot_of_stored {d : SharedCacheData} {addr : UInt16} (h : (stored d addr).isSome) :
    ∃ slot, findSlot d addr = some slot := by
  unfold stored Probing.Layout.lookup at h
  split at h
  · rename_i slot hslot
    exact ⟨slot, hslot⟩
  · cases h

/-- An address keeps its slot. -/
theorem stored_append_isSome {journal : List Push} {addr : UInt16} (hzero : addr ≠ 0)
    (hstored : (stored (replay journal) addr).isSome) (more : List Push) :
    (stored (replay (journal ++ more)) addr).isSome := by
  induction more using List.reverseRecOn with
  | nil => rwa [List.append_nil]
  | append_singleton more q ih =>
      rw [← List.append_assoc]
      by_cases haddr : addr = q.addr
      · subst haddr
        obtain ⟨slot, hslot⟩ := findSlot_of_stored ih
        rw [stored_snoc_self _ q hslot]
        rfl
      · rwa [stored_snoc_of_ne _ q hzero haddr]

/-- A push into a table that is full of other addresses changes no entry. -/
theorem replay_snoc_full (journal : List Push) (p : Push)
    (hfull : findSlot (replay journal) p.addr = none) :
    (replay (journal ++ [p])).entries = (replay journal).entries := by
  unfold findSlot at hfull
  rw [replay_snoc_entries, Probing.Layout.insert, hfull]

/-- A full table has no entry for the address whose push it dropped. -/
theorem stored_of_full {d : SharedCacheData} {addr : UInt16} (hfull : findSlot d addr = none) :
    stored d addr = none := by
  unfold findSlot at hfull
  rw [stored, Probing.Layout.lookup, hfull]

theorem findSlot_append_none {journal : List Push} {addr : UInt16}
    (hfull : findSlot (replay journal) addr = none) (more : List Push) :
    findSlot (replay (journal ++ more)) addr = none := by
  induction more using List.reverseRecOn with
  | nil => rwa [List.append_nil]
  | append_singleton more q ih =>
      rw [← List.append_assoc, findSlot, replay_snoc_entries]
      exact Probing.Layout.find_insert_none ih (entryOf_key _ q)

/-- An address that was pushed but not stored met a full table. -/
theorem findSlot_none_of_pushed {journal : List Push} {p : Push} (hzero : p.addr ≠ 0)
    (hp : p ∈ journal) (hnot : stored (replay journal) p.addr = none) :
    findSlot (replay journal) p.addr = none := by
  induction journal using List.reverseRecOn with
  | nil => cases hp
  | append_singleton journal last ih =>
      apply findSlot_append_none
      by_cases haddr : last.addr = p.addr
      · cases hslot : findSlot (replay journal) p.addr with
        | none => rfl
        | some slot =>
            rw [← haddr] at hslot hnot
            rw [stored_snoc_self journal last hslot] at hnot
            cases hnot
      · rw [stored_snoc_of_ne journal last hzero (Ne.symm haddr)] at hnot
        rcases List.mem_append.mp hp with hp | hp
        · exact ih hp hnot
        · rw [List.mem_singleton.mp hp] at haddr
          exact absurd rfl haddr

/-- An address that has a slot in the end had one since its first push. -/
theorem stored_of_append {journal more : List Push} {p : Push} (hzero : p.addr ≠ 0) (hp : p ∈ journal)
    (hstored : (stored (replay (journal ++ more)) p.addr).isSome) :
    (stored (replay journal) p.addr).isSome := by
  by_contra hnot
  have hfull := findSlot_none_of_pushed hzero hp (Option.not_isSome_iff_eq_none.mp hnot)
  rw [stored_of_full (findSlot_append_none hfull more)] at hstored
  cases hstored

/-- **A stored entry is the last push of its address.** -/
theorem stored_lastPush {journal : List Push} {addr : UInt16} (hzero : addr ≠ 0)
    {e : SharedCacheEntry} (h : stored (replay journal) addr = some e) :
    ∃ r p, LastPush journal addr r p ∧ e = entryOf r p := by
  induction journal using List.reverseRecOn with
  | nil =>
      obtain ⟨hkey, slot, rfl⟩ := Probing.Layout.lookup_some_mem h
      exact absurd hkey.symm hzero
  | append_singleton journal last ih =>
      by_cases haddr : last.addr = addr
      · subst haddr
        cases hslot : findSlot (replay journal) last.addr with
        | none =>
            rw [stored, replay_snoc_full journal last hslot] at h
            rw [← stored, stored_of_full hslot] at h
            cases h
        | some slot =>
            rw [stored_snoc_self journal last hslot] at h
            cases h
            exact ⟨_, last, lastPush_snoc journal last, rfl⟩
      · rw [stored_snoc_of_ne journal last hzero (Ne.symm haddr)] at h
        obtain ⟨r, p, hlast, rfl⟩ := ih h
        exact ⟨r, p, hlast.snoc haddr, rfl⟩

/-- The same with the last push given. -/
theorem stored_eq_entryOf {journal : List Push} {addr : UInt16} (hzero : addr ≠ 0)
    (h : (stored (replay journal) addr).isSome) {r : Nat} {p : Push}
    (hlast : LastPush journal addr r p) : stored (replay journal) addr = some (entryOf r p) := by
  obtain ⟨e, he⟩ := Option.isSome_iff_exists.mp h
  obtain ⟨r', p', hlast', rfl⟩ := stored_lastPush hzero he
  obtain ⟨rfl, rfl⟩ := hlast.unique hlast'
  exact he

/-- An address other than 0 is in a delta exactly if it is stored and its last push passes both filters. -/
theorem mem_getDelta_aged_iff {journal : List Push} {addr : UInt16} (hzero : addr ≠ 0) (sincePos : UInt32)
    (subscribed : List UInt16) (maxAgeSec : Int) (now : UInt32) (value : List UInt8) :
    (addr, value) ∈ (getDelta (replay journal) sincePos subscribed maxAgeSec now).values ↔
      addr ∈ subscribed ∧ (stored (replay journal) addr).isSome ∧
        ∃ r p, LastPush journal addr r p ∧ value = keptValue p ∧ tooOld maxAgeSec now p.time = false ∧
          isNewer sincePos (positionAfter journal.length) (positionAfter r) = true := by
  rw [getDelta, List.mem_filterMap]
  constructor
  · rintro ⟨a, ha, hvalue⟩
    rw [deltaValue_eq] at hvalue
    cases he : stored (replay journal) a with
    | none => simp only [he] at hvalue; cases hvalue
    | some e =>
        simp only [he] at hvalue
        split_ifs at hvalue with hold hnew
        cases hvalue
        obtain ⟨r, p, hlast, rfl⟩ := stored_lastPush hzero he
        rw [replay_position] at hnew
        exact ⟨ha, by rw [he]; rfl, r, p, hlast, makeEntry_bytes p _, Bool.not_eq_true _ ▸ hold, hnew⟩
  · rintro ⟨ha, hstored, r, p, hlast, rfl, hage, hnew⟩
    refine ⟨addr, ha, ?_⟩
    rw [deltaValue_eq, stored_eq_entryOf hzero hstored hlast, replay_position]
    have hbytes : (entryOf r p).bytes = keptValue p := makeEntry_bytes p _
    have hpushed : (entryOf r p).pushedAt = positionAfter r := rfl
    have htime : (entryOf r p).timestamp = p.time := rfl
    simp only [htime, hage, hbytes, hpushed, hnew, if_true, Bool.false_eq_true, if_false]

/-- Without the age filter, the position filter decides alone. -/
theorem mem_getDelta_iff {journal : List Push} {addr : UInt16} (hzero : addr ≠ 0) (sincePos : UInt32)
    (subscribed : List UInt16) (now : UInt32) (value : List UInt8) :
    (addr, value) ∈ (getDelta (replay journal) sincePos subscribed (-1) now).values ↔
      addr ∈ subscribed ∧ (stored (replay journal) addr).isSome ∧
        ∃ r p, LastPush journal addr r p ∧ value = keptValue p ∧
          isNewer sincePos (positionAfter journal.length) (positionAfter r) = true := by
  simpa only [tooOld_neg_one, true_and] using
    mem_getDelta_aged_iff hzero sincePos subscribed (-1) now value

/-- Without the age filter, `get` returns the last push of a stored address other than 0. -/
theorem get_replay {journal : List Push} {addr : UInt16} (hzero : addr ≠ 0) (now : UInt32)
    {value : List UInt8} : get (replay journal) addr (-1) now = some value ↔
      (stored (replay journal) addr).isSome ∧
        ∃ r p, LastPush journal addr r p ∧ value = keptValue p := by
  rw [get_eq]
  constructor
  · intro h
    cases he : stored (replay journal) addr with
    | none => simp only [he] at h; cases h
    | some e =>
        simp only [he, tooOld_neg_one] at h
        obtain ⟨r, p, hlast, rfl⟩ := stored_lastPush hzero he
        cases h
        exact ⟨rfl, r, p, hlast, makeEntry_bytes p _⟩
  · rintro ⟨hstored, r, p, hlast, rfl⟩
    rw [stored_eq_entryOf hzero hstored hlast]
    have hbytes : (entryOf r p).bytes = keptValue p := makeEntry_bytes p _
    simp only [tooOld_neg_one, hbytes, Bool.false_eq_true, if_false]

end SharedGroupCache
end KnxdFcgi
