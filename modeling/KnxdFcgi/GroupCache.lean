import KnxdFcgi.CacheJournal

/-! The reference cache `GroupCache`: a map from addresses to their latest entry, with the raw push
counter. Each operation runs under the cache's mutex and is one step here. The map holds, for every
address, exactly what the last push of the address left. -/

namespace KnxdFcgi

structure GroupCacheEntry where
  value : List UInt8
  timestamp : UInt32
  pushedAt : UInt32
  deriving DecidableEq

structure GroupCache where
  entries : UInt16 → Option GroupCacheEntry := fun _ => none
  rawPosition : UInt32 := 0

namespace GroupCache

def push (cache : GroupCache) (p : Push) : GroupCache :=
  let rawPos := cache.rawPosition
  let wrappedPos := (rawPos + 1) % kPositionModulus
  { entries := Function.update cache.entries p.addr (some ⟨p.value, p.time, wrappedPos⟩)
    rawPosition := rawPos + 1 }

def get (cache : GroupCache) (addr : UInt16) (maxAgeSec : Int) (now : UInt32) : Option (List UInt8) :=
  match cache.entries addr with
  | none => none
  | some e => if tooOld maxAgeSec now e.timestamp then none else some e.value

def position (cache : GroupCache) : UInt32 := wrappedPosition cache.rawPosition

/-- What one subscribed address contributes to a delta. -/
def deltaValue (cache : GroupCache) (sincePos : UInt32) (maxAgeSec : Int) (now : UInt32)
    (addr : UInt16) : Option (UInt16 × List UInt8) :=
  match cache.entries addr with
  | none => none
  | some e =>
      if tooOld maxAgeSec now e.timestamp then none
      else if isNewer sincePos cache.position e.pushedAt then some (addr, e.value)
      else none

def getDelta (cache : GroupCache) (sincePos : UInt32) (subscribed : List UInt16) (maxAgeSec : Int)
    (now : UInt32) : Delta where
  values := subscribed.filterMap (cache.deltaValue sincePos maxAgeSec now)
  position := cache.position

/-- The cache after a journal of pushes. -/
def replay (journal : List Push) : GroupCache := journal.foldl push {}

/-- The entry that push number `n` leaves. -/
def entryOf (n : Nat) (p : Push) : GroupCacheEntry := ⟨p.value, p.time, positionAfter n⟩

theorem replay_snoc (journal : List Push) (p : Push) :
    replay (journal ++ [p]) = (replay journal).push p := by
  rw [replay, List.foldl_append]
  rfl

theorem replay_rawPosition (journal : List Push) :
    (replay journal).rawPosition = UInt32.ofNat journal.length := by
  induction journal using List.reverseRecOn with
  | nil => rfl
  | append_singleton journal p ih =>
      rw [replay_snoc, List.length_append, UInt32.ofNat_add, ← ih]
      rfl

theorem replay_position (journal : List Push) :
    (replay journal).position = positionAfter journal.length := by
  rw [position, replay_rawPosition, positionAfter]

/-- The map holds the last push of every address. -/
theorem replay_entries (journal : List Push) (addr : UInt16) (e : GroupCacheEntry) :
    (replay journal).entries addr = some e ↔ ∃ r p, LastPush journal addr r p ∧ e = entryOf r p := by
  induction journal using List.reverseRecOn with
  | nil =>
      apply iff_of_false (by simp [replay])
      rintro ⟨r, p, h, -⟩
      have := h.le_length
      simp at this
      omega
  | append_singleton journal last ih =>
      rw [replay_snoc]
      by_cases haddr : last.addr = addr
      · subst haddr
        have hnew : ((replay journal).push last).entries last.addr =
            some (entryOf (journal.length + 1) last) := by
          simp only [push, Function.update_self, entryOf, replay_rawPosition,
            ← wrappedPosition_succ, wrappedPosition]
        rw [hnew, Option.some.injEq]
        constructor
        · rintro rfl
          exact ⟨_, last, lastPush_snoc journal last, rfl⟩
        · rintro ⟨r, p, h, rfl⟩
          obtain ⟨rfl, rfl⟩ := h.unique (lastPush_snoc journal last)
          rfl
      · have hsame : ((replay journal).push last).entries addr = (replay journal).entries addr :=
          Function.update_of_ne (Ne.symm haddr) _ _
        rw [hsame, ih]
        constructor
        · rintro ⟨r, p, h, rfl⟩
          exact ⟨r, p, h.snoc haddr, rfl⟩
        · rintro ⟨r, p, h, rfl⟩
          exact ⟨r, p, h.snoc_of_ne haddr, rfl⟩

/-- Without the age filter, an address is in a delta exactly if its last push passes the position
filter. -/
theorem mem_getDelta_iff (journal : List Push) (sincePos : UInt32) (subscribed : List UInt16)
    (now : UInt32) (addr : UInt16) (value : List UInt8) :
    (addr, value) ∈ ((replay journal).getDelta sincePos subscribed (-1) now).values ↔
      addr ∈ subscribed ∧ ∃ r p, LastPush journal addr r p ∧ value = p.value ∧
        isNewer sincePos (positionAfter journal.length) (positionAfter r) = true := by
  rw [getDelta, List.mem_filterMap]
  constructor
  · rintro ⟨a, ha, hvalue⟩
    unfold deltaValue at hvalue
    split at hvalue
    · cases hvalue
    · rename_i e he
      rw [tooOld_neg_one, if_neg Bool.false_ne_true] at hvalue
      split at hvalue
      · rename_i hnew
        cases hvalue
        obtain ⟨r, p, hlast, rfl⟩ := (replay_entries journal addr e).mp he
        rw [replay_position] at hnew
        exact ⟨ha, r, p, hlast, rfl, hnew⟩
      · cases hvalue
  · rintro ⟨ha, r, p, hlast, rfl, hnew⟩
    refine ⟨addr, ha, ?_⟩
    have he := (replay_entries journal addr _).mpr ⟨r, p, hlast, rfl⟩
    rw [deltaValue, he, replay_position]
    simp only [tooOld_neg_one, entryOf, hnew, if_true]
    rfl

end GroupCache
end KnxdFcgi
