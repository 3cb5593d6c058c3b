import KnxdFcgi.CachePosition

/-! The journal of a group cache: the pushes it has received, oldest first, numbered from one. What a
cache is for is said here in terms of the journal alone, as the last push of an address; both caches
are compared with it. -/

namespace KnxdFcgi

/-- One call of `push`, with the answer of `std::time(nullptr)` during the call. -/
structure Push where
  addr : UInt16
  value : List UInt8
  time : UInt32
  deriving DecidableEq

/-- The result of a delta query; `values` has at most one value for an address, in ascending order of
the addresses. -/
structure Delta where
  values : List (UInt16 × List UInt8) := []
  position : UInt32 := 0
  deriving DecidableEq

/-- Push number `r` of the journal is `p`, and it is the last push of `addr`. -/
def LastPush (journal : List Push) (addr : UInt16) (r : Nat) (p : Push) : Prop :=
  ∃ before later, journal = before ++ p :: later ∧ r = before.length + 1 ∧ p.addr = addr ∧
    ∀ q ∈ later, q.addr ≠ addr

variable {journal : List Push} {addr : UInt16} {r : Nat} {p q : Push}

theorem lastPush_snoc (journal : List Push) (p : Push) :
    LastPush (journal ++ [p]) p.addr (journal.length + 1) p :=
  ⟨journal, [], rfl, rfl, rfl, by simp⟩

theorem LastPush.snoc (h : LastPush journal addr r p) (hq : q.addr ≠ addr) :
    LastPush (journal ++ [q]) addr r p := by
  obtain ⟨before, later, rfl, hr, haddr, hlater⟩ := h
  refine ⟨before, later ++ [q], by simp, hr, haddr, ?_⟩
  intro x hx
  rcases List.mem_append.mp hx with hx | hx
  · exact hlater x hx
  · rw [List.mem_singleton.mp hx]
    exact hq

theorem LastPush.append (h : LastPush journal addr r p) {more : List Push}
    (hmore : ∀ q ∈ more, q.addr ≠ addr) : LastPush (journal ++ more) addr r p := by
  induction more using List.reverseRecOn with
  | nil => simpa using h
  | append_singleton more q ih =>
      rw [← List.append_assoc]
      exact (ih fun x hx => hmore x (List.mem_append_left _ hx)).snoc (hmore q (by simp))

theorem LastPush.addr_eq (h : LastPush journal addr r p) : p.addr = addr := by
  obtain ⟨_, _, _, _, haddr, _⟩ := h
  exact haddr

theorem LastPush.le_length (h : LastPush journal addr r p) : 0 < r ∧ r ≤ journal.length := by
  obtain ⟨before, later, rfl, rfl, _, _⟩ := h
  simp

theorem LastPush.get (h : LastPush journal addr r p) : journal[r - 1]? = some p := by
  obtain ⟨before, later, rfl, rfl, _, _⟩ := h
  simp

theorem LastPush.mem (h : LastPush journal addr r p) : p ∈ journal :=
  List.mem_of_getElem? h.get

/-- The last push of an address is the last one of any shorter journal that still has it. -/
theorem LastPush.take (h : LastPush journal addr r p) {n : Nat} (hn : r ≤ n) :
    LastPush (journal.take n) addr r p := by
  obtain ⟨before, later, rfl, rfl, haddr, hlater⟩ := h
  refine ⟨before, later.take (n - before.length - 1), ?_, rfl, haddr,
    fun q hq => hlater q (List.mem_of_mem_take hq)⟩
  rw [List.take_append, List.take_of_length_le (by omega), List.take_cons (by omega)]

/-- A push of the address at a later place would be the last one instead. -/
theorem LastPush.le_of_get (h : LastPush journal addr r p) {i : Nat} (hi : journal[i]? = some q)
    (hq : q.addr = addr) : i < r := by
  obtain ⟨before, later, rfl, rfl, _, hlater⟩ := h
  by_contra hlt
  rw [List.getElem?_append_right (by omega), List.getElem?_cons,
    if_neg (by omega)] at hi
  exact hlater q (List.mem_of_getElem? hi) hq

theorem LastPush.unique {r' : Nat} {p' : Push} (h : LastPush journal addr r p)
    (h' : LastPush journal addr r' p') : r = r' ∧ p = p' := by
  have hle := h.le_of_get h'.get h'.addr_eq
  have hge := h'.le_of_get h.get h.addr_eq
  have hpos := h.le_length
  have hpos' := h'.le_length
  have hr : r = r' := by omega
  subst hr
  exact ⟨rfl, Option.some.inj (h.get.symm.trans h'.get)⟩

theorem exists_lastPush (hp : p ∈ journal) : ∃ r q, LastPush journal p.addr r q := by
  induction journal using List.reverseRecOn with
  | nil => cases hp
  | append_singleton journal last ih =>
      by_cases hlast : last.addr = p.addr
      · exact ⟨_, last, hlast ▸ lastPush_snoc journal last⟩
      · rcases List.mem_append.mp hp with hp | hp
        · obtain ⟨r, q, h⟩ := ih hp
          exact ⟨r, q, h.snoc hlast⟩
        · rw [List.mem_singleton.mp hp] at hlast
          exact absurd rfl hlast

theorem LastPush.snoc_of_ne (h : LastPush (journal ++ [q]) addr r p) (hq : q.addr ≠ addr) :
    LastPush journal addr r p := by
  have hmem : p ∈ journal := by
    have hget := List.mem_of_getElem? h.get
    rcases List.mem_append.mp hget with hget | hget
    · exact hget
    · rw [List.mem_singleton.mp hget] at h
      exact absurd h.addr_eq hq
  obtain ⟨r', p', h'⟩ := exists_lastPush hmem
  rw [h.addr_eq] at h'
  obtain ⟨rfl, rfl⟩ := h.unique (h'.snoc hq)
  exact h'

/-- An address has been pushed after push number `s` exactly if its last push is later. -/
theorem LastPush.pushed_after_iff (h : LastPush journal addr r p) (s : Nat) :
    (∃ q ∈ journal.drop s, q.addr = addr) ↔ s < r := by
  constructor
  · rintro ⟨q, hq, hqa⟩
    obtain ⟨i, hi⟩ := List.getElem?_of_mem hq
    rw [List.getElem?_drop] at hi
    have := h.le_of_get hi hqa
    omega
  · intro hs
    refine ⟨p, ?_, h.addr_eq⟩
    have hget : (journal.drop s)[r - 1 - s]? = some p := by
      rw [List.getElem?_drop, show s + (r - 1 - s) = r - 1 by omega]
      exact h.get
    exact List.mem_of_getElem? hget

end KnxdFcgi
