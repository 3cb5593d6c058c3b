import KnxdFcgi.SharedMutex

/-! A process that dies in the critical section of `push`. The next process gets `EOWNERDEAD`, declares the
mutex consistent and goes on with the data as they are: nothing is undone or completed. What it then sees is
the state before the push or the state after it only if the death came before the first or after the last
of the stores; in between, the position has moved already and the generation has not. -/

namespace KnxdFcgi

open Machine

namespace SharedGroupCache

/-- The two states answer every query alike. -/
structure SameView (d d' : SharedCacheData) : Prop where
  get : ∀ addr maxAgeSec now, get d addr maxAgeSec now = get d' addr maxAgeSec now
  getDelta : ∀ sincePos subscribed maxAgeSec now,
    getDelta d sincePos subscribed maxAgeSec now = getDelta d' sincePos subscribed maxAgeSec now
  position : position d = position d'
  generation : d.generation = d'.generation

theorem SameView.refl (d : SharedCacheData) : SameView d d :=
  ⟨fun _ _ _ => rfl, fun _ _ _ _ => rfl, rfl, rfl⟩

/-- A push moves the client-facing index, also where the raw counter wraps. -/
theorem wrappedPosition_succ_ne (raw : UInt32) : wrappedPosition (raw + 1) ≠ wrappedPosition raw := by
  intro heq
  have hnat := congrArg UInt32.toNat heq
  have hmod : kPositionModulus.toNat = 100000 := rfl
  rw [wrappedPosition, wrappedPosition, UInt32.toNat_mod, UInt32.toNat_mod, UInt32.toNat_add, hmod,
    UInt32.toNat_one] at hnat
  have hlt := raw.toNat_lt
  omega

theorem succ_ne (n : UInt32) : n ≠ n + 1 := by
  intro heq
  have hnat := congrArg UInt32.toNat heq
  rw [UInt32.toNat_add, UInt32.toNat_one] at hnat
  have hlt := n.toNat_lt
  omega

end SharedGroupCache

namespace CacheSystem

open SharedGroupCache

variable {π : Type} [DecidableEq π]

/-- What a process in the critical section of a push has left to do, and what it has done to the data. -/
inductive Pushing (d₀ : SharedCacheData) (p : Push) : CachePc → SharedCacheData → Prop
  | enter : Pushing d₀ p (.enter (.push p)) d₀
  | storeEntry : Pushing d₀ p (.storeEntry (makeEntry p ((d₀.position + 1) % kPositionModulus)))
      { d₀ with position := d₀.position + 1 }
  | countEntry {d : SharedCacheData} (hposition : d.position = d₀.position + 1)
      (hgeneration : d.generation = d₀.generation)
      (hrest : { d with numEntries := d.numEntries + 1, generation := d.generation + 1 } = push d₀ p) :
      Pushing d₀ p .countEntry d
  | countGeneration {d : SharedCacheData} (hposition : d.position = d₀.position + 1)
      (hgeneration : d.generation = d₀.generation)
      (hrest : { d with generation := d.generation + 1 } = push d₀ p) : Pushing d₀ p .countGeneration d
  | unlock : Pushing d₀ p (.unlock .pushed) (push d₀ p)

section Crash

variable {s : CacheSystem π} {pid : π} {tick : CacheTick} {d₀ : SharedCacheData} {p : Push}

/-- The process is in the critical section of the push, or has left it with the mutex free. -/
def PushingOrDone (d₀ : SharedCacheData) (p : Push) (pid : π) (s : CacheSystem π) : Prop :=
  s.mutex = .owned pid false ∧ Pushing d₀ p (s.pcs pid) s.data ∨
    s.mutex = .free ∧ (s.pcs pid = .broadcast ∨ s.pcs pid = .returned .pushed)

theorem PushingOrDone.step (h : PushingOrDone d₀ p pid s) : PushingOrDone d₀ p pid (s.step pid tick) := by
  rcases h with ⟨hm, hpushing⟩ | ⟨hm, hpc | hpc⟩
  · generalize hpc : s.pcs pid = pc at hpushing
    generalize hd : s.data = d at hpushing
    cases hpushing with
    | enter =>
        left
        subst hd
        simp only [CacheSystem.step, hpc, CacheSystem.enter, goto_mutex, goto_pcs_self, goto_data]
        exact ⟨hm, .storeEntry⟩
    | storeEntry =>
        have hpush : push d₀ p = { insertLocked s.data p.addr (makeEntry p ((d₀.position + 1) % kPositionModulus))
            with generation := d₀.generation + 1 } := by
          rw [hd, push, insertLocked_generation]
        have hposition : s.data.position = d₀.position + 1 := by rw [hd]
        have hgeneration : s.data.generation = d₀.generation := by rw [hd]
        left
        rw [insertLocked] at hpush
        simp only [CacheSystem.step, hpc, makeEntry_addr]
        cases hslot : findSlot s.data p.addr with
        | none =>
            simp only [hslot] at hpush
            simp only [goto_mutex, goto_pcs_self, goto_data]
            exact ⟨hm, .countGeneration hposition hgeneration (by rw [hpush, hgeneration])⟩
        | some slot =>
            simp only [hslot] at hpush
            simp only [goto_mutex, goto_pcs_self, goto_data]
            refine ⟨hm, ?_⟩
            split
            · rename_i hnew
              rw [if_pos hnew] at hpush
              exact .countEntry hposition hgeneration (by rw [hpush, hgeneration])
            · rename_i hnew
              rw [if_neg hnew] at hpush
              exact .countGeneration hposition hgeneration (by rw [hpush, hgeneration])
    | countEntry hposition hgeneration hrest =>
        left
        simp only [CacheSystem.step, hpc, goto_mutex, goto_pcs_self, goto_data, hd]
        exact ⟨hm, .countGeneration hposition hgeneration hrest⟩
    | countGeneration hposition hgeneration hrest =>
        left
        simp only [CacheSystem.step, hpc, goto_mutex, goto_pcs_self, goto_data, hd, hrest]
        exact ⟨hm, .unlock⟩
    | unlock =>
        right
        simp [CacheSystem.step, hpc, hm, RobustMutex.unlock]
  · right
    simp [CacheSystem.step, hpc, hm]
  · right
    simp [CacheSystem.step, hpc, hm]

/-- Between the first and the last store the position has moved and the generation has not. -/
theorem Pushing.between {pc : CachePc} {d : SharedCacheData} (h : Pushing d₀ p pc d)
    (henter : pc ≠ .enter (.push p)) (hunlock : pc ≠ .unlock .pushed) :
    d.position = d₀.position + 1 ∧ d.generation = d₀.generation := by
  cases h with
  | enter => exact absurd rfl henter
  | storeEntry => exact ⟨rfl, rfl⟩
  | countEntry hposition hgeneration | countGeneration hposition hgeneration => exact ⟨hposition, hgeneration⟩
  | unlock => exact absurd rfl hunlock

/-- The process makes `n` steps. -/
def stepsOf (pid : π) (tick : CacheTick) (n : Nat) (s : CacheSystem π) : CacheSystem π :=
  run next s (List.replicate n (.step pid tick))

theorem pushing_stepsOf (hm : s.mutex = .owned pid false) (hpc : s.pcs pid = .enter (.push p))
    (tick : CacheTick) (n : Nat) : PushingOrDone s.data p pid (s.stepsOf pid tick n) := by
  have hstart : PushingOrDone s.data p pid s := by
    left
    rw [hpc]
    exact ⟨hm, .enter⟩
  have hsteps : Along next (fun _ event => event = .step pid tick) s (List.replicate n (.step pid tick)) :=
    along_of_forall fun event hevent _ => List.eq_of_mem_replicate hevent
  refine run_invariant_along _ ?_ hsteps hstart
  rintro s' event rfl h
  exact h.step

/-- The death, and the next call of another process, until it has declared the mutex consistent. -/
def recovery (pid q : π) (op : CacheOp) (tick : CacheTick) : List (CacheEvent π) :=
  [.die pid, .call q op, .step q tick, .step q tick]

/-- The next process comes to its critical section, and finds the data as they were left. -/
theorem run_recovery {q : π} (hm : s.mutex = .owned pid false) (hne : q ≠ pid) (hready : ready (s.pcs q))
    (op : CacheOp) (tick : CacheTick) :
    (run next s (recovery pid q op tick)).data = s.data ∧
      (run next s (recovery pid q op tick)).mutex = .owned q false ∧
      (run next s (recovery pid q op tick)).pcs q = .enter op := by
  have hdie : (s.next (.die pid)).mutex = .ownerDead := by
    simp [CacheSystem.next, hm, RobustMutex.die]
  have hq : (s.next (.die pid)).pcs q = s.pcs q := goto_pcs_of_ne _ hne _
  have hdata : (s.next (.die pid)).data = s.data := rfl
  unfold recovery
  rw [run_cons, ← hdata]
  rw [← hq] at hready
  generalize s.next (.die pid) = s' at hdie hready ⊢
  simp [CacheSystem.next, hready, CacheSystem.step, hdie, RobustMutex.lock, RobustMutex.makeConsistent]

end Crash

/-- **A death inside a push.** Whatever the state before it, when the process of a push dies in the critical
section, after any number of its statements, the next process declares the mutex consistent and then sees
exactly the state before the push or exactly the state after it, if and only if the death came before the
first of the stores or after the last one. -/
theorem push_crash_atomic_iff (s : CacheSystem π) (pid q : π) (p : Push) (op : CacheOp) (tick tick' : CacheTick)
    (n : Nat) (hm : s.mutex = .owned pid false) (hpc : s.pcs pid = .enter (.push p)) (hne : q ≠ pid)
    (hsection : (s.stepsOf pid tick n).mutex = .owned pid false)
    (hready : ready ((s.stepsOf pid tick n).pcs q)) :
    (run next (s.stepsOf pid tick n) (recovery pid q op tick')).mutex = .owned q false ∧
    (run next (s.stepsOf pid tick n) (recovery pid q op tick')).pcs q = .enter op ∧
    ((SameView (run next (s.stepsOf pid tick n) (recovery pid q op tick')).data s.data ∨
        SameView (run next (s.stepsOf pid tick n) (recovery pid q op tick')).data (push s.data p)) ↔
      (s.stepsOf pid tick n).pcs pid = .enter (.push p) ∨ (s.stepsOf pid tick n).pcs pid = .unlock .pushed) := by
  obtain ⟨hdata, howner, hq⟩ := run_recovery hsection hne hready op tick'
  refine ⟨howner, hq, ?_⟩
  rw [hdata]
  have hpushing := pushing_stepsOf hm hpc tick n
  generalize s.stepsOf pid tick n = c at hsection hpushing ⊢
  have hmid : Pushing s.data p (c.pcs pid) c.data := by
    rcases hpushing with ⟨-, hmid⟩ | ⟨hfree, -⟩
    · exact hmid
    · rw [hsection] at hfree
      cases hfree
  constructor
  · intro hview
    by_contra hplace
    obtain ⟨henter, hunlock⟩ := not_or.mp hplace
    obtain ⟨hposition, hgeneration⟩ := hmid.between henter hunlock
    rcases hview with hview | hview
    · have hsame := hview.position
      rw [position, position, hposition] at hsame
      exact wrappedPosition_succ_ne _ hsame
    · have hsame := hview.generation
      rw [hgeneration, push_generation] at hsame
      exact succ_ne _ hsame
  · rintro (hplace | hplace)
    · rw [hplace] at hmid
      generalize c.data = d at hmid
      cases hmid
      exact Or.inl (SameView.refl _)
    · rw [hplace] at hmid
      generalize c.data = d at hmid
      cases hmid
      exact Or.inr (SameView.refl _)

/-- The process `true` has locked the mutex for a push. -/
def pushLocked : CacheSystem Bool := run next start [.call true (.push ⟨1, [0x2a], 0⟩), .step true {}]

/-- A death before the first store or after the last one leaves the state before the push or the one after it. -/
theorem push_crash_atomic_ends :
    let found (n : Nat) := (run next (pushLocked.stepsOf true {} n) (recovery true false (.get 1 (-1)) {})).data
    (SameView (found 0) pushLocked.data ∨ SameView (found 0) (push pushLocked.data ⟨1, [0x2a], 0⟩)) ∧
      (SameView (found 4) pushLocked.data ∨ SameView (found 4) (push pushLocked.data ⟨1, [0x2a], 0⟩)) := by
  constructor
  · exact (push_crash_atomic_iff pushLocked true false ⟨1, [0x2a], 0⟩ (.get 1 (-1)) {} {} 0 rfl rfl (by decide) rfl
      rfl).2.2.mpr (Or.inl rfl)
  · exact (push_crash_atomic_iff pushLocked true false ⟨1, [0x2a], 0⟩ (.get 1 (-1)) {} {} 4 rfl rfl (by decide) rfl
      rfl).2.2.mpr (Or.inr rfl)

/-- A death after the increment of the position: the next process finds the position moved, the generation
not, and no value. -/
theorem pushLocked_crash_not_atomic :
    pushLocked.mutex = .owned true false ∧ pushLocked.pcs true = .enter (.push ⟨1, [0x2a], 0⟩) ∧
      (pushLocked.stepsOf true {} 1).mutex = .owned true false ∧
      ¬(SameView (run next (pushLocked.stepsOf true {} 1) (recovery true false (.get 1 (-1)) {})).data
          pushLocked.data ∨
        SameView (run next (pushLocked.stepsOf true {} 1) (recovery true false (.get 1 (-1)) {})).data
          (push pushLocked.data ⟨1, [0x2a], 0⟩)) := by
  refine ⟨rfl, rfl, rfl, ?_⟩
  rintro (hview | hview)
  · exact absurd hview.position (by decide)
  · exact absurd hview.generation (by decide)

end CacheSystem
end KnxdFcgi
