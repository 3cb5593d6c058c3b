import KnxdFcgi.ChildReplacement
import KnxdFcgi.Simulation

/-! How the parent stops. When its loop is over, or a fork fails at startup, it sends a `SIGTERM` to every
child that it has a pid of, and waits until no child is left. A child sets its signals up after the fork:
until it has restored the default action it runs the handler that it has inherited, which notes the request
in the child's own copy of the flag. The cache reader looks at that flag; a worker never does. -/

namespace KnxdFcgi

open Machine

/-- How far a child has come since its fork. -/
inductive ChildSetup where
  /-- before `prctl(PR_SET_PDEATHSIG, SIGTERM)` -/
  | forked
  /-- before `signal(SIGTERM, SIG_DFL)` -/
  | armed
  | ready
  deriving DecidableEq

/-- `pending` is a `SIGTERM` sent and not yet delivered, `flag` the child's copy of `g_shutdown_requested`. -/
structure ChildSignals where
  setup : ChildSetup := .forked
  pending : Bool := false
  flag : Bool := false

/-- Where the parent is. -/
inductive StopPhase where
  /-- in the startup and the loop, or right after them -/
  | supervising
  /-- about to signal the `k`-th child -/
  | kill (k : Nat)
  /-- before the `wait` of the last loop -/
  | enterReap
  /-- in it -/
  | reap
  | exited (result : Nat)
  deriving DecidableEq

inductive StopEvent where
  | pool (event : PoolEvent)
  /-- the child makes the next call of its setup -/
  | setup (pid : Nat)
  /-- the pending signal is delivered to the child -/
  | deliver (pid : Nat)
  /-- the cache reader finds its flag set and exits -/
  | quit (pid : Nat)

/-- The pool with the signals of its children; `last` is the child whose death ended the loop, if one did. -/
structure StoppingPool (n : Nat) where
  pool : Pool n := {}
  phase : StopPhase := .supervising
  forkFailed : Bool := false
  last : Option Nat := none
  signals : Nat → ChildSignals := fun _ => {}

namespace StoppingPool

variable {n : Nat}

def setSignals (s : StoppingPool n) (pid : Nat) (signals : ChildSignals) : StoppingPool n :=
  { s with signals := Function.update s.signals pid signals }

/-- The end of the parent sends a `SIGTERM` to every child that has asked for it. -/
def exit (s : StoppingPool n) : StoppingPool n :=
  { s with
    phase := .exited (if s.forkFailed then 1 else 0)
    signals := fun pid =>
      if (s.signals pid).setup = .forked then s.signals pid else { s.signals pid with pending := true } }

/-- The signals with which a child begins that is forked now. -/
def forkSignals (s : StoppingPool n) (pid : Nat) : ChildSignals :=
  if s.pool.children pid = none then { flag := s.pool.shutdown } else s.signals pid

/-- A statement of the startup or of the loop. -/
def oversee (s : StoppingPool n) (answer : SupervisorAnswer) : StoppingPool n :=
  let s' := { s with pool := s.pool.supervise answer, signals := s.forkSignals }
  if s'.pool.pc = .stopping then
    match s.pool.pc with
    -- without the cache reader the parent returns at once
    | .spawn 0 => { s' with forkFailed := true }.exit
    | .spawn (_ + 1) => { s' with forkFailed := true }
    | .reaped pid => { s' with last := some pid }
    | _ => s'
  else s'

/-- What follows the loop, or the forks if one of them failed. -/
def leave (s : StoppingPool n) : StoppingPool n :=
  if s.forkFailed || s.pool.shutdown then { s with phase := .kill 0 } else s.exit

/-- `kill(pid, SIGTERM)` for the `k`-th child, if its pid is known. -/
def kill (s : StoppingPool n) (k : Nat) : StoppingPool n :=
  match Pool.slotOf (n := n) k with
  | none => { s with phase := .enterReap }
  | some slot =>
      match s.pool.pids slot with
      | none => { s with phase := .kill (k + 1) }
      | some pid => { s with phase := .kill (k + 1) }.setSignals pid { s.signals pid with pending := true }

def parent (s : StoppingPool n) (answer : SupervisorAnswer) : StoppingPool n :=
  match s.phase with
  | .supervising => if s.pool.pc = .stopping then s.leave else s.oversee answer
  | .kill k => s.kill k
  | .enterReap => { s with phase := .reap }
  | .reap =>
      if s.pool.children answer.waited = some .zombie then
        { s with pool := s.pool.supervise answer, phase := .enterReap }
      else if s.pool.noChildren then s.exit
      else s
  | .exited _ => s

/-- The child is there and has not died. -/
def alive (s : StoppingPool n) (pid : Nat) : Bool :=
  s.pool.children pid ≠ none && s.pool.children pid ≠ some .zombie

def die (s : StoppingPool n) (pid : Nat) : StoppingPool n := { s with pool := s.pool.next (.die pid) }

def next (s : StoppingPool n) : StopEvent → StoppingPool n
  | .pool .sigterm =>
      -- the last `wait` fails with `EINTR`, and its loop ends
      if s.phase = .reap then { s with pool := s.pool.next .sigterm }.exit
      else { s with pool := s.pool.next .sigterm }
  | .pool (.supervise answer) => s.parent answer
  | .pool (.accept pid read) =>
      if (s.signals pid).setup = .ready then { s with pool := s.pool.next (.accept pid read) } else s
  | .pool (.work pid) => if (s.signals pid).setup = .ready then { s with pool := s.pool.next (.work pid) } else s
  | .pool (.die pid) => s.die pid
  | .setup pid =>
      if s.alive pid then
        match (s.signals pid).setup with
        | .forked => s.setSignals pid { s.signals pid with setup := .armed }
        | .armed => s.setSignals pid { s.signals pid with setup := .ready }
        | .ready => s
      else s
  | .deliver pid =>
      if s.alive pid && (s.signals pid).pending then
        if (s.signals pid).setup = .ready then s.die pid
        else s.setSignals pid { s.signals pid with pending := false, flag := true }
      else s
  | .quit pid =>
      if s.pool.children pid = some .reader && (s.signals pid).setup = .ready && (s.signals pid).flag then
        s.die pid
      else s

def start : StoppingPool n := {}

end StoppingPool

namespace Pool

variable {n : Nat} {s s' : Pool n} {answer : SupervisorAnswer}

/-- The ways out of the startup and the loop. -/
theorem supervise_stopping (hpc : s.pc ≠ .stopping) (hstop : (s.supervise answer).pc = .stopping) :
    (∃ k slot, s.pc = .spawn k ∧ slotOf k = some slot ∧
      s.supervise answer = { s with pids := Function.update s.pids slot none, pc := .stopping }) ∨
    s.supervise answer = { s with pc := .stopping } ∧
      (s.pc = .test ∧ s.shutdown = true ∨ s.pc = .waiting ∧ s.noChildren = true ∨
        ∃ pid, s.pc = .reaped pid ∧ s.shutdown = true) := by
  cases hat : s.pc with
  | spawn k =>
      simp only [supervise, hat] at hstop ⊢
      cases hslot : slotOf (n := n) k with
      | none => simp [hslot] at hstop
      | some slot =>
          simp only [hslot, fork] at hstop ⊢
          cases hforked : answer.forked with
          | none => exact Or.inl ⟨k, slot, rfl, hslot, rfl⟩
          | some pid =>
              simp only [hforked] at hstop
              split_ifs at hstop
              exact absurd hstop hpc
  | test =>
      simp only [supervise, hat] at hstop ⊢
      split_ifs at hstop ⊢ with hshutdown
      exact Or.inr ⟨rfl, Or.inl ⟨trivial, hshutdown⟩⟩
  | waiting =>
      simp only [supervise, hat] at hstop ⊢
      split_ifs at hstop ⊢ with hzombie hnone
      · exact Or.inr ⟨rfl, Or.inr (Or.inl ⟨trivial, hnone⟩)⟩
      · exact absurd hstop hpc
  | reaped pid =>
      simp only [supervise, hat] at hstop ⊢
      split_ifs at hstop ⊢ with hshutdown
      · exact Or.inr ⟨rfl, Or.inr (Or.inr ⟨pid, rfl, hshutdown⟩)⟩
      · rcases hnamed : s.slotNamed pid with _ | _ | _ <;> simp [hnamed, afterReaping] at hstop
  | enterWait => simp [supervise, hat] at hstop
  | getValue sem i =>
      simp only [supervise, hat] at hstop
      cases sem <;> (split at hstop <;> simp [afterRestore] at hstop)
      all_goals split_ifs at hstop
  | post sem i => cases sem <;> simp [supervise, hat, afterRestore] at hstop
  | backoff slot => simp [supervise, hat] at hstop
  | restart slot =>
      simp only [supervise, hat, fork] at hstop
      split at hstop
      · cases hstop
      · split_ifs at hstop
        exact absurd hstop hpc
  | stopping => exact absurd hat hpc

/-- A step of a child leaves the parent where it is, takes no child away and revives none. -/
theorem acts_same (hstep : Acts s s') :
    s'.pc = s.pc ∧ s'.pids = s.pids ∧ s'.shutdown = s.shutdown ∧
      (∀ pid, s'.children pid = none ↔ s.children pid = none) ∧
      ∀ pid, s.children pid = some .zombie → s'.children pid = some .zombie := by
  have hset (pid pid' : Nat) (child child' : Child) (hchild : s.children pid = some child) :
      Function.update s.children pid (some child') pid' = none ↔ s.children pid' = none := by
    rw [Function.update_apply]
    split_ifs with hsame
    · simp [hsame, hchild]
    · rfl
  cases hstep with
  | blocked => exact ⟨rfl, rfl, rfl, fun _ => Iff.rfl, fun _ h => h⟩
  | @moves pid pc pc' sems hchild hmoves =>
      refine ⟨rfl, rfl, rfl, fun pid' => hset pid pid' _ _ hchild, fun pid' hzombie => ?_⟩
      have hne : pid' ≠ pid := fun heq => nomatch (heq ▸ hzombie).symm.trans hchild
      exact (Function.update_of_ne hne _ _).trans hzombie
  | @dies pid child hchild =>
      refine ⟨rfl, rfl, rfl, fun pid' => hset pid pid' _ _ hchild, fun pid' hzombie => ?_⟩
      show Function.update s.children pid (some .zombie) pid' = some .zombie
      rw [Function.update_apply]
      split_ifs
      · rfl
      · exact hzombie

end Pool

namespace StoppingPool

open Pool

variable {n : Nat} {s : StoppingPool n}

/-- A `SIGTERM` is on its way to the child, was noted by it, or has killed it. -/
def Signalled (s : StoppingPool n) (pid : Nat) : Prop :=
  s.pool.children pid = some .zombie ∨ (s.signals pid).pending = true ∨ (s.signals pid).flag = true

/-- The steps of the children. -/
inductive ChildMoves (s : StoppingPool n) : StoppingPool n → Prop
  | acts {pool : Pool n} (hacts : Acts s.pool pool) : ChildMoves s { s with pool := pool }
  | signals {pid : Nat} {signals : ChildSignals}
      (hkept : (s.signals pid).pending = true ∨ (s.signals pid).flag = true →
        signals.pending = true ∨ signals.flag = true) : ChildMoves s (s.setSignals pid signals)

theorem childMoves_blocked : ChildMoves s s := .acts .blocked

theorem childMoves_die (pid : Nat) : ChildMoves s (s.die pid) := by
  rcases next_cases s.pool (.die pid) with h | ⟨answer, h, -⟩ | h
  · cases h
  · cases h
  · exact .acts h

/-- An event is a signal to the parent, a step of the parent or a step of a child. -/
theorem next_childMoves (event : StopEvent) (hsigterm : event ≠ .pool .sigterm)
    (hparent : ∀ answer, event ≠ .pool (.supervise answer)) : ChildMoves s (s.next event) := by
  cases event with
  | pool event =>
      have hacts : Acts s.pool (s.pool.next event) := by
        rcases next_cases s.pool event with rfl | ⟨answer, rfl, -⟩ | h
        · exact absurd rfl hsigterm
        · exact absurd rfl (hparent answer)
        · exact h
      cases event with
      | sigterm => exact absurd rfl hsigterm
      | supervise answer => exact absurd rfl (hparent answer)
      | accept pid read =>
          rw [next]
          split_ifs
          · exact .acts hacts
          · exact childMoves_blocked
      | work pid =>
          rw [next]
          split_ifs
          · exact .acts hacts
          · exact childMoves_blocked
      | die pid => exact .acts hacts
  | setup pid =>
      rw [next]
      split_ifs
      · split
        · exact .signals id
        · exact .signals id
        · exact childMoves_blocked
      · exact childMoves_blocked
  | deliver pid =>
      rw [next]
      split_ifs
      · exact childMoves_die pid
      · exact .signals fun _ => Or.inr rfl
      · exact childMoves_blocked
  | quit pid =>
      rw [next]
      split_ifs
      · exact childMoves_die pid
      · exact childMoves_blocked

/-- The parent is in its last loop. -/
def Reaping (s : StoppingPool n) : Prop := s.phase = .enterReap ∨ s.phase = .reap

/-- The parent has left the loop and has not begun to reap. -/
def Leaving (s : StoppingPool n) : Prop :=
  s.phase = .supervising ∧ s.pool.pc = .stopping ∨ ∃ k, s.phase = .kill k

structure Sound (s : StoppingPool n) : Prop where
  placed : s.pool.Placed
  stopped : s.phase ≠ .supervising → s.pool.pc = .stopping
  looping : s.phase = .supervising → s.pool.pc ≠ .stopping → s.last = none
  named : s.Leaving → ∀ slot pid, s.pool.pids slot = some pid → (s.pool.children pid = none ↔ s.last = some pid)
  idle : s.phase = .supervising → s.pool.pc = .stopping → s.forkFailed = false → s.pool.shutdown = false →
    ∀ pid, s.pool.children pid = none
  killed : ∀ k, s.phase = .kill k → ∀ j < k, ∀ slot pid, slotOf j = some slot → s.pool.pids slot = some pid →
    s.pool.children pid ≠ none → s.Signalled pid
  reaping : s.Reaping → ∀ pid, s.pool.children pid ≠ none → s.Signalled pid

theorem start_sound : Sound (start : StoppingPool n) where
  placed := start_placed
  stopped h := absurd rfl h
  looping _ _ := rfl
  named := by
    rintro (⟨-, hpc⟩ | ⟨k, hphase⟩)
    · cases hpc
    · cases hphase
  idle _ hpc := nomatch hpc
  killed _ hphase := nomatch hphase
  reaping := by
    rintro (hphase | hphase) <;> cases hphase

theorem Signalled.childMoves {s' : StoppingPool n} (hmoves : ChildMoves s s') {pid : Nat} (h : s.Signalled pid) :
    s'.Signalled pid := by
  cases hmoves with
  | acts hacts => exact h.imp ((acts_same hacts).2.2.2.2 pid) id
  | @signals pid' signals hkept =>
      refine h.imp id fun hsent => ?_
      simp only [setSignals, Function.update_apply]
      split_ifs with hsame
      · exact hkept (hsame ▸ hsent)
      · exact hsent

theorem Sound.childMoves {s' : StoppingPool n} (h : s.Sound) (hmoves : ChildMoves s s') : s'.Sound := by
  have hsignalled (pid : Nat) : s.Signalled pid → s'.Signalled pid := Signalled.childMoves hmoves
  cases hmoves with
  | @acts pool hacts =>
      obtain ⟨hpc, hpids, hshutdown, hnone, -⟩ := acts_same hacts
      refine ⟨h.placed.act hacts, fun hphase => hpc ▸ h.stopped hphase, fun hphase hstop => h.looping hphase (hpc ▸ hstop),
        ?_, ?_, ?_, ?_⟩
      · rintro hleaving slot pid hpid
        rw [hnone]
        refine h.named ?_ slot pid (hpids ▸ hpid)
        exact hleaving.imp (fun h => ⟨h.1, hpc ▸ h.2⟩) id
      · intro hphase hstop hfork hflag pid
        exact (hnone pid).mpr (h.idle hphase (hpc ▸ hstop) hfork (hshutdown ▸ hflag) pid)
      · intro k hphase j hj slot pid hslot hpid hchild
        exact hsignalled pid (h.killed k hphase j hj slot pid hslot (hpids ▸ hpid) fun hgone => hchild ((hnone pid).mpr hgone))
      · intro hreaping pid hchild
        exact hsignalled pid (h.reaping hreaping pid fun hgone => hchild ((hnone pid).mpr hgone))
  | signals hkept =>
      exact ⟨h.placed, h.stopped, h.looping, h.named, h.idle,
        fun k hphase j hj slot pid hslot hpid hchild =>
          hsignalled pid (h.killed k hphase j hj slot pid hslot hpid hchild),
        fun hreaping pid hchild => hsignalled pid (h.reaping hreaping pid hchild)⟩

theorem sound_exit (hplaced : s.pool.Placed) (hpc : s.pool.pc = .stopping) : s.exit.Sound where
  placed := hplaced
  stopped _ := hpc
  looping hphase := nomatch hphase
  named := by
    rintro (⟨hphase, -⟩ | ⟨k, hphase⟩) <;> cases hphase
  idle hphase := nomatch hphase
  killed _ hphase := nomatch hphase
  reaping := by
    rintro (hphase | hphase) <;> cases hphase

/-- A parent that is still in its startup or its loop, or has just left them. -/
theorem sound_supervising (hphase : s.phase = .supervising) (hplaced : s.pool.Placed)
    (hlooping : s.pool.pc ≠ .stopping → s.last = none)
    (hnamed : s.pool.pc = .stopping → ∀ slot pid, s.pool.pids slot = some pid →
      (s.pool.children pid = none ↔ s.last = some pid))
    (hidle : s.pool.pc = .stopping → s.forkFailed = false → s.pool.shutdown = false →
      ∀ pid, s.pool.children pid = none) : s.Sound where
  placed := hplaced
  stopped h := absurd hphase h
  looping _ := hlooping
  named := by
    rintro (⟨-, hpc⟩ | ⟨k, hkill⟩)
    · exact hnamed hpc
    · cases hphase.symm.trans hkill
  idle _ := hidle
  killed k hkill := nomatch hphase.symm.trans hkill
  reaping := by
    rintro (hreap | hreap) <;> cases hphase.symm.trans hreap

/-- When the parent leaves the loop, its slots name unreaped children, but for the one it has just reaped. -/
theorem Sound.oversee (h : s.Sound) (hphase : s.phase = .supervising) (hpc : s.pool.pc ≠ .stopping)
    (answer : SupervisorAnswer) : (s.oversee answer).Sound := by
  have hplaced := h.placed.supervise (supervises s.pool answer)
  have hlast := h.looping hphase hpc
  have hunreaped := h.placed.unreaped hpc
  unfold StoppingPool.oversee
  simp only
  split_ifs with hstop
  · rcases supervise_stopping hpc hstop with ⟨k, slot, hat, hslot, heq⟩ | ⟨heq, hway⟩
    · have hnamed (slot' : Slot n) (pid : Nat) (hpid : (s.pool.supervise answer).pids slot' = some pid) :
          (s.pool.supervise answer).children pid = none ↔ s.last = some pid := by
        rw [heq] at hpid ⊢
        simp only [Function.update_apply] at hpid
        split_ifs at hpid
        refine iff_of_false (fun hgone => ?_) (by simp [hlast])
        rcases hunreaped slot' pid hpid hgone with hbusy | hbusy <;> rw [hat] at hbusy <;> cases hbusy
      rw [hat]
      cases k with
      | zero => exact sound_exit hplaced hstop
      | succ k => exact sound_supervising hphase hplaced (absurd hstop) (fun _ => hnamed) nofun
    · have hchildren : (s.pool.supervise answer).children = s.pool.children := by rw [heq]
      have hpids : (s.pool.supervise answer).pids = s.pool.pids := by rw [heq]
      have hflag' : (s.pool.supervise answer).shutdown = s.pool.shutdown := by rw [heq]
      have hquiet (hat : Quiet s.pool.pc) (slot : Slot n) (pid : Nat)
          (hpid : (s.pool.supervise answer).pids slot = some pid) :
          (s.pool.supervise answer).children pid = none ↔ s.last = some pid := by
        rw [hpids] at hpid
        rw [hchildren]
        exact iff_of_false (h.placed.children_of_quiet hat hpc hpid) (by simp [hlast])
      rcases hway with ⟨hat, hflag⟩ | ⟨hat, hnone⟩ | ⟨pid, hat, hflag⟩
      · have hnamed := hquiet (by rw [hat]; exact ⟨by simp, rfl⟩)
        rw [hat]
        refine sound_supervising hphase hplaced (absurd hstop) (fun _ => hnamed) fun _ _ hfalse => ?_
        cases hflag.symm.trans (hflag'.symm.trans hfalse)
      · have hnamed := hquiet (by rw [hat]; exact ⟨by simp, rfl⟩)
        rw [hat]
        refine sound_supervising hphase hplaced (absurd hstop) (fun _ => hnamed) fun _ _ _ pid => ?_
        exact (congrFun hchildren pid).trans ((noChildren_iff h.placed).mp hnone pid)
      · rw [hat]
        refine sound_supervising hphase hplaced (absurd hstop) (fun _ slot pid' hpid => ?_) fun _ _ hfalse => ?_
        · rw [show (s.pool.supervise answer).children pid' = s.pool.children pid' from congrFun hchildren pid']
          rw [show (s.pool.supervise answer).pids slot = s.pool.pids slot from congrFun hpids slot] at hpid
          constructor
          · intro hgone
            rcases hunreaped slot pid' hpid hgone with hbusy | hbusy <;> rw [hat] at hbusy <;> cases hbusy
            rfl
          · rintro hsame
            obtain rfl := Option.some.inj hsame
            exact h.placed.replaced slot pid (Or.inl hat) hpid
        · cases hflag.symm.trans (hflag'.symm.trans hfalse)
  · exact sound_supervising hphase hplaced (fun _ => hlast) (fun hpc' => absurd hpc' hstop)
      (fun hpc' => absurd hpc' hstop)

theorem Sound.leave (h : s.Sound) (hphase : s.phase = .supervising) (hpc : s.pool.pc = .stopping) :
    s.leave.Sound := by
  unfold StoppingPool.leave
  split_ifs
  · refine ⟨h.placed, fun _ => hpc, nofun, fun _ => h.named (Or.inl ⟨hphase, hpc⟩), nofun, ?_, ?_⟩
    · rintro k hkill j hj
      cases hkill
      exact absurd hj (Nat.not_lt_zero j)
    · rintro (hreap | hreap) <;> cases hreap
  · exact sound_exit h.placed hpc

/-- After `kill` the child has its signal; when the last pid is done, every child has. -/
theorem Sound.kill (h : s.Sound) {k : Nat} (hphase : s.phase = .kill k) : (s.kill k).Sound := by
  have hpc := h.stopped (by simp [hphase])
  have hnamed := h.named (Or.inr ⟨k, hphase⟩)
  have hkilled := h.killed k hphase
  unfold StoppingPool.kill
  split
  · rename_i hslot
    refine ⟨h.placed, fun _ => hpc, nofun, ?_, nofun, fun _ hkill => (nomatch hkill), fun _ pid hchild => ?_⟩
    · rintro (⟨hsupervising, -⟩ | ⟨k', hkill⟩)
      · cases hsupervising
      · cases hkill
    · obtain ⟨child, hchild'⟩ := Option.ne_none_iff_exists'.mp hchild
      obtain ⟨slot, hpid, -⟩ := h.placed.named pid child hchild'
      obtain ⟨j, hj⟩ := exists_slotOf slot
      exact hkilled j (slotOf_lt hj hslot) slot pid hj hpid hchild
  · rename_i slot hslot
    have hreap (hreaping : StopPhase.kill (k + 1) = .enterReap ∨ StopPhase.kill (k + 1) = .reap) : False := by
      rcases hreaping with h | h <;> cases h
    split
    · rename_i hnone
      refine ⟨h.placed, fun _ => hpc, nofun, fun _ => hnamed, nofun, ?_, fun hreaping => (hreap hreaping).elim⟩
      intro k' hkill j hj slot' pid hslot' hpid hchild
      cases hkill
      rcases Nat.lt_succ_iff_lt_or_eq.mp hj with hj | rfl
      · exact hkilled j hj slot' pid hslot' hpid hchild
      · obtain rfl := Option.some.inj (hslot.symm.trans hslot')
        cases hnone.symm.trans hpid
    · rename_i pid₀ hpid₀
      refine ⟨h.placed, fun _ => hpc, nofun, fun _ => hnamed, nofun, ?_, fun hreaping => (hreap hreaping).elim⟩
      intro k' hkill j hj slot' pid hslot' hpid hchild
      cases hkill
      by_cases hsame : pid = pid₀
      · exact Or.inr (Or.inl (by simp [setSignals, hsame]))
      · rcases Nat.lt_succ_iff_lt_or_eq.mp hj with hj | rfl
        · have hold := hkilled j hj slot' pid hslot' hpid hchild
          simpa [Signalled, setSignals, hsame] using hold
        · obtain rfl := Option.some.inj (hslot.symm.trans hslot')
          exact absurd (Option.some.inj (hpid.symm.trans hpid₀)) hsame

/-- A parent in its last loop. -/
theorem sound_reaping (hreaping : s.Reaping) (hplaced : s.pool.Placed) (hpc : s.pool.pc = .stopping)
    (hsignalled : ∀ pid, s.pool.children pid ≠ none → s.Signalled pid) : s.Sound where
  placed := hplaced
  stopped _ := hpc
  looping hphase := by
    rcases hreaping with hreap | hreap <;> cases hphase.symm.trans hreap
  named := by
    rintro (⟨hphase, -⟩ | ⟨k, hphase⟩) <;> rcases hreaping with hreap | hreap <;> cases hphase.symm.trans hreap
  idle hphase := by
    rcases hreaping with hreap | hreap <;> cases hphase.symm.trans hreap
  killed k hphase := by
    rcases hreaping with hreap | hreap <;> cases hphase.symm.trans hreap
  reaping _ := hsignalled

/-- What the parent's last loop does about a dead child. -/
theorem supervise_reaps (hpc : s.pool.pc = .stopping) {answer : SupervisorAnswer}
    (hzombie : s.pool.children answer.waited = some .zombie) :
    s.pool.supervise answer =
      { s.pool with children := Function.update s.pool.children answer.waited none } := by
  simp only [supervise, hpc, if_pos hzombie]

theorem Sound.parent (h : s.Sound) (answer : SupervisorAnswer) : (s.parent answer).Sound := by
  unfold StoppingPool.parent
  cases hphase : s.phase with
  | supervising =>
      simp only
      split_ifs with hpc
      · exact h.leave hphase hpc
      · exact h.oversee hphase hpc answer
  | kill k => exact h.kill hphase
  | enterReap =>
      exact sound_reaping (Or.inr rfl) h.placed (h.stopped (by simp [hphase])) (h.reaping (Or.inl hphase))
  | reap =>
      have hpc := h.stopped (by simp [hphase])
      have hsignalled := h.reaping (Or.inr hphase)
      simp only
      split_ifs with hzombie hnone
      · have heq := supervise_reaps hpc hzombie
        refine sound_reaping (Or.inl rfl) (h.placed.supervise (supervises s.pool answer)) ?_ fun pid hchild => ?_
        · rw [heq]
          exact hpc
        · have hne : pid ≠ answer.waited := by
            rintro rfl
            rw [heq] at hchild
            exact hchild (Function.update_self _ _ _)
          rw [heq] at hchild ⊢
          have hold := hsignalled pid (by simpa [Function.update_of_ne hne] using hchild)
          simpa [Signalled, Function.update_of_ne hne] using hold
      · exact sound_exit h.placed hpc
      · exact h
  | exited result => exact h

theorem Sound.sigterm (h : s.Sound) : (s.next (.pool .sigterm)).Sound := by
  have hplaced := h.placed.signal
  have hstopped : s.pool.pc = .stopping → (s.pool.next .sigterm).pc = .stopping := by
    intro hpc
    rw [Pool.next, hpc]
    rfl
  have hback : (s.pool.next .sigterm).pc = .stopping → s.pool.pc = .stopping := by
    rw [Pool.next]
    simp only
    split_ifs
    · intro hpc
      cases hpc
    · exact id
  rw [StoppingPool.next]
  split_ifs with hreap
  · exact sound_exit hplaced (hstopped (h.stopped (by simp [hreap])))
  · refine ⟨hplaced, fun hphase => hstopped (h.stopped hphase),
      fun hphase hpc => h.looping hphase fun hpc' => hpc (hstopped hpc'), fun hleaving => ?_, fun _ _ _ hshutdown => (by cases hshutdown),
      h.killed, h.reaping⟩
    exact h.named (hleaving.imp (fun hstop => ⟨hstop.1, hback hstop.2⟩) id)

theorem Sound.next (h : s.Sound) (event : StopEvent) : (s.next event).Sound := by
  by_cases hsigterm : event = .pool .sigterm
  · subst hsigterm
    exact h.sigterm
  · by_cases hparent : ∃ answer, event = .pool (.supervise answer)
    · obtain ⟨answer, rfl⟩ := hparent
      exact h.parent answer
    · exact h.childMoves (next_childMoves event hsigterm fun answer heq => hparent ⟨answer, heq⟩)

theorem run_sound (events : List StopEvent) : (run next (start : StoppingPool n) events).Sound :=
  run_invariant Sound (fun _ event h => h.next event) events start_sound

/-- **At most one `SIGTERM` goes astray.** While the parent signals its children, every pid that it has kept is
that of a child that has not been reaped, except the one of the child whose death ended the loop: this one is
signalled although the process is gone, and its pid may be another's by then. -/
theorem signals_astray (events : List StopEvent) {k : Nat}
    (hphase : (run next (start : StoppingPool n) events).phase = .kill k) :
    (∀ slot pid, (run next (start : StoppingPool n) events).pool.pids slot = some pid →
      ((run next (start : StoppingPool n) events).pool.children pid = none ↔
        (run next (start : StoppingPool n) events).last = some pid)) ∧
    ∀ slot slot' pid pid', (run next (start : StoppingPool n) events).pool.pids slot = some pid →
      (run next (start : StoppingPool n) events).pool.pids slot' = some pid' →
      (run next (start : StoppingPool n) events).pool.children pid = none →
      (run next (start : StoppingPool n) events).pool.children pid' = none → slot = slot' := by
  have h := run_sound (n := n) events
  have hnamed := h.named (Or.inr ⟨k, hphase⟩)
  refine ⟨hnamed, fun slot slot' pid pid' hpid hpid' hgone hgone' => ?_⟩
  have hlast := (hnamed slot pid hpid).mp hgone
  have hlast' := (hnamed slot' pid' hpid').mp hgone'
  obtain rfl := Option.some.inj (hlast.symm.trans hlast')
  exact h.placed.injective slot slot' pid hpid hpid'

/-- A worker dies, and the parent is asked to stop between the `wait` that tells it so and the test of the flag. -/
def deathDuringStop : List StopEvent :=
  startedPool.map .pool ++ [.pool (.supervise {}), .pool (.die 2), .pool (.supervise { waited := 2 }), .pool .sigterm,
    .pool (.supervise {}), .pool (.supervise {})]

/-- The dead worker's pid is among those that are signalled. -/
theorem signals_astray_deathDuringStop :
    (run next (start : StoppingPool 1) deathDuringStop).pool.pids (.worker 0) = some 2 ∧
      (run next (start : StoppingPool 1) deathDuringStop).pool.children 2 = none :=
  ⟨by decide, ((signals_astray (n := 1) deathDuringStop (k := 0) (by decide)).1 (.worker 0) 2 (by decide)).mpr
    (by decide)⟩

/-! ### When the parent is gone -/

/-- The parent is not interrupted in its last loop. -/
def Uninterrupted (s : StoppingPool n) (event : StopEvent) : Prop := event = .pool .sigterm → s.phase ≠ .reap

/-- No child is left behind. -/
def Deserted (s : StoppingPool n) : Prop := ∀ result, s.phase = .exited result → ∀ pid, s.pool.children pid = none

/-- Before the first fork there is no child. -/
theorem children_of_spawn_zero (h : s.Sound) (hpc : s.pool.pc = .spawn 0) (pid : Nat) :
    s.pool.children pid = none := by
  by_contra hchild
  obtain ⟨child, hchild⟩ := Option.ne_none_iff_exists'.mp hchild
  obtain ⟨slot, hpid, -⟩ := h.placed.named pid child hchild
  obtain ⟨j, hj⟩ := exists_slotOf slot
  cases (h.placed.unborn 0 hpc j slot (Nat.zero_le j) hj).symm.trans hpid

theorem Deserted.oversee (hsound : s.Sound) (hphase : s.phase = .supervising) (hpc : s.pool.pc ≠ .stopping)
    (answer : SupervisorAnswer) : (s.oversee answer).Deserted := by
  have hsupervising (s' : StoppingPool n) (hs' : s'.phase = .supervising) : s'.Deserted :=
    fun result hexited => nomatch hs'.symm.trans hexited
  unfold StoppingPool.oversee
  simp only
  split_ifs with hstop
  · split
    · rename_i hspawn
      intro _ _ pid
      rcases supervise_stopping hpc hstop with ⟨k, slot, -, -, heq⟩ | ⟨heq, -⟩
      · exact (congrArg (Pool.children · pid) heq).trans (children_of_spawn_zero hsound hspawn pid)
      · exact (congrArg (Pool.children · pid) heq).trans (children_of_spawn_zero hsound hspawn pid)
    · exact hsupervising _ hphase
    · exact hsupervising _ hphase
    · exact hsupervising _ hphase
  · exact hsupervising _ hphase

theorem Deserted.parent (h : s.Deserted) (hsound : s.Sound) (answer : SupervisorAnswer) :
    (s.parent answer).Deserted := by
  unfold StoppingPool.parent
  cases hphase : s.phase with
  | supervising =>
      simp only
      split_ifs with hpc
      · unfold StoppingPool.leave
        split_ifs with hstop
        · exact fun result hexited => nomatch hexited
        · simp only [Bool.or_eq_true, not_or, Bool.not_eq_true] at hstop
          exact fun _ _ => hsound.idle hphase hpc hstop.1 hstop.2
      · exact .oversee hsound hphase hpc answer
  | kill k =>
      simp only [StoppingPool.kill]
      split
      · exact fun result hexited => nomatch hexited
      · split <;> exact fun result hexited => nomatch hexited
  | enterReap => exact fun result hexited => nomatch hexited
  | reap =>
      simp only
      split_ifs with hzombie hnone
      · exact fun result hexited => nomatch hexited
      · exact fun _ _ => (noChildren_iff hsound.placed).mp hnone
      · exact h
  | exited result => exact h

theorem Deserted.next (h : s.Deserted) (hsound : s.Sound) {event : StopEvent} (huninterrupted : s.Uninterrupted event) :
    (s.next event).Deserted := by
  by_cases hsigterm : event = .pool .sigterm
  · subst hsigterm
    rw [StoppingPool.next, if_neg (huninterrupted rfl)]
    exact h
  · by_cases hparent : ∃ answer, event = .pool (.supervise answer)
    · obtain ⟨answer, rfl⟩ := hparent
      exact h.parent hsound answer
    · have hmoves := next_childMoves (s := s) event hsigterm fun answer heq => hparent ⟨answer, heq⟩
      generalize s.next event = s' at hmoves
      cases hmoves with
      | acts hacts => exact fun result hexited pid => ((acts_same hacts).2.2.2.1 pid).mpr (h result hexited pid)
      | signals hkept => exact h

/-- **The parent does not leave children behind.** In every run in which no `SIGTERM` interrupts the last loop,
every child that was ever forked has been reaped when the parent is gone, whichever way it took. -/
theorem exit_leaves_no_child (events : List StopEvent)
    (huninterrupted : Along next Uninterrupted (start : StoppingPool n) events) {result : Nat}
    (hexited : (run next (start : StoppingPool n) events).phase = .exited result) (pid : Nat) :
    (run next (start : StoppingPool n) events).pool.children pid = none := by
  have hstart : Sound (start : StoppingPool n) ∧ Deserted (start : StoppingPool n) :=
    ⟨start_sound, fun result hexited => nomatch hexited⟩
  have hboth := run_invariant_along (fun s => s.Sound ∧ s.Deserted)
    (fun s event hguard h => ⟨h.1.next event, h.2.next h.1 hguard⟩) huninterrupted hstart
  exact hboth.2 result hexited pid

/-- The fork of the worker fails; the cache reader is signalled once it is ready for it, and reaped. -/
def forkFails : List StopEvent :=
  [.pool (.supervise { forked := some 1 }), .pool (.supervise {}), .setup 1, .setup 1, .pool (.supervise {}),
    .pool (.supervise {}), .pool (.supervise {}), .pool (.supervise {}), .deliver 1, .pool (.supervise {}),
    .pool (.supervise { waited := 1 }), .pool (.supervise {}), .pool (.supervise {})]

theorem exit_leaves_no_child_forkFails :
    (run next (start : StoppingPool 1) forkFails).phase = .exited 1 ∧
      ∀ pid, (run next (start : StoppingPool 1) forkFails).pool.children pid = none := by
  have hexited : (run next (start : StoppingPool 1) forkFails).phase = .exited 1 := by decide
  have hquiet : ∀ event ∈ forkFails, event ≠ .pool .sigterm := by simp [forkFails]
  exact ⟨hexited, exit_leaves_no_child forkFails
    (along_of_forall fun event hevent _ hsigterm => absurd hsigterm (hquiet event hevent)) hexited⟩

end StoppingPool
end KnxdFcgi
