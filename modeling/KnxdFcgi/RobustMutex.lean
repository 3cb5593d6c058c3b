import Mathlib

/-! A robust, process-shared mutex as POSIX describes it, for processes of any type. The mutex remembers
whether its owner took it over from a dead one and has not yet called `pthread_mutex_consistent`; unlocking
it in that state makes it unusable for good. -/

namespace KnxdFcgi

inductive RobustMutex (π : Type) where
  | free
  | owned (owner : π) (inconsistent : Bool)
  | ownerDead
  | notRecoverable
  deriving DecidableEq

namespace RobustMutex

/-- What a locking call returns once it returns: `0`, `EOWNERDEAD` or `ENOTRECOVERABLE`. -/
inductive LockResult where
  | acquired | ownerDead | notRecoverable

variable {π : Type} [DecidableEq π]

/-- `none` means that the caller blocks. -/
def lock (pid : π) : RobustMutex π → Option (LockResult × RobustMutex π)
  | free => some (.acquired, owned pid false)
  | owned _ _ => none
  | ownerDead => some (.ownerDead, owned pid true)
  | notRecoverable => some (.notRecoverable, notRecoverable)

def makeConsistent (pid : π) : RobustMutex π → RobustMutex π
  | owned owner inconsistent => owned owner (inconsistent && owner ≠ pid)
  | m => m

/-- Unlocking a mutex that the process does not own is an error without effect. -/
def unlock (pid : π) : RobustMutex π → RobustMutex π
  | owned owner inconsistent =>
      if owner = pid then if inconsistent then notRecoverable else free else owned owner inconsistent
  | m => m

/-- The process dies. -/
def die (pid : π) : RobustMutex π → RobustMutex π
  | owned owner inconsistent => if owner = pid then ownerDead else owned owner inconsistent
  | m => m

variable {pid : π} {m : RobustMutex π}

/-- Only the unlocking of an inconsistent mutex by its owner makes it unusable. -/
theorem unlock_notRecoverable (hm : m ≠ notRecoverable) (hpid : m ≠ owned pid true) :
    m.unlock pid ≠ notRecoverable := by
  cases m with
  | free | ownerDead => exact nofun
  | notRecoverable => exact absurd rfl hm
  | owned owner inconsistent =>
      rw [unlock]
      split_ifs with howner hinconsistent
      · exact absurd (by rw [howner, hinconsistent]) hpid
      · exact nofun
      · exact nofun

theorem unlock_owned {owner : π} {inconsistent : Bool} (h : m.unlock pid = owned owner inconsistent) :
    m = owned owner inconsistent := by
  cases m with
  | free | ownerDead | notRecoverable => cases h
  | owned owner' inconsistent' =>
      rw [unlock] at h
      split_ifs at h
      exact h

theorem makeConsistent_notRecoverable (hm : m ≠ notRecoverable) : m.makeConsistent pid ≠ notRecoverable := by
  cases m with
  | free | ownerDead | owned => exact nofun
  | notRecoverable => exact absurd rfl hm

theorem makeConsistent_owned {owner : π} (h : m.makeConsistent pid = owned owner true) :
    m = owned owner true ∧ owner ≠ pid := by
  cases m with
  | free | ownerDead | notRecoverable => cases h
  | owned owner' inconsistent =>
      simp only [makeConsistent, owned.injEq, Bool.and_eq_true, decide_eq_true_eq] at h
      obtain ⟨rfl, rfl, hne⟩ := h
      exact ⟨rfl, hne⟩

theorem die_notRecoverable (hm : m ≠ notRecoverable) : m.die pid ≠ notRecoverable := by
  cases m with
  | free | ownerDead => exact nofun
  | notRecoverable => exact absurd rfl hm
  | owned owner inconsistent =>
      rw [die]
      split_ifs <;> exact nofun

theorem die_owned {owner : π} {inconsistent : Bool} (h : m.die pid = owned owner inconsistent) :
    m = owned owner inconsistent ∧ owner ≠ pid := by
  cases m with
  | free | ownerDead | notRecoverable => cases h
  | owned owner' inconsistent' =>
      rw [die] at h
      split_ifs at h with howner
      cases h
      exact ⟨rfl, howner⟩

end RobustMutex
end KnxdFcgi
