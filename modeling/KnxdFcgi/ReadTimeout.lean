import KnxdFcgi.ReadKeys

/-! The milliseconds that a pass of the poll loop asks `wait_for_new_data` to wait. They are computed in `int`
from the `t` of the client, which may be any `int`: above 2147483 remaining seconds the product wraps, and a
product that is not positive selects the branch of `wait_for_new_data` that does not wait at all. -/

namespace KnxdFcgi

open Machine

/-- The argument of `wait_for_new_data` in the pass of the poll loop that comes `elapsed` seconds after its
beginning, or `none` where the loop ends for lack of time. -/
def waitArgument (timeoutSec : Int32) (elapsed : Nat) : Option Int32 :=
  if 0 < timeoutSec then
    let remaining := timeoutSec - Int32.ofNat elapsed
    if remaining ≤ 0 then none else some (remaining * 1000)
  else none

namespace Reader

variable {config : ReadConfig} {req : ReadRequest} {cache : SharedCacheData} {tick : Tick} {r : Reader}

theorem step_loopHead (hpc : r.pc = .loopHead) (hempty : r.values = []) :
    r.step config req cache tick = { r with
      pc := match waitArgument (req.timeoutSec config) tick.elapsed with
        | none => .done
        | some timeoutMs => .enterWait timeoutMs } := by
  simp only [step, hpc, hempty, waitArgument]
  split_ifs with htimeout <;> simp_all

/-- Only the head of the loop leads to a wait. -/
theorem waitArgument_of_step {timeoutMs : Int32} (h : (r.step config req cache tick).pc = .enterWait timeoutMs) :
    waitArgument (req.timeoutSec config) tick.elapsed = some timeoutMs := by
  cases hpc : r.pc with
  | get todo =>
      cases todo with
      | nil => simp [step, hpc] at h
      | cons addr todo =>
          simp only [step, hpc] at h
          split at h <;> cases h
  | groupReads => simp [step, hpc] at h
  | loopHead =>
      by_cases hempty : r.values = []
      · rw [step_loopHead hpc hempty] at h
        split at h
        · cases h
        · rename_i ms hms
          rw [hms, ReadPc.enterWait.inj h]
      · simp only [step, hpc, ne_eq, hempty, not_false_eq_true, if_true] at h
        split at h <;> cases h
  | enterWait ms =>
      simp only [step, hpc, afterWait] at h
      split_ifs at h
  | condWait genBefore =>
      simp only [step, hpc, afterWait] at h
      split_ifs at h
      rw [hpc] at h
      cases h
  | getDelta =>
      simp only [step, hpc] at h
      split at h <;> cases h
  | done => simp [step, hpc] at h

end Reader

/-- In every run, the argument of a wait is that of a pass of the loop. -/
theorem ReadSystem.run_waitArgument (config : ReadConfig) (req : ReadRequest) (journal : List Push)
    (covered : Nat) (events : List ReadEvent) {timeoutMs : Int32}
    (h : (run (next config req) (start req journal covered) events).reader.pc = .enterWait timeoutMs) :
    ∃ elapsed, waitArgument (req.timeoutSec config) elapsed = some timeoutMs := by
  refine run_invariant (fun s : ReadSystem => ∀ ms, s.reader.pc = .enterWait ms →
    ∃ elapsed, waitArgument (req.timeoutSec config) elapsed = some ms) ?_ events ?_ timeoutMs h
  · intro s event hinv ms hms
    cases event with
    | push p => exact hinv ms hms
    | step tick => exact ⟨tick.elapsed, Reader.waitArgument_of_step hms⟩
  · intro ms hms
    simp only [start, Reader.start] at hms
    split at hms <;> cases hms

namespace ReadRequest

variable {req : ReadRequest}

theorem le_timeoutSec {t : Int32} (ht : req.t = some t) (config : ReadConfig) :
    t.toInt ≤ (req.timeoutSec config).toInt := by
  simp only [timeoutSec, ht]
  split_ifs with hzero hneg
  · subst hzero
    decide
  · rw [Int32.lt_iff_toInt_lt, Int32.toInt_zero] at hneg
    exact hneg.le
  · exact le_rfl

/-- Without `t` the timeout is the configured one, at most an hour. -/
theorem timeoutSec_le {bound : Int} (hbound : 3600 ≤ bound) (ht : ∀ t, req.t = some t → t.toInt ≤ bound)
    (config : ReadConfig) : (req.timeoutSec config).toInt ≤ bound := by
  cases h : req.t with
  | none =>
      rw [timeoutSec_longPoll h]
      exact config.le_max.trans hbound
  | some t =>
      have hone : Int32.toInt 1 = 1 := by decide
      simp only [timeoutSec, h]
      split_ifs with hzero hneg
      · rw [hone]
        omega
      · rw [Int32.toInt_zero]
        omega
      · exact ht t h

end ReadRequest

/-- What a pass that waits has computed. -/
theorem waitArgument_eq_some {timeoutSec : Int32} {elapsed : Nat} {timeoutMs : Int32}
    (h : waitArgument timeoutSec elapsed = some timeoutMs) :
    0 < timeoutSec.toInt ∧ timeoutMs = (timeoutSec - Int32.ofNat elapsed) * 1000 ∧
      0 < (timeoutSec - Int32.ofNat elapsed).toInt := by
  simp only [waitArgument] at h
  split_ifs at h with hpos hover
  rw [Int32.lt_iff_toInt_lt, Int32.toInt_zero] at hpos
  rw [Int32.le_iff_toInt_le, Int32.toInt_zero, not_le] at hover
  exact ⟨hpos, (Option.some.inj h).symm, hover⟩

/-- Up to 2147483 seconds fit an `int` in milliseconds. -/
theorem toInt_mul_thousand {seconds : Int32} (hnonneg : 0 ≤ seconds.toInt) (hle : seconds.toInt ≤ 2147483) :
    (seconds * 1000).toInt = 1000 * seconds.toInt := by
  have hthousand : Int32.toInt 1000 = 1000 := by decide
  rw [Int32.toInt_mul, hthousand, Int.bmod_eq_of_le]
  · exact mul_comm _ _
  · norm_num
    omega
  · norm_num
    omega

/-- **When the wait is the remaining time.** In every pass of the poll loop that waits, whatever the request and
however late it comes, the argument is the positive number of milliseconds that remain exactly if the elapsed
seconds fit an `int` and, where the client sent a `t`, no more than 2147483 seconds of it are left. -/
theorem waitArgument_exact_iff (config : ReadConfig) (req : ReadRequest) (elapsed : Nat) (timeoutMs : Int32)
    (h : waitArgument (req.timeoutSec config) elapsed = some timeoutMs) :
    (timeoutMs.toInt = 1000 * ((req.timeoutSec config).toInt - elapsed) ∧ 0 < timeoutMs.toInt) ↔
      elapsed < 2 ^ 31 ∧ ∀ t, req.t = some t → t.toInt - elapsed ≤ 2147483 := by
  obtain ⟨hpos, rfl, hremaining⟩ := waitArgument_eq_some h
  have hupper := (req.timeoutSec config).toInt_lt
  constructor
  · rintro ⟨hexact, hms⟩
    have hfits := ((req.timeoutSec config - Int32.ofNat elapsed) * 1000).toInt_lt
    rw [hexact] at hms hfits
    refine ⟨by omega, fun t ht => ?_⟩
    have hle := ReadRequest.le_timeoutSec ht config
    omega
  · rintro ⟨helapsed, ht⟩
    have htimeout : (req.timeoutSec config).toInt ≤ 2147483 + elapsed :=
      ReadRequest.timeoutSec_le (by omega) (fun t h => by linarith [ht t h]) config
    have hsub := toInt_remaining hpos.le ⟨0, elapsed, helapsed, .signalled⟩
    dsimp only at hsub
    rw [toInt_mul_thousand hremaining.le (by omega), hsub]
    exact ⟨rfl, by omega⟩

/-- The largest `t` that waits as long as it says. -/
theorem waitArgument_exact_iff_largest :
    Int32.toInt 2147483000 = 1000 * (Int32.toInt 2147483 - (0 : Nat)) ∧ 0 < Int32.toInt 2147483000 :=
  (waitArgument_exact_iff ReadSystem.defaultConfig ⟨some 2147483, none, [1], List.pairwise_singleton _ _⟩ 0 2147483000
    (by decide)).mpr ⟨by decide, fun t ht => by obtain rfl := Option.some.inj ht; decide⟩

/-- One second more, and the handler does not wait but asks for the delta again and again. -/
theorem pollTimeout_wraps :
    ∃ req, ReadHandler.request [] (fun _ => true) (text "a=0/0/1&i=1&t=2147484") = .ok req ∧
      waitArgument (req.timeoutSec ReadSystem.defaultConfig) 0 = some (-2147483296) ∧
      [2, 3, 4].map (fun n => (run (ReadSystem.next ReadSystem.defaultConfig req)
        (ReadSystem.start req [⟨2, [0x01], 0⟩] 1) (List.replicate n (.step {}))).reader.pc) =
          [.enterWait (-2147483296), .getDelta, .loopHead] :=
  ⟨⟨some 2147484, some 1, [1], List.pairwise_singleton _ _⟩, rfl, by decide, by decide⟩

end KnxdFcgi
