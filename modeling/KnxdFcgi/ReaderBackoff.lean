import KnxdFcgi.ReaderProgress

/-! The backoff of `run_cache_reader`, over any client: the loop sees of it only the answers to its calls.
The failures since the last success determine the sleep, which doubles up to its limit; and since a failed
attempt is followed by a sleep at once, and a successful one by the sleep for the connection it loses, no
two attempts come without a sleep between them. The loop over a `KnxdClient` is an instance. -/

namespace KnxdFcgi

open Machine

/-- What the client answers in one pass of the loop, as far as the pass asks for it. -/
structure PassAnswers where
  connect : Bool := false
  opened : Bool := false
  activity : WaitResult := .timeout
  drained : Nat := 0

/-- A connection attempt, `connect` and where it succeeds `open_group_socket`, or a backoff sleep. -/
inductive LoopCall where
  | attempt
  | sleep (ms : Int32)
  deriving DecidableEq

/-- `calls` are the attempts made and the sleeps requested. -/
structure ReaderLoop where
  connected : Bool := false
  backoffMs : Int32
  calls : List LoopCall := []

namespace ReaderLoop

variable (options : CacheReaderOptions)

def start : ReaderLoop := { backoffMs := options.initialBackoffMs }

def backOff (s : ReaderLoop) : ReaderLoop :=
  { connected := false
    backoffMs := min (s.backoffMs * 2) options.maxBackoffMs
    calls := s.calls ++ [LoopCall.sleep s.backoffMs] }

def attempt (s : ReaderLoop) : ReaderLoop := { s with calls := s.calls ++ [LoopCall.attempt] }

/-- One pass of the loop, with `should_stop` false. -/
def next (s : ReaderLoop) (answers : PassAnswers) : ReaderLoop :=
  if s.connected then
    match answers.activity with
    | .groupData => if 0 < answers.drained then { s with backoffMs := options.initialBackoffMs } else s
    | .timeout => s
    | .error => s.backOff options
  else if answers.connect && answers.opened then
    { s.attempt with connected := true, backoffMs := options.initialBackoffMs }
  else s.attempt.backOff options

/-- The loop after a number of passes. -/
def after (passes : List PassAnswers) : ReaderLoop := run (next options) (start options) passes

/-- What a pass means for the backoff. -/
inductive Outcome where
  | success | failure | other
  deriving DecidableEq

/-- A failure is a failed attempt or a lost connection. -/
def outcome (s : ReaderLoop) (answers : PassAnswers) : Outcome :=
  if s.connected then if answers.activity = .error then .failure else .other
  else if answers.connect && answers.opened then .success else .failure

def outcomes : ReaderLoop → List PassAnswers → List Outcome
  | _, [] => []
  | s, answers :: passes => s.outcome answers :: outcomes (s.next options answers) passes

def tally : Nat → Outcome → Nat
  | _, .success => 0
  | k, .failure => k + 1
  | k, .other => k

/-- The failures since the last success, or since the start. -/
def failuresSince (history : List Outcome) : Nat := history.foldl tally 0

/-- The argument of `nanosleep`. -/
structure Timespec where
  sec : Nat
  nsec : Nat

def Timespec.ms (t : Timespec) : Nat := t.sec * 1000 + t.nsec / 1000000

/-- The loop of `sleep_interruptible`, with `should_stop` false. -/
def sleepSlices (slice remaining : Nat) : List Timespec :=
  if remaining = 0 then []
  else
    let chunk := min remaining (max 1 slice)
    ⟨chunk / 1000, chunk % 1000 * 1000000⟩ :: sleepSlices slice (remaining - chunk)
termination_by remaining
decreasing_by omega

def sleepInterruptible (durationMs sliceMs : Int32) : List Timespec :=
  sleepSlices sliceMs.toInt.toNat durationMs.toInt.toNat

theorem sum_sleepSlices (slice remaining : Nat) :
    ((sleepSlices slice remaining).map Timespec.ms).sum = remaining := by
  induction remaining using Nat.strong_induction_on with
  | _ remaining ih =>
      rw [sleepSlices]
      split_ifs with hzero
      · exact hzero.symm
      · have hchunk : Timespec.ms ⟨min remaining (max 1 slice) / 1000,
            min remaining (max 1 slice) % 1000 * 1000000⟩ = min remaining (max 1 slice) := by
          simp only [Timespec.ms]
          omega
        rw [List.map_cons, List.sum_cons, hchunk, ih _ (by omega)]
        omega

/-- The slices make up the whole sleep. -/
theorem sum_sleepInterruptible {durationMs : Int32} (hpos : 0 ≤ durationMs.toInt) (sliceMs : Int32) :
    (((sleepInterruptible durationMs sliceMs).map Timespec.ms).sum : Int) = durationMs.toInt := by
  rw [sleepInterruptible, sum_sleepSlices, Int.toNat_of_nonneg hpos]

end ReaderLoop

theorem int32_toInt_min (x y : Int32) : (min x y).toInt = min x.toInt y.toInt := by
  change (if x ≤ y then x else y).toInt = _
  split_ifs with hle <;> rw [Int32.le_iff_toInt_le] at hle <;> omega

theorem int32_toInt_max (x y : Int32) : (max x y).toInt = max x.toInt y.toInt := by
  change (if x ≤ y then y else x).toInt = _
  split_ifs with hle <;> rw [Int32.le_iff_toInt_le] at hle <;> omega

namespace CacheReaderOptions

variable (options : CacheReaderOptions)

/-- The shortest sleep. -/
def least : Int := max 1 options.reconnectBackoffMs.toInt

/-- The longest sleep. -/
def most : Int := max options.least options.maxReconnectBackoffMs.toInt

theorem toInt_initialBackoffMs : options.initialBackoffMs.toInt = options.least := int32_toInt_max _ _

theorem toInt_maxBackoffMs : options.maxBackoffMs.toInt = options.most := by
  rw [maxBackoffMs, int32_toInt_max, toInt_initialBackoffMs, most]

/-- The sleep for a failure after `k` others. -/
def scheduled (k : Nat) : Int := min (2 ^ k * options.least) options.most

theorem one_le_least : 1 ≤ options.least := le_max_left _ _

theorem least_le_most : options.least ≤ options.most := le_max_left _ _

theorem scheduled_zero : options.scheduled 0 = options.least := by
  rw [scheduled, pow_zero, one_mul, min_eq_left options.least_le_most]

theorem scheduled_succ (k : Nat) : options.scheduled (k + 1) = min (options.scheduled k * 2) options.most := by
  have hone := options.one_le_least
  have hmost := options.least_le_most
  simp only [scheduled, pow_succ]
  generalize (2 : Int) ^ k = power at *
  rw [mul_right_comm]
  generalize power * options.least = product
  omega

theorem scheduled_bounds (k : Nat) : options.least ≤ options.scheduled k ∧ options.scheduled k ≤ options.most := by
  refine ⟨le_min ?_ options.least_le_most, min_le_right _ _⟩
  have hone := options.one_le_least
  have hpower : (1 : Int) ≤ 2 ^ k := one_le_pow₀ (by norm_num)
  nlinarith

end CacheReaderOptions

namespace ReaderLoop

variable {options : CacheReaderOptions} {s : ReaderLoop} {k : Nat}

/-- The next sleep is the one for a failure after `k` others; a connection begins with none. -/
structure Scheduled (options : CacheReaderOptions) (s : ReaderLoop) (k : Nat) : Prop where
  backoff : s.backoffMs.toInt = options.scheduled k
  fresh : s.connected = true → k = 0

theorem start_scheduled : Scheduled options (start options) 0 where
  backoff := options.toInt_initialBackoffMs.trans options.scheduled_zero.symm
  fresh _ := rfl

/-- Below `2^30` the doubling is exact. -/
theorem toInt_double {ms : Int32} (hpos : 1 ≤ ms.toInt) (hlt : ms.toInt < 2 ^ 30) :
    (ms * 2).toInt = ms.toInt * 2 := by
  have htwo : (2 : Int32).toInt = 2 := rfl
  rw [Int32.toInt_mul, htwo, Int.bmod_eq_of_le]
  all_goals omega

theorem Scheduled.backOff (h : Scheduled options s k) (hmost : options.most < 2 ^ 30) :
    Scheduled options (s.backOff options) (k + 1) where
  backoff := by
    have hbounds := options.scheduled_bounds k
    have hone := options.one_le_least
    have hdouble : (s.backoffMs * 2).toInt = s.backoffMs.toInt * 2 := by
      apply toInt_double <;> rw [h.backoff] <;> omega
    calc (min (s.backoffMs * 2) options.maxBackoffMs).toInt
        = min (s.backoffMs.toInt * 2) options.most := by
          rw [int32_toInt_min, hdouble, options.toInt_maxBackoffMs]
      _ = options.scheduled (k + 1) := by rw [h.backoff, options.scheduled_succ]
  fresh := nofun

theorem Scheduled.next (h : Scheduled options s k) (hmost : options.most < 2 ^ 30) (answers : PassAnswers) :
    Scheduled options (s.next options answers) (tally k (s.outcome answers)) := by
  have hattempt : Scheduled options s.attempt k := ⟨h.backoff, h.fresh⟩
  have hreset : options.initialBackoffMs.toInt = options.scheduled 0 := start_scheduled.backoff
  cases hconnected : s.connected with
  | false =>
      simp only [ReaderLoop.next, outcome, hconnected, Bool.false_eq_true, if_false]
      split_ifs
      · exact ⟨hreset, fun _ => rfl⟩
      · exact hattempt.backOff hmost
  | true =>
      obtain rfl := h.fresh hconnected
      simp only [ReaderLoop.next, outcome, hconnected, if_true]
      cases answers.activity with
      | error => exact h.backOff hmost
      | timeout => exact h
      | groupData =>
          simp only [reduceCtorEq, if_false]
          split_ifs
          · exact ⟨hreset, fun _ => rfl⟩
          · exact h

theorem Scheduled.run (h : Scheduled options s k) (hmost : options.most < 2 ^ 30) (passes : List PassAnswers) :
    Scheduled options (run (ReaderLoop.next options) s passes) ((outcomes options s passes).foldl tally k) := by
  induction passes generalizing s k with
  | nil => exact h
  | cons answers passes ih => exact ih (h.next hmost answers)

/-- No two attempts follow each other. -/
def Apart (calls : List LoopCall) : Prop := calls.IsChain fun x y => ¬(x = .attempt ∧ y = .attempt)

theorem Apart.snoc {calls : List LoopCall} (h : Apart calls) {call : LoopCall}
    (hcall : call = .attempt → calls.getLast? ≠ some .attempt) : Apart (calls ++ [call]) := by
  refine List.isChain_append.mpr ⟨h, List.isChain_singleton _, ?_⟩
  rintro x hx y hy ⟨rfl, rfl⟩
  obtain rfl : call = .attempt := by simpa using hy
  exact hcall rfl hx

/-- What stands between two attempts begins with a sleep. -/
theorem Apart.between {before between after : List LoopCall}
    (h : Apart (before ++ .attempt :: (between ++ .attempt :: after))) :
    ∃ ms, LoopCall.sleep ms ∈ between := by
  have hpair := (List.isChain_append.mp h).2.1
  cases between with
  | nil =>
      rw [List.nil_append, List.isChain_cons_cons] at hpair
      exact absurd ⟨rfl, rfl⟩ hpair.1
  | cons call between =>
      rw [List.cons_append, List.isChain_cons_cons] at hpair
      cases call with
      | attempt => exact absurd ⟨rfl, rfl⟩ hpair.1
      | sleep ms => exact ⟨ms, List.mem_cons_self⟩

/-- The attempts are apart, a loop without a connection has slept since the last one, and every sleep is
within the bounds. -/
structure Paced (options : CacheReaderOptions) (s : ReaderLoop) : Prop where
  apart : Apart s.calls
  rested : s.connected = false → s.calls.getLast? ≠ some .attempt
  bounds : ∀ ms, .sleep ms ∈ s.calls → options.least ≤ ms.toInt ∧ ms.toInt ≤ options.most

theorem start_paced : Paced options (start options) where
  apart := List.IsChain.nil
  rested _ := by simp [start]
  bounds := by simp [start]

/-- A sleep after the calls made so far. -/
theorem paced_backOff {k : Nat} (hapart : Apart s.calls)
    (hbounds : ∀ ms, .sleep ms ∈ s.calls → options.least ≤ ms.toInt ∧ ms.toInt ≤ options.most)
    (hscheduled : Scheduled options s k) : Paced options (s.backOff options) where
  apart := hapart.snoc nofun
  rested _ := by simp [ReaderLoop.backOff]
  bounds ms hms := by
    rcases List.mem_append.mp hms with hms | hms
    · exact hbounds ms hms
    · obtain rfl : ms = s.backoffMs := by simpa using hms
      rw [hscheduled.backoff]
      exact options.scheduled_bounds k

theorem Paced.next (h : Paced options s) (hscheduled : Scheduled options s k) (answers : PassAnswers) :
    Paced options (s.next options answers) := by
  cases hconnected : s.connected with
  | false =>
      have hapart : Apart s.attempt.calls := h.apart.snoc fun _ => h.rested hconnected
      have hbounds : ∀ ms, .sleep ms ∈ s.attempt.calls → options.least ≤ ms.toInt ∧ ms.toInt ≤ options.most :=
        fun ms hms => h.bounds ms (by simpa [attempt] using hms)
      simp only [ReaderLoop.next, hconnected, Bool.false_eq_true, if_false]
      split_ifs
      · exact ⟨hapart, nofun, hbounds⟩
      · exact paced_backOff hapart hbounds (k := k) ⟨hscheduled.backoff, hscheduled.fresh⟩
  | true =>
      simp only [ReaderLoop.next, hconnected, if_true]
      cases answers.activity with
      | error => exact paced_backOff h.apart h.bounds hscheduled
      | timeout => exact h
      | groupData =>
          simp only
          split_ifs
          · exact ⟨h.apart, nofun, h.bounds⟩
          · exact h

theorem Paced.run (h : Paced options s) (hscheduled : Scheduled options s k) (hmost : options.most < 2 ^ 30)
    (passes : List PassAnswers) : Paced options (run (ReaderLoop.next options) s passes) := by
  induction passes generalizing s k with
  | nil => exact h
  | cons answers passes ih => exact ih (h.next hscheduled answers) (hscheduled.next hmost answers)

/-- The calls of a pass: an attempt where there is no connection, and a sleep for a failure. -/
theorem next_calls (options : CacheReaderOptions) (s : ReaderLoop) (answers : PassAnswers) :
    (s.next options answers).calls = s.calls ++ ((if s.connected then [] else [LoopCall.attempt]) ++
      if s.outcome answers = .failure then [LoopCall.sleep s.backoffMs] else []) := by
  cases hconnected : s.connected with
  | false =>
      simp only [ReaderLoop.next, outcome, hconnected, Bool.false_eq_true, if_false]
      split_ifs <;> simp_all [attempt, ReaderLoop.backOff]
  | true =>
      simp only [ReaderLoop.next, outcome, hconnected, if_true]
      cases answers.activity <;> simp [ReaderLoop.backOff]
      split_ifs <;> rfl

theorem after_snoc (options : CacheReaderOptions) (passes : List PassAnswers) (answers : PassAnswers) :
    after options (passes ++ [answers]) = (after options passes).next options answers :=
  run_append passes [answers]

theorem outcomes_snoc (s : ReaderLoop) (passes : List PassAnswers) (answers : PassAnswers) :
    outcomes options s (passes ++ [answers]) =
      outcomes options s passes ++ [(Machine.run (ReaderLoop.next options) s passes).outcome answers] := by
  induction passes generalizing s with
  | nil => rfl
  | cons first passes ih => exact congrArg _ (ih _)

/-- **The backoff schedule.** Failure number `k` since the last success is answered by one sleep of exactly
`min (2^(k-1) * b) m` milliseconds, whatever the slices in which it is slept, and nothing else is; between
two attempts there is a sleep of at least `b`, and none is longer than `m`. -/
theorem backoff_schedule (options : CacheReaderOptions) (hleast : options.reconnectBackoffMs.toInt < 2 ^ 30)
    (hmost : options.maxReconnectBackoffMs.toInt < 2 ^ 30) (passes : List PassAnswers) :
    (∀ answers : PassAnswers, (after options passes).outcome answers = .failure → ∃ ms : Int32,
      (after options (passes ++ [answers])).calls = (after options passes).calls ++
        ((if (after options passes).connected then [] else [LoopCall.attempt]) ++ [LoopCall.sleep ms]) ∧
      ms.toInt = min (2 ^ (failuresSince (outcomes options (start options) (passes ++ [answers])) - 1) *
        options.least) options.most ∧
      ∀ sliceMs, (((sleepInterruptible ms sliceMs).map Timespec.ms).sum : Int) = ms.toInt) ∧
    (∀ answers : PassAnswers, (after options passes).outcome answers ≠ .failure →
      (after options (passes ++ [answers])).calls = (after options passes).calls ++
        if (after options passes).connected then [] else [LoopCall.attempt]) ∧
    (∀ before between later : List LoopCall, (after options passes).calls =
        before ++ .attempt :: (between ++ .attempt :: later) →
      ∃ ms : Int32, LoopCall.sleep ms ∈ between ∧ options.least ≤ ms.toInt) ∧
    ∀ ms : Int32, LoopCall.sleep ms ∈ (after options passes).calls → ms.toInt ≤ options.most := by
  have hlimit : options.most < 2 ^ 30 := by
    unfold CacheReaderOptions.most CacheReaderOptions.least
    omega
  have hscheduled : Scheduled options (after options passes)
      (failuresSince (outcomes options (start options) passes)) := start_scheduled.run hlimit passes
  have hpaced : Paced options (after options passes) := start_paced.run start_scheduled hlimit passes
  refine ⟨fun answers hfailure => ⟨(after options passes).backoffMs, ?_, ?_, ?_⟩, fun answers hnot => ?_,
    fun before between later hcalls => ?_, fun ms hms => (hpaced.bounds ms hms).2⟩
  · rw [after_snoc, next_calls, if_pos hfailure]
  · have hcount : failuresSince (outcomes options (start options) (passes ++ [answers])) =
        failuresSince (outcomes options (start options) passes) + 1 := by
      rw [failuresSince, outcomes_snoc, ← after, hfailure, List.foldl_append]
      rfl
    rw [hscheduled.backoff, hcount, Nat.add_sub_cancel, CacheReaderOptions.scheduled]
  · refine fun sliceMs => sum_sleepInterruptible ?_ sliceMs
    have hbounds := options.scheduled_bounds (failuresSince (outcomes options (start options) passes))
    have hone := options.one_le_least
    rw [hscheduled.backoff]
    omega
  · rw [after_snoc, next_calls, if_neg hnot, List.append_nil]
  · have hapart := hpaced.apart
    rw [hcalls] at hapart
    obtain ⟨ms, hms⟩ := hapart.between
    refine ⟨ms, hms, (hpaced.bounds ms ?_).1⟩
    rw [hcalls]
    simp [hms]

/-- The third failed attempt after the start, with the options as they are shipped. -/
theorem backoff_schedule_third : ∃ ms : Int32, (after {} [{}, {}, {}]).calls =
    [.attempt, .sleep 500, .attempt, .sleep 1000, .attempt, .sleep ms] ∧ ms.toInt = 2000 := by
  obtain ⟨ms, hcalls, hms, -⟩ :=
    (backoff_schedule {} (by decide) (by decide) [{}, {}]).1 {} (by decide)
  have hbefore : (after {} [{}, {}]).calls = [.attempt, .sleep 500, .attempt, .sleep 1000] := by decide
  have hidle : (after {} [{}, {}]).connected = false := by decide
  have hfailures : failuresSince (outcomes {} (start {}) [{}, {}, {}]) = 3 := by decide
  simp only [List.cons_append, List.nil_append, hbefore, hidle, hfailures, Bool.false_eq_true, if_false]
    at hcalls hms
  exact ⟨ms, hcalls, hms.trans (by decide)⟩

/-! ### The loop over a `KnxdClient` -/

def LoopCall.asSleep : LoopCall → Option Int32
  | .attempt => none
  | .sleep ms => some ms

/-- The loop over a client's answers is where the loop over the client is, and has slept as long. -/
structure Follows (s : CacheReader) (loop : ReaderLoop) : Prop where
  connected : loop.connected = s.connected
  backoff : loop.backoffMs = s.backoffMs
  sleeps : loop.calls.filterMap LoopCall.asSleep = s.sleeps
  draining : s.pc ≠ .top → s.connected = true

theorem Follows.backOff {s : CacheReader} {loop : ReaderLoop} (h : Follows s loop) (hpc : s.pc = .top)
    (c : KnxdClient) : Follows (s.backOff options c) (loop.backOff options) where
  connected := rfl
  backoff := by simp only [CacheReader.backOff, ReaderLoop.backOff, h.backoff]
  sleeps := by simp [CacheReader.backOff, ReaderLoop.backOff, h.sleeps, h.backoff, LoopCall.asSleep]
  draining hnot := absurd hpc hnot

theorem Follows.attempt {s : CacheReader} {loop : ReaderLoop} (h : Follows s loop) : Follows s loop.attempt :=
  ⟨h.connected, h.backoff, by simp [ReaderLoop.attempt, h.sleeps, LoopCall.asSleep], h.draining⟩

/-- An event of the loop over the client is a pass over its answers, or lies within one. -/
theorem Follows.next {s : CacheReader} {loop : ReaderLoop} (h : Follows s loop) (script : ReaderScript) :
    ∃ passes, Follows (s.next options script) (Machine.run (ReaderLoop.next options) loop passes) := by
  cases hpc : s.pc with
  | draining pushed =>
      have hconnected : s.connected = true := h.draining (by simp [hpc])
      have hloop := h.connected.trans hconnected
      simp only [CacheReader.next, hpc, CacheReader.drain]
      split
      · refine ⟨[{ activity := .groupData, drained := pushed }], ?_⟩
        simp only [run_cons, run_nil, ReaderLoop.next, hloop, if_true]
        split_ifs
        · exact ⟨hconnected.symm, rfl, h.sleeps, (absurd rfl ·)⟩
        · exact ⟨h.connected, h.backoff, h.sleeps, (absurd rfl ·)⟩
      · split <;> exact ⟨[], h.connected, h.backoff, h.sleeps, fun _ => hconnected⟩
  | top =>
      cases hconnected : s.connected with
      | true =>
          have hloop := h.connected.trans hconnected
          simp only [CacheReader.next, hpc, hconnected, if_true]
          cases s.client.waitForActivity script.activity with
          | groupData => exact ⟨[], hloop, h.backoff, h.sleeps, fun _ => rfl⟩
          | timeout => exact ⟨[], h⟩
          | error =>
              refine ⟨[{ activity := .error }], ?_⟩
              simp only [run_cons, run_nil, ReaderLoop.next, hloop, if_true]
              exact h.backOff hpc _
      | false =>
          have hloop := h.connected.trans hconnected
          have hfailed : ∀ c, ∃ passes, Follows (s.backOff options c)
              (Machine.run (ReaderLoop.next options) loop passes) := by
            intro c
            refine ⟨[{}], ?_⟩
            simp only [run_cons, run_nil, ReaderLoop.next, hloop, Bool.false_eq_true, if_false, Bool.and_self]
            exact h.attempt.backOff hpc c
          simp only [CacheReader.next, hpc, hconnected, Bool.false_eq_true, if_false, CacheReader.attemptConnect]
          split
          · exact hfailed _
          · split
            · exact hfailed _
            · refine ⟨[{ connect := true, opened := true }], ?_⟩
              simp only [run_cons, run_nil, ReaderLoop.next, hloop, Bool.false_eq_true, if_false, Bool.and_self,
                if_true]
              exact ⟨rfl, rfl, h.attempt.sleeps, fun _ => rfl⟩

/-- **The loop over the client is an instance**: every run of it sleeps as some run over answers does. -/
theorem exists_follows (options : CacheReaderOptions) (scripts : List ReaderScript) :
    ∃ passes, Follows (Machine.run (CacheReader.next options) (CacheReader.start options) scripts)
      (after options passes) := by
  induction scripts using List.reverseRecOn with
  | nil => exact ⟨[], rfl, rfl, rfl, (absurd rfl ·)⟩
  | append_singleton scripts script ih =>
      obtain ⟨passes, hpasses⟩ := ih
      obtain ⟨more, hmore⟩ := hpasses.next script
      refine ⟨passes ++ more, ?_⟩
      rw [run_append, after, run_append]
      exact hmore

/-- So the sleeps of the loop over the client are within the same bounds. -/
theorem sleeps_bounded {options : CacheReaderOptions} (hmost : options.most < 2 ^ 30)
    (scripts : List ReaderScript) {ms : Int32}
    (hms : ms ∈ (Machine.run (CacheReader.next options) (CacheReader.start options) scripts).sleeps) :
    options.least ≤ ms.toInt ∧ ms.toInt ≤ options.most := by
  obtain ⟨passes, hfollows⟩ := exists_follows options scripts
  rw [← hfollows.sleeps] at hms
  obtain ⟨call, hcall, hsleep⟩ := List.mem_filterMap.mp hms
  cases call with
  | attempt => cases hsleep
  | sleep ms' =>
      obtain rfl := Option.some.inj hsleep
      exact (start_paced.run start_scheduled hmost passes).bounds _ hcall

end ReaderLoop
end KnxdFcgi
