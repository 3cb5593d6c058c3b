import KnxdFcgi.CacheReader

/-! Whether `run_cache_reader` ever spins. A turn of its loop is one event at the head and, after a wait
that reports data, the polls of `drain_telegrams` up to the one that returns false. A turn is to take a
byte, wait out a `poll`, sleep, or get connected. It does, unless `poll` reports data where `read` then
finds none: a peer that has shut down its write side is readable for ever, and its end of file is told
apart from a lack of data neither by `drain_telegrams` nor by the wait that follows. -/

namespace KnxdFcgi

open Machine

namespace KnxdClient

/-- `read_message` takes a byte: off the socket into the buffer, or out of the buffer as part of a
message. -/
def TakesByte (c : KnxdClient) (reads : List SysRead) : Prop :=
  (c.takeMessage reads).2 ≠ none ∨ (c.takeMessage reads).1.readBuffer ≠ c.readBuffer

/-- `poll_group_telegram` takes a byte, of the stream or of the reply on a new connection. What a handshake
reads that then fails is not counted. -/
def PollTakesByte (c : KnxdClient) (script : PollScript) : Prop :=
  match c.fd with
  | none => (c.reconnect script.opening).2 = true
  | some _ =>
      c.TakesByte script.reads ∨
        script.hangup = true ∧ ((c.takeMessage script.reads).1.reconnect script.reopening).2 = true

/-- There is something to take: a complete message in the buffer, or a first read that brings bytes. -/
def Deliverable (c : KnxdClient) (reads : List SysRead) : Prop :=
  tryExtractMessage c.readBuffer ≠ none ∨ ∃ chunk more, reads = .data chunk :: more

variable {c : KnxdClient} {reads : List SysRead}

theorem Deliverable.takesByte (h : c.Deliverable reads) : c.TakesByte reads := by
  cases hextract : tryExtractMessage c.readBuffer with
  | some pair =>
      left
      cases reads <;> simp [takeMessage, readMessage, hextract]
  | none =>
      obtain hsome | ⟨chunk, more, rfl⟩ := h
      · exact absurd hextract hsome
      · have hread : readMessage (.data chunk :: more) c.readBuffer =
            readMessage more (c.readBuffer ++ chunk.bytes) := by
          simp only [readMessage, hextract, readSome_data hextract]
        obtain ⟨consumed, -, hresult⟩ := readMessage_spec more (c.readBuffer ++ chunk.bytes)
        rw [← hread] at hresult
        cases hmessage : (readMessage (.data chunk :: more) c.readBuffer).message with
        | some message => exact .inl (by simp [takeMessage, hmessage])
        | none =>
            rw [hmessage] at hresult
            refine .inr fun hsame => chunk.nonempty ?_
            have hgrown := hresult.2.symm.trans hsame
            rw [List.append_assoc, List.append_right_eq_self, List.append_eq_nil_iff] at hgrown
            exact hgrown.1

/-- Where there is nothing to take, `read_message` leaves the client as it was. -/
theorem takeMessage_of_not_deliverable (h : ¬c.Deliverable reads) : c.takeMessage reads = (c, none) := by
  obtain ⟨hextract, hread⟩ := not_or.mp h
  rw [not_not] at hextract
  have hnothing : (readMessage reads c.readBuffer).message = none ∧
      (readMessage reads c.readBuffer).buffer = c.readBuffer := by
    match reads, hread with
    | [], _ => simp [readMessage, hextract]
    | .data chunk :: more, hread => exact absurd ⟨chunk, more, rfl⟩ hread
    | .eof :: _, _ | .again :: _, _ | .failed :: _, _ => simp [readMessage, hextract, readSome]
  rw [takeMessage, hnothing.1, hnothing.2]

end KnxdClient

namespace CacheReader

/-- The polls of `drain_telegrams`, up to the one that returns false. -/
def Drains (options : CacheReaderOptions) : CacheReader → List ReaderScript → Prop
  | s, [] => s.pc = .top
  | s, script :: scripts => s.pc ≠ .top ∧ Drains options (s.next options script) scripts

/-- The events of one turn of the loop. -/
def Turn (options : CacheReaderOptions) (s : CacheReader) : List ReaderScript → Prop
  | [] => False
  | first :: polls => s.pc = .top ∧ Drains options (s.next options first) polls

instance decidableDrains (options : CacheReaderOptions) :
    (s : CacheReader) → (scripts : List ReaderScript) → Decidable (Drains options s scripts)
  | s, [] => inferInstanceAs (Decidable (s.pc = .top))
  | s, script :: scripts =>
      have := decidableDrains options (s.next options script) scripts
      inferInstanceAs (Decidable (_ ∧ _))

instance (options : CacheReaderOptions) (s : CacheReader) :
    (turn : List ReaderScript) → Decidable (s.Turn options turn)
  | [] => inferInstanceAs (Decidable False)
  | _ :: _ => inferInstanceAs (Decidable (_ ∧ _))

/-- The state after a turn. -/
def afterTurn (options : CacheReaderOptions) (s : CacheReader) (turn : List ReaderScript) : CacheReader :=
  run (next options) s turn

/-- An event takes a byte off the socket or out of the buffer. -/
def Consumes (s : CacheReader) (script : ReaderScript) : Prop :=
  s.pc ≠ .top ∧ s.client.PollTakesByte script.poll

/-- An event waits for the whole timeout of `poll`. -/
def Blocks (s : CacheReader) (script : ReaderScript) : Prop :=
  s.AtWait ∧ s.client.fd.isSome ∧ script.activity = .nothing

/-- What a turn is to do: take a byte, wait out a `poll`, sleep, or get connected. -/
def Progress (options : CacheReaderOptions) (s : CacheReader) (turn : List ReaderScript) : Prop :=
  (∃ before script after, turn = before ++ script :: after ∧ (run (next options) s before).Consumes script) ∨
  (∃ script polls, turn = script :: polls ∧ s.Blocks script) ∨
  (∃ ms, 0 < ms ∧ (s.afterTurn options turn).sleeps = s.sleeps ++ [ms]) ∨
  (s.connected = false ∧ (s.afterTurn options turn).connected = true)

/-- A `poll` that is not interrupted and returns for an event has one to report. -/
def Possible : List ReaderScript → Prop
  | [] => True
  | first :: _ => first.activity ≠ .interrupted ∧ first.activity ≠ .ready false false

/-- Where the wait reports data, the first poll of the drain finds some. -/
def Delivers (s : CacheReader) : List ReaderScript → Prop
  | first :: poll :: _ => first.activity = .ready true false → s.client.Deliverable poll.poll.reads
  | _ => True

/-- The time of the next sleep is positive and within its bound. -/
def Backs (options : CacheReaderOptions) (s : CacheReader) : Prop :=
  0 < s.backoffMs ∧ s.backoffMs ≤ options.maxBackoffMs

variable {options : CacheReaderOptions} {s : CacheReader}

theorem initialBackoffMs_pos : 0 < options.initialBackoffMs := by
  change 0 < if 1 ≤ options.reconnectBackoffMs then options.reconnectBackoffMs else 1
  split_ifs with hone
  · exact Int32.lt_of_lt_of_le (by decide) hone
  · decide

theorem initialBackoffMs_le : options.initialBackoffMs ≤ options.maxBackoffMs := by
  change _ ≤ if options.initialBackoffMs ≤ options.maxReconnectBackoffMs then _ else _
  split_ifs with hle
  · exact hle
  · exact Int32.le_refl _

/-- Doubling does not overflow below half of the range. -/
theorem double_pos {ms bound : Int32} (hpos : 0 < ms) (hle : ms ≤ bound) (hbound : bound < 0x40000000) :
    0 < ms * 2 := by
  rw [Int32.lt_iff_toInt_lt] at *
  rw [Int32.le_iff_toInt_le] at hle
  have hzero : (0 : Int32).toInt = 0 := rfl
  have htwo : (2 : Int32).toInt = 2 := rfl
  have hhalf : (0x40000000 : Int32).toInt = 0x40000000 := rfl
  rw [Int32.toInt_mul, htwo, Int.bmod_eq_of_le]
  all_goals omega

theorem start_backs : (start options).Backs options := ⟨initialBackoffMs_pos, initialBackoffMs_le⟩

theorem Backs.backOff (h : s.Backs options) (hbound : options.maxBackoffMs < 0x40000000) (c : KnxdClient) :
    (s.backOff options c).Backs options := by
  have hmin : min (s.backoffMs * 2) options.maxBackoffMs =
      if s.backoffMs * 2 ≤ options.maxBackoffMs then s.backoffMs * 2 else options.maxBackoffMs := rfl
  simp only [Backs, CacheReader.backOff, hmin]
  split_ifs with hle
  · exact ⟨double_pos h.1 h.2 hbound, hle⟩
  · exact ⟨Int32.lt_of_lt_of_le h.1 h.2, Int32.le_refl _⟩

theorem Backs.next (h : s.Backs options) (hbound : options.maxBackoffMs < 0x40000000)
    (script : ReaderScript) : (s.next options script).Backs options := by
  unfold CacheReader.next
  cases s.pc with
  | draining pushed =>
      unfold drain
      simp only
      split
      · simp only [Backs]
        split_ifs
        · exact start_backs
        · exact h
      · split <;> exact h
  | top =>
      simp only
      split_ifs
      · split
        · exact h
        · exact h
        · exact h.backOff hbound _
      · unfold attemptConnect
        split
        · exact h.backOff hbound _
        · split
          · exact h.backOff hbound _
          · exact start_backs

/-- A turn whose first event leads back to the head of the loop is that event. -/
theorem Drains.eq_nil {polls : List ReaderScript} (h : Drains options s polls) (hpc : s.pc = .top) :
    polls = [] := by
  cases polls with
  | nil => rfl
  | cons => exact absurd hpc h.1

theorem backOff_progress {first : ReaderScript} {polls : List ReaderScript} (hbacks : s.Backs options)
    (hturn : s.Turn options (first :: polls)) (c : KnxdClient)
    (hnext : s.next options first = s.backOff options c) : s.Progress options (first :: polls) := by
  have hpolls := hturn.2.eq_nil (by rw [hnext]; exact hturn.1)
  subst hpolls
  refine .inr (.inr (.inl ⟨s.backoffMs, hbacks.1, ?_⟩))
  rw [afterTurn, run_cons, run_nil, hnext]
  rfl

theorem attemptConnect_progress {first : ReaderScript} {polls : List ReaderScript}
    (hbacks : s.Backs options) (hturn : s.Turn options (first :: polls)) (hidle : s.connected = false) :
    s.Progress options (first :: polls) := by
  have hnext : s.next options first = s.attemptConnect options first.handshake := by
    simp only [CacheReader.next, hturn.1, hidle, Bool.false_eq_true, if_false]
  have hgiven : ∀ c, s.attemptConnect options first.handshake = s.backOff options c →
      s.Progress options (first :: polls) :=
    fun c heq => backOff_progress hbacks hturn c (hnext.trans heq)
  unfold attemptConnect at hnext hgiven
  generalize s.client.connect options.socketPath first.handshake.connect = result at hnext hgiven
  obtain ⟨c, ok⟩ := result
  cases ok with
  | false => exact hgiven c rfl
  | true =>
      simp only at hnext hgiven
      generalize c.openGroupSocket false first.handshake = result at hnext hgiven
      obtain ⟨c, ok⟩ := result
      cases ok with
      | false => exact hgiven c rfl
      | true =>
          have hpolls := hturn.2.eq_nil (by rw [hnext]; exact hturn.1)
          subst hpolls
          refine .inr (.inr (.inr ⟨hidle, ?_⟩))
          rw [afterTurn, run_cons, run_nil, hnext]

/-- A wait that is answered by data leads to a drain, whose first poll finds it. -/
theorem groupData_progress {first : ReaderScript} {polls : List ReaderScript}
    (hturn : s.Turn options (first :: polls)) (hconnected : s.connected = true) {fd : Nat}
    (hfd : s.client.fd = some fd) (hready : first.activity = .ready true false)
    (hdelivers : s.Delivers (first :: polls)) : s.Progress options (first :: polls) := by
  have hnext : s.next options first = { s with pc := .draining 0 } := by
    simp [CacheReader.next, hturn.1, hconnected, KnxdClient.waitForActivity, hfd, hready]
  cases polls with
  | nil =>
      have htop : (s.next options first).pc = .top := hturn.2
      rw [hnext] at htop
      cases htop
  | cons poll polls =>
      refine .inl ⟨[first], poll, polls, rfl, ?_⟩
      rw [run_cons, run_nil, hnext]
      refine ⟨by simp, ?_⟩
      simp only [KnxdClient.PollTakesByte, hfd]
      exact .inl (hdelivers hready).takesByte

/-- A turn makes progress if the drain it may come to finds data. -/
theorem turn_progress {turn : List ReaderScript} (hbacks : s.Backs options) (hturn : s.Turn options turn)
    (hpossible : Possible turn) (hdelivers : s.Delivers turn) : s.Progress options turn := by
  cases turn with
  | nil => exact hturn.elim
  | cons first polls =>
      cases hconnected : s.connected with
      | false => exact attemptConnect_progress hbacks hturn hconnected
      | true =>
          have herror : s.client.waitForActivity first.activity = .error →
              s.Progress options (first :: polls) := by
            intro herror
            refine backOff_progress hbacks hturn s.client ?_
            simp only [CacheReader.next, hturn.1, hconnected, if_true, herror]
          cases hfd : s.client.fd with
          | none => exact herror (by simp [KnxdClient.waitForActivity, hfd])
          | some fd =>
              cases hanswer : first.activity with
              | failed => exact herror (by simp [KnxdClient.waitForActivity, hfd, hanswer])
              | interrupted => exact absurd hanswer hpossible.1
              | nothing =>
                  exact .inr (.inl ⟨first, polls, rfl, ⟨hturn.1, hconnected⟩, by simp [hfd], hanswer⟩)
              | ready readable hangup =>
                  cases hangup with
                  | true => exact herror (by simp [KnxdClient.waitForActivity, hfd, hanswer])
                  | false =>
                      cases readable with
                      | false => exact absurd hanswer hpossible.2
                      | true => exact groupData_progress hturn hconnected hfd hanswer hdelivers

/-- A wait that is answered by data and a drain that finds none leave the loop as it was. -/
theorem still_turn (options : CacheReaderOptions) (first poll : ReaderScript) (hwait : s.AtWait)
    (hfd : s.client.fd.isSome) (hready : first.activity = .ready true false) (hnothing : ¬s.client.Deliverable poll.poll.reads)
    (hhangup : poll.poll.hangup = false) :
    s.Turn options [first, poll] ∧ s.afterTurn options [first, poll] = s ∧
      ¬s.Progress options [first, poll] := by
  obtain ⟨fd, hfd⟩ := Option.isSome_iff_exists.mp hfd
  have htake := KnxdClient.takeMessage_of_not_deliverable hnothing
  have hnext : s.next options first = { s with pc := .draining 0 } := by
    simp [CacheReader.next, hwait.1, hwait.2, KnxdClient.waitForActivity, hfd, hready]
  have hpoll : ({ s with pc := .draining 0 } : CacheReader).next options poll = s := by
    obtain ⟨pc, client, connected, backoffMs, journal, sleeps⟩ := s
    obtain ⟨rfl, rfl⟩ := hwait
    simp only at hfd htake
    simp [CacheReader.next, drain, KnxdClient.pollGroupTelegram, KnxdClient.pollMessage,
      KnxdClient.awaitMessage, hfd, htake, hhangup]
  have hafter : s.afterTurn options [first, poll] = s := by
    rw [afterTurn, run_cons, run_cons, run_nil, hnext, hpoll]
  refine ⟨⟨hwait.1, by simp [Drains, hnext, hpoll, hwait.1]⟩, hafter, ?_⟩
  rintro (⟨before, script, after, hsplit, hpc, htakes⟩ | ⟨script, polls, hsplit, hblocks⟩ |
    ⟨ms, -, hsleeps⟩ | ⟨hidle, hconnected⟩)
  · rcases before with _ | ⟨_, _ | ⟨_, before⟩⟩
    · exact hpc hwait.1
    · cases hsplit
      simp [run_cons, hnext, KnxdClient.PollTakesByte, KnxdClient.TakesByte, hfd, htake, hhangup] at htakes
    · simp at hsplit
  · cases hsplit
    cases hready.symm.trans hblocks.2.2
  · rw [hafter] at hsleeps
    simp at hsleeps
  · rw [hafter] at hconnected
    cases hidle.symm.trans hconnected

/-- So does any number of such turns. -/
theorem still_turns {turn : List ReaderScript} (hstill : s.afterTurn options turn = s) (n : Nat) :
    run (afterTurn options) s (List.replicate n turn) = s := by
  induction n with
  | zero => rfl
  | succ n ih => rw [List.replicate_succ, run_cons, hstill, ih]

/-- **When the loop never spins.** In every run of turns in which `poll` reports data only where the first
`read` that follows brings bytes, or a complete message is buffered, and whose sleeps are bounded by less
than half of the range of their type, every turn takes a byte, waits out a `poll`, sleeps or gets
connected. -/
theorem turns_progress (options : CacheReaderOptions) (hbound : options.maxBackoffMs < 0x40000000)
    (turns : List (List ReaderScript))
    (hturns : Along (afterTurn options)
      (fun s turn => s.Turn options turn ∧ Possible turn ∧ s.Delivers turn) (start options) turns) :
    Along (afterTurn options) (Progress options) (start options) turns := by
  apply hturns.imp_of_invariant (Backs options) start_backs
  · intro s turn _ hbacks
    exact run_invariant (Backs options) (fun _ script h => h.next hbound script) turn hbacks
  · intro s turn hguard hbacks
    exact turn_progress hbacks hguard.1 hguard.2.1 hguard.2.2

/-- The hypotheses are met by a telegram that comes when `poll` says so. -/
theorem turns_progress_telegram :
    Along (afterTurn {}) (Progress {}) (start {}) connectAndTake := by
  refine turns_progress {} (by decide) connectAndTake
    ⟨⟨by decide, ⟨by simp [replyWith], by simp [replyWith]⟩, trivial⟩,
      ⟨by decide, ⟨by simp, by simp⟩, fun _ => ?_⟩, trivial⟩
  exact .inr ⟨_, [], rfl⟩

/-- A peer that has shut down its write side: data is reported, and the read is at the end of file. -/
def halfClosed : List ReaderScript := [{ activity := .ready true false }, { poll := { reads := [.eof] } }]

/-- From then on the loop takes turns without end and without progress. -/
theorem halfClosed_spins :
    ((start {}).afterTurn {} [replyWith [] (by decide)]).Turn {} halfClosed ∧ Possible halfClosed ∧
      ¬((start {}).afterTurn {} [replyWith [] (by decide)]).Progress {} halfClosed ∧
      ∀ n, run (afterTurn {}) (start {}) ([replyWith [] (by decide)] :: List.replicate n halfClosed) =
        (start {}).afterTurn {} [replyWith [] (by decide)] := by
  have hnothing : ¬((start {}).afterTurn {} [replyWith [] (by decide)]).client.Deliverable [.eof] := by
    rintro (hextract | ⟨chunk, more, heq⟩)
    · exact hextract (by decide)
    · cases heq
  obtain ⟨hturn, hstill, hnot⟩ :=
    still_turn {} { activity := .ready true false } { poll := { reads := [.eof] } }
      ⟨by decide, by decide⟩ (by decide) rfl hnothing rfl
  exact ⟨hturn, ⟨by simp, by simp⟩, hnot, fun n => still_turns hstill n⟩

end CacheReader
end KnxdFcgi
