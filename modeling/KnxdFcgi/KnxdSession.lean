import KnxdFcgi.KnxdRead
import KnxdFcgi.Machine

/-! All the reading calls on one connection. The session keeps what the calls have returned and which
buffers they handed to `read_some`; its invariant is that returned messages and buffer together are the
bytes received, and that the returned messages begin the greedy parse of those bytes. -/

namespace KnxdFcgi

open Machine

inductive ReadCall where
  | message
  | deadline (waits : List DeadlineWait)

/-- The call gets to read: where it has a deadline, the socket is ready before that has passed. -/
def ReadCall.GetsToRead : ReadCall → Prop
  | .message => True
  | .deadline waits => ∃ interruptions later, waits = List.replicate interruptions .interrupted ++ .ready :: later

/-- `buffer` is `read_buffer_`, `reads` the answers the kernel still has to give; `returned` and
`offered` record the messages returned and the buffers handed to `read_some`, oldest first. -/
structure Session where
  buffer : List UInt8
  reads : List SysRead
  returned : List (List UInt8)
  offered : List (List UInt8)

namespace Session

/-- A new connection, on which the kernel will answer `reads`. -/
def start (reads : List SysRead) : Session := ⟨[], reads, [], []⟩

def perform (s : Session) : ReadCall → ReadReturn
  | .message => readMessage s.reads s.buffer
  | .deadline waits => readMessageDeadline waits s.reads s.buffer

def buffers (s : Session) : ReadCall → List (List UInt8)
  | .message => readMessageBuffers s.reads s.buffer
  | .deadline waits => readMessageDeadlineBuffers waits s.reads s.buffer

def call (s : Session) (c : ReadCall) : Session where
  buffer := (s.perform c).buffer
  reads := (s.perform c).reads
  returned := s.returned ++ (s.perform c).message.toList
  offered := s.offered ++ s.buffers c

theorem perform_spec (s : Session) (c : ReadCall) : ReadSpec s.reads s.buffer (s.perform c) := by
  cases c with
  | message => exact readMessage_spec _ _
  | deadline waits => exact readMessageDeadline_spec _ _ _

theorem readMessageBuffers_le (reads : List SysRead) (buffer : List UInt8) :
    ∀ b ∈ readMessageBuffers reads buffer, b.length ≤ 65536 := by
  induction reads generalizing buffer with
  | nil =>
      intro b hb
      unfold readMessageBuffers at hb
      split at hb
      · cases hb
      · rename_i hnone
        rw [List.mem_singleton.mp hb]
        exact length_of_tryExtract_none (Option.not_isSome_iff_eq_none.mp hnone)
  | cons answer reads ih =>
      intro b hb
      rw [readMessageBuffers] at hb
      split at hb
      · cases hb
      · rename_i hnone
        have hbuffer := length_of_tryExtract_none (Option.not_isSome_iff_eq_none.mp hnone)
        split at hb
        · rcases List.mem_cons.mp hb with rfl | hb
          · exact hbuffer
          · exact ih _ b hb
        · rw [List.mem_singleton.mp hb]
          exact hbuffer

theorem readMessageDeadlineBuffers_le (waits : List DeadlineWait) (reads : List SysRead)
    (buffer : List UInt8) : ∀ b ∈ readMessageDeadlineBuffers waits reads buffer, b.length ≤ 65536 := by
  induction waits generalizing reads buffer with
  | nil =>
      intro b hb
      unfold readMessageDeadlineBuffers at hb
      split at hb <;> exact absurd hb List.not_mem_nil
  | cons wait waits ih =>
      intro b hb
      rw [readMessageDeadlineBuffers.eq_def] at hb
      dsimp only at hb
      by_cases hsome : (tryExtractMessage buffer).isSome
      · rw [if_pos hsome] at hb
        cases hb
      · rw [if_neg hsome] at hb
        have hbuffer := length_of_tryExtract_none (Option.not_isSome_iff_eq_none.mp hsome)
        cases wait with
        | expired | timeout | failed => cases hb
        | interrupted => exact ih _ _ b hb
        | ready =>
            cases reads with
            | nil =>
                rcases List.mem_cons.mp hb with rfl | hb
                · exact hbuffer
                · exact ih _ _ b hb
            | cons answer reads =>
                cases answer with
                | data chunk =>
                    rcases List.mem_cons.mp hb with rfl | hb
                    · exact hbuffer
                    · exact ih _ _ b hb
                | again =>
                    rcases List.mem_cons.mp hb with rfl | hb
                    · exact hbuffer
                    · exact ih _ _ b hb
                | eof | failed =>
                    rw [List.mem_singleton.mp hb]
                    exact hbuffer

theorem buffers_le (s : Session) (c : ReadCall) : ∀ b ∈ s.buffers c, b.length ≤ 65536 := by
  cases c with
  | message => exact readMessageBuffers_le _ _
  | deadline waits => exact readMessageDeadlineBuffers_le _ _ _

/-- Relative to the answers `reads` the connection began with. -/
structure Inv (reads : List SysRead) (s : Session) : Prop where
  consumed : ∃ consumed, reads = consumed ++ s.reads ∧
    s.returned.flatten ++ s.buffer = bytesOf consumed ∧
    eibdSplitter.frames (bytesOf consumed) =
      (s.returned ++ (eibdSplitter.frames s.buffer).1, (eibdSplitter.frames s.buffer).2)
  offered : ∀ b ∈ s.offered, b.length ≤ 65536

theorem start_inv (reads : List SysRead) : Inv reads (start reads) where
  consumed := ⟨[], rfl, rfl, rfl⟩
  offered := by simp [start]

theorem Inv.call {reads : List SysRead} {s : Session} (h : Inv reads s) (c : ReadCall) :
    Inv reads (s.call c) where
  consumed := by
    obtain ⟨consumed, hreads, hbytes, hframes⟩ := h.consumed
    obtain ⟨more, hmore, hresult⟩ := s.perform_spec c
    refine ⟨consumed ++ more, ?_, ?_⟩
    · rw [List.append_assoc, hreads, hmore]
      rfl
    have hextended : eibdSplitter.frames (bytesOf consumed ++ bytesOf more) =
        (s.returned ++ (eibdSplitter.frames (s.buffer ++ bytesOf more)).1,
          (eibdSplitter.frames (s.buffer ++ bytesOf more)).2) := by
      rw [Framing.Splitter.frames_append, hframes, Framing.Splitter.frames_append s.buffer,
        List.append_assoc]
    rw [bytesOf_append, hextended, ← hbytes]
    cases hmessage : (s.perform c).message with
    | none =>
        simp only [hmessage] at hresult
        simp only [Session.call, hmessage, Option.toList_none, List.append_nil, hresult.2,
          List.append_assoc, and_self]
    | some message =>
        simp only [hmessage] at hresult
        have hsplit : eibdSplitter.split (s.buffer ++ bytesOf more) =
            some (message, (s.perform c).buffer) := hresult
        have happend := eibdSplitter.split_append hsplit
        simp only [Session.call, hmessage, Option.toList_some, List.flatten_append,
          List.flatten_singleton, List.append_assoc, happend,
          Framing.Splitter.frames_of_some hsplit, List.singleton_append, and_self]
  offered b hb := by
    rcases List.mem_append.mp hb with hb | hb
    · exact h.offered b hb
    · exact s.buffers_le c b hb

theorem run_inv (reads : List SysRead) (calls : List ReadCall) :
    Inv reads (run call (start reads) calls) :=
  run_invariant (Inv reads) (fun _ c h => h.call c) calls (start_inv reads)

theorem readMessage_reads {reads : List SysRead} {buffer : List UInt8} (hreads : reads ≠ [])
    (hnone : (readMessage reads buffer).message = none) :
    (readMessage reads buffer).reads.length < reads.length := by
  induction reads generalizing buffer with
  | nil => exact absurd rfl hreads
  | cons answer reads ih =>
      unfold readMessage at hnone ⊢
      split at hnone
      · cases hnone
      · rename_i hextract
        cases answer with
        | data chunk =>
            simp only [readSome_data hextract] at hnone ⊢
            by_cases hlast : reads = []
            · subst hlast
              obtain ⟨consumed, hconsumed, -⟩ := readMessage_spec [] (buffer ++ chunk.bytes)
              have hempty := (List.append_eq_nil_iff.mp hconsumed.symm).2
              simp [hempty]
            · exact (ih hlast hnone).trans (Nat.lt_succ_self _)
        | eof | again | failed => exact Nat.lt_succ_self _

/-- A call with a deadline takes an answer too, if it gets to read and returns nothing. -/
theorem readMessageDeadline_reads {interruptions : Nat} {later : List DeadlineWait} {reads : List SysRead}
    {buffer : List UInt8} (hreads : reads ≠ [])
    (hnone : (readMessageDeadline (List.replicate interruptions .interrupted ++ .ready :: later) reads buffer).message =
      none) :
    (readMessageDeadline (List.replicate interruptions .interrupted ++ .ready :: later) reads buffer).reads.length <
      reads.length := by
  cases hextract : tryExtractMessage buffer with
  | some pair =>
      rw [readMessageDeadline.eq_def] at hnone
      simp only [hextract, reduceCtorEq] at hnone
  | none =>
      induction interruptions with
      | zero =>
          cases reads with
          | nil => exact absurd rfl hreads
          | cons answer reads =>
              rw [List.replicate_zero, List.nil_append, readMessageDeadline, hextract]
              cases answer with
              | data chunk =>
                  simp only [readSome_data hextract]
                  exact Nat.lt_succ_of_le (readMessageDeadline_spec later reads _).reads_le
              | again => exact Nat.lt_succ_of_le (readMessageDeadline_spec later reads buffer).reads_le
              | eof | failed => exact Nat.lt_succ_self _
      | succ n ih =>
          rw [List.replicate_succ, List.cons_append, readMessageDeadline, hextract] at hnone ⊢
          exact ih hnone

theorem perform_reads {s : Session} {c : ReadCall} (hgets : c.GetsToRead) (hreads : s.reads ≠ [])
    (hnone : (s.perform c).message = none) : (s.perform c).reads.length < s.reads.length := by
  cases c with
  | message => exact readMessage_reads hreads hnone
  | deadline waits =>
      obtain ⟨interruptions, later, rfl⟩ := hgets
      exact readMessageDeadline_reads hreads hnone

/-- The messages still to be returned, and the answers still to be given. -/
def remaining (s : Session) : Nat :=
  (eibdSplitter.frames (s.buffer ++ bytesOf s.reads)).1.length + s.reads.length

theorem remaining_call (s : Session) {c : ReadCall} (hgets : c.GetsToRead) :
    (s.call c).remaining ≤ s.remaining - 1 := by
  obtain ⟨consumed, hconsumed, hresult⟩ := s.perform_spec c
  have hlen : s.reads.length = consumed.length + (s.perform c).reads.length := by
    rw [hconsumed, List.length_append]
  have hbytes : bytesOf s.reads = bytesOf consumed ++ bytesOf (s.perform c).reads := by
    rw [hconsumed, bytesOf_append]
  cases hmessage : (s.perform c).message with
  | none =>
      simp only [hmessage] at hresult
      simp only [remaining, call, hbytes, hresult.2, List.append_assoc]
      by_cases hreads : s.reads = []
      · have hend : (s.perform c).reads = [] := by
          rw [hreads] at hconsumed
          exact (List.append_eq_nil_iff.mp hconsumed.symm).2
        have hframes := Framing.Splitter.frames_of_none (S := eibdSplitter) hresult.1
        rw [hresult.2] at hframes
        simp only [hend, bytesOf_nil, List.append_nil, hframes, List.length_nil]
        omega
      · have hless := perform_reads hgets hreads hmessage
        omega
  | some message =>
      have hsplit : eibdSplitter.split _ = _ := (s.perform_spec c).extract_all hmessage
      simp only [remaining, call, Framing.Splitter.frames_of_some hsplit, List.length_cons]
      omega

/-- After enough calls that get to read, all bytes have been read and parsed. -/
theorem returned_all {reads : List SysRead} {s : Session} (h : Inv reads s) {calls : List ReadCall}
    (hgets : ∀ c ∈ calls, c.GetsToRead) (hn : s.remaining ≤ calls.length) :
    (run call s calls).returned = (eibdSplitter.frames (bytesOf reads)).1 ∧
      (run call s calls).buffer = (eibdSplitter.frames (bytesOf reads)).2 := by
  have hinv : Inv reads (run call s calls) := run_invariant (Inv reads) (fun _ c h => h.call c) _ h
  have hzero : (run call s calls).remaining = 0 := by
    have hle : (run call s calls).remaining ≤ s.remaining - calls.countP fun _ => true :=
      run_measure_le remaining _ (fun c hc _ s => s.remaining_call (hgets c hc)) (by simp)
    rw [List.countP_true] at hle
    omega
  generalize run call s calls = final at hinv hzero ⊢
  obtain ⟨consumed, hreads, -, hframes⟩ := hinv.consumed
  rw [remaining, Nat.add_eq_zero_iff, List.length_eq_zero_iff, List.length_eq_zero_iff] at hzero
  obtain ⟨hbuffer, hend⟩ := hzero
  rw [hend, bytesOf_nil, List.append_nil] at hbuffer
  rw [hreads, hend, List.append_nil, hframes, hbuffer, List.append_nil]
  refine ⟨rfl, ?_⟩
  cases hsplit : eibdSplitter.split final.buffer with
  | none => rw [Framing.Splitter.frames_of_none hsplit]
  | some pair =>
      rw [Framing.Splitter.frames_of_some hsplit] at hbuffer
      cases hbuffer

/-- A call of either kind that returns nothing leaves no complete message. -/
theorem perform_none {s : Session} {c : ReadCall} (hnone : (s.perform c).message = none) :
    tryExtractMessage (s.call c).buffer = none := by
  obtain ⟨consumed, -, hresult⟩ := s.perform_spec c
  rw [hnone] at hresult
  exact hresult.1

/-- **Chunking does not matter.** Whatever the kernel answers and whichever calls are made, the
returned messages and the buffer are the bytes received, the messages begin the greedy parse of those
bytes, a call that returns nothing leaves no complete message in the buffer, and no buffer handed to
`read_some` can reach the discard branch. Enough calls of either kind return the whole parse, if those
with a deadline get to read; if the peer sent built messages, these are the messages sent, and they
parse back to their types and data. -/
theorem returned_greedy_parse (reads : List SysRead) (calls : List ReadCall) :
    (∃ consumed, reads = consumed ++ (run call (start reads) calls).reads ∧
      (run call (start reads) calls).returned.flatten ++ (run call (start reads) calls).buffer =
        bytesOf consumed ∧
      eibdSplitter.frames (bytesOf consumed) =
        ((run call (start reads) calls).returned ++
          (eibdSplitter.frames (run call (start reads) calls).buffer).1,
        (eibdSplitter.frames (run call (start reads) calls).buffer).2)) ∧
    (∀ c, ((run call (start reads) calls).perform c).message = none →
      tryExtractMessage (run call (start reads) (calls ++ [c])).buffer = none) ∧
    (∀ b ∈ (run call (start reads) calls).offered, b.length ≤ 65536 ∧
      ∀ chunk : Chunk, ¬b.length + chunk.bytes.length > kMaxReadBufferSize) ∧
    (∃ enough, ∀ more : List ReadCall, (∀ c ∈ more, c.GetsToRead) → enough ≤ more.length →
      ((run call (start reads) (calls ++ more)).returned, (run call (start reads) (calls ++ more)).buffer) =
        eibdSplitter.frames (bytesOf reads)) ∧
    ∀ messages : List (UInt16 × List UInt8), (∀ m ∈ messages, m.2.length ≤ 65533) →
      bytesOf reads = (messages.map fun m => buildEibdMessage m.1 m.2).flatten →
      (run call (start reads) calls).returned <+: (messages.map fun m => buildEibdMessage m.1 m.2) ∧
      (∃ enough, ∀ more : List ReadCall, (∀ c ∈ more, c.GetsToRead) → enough ≤ more.length →
        (run call (start reads) (calls ++ more)).returned = messages.map fun m => buildEibdMessage m.1 m.2) ∧
      ∀ m ∈ messages, parseEibdMessage (buildEibdMessage m.1 m.2) = .parsed m.1 m.2 := by
  have hinv := run_inv reads calls
  have hall : ∃ enough, ∀ more : List ReadCall, (∀ c ∈ more, c.GetsToRead) → enough ≤ more.length →
      ((run call (start reads) (calls ++ more)).returned, (run call (start reads) (calls ++ more)).buffer) =
        eibdSplitter.frames (bytesOf reads) := by
    refine ⟨(run call (start reads) calls).remaining, ?_⟩
    intro more hgets hn
    rw [run_append]
    obtain ⟨hreturned, hbuffer⟩ := returned_all hinv hgets hn
    rw [hreturned, hbuffer]
  refine ⟨hinv.consumed, fun c hnone => ?_, fun b hb => ⟨hinv.offered b hb, fun chunk => ?_⟩, hall, ?_⟩
  · rw [run_append]
    exact perform_none hnone
  · have hbuffer := hinv.offered b hb
    have hchunk := chunk.le_array
    unfold kMaxReadBufferSize
    omega
  · intro messages hsmall hsent
    have hwhole : eibdSplitter.frames (bytesOf reads) =
        (messages.map fun m => buildEibdMessage m.1 m.2, []) := by
      rw [hsent]
      apply eibdSplitter.frames_flatten
      intro message hmessage
      obtain ⟨m, hm, rfl⟩ := List.mem_map.mp hmessage
      exact tryExtract_buildEibdMessage m.1 (hsmall m hm)
    refine ⟨?_, ?_, fun m hm => parseEibdMessage_build m.1 (hsmall m hm)⟩
    · obtain ⟨consumed, hreads, -, hframes⟩ := hinv.consumed
      have hextended := eibdSplitter.frames_append (bytesOf consumed)
        (bytesOf (run call (start reads) calls).reads)
      rw [← bytesOf_append, ← hreads, hwhole, hframes] at hextended
      rw [(Prod.mk.inj hextended).1, List.append_assoc]
      exact List.prefix_append _ _
    · obtain ⟨enough, henough⟩ := hall
      refine ⟨enough, ?_⟩
      intro more hgets hn
      have hpair := henough more hgets hn
      rw [hwhole] at hpair
      exact (Prod.mk.inj hpair).1

/-- One message cut after its third byte, with a would-block answer between the two reads. -/
theorem returned_greedy_parse_cut :
    ∃ enough, ∀ more : List ReadCall, (∀ c ∈ more, c.GetsToRead) → enough ≤ more.length →
      (run call (start [.data ⟨[0, 3, 0], by simp, by simp⟩, .again, .data ⟨[0x25, 7], by simp, by simp⟩])
        ([.deadline [.ready]] ++ more)).returned = [buildEibdMessage 0x25 [7]] :=
  ((returned_greedy_parse
    [.data ⟨[0, 3, 0], by simp, by simp⟩, .again, .data ⟨[0x25, 7], by simp, by simp⟩]
    [.deadline [.ready]]).2.2.2.2 [(0x25, [7])] (by simp) (by decide)).2.1

end Session
end KnxdFcgi
