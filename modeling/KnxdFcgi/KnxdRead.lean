import KnxdFcgi.KnxdProtocol

/-! Reading eibd messages off a socket. The kernel's answers to `read` are a list that the calls
consume; a list that has run out answers like a socket without data. Successive calls of `read_message`
and `read_message_deadline` return the greedy parse of the bytes received, for every way in which the
bytes are cut into reads, and no call ever hands more than 65536 bytes to `read_some`, so its branch
that discards buffered bytes is never taken. -/

namespace KnxdFcgi

/-- `kMaxReadBufferSize`. -/
def kMaxReadBufferSize : Nat := 1048576

/-- The bytes of one successful `read` into the 4096-byte array. -/
structure Chunk where
  bytes : List UInt8
  nonempty : bytes ≠ []
  le_array : bytes.length ≤ 4096

/-- The kernel's answer to a `read`; `again` is `EAGAIN`, `EWOULDBLOCK` or `EINTR`. -/
inductive SysRead where
  | data (chunk : Chunk)
  | eof
  | again
  | failed

inductive ReadOutcome where
  | data | eof | wouldBlock | error
  deriving DecidableEq

def readSome (answer : SysRead) (buffer : List UInt8) : ReadOutcome × List UInt8 :=
  match answer with
  | .data chunk =>
      let newSize := buffer.length + chunk.bytes.length
      let kept :=
        if newSize > kMaxReadBufferSize then
          let excess := newSize - kMaxReadBufferSize
          if excess ≥ buffer.length then [] else buffer.drop excess
        else buffer
      (.data, kept ++ chunk.bytes)
  | .eof => (.eof, buffer)
  | .again => (.wouldBlock, buffer)
  | .failed => (.error, buffer)

/-- What a reading function returns and leaves: the message, the buffer, and the answers of the
kernel that it has not used. -/
structure ReadReturn where
  message : Option (List UInt8)
  buffer : List UInt8
  reads : List SysRead

def readMessage : List SysRead → List UInt8 → ReadReturn
  | [], buffer =>
      match tryExtractMessage buffer with
      | some (message, rest) => ⟨some message, rest, []⟩
      | none => ⟨none, buffer, []⟩
  | answer :: reads, buffer =>
      match tryExtractMessage buffer with
      | some (message, rest) => ⟨some message, rest, answer :: reads⟩
      | none =>
          match readSome answer buffer with
          | (.data, buffer) => readMessage reads buffer
          | (_, buffer) => ⟨none, buffer, reads⟩

/-- One pass through the loop of `read_message_deadline`, after the attempt to extract: the deadline
may have passed, and otherwise `poll` answers. -/
inductive DeadlineWait where
  | expired | timeout | interrupted | failed | ready
  deriving DecidableEq

def readMessageDeadline : List DeadlineWait → List SysRead → List UInt8 → ReadReturn
  | waits, reads, buffer =>
      match tryExtractMessage buffer with
      | some (message, rest) => ⟨some message, rest, reads⟩
      | none =>
          match waits with
          | [] | .expired :: _ | .timeout :: _ | .failed :: _ => ⟨none, buffer, reads⟩
          | .interrupted :: waits => readMessageDeadline waits reads buffer
          | .ready :: waits =>
              match reads with
              | [] => readMessageDeadline waits [] buffer
              | answer :: reads =>
                  match readSome answer buffer with
                  | (.data, buffer) | (.wouldBlock, buffer) => readMessageDeadline waits reads buffer
                  | (.eof, buffer) | (.error, buffer) => ⟨none, buffer, reads⟩

/-- The buffers that a call of `read_message` hands to `read_some`. -/
def readMessageBuffers : List SysRead → List UInt8 → List (List UInt8)
  | [], buffer => if (tryExtractMessage buffer).isSome then [] else [buffer]
  | answer :: reads, buffer =>
      if (tryExtractMessage buffer).isSome then []
      else
        match readSome answer buffer with
        | (.data, buffer') => buffer :: readMessageBuffers reads buffer'
        | _ => [buffer]

/-- The buffers that a call of `read_message_deadline` hands to `read_some`. -/
def readMessageDeadlineBuffers : List DeadlineWait → List SysRead → List UInt8 → List (List UInt8)
  | waits, reads, buffer =>
      if (tryExtractMessage buffer).isSome then []
      else
        match waits with
        | [] | .expired :: _ | .timeout :: _ | .failed :: _ => []
        | .interrupted :: waits => readMessageDeadlineBuffers waits reads buffer
        | .ready :: waits =>
            match reads with
            | [] => buffer :: readMessageDeadlineBuffers waits [] buffer
            | answer :: reads =>
                match readSome answer buffer with
                | (.data, buffer') | (.wouldBlock, buffer') =>
                    buffer :: readMessageDeadlineBuffers waits reads buffer'
                | _ => [buffer]

/-- The bytes that a list of answers delivers. -/
def bytesOf (reads : List SysRead) : List UInt8 :=
  reads.flatMap fun
    | .data chunk => chunk.bytes
    | _ => []

@[simp] theorem bytesOf_nil : bytesOf [] = [] := rfl

@[simp] theorem bytesOf_cons_data (chunk : Chunk) (reads : List SysRead) :
    bytesOf (.data chunk :: reads) = chunk.bytes ++ bytesOf reads := rfl

@[simp] theorem bytesOf_append (reads more : List SysRead) :
    bytesOf (reads ++ more) = bytesOf reads ++ bytesOf more :=
  List.flatMap_append

/-- The bytes that a reading call received: those of the answers it has used. -/
def bytesTaken (reads : List SysRead) (result : ReadReturn) : List UInt8 :=
  bytesOf (reads.take (reads.length - result.reads.length))

/-! ### One call -/

/-- No byte is discarded from a buffer without a complete message. -/
theorem readSome_data {buffer : List UInt8} (h : tryExtractMessage buffer = none) (chunk : Chunk) :
    readSome (.data chunk) buffer = (.data, buffer ++ chunk.bytes) := by
  have hbuffer := length_of_tryExtract_none h
  have hchunk := chunk.le_array
  have hfits : ¬buffer.length + chunk.bytes.length > kMaxReadBufferSize := by
    unfold kMaxReadBufferSize
    omega
  rw [readSome, if_neg hfits]

/-- What a call does, whatever the kernel answers: it takes some answers, and returns the first
message of the buffer extended by their bytes, or leaves the extended buffer without one. -/
def ReadSpec (reads : List SysRead) (buffer : List UInt8) (result : ReadReturn) : Prop :=
  ∃ consumed, reads = consumed ++ result.reads ∧
    match result.message with
    | some message => tryExtractMessage (buffer ++ bytesOf consumed) = some (message, result.buffer)
    | none => tryExtractMessage result.buffer = none ∧ result.buffer = buffer ++ bytesOf consumed

theorem ReadSpec.extracted {reads : List SysRead} {buffer message rest : List UInt8}
    (h : tryExtractMessage buffer = some (message, rest)) :
    ReadSpec reads buffer ⟨some message, rest, reads⟩ :=
  ⟨[], rfl, by simpa using h⟩

theorem ReadSpec.nothing {reads : List SysRead} {buffer : List UInt8}
    (h : tryExtractMessage buffer = none) : ReadSpec reads buffer ⟨none, buffer, reads⟩ :=
  ⟨[], rfl, h, by simp⟩

theorem ReadSpec.after_data {reads : List SysRead} {buffer : List UInt8} {chunk : Chunk}
    {result : ReadReturn} (h : ReadSpec reads (buffer ++ chunk.bytes) result) :
    ReadSpec (.data chunk :: reads) buffer result := by
  obtain ⟨consumed, rfl, hresult⟩ := h
  refine ⟨.data chunk :: consumed, rfl, ?_⟩
  rw [bytesOf_cons_data, ← List.append_assoc]
  exact hresult

theorem ReadSpec.after_other {reads : List SysRead} {buffer : List UInt8} {answer : SysRead}
    (hbytes : bytesOf [answer] = []) {result : ReadReturn} (h : ReadSpec reads buffer result) :
    ReadSpec (answer :: reads) buffer result := by
  obtain ⟨consumed, rfl, hresult⟩ := h
  refine ⟨answer :: consumed, rfl, ?_⟩
  rw [show answer :: consumed = [answer] ++ consumed from rfl, bytesOf_append, hbytes, List.nil_append]
  exact hresult

theorem ReadSpec.reads_le {reads : List SysRead} {buffer : List UInt8} {result : ReadReturn}
    (h : ReadSpec reads buffer result) : result.reads.length ≤ reads.length := by
  obtain ⟨consumed, rfl, -⟩ := h
  rw [List.length_append]
  exact Nat.le_add_left _ _

/-- The same with the bytes that the call received. -/
theorem ReadSpec.taken {reads : List SysRead} {buffer : List UInt8} {result : ReadReturn}
    (h : ReadSpec reads buffer result) :
    match result.message with
    | some message => tryExtractMessage (buffer ++ bytesTaken reads result) = some (message, result.buffer)
    | none => tryExtractMessage result.buffer = none ∧ result.buffer = buffer ++ bytesTaken reads result := by
  obtain ⟨consumed, hreads, hresult⟩ := h
  have htaken : bytesTaken reads result = bytesOf consumed := by
    rw [bytesTaken, hreads, List.length_append, Nat.add_sub_cancel, List.take_left]
  rw [htaken]
  exact hresult

/-- A message that a call returns is the first one of all the bytes there were. -/
theorem ReadSpec.extract_all {reads : List SysRead} {buffer message : List UInt8} {result : ReadReturn}
    (h : ReadSpec reads buffer result) (hmessage : result.message = some message) :
    tryExtractMessage (buffer ++ bytesOf reads) = some (message, result.buffer ++ bytesOf result.reads) := by
  obtain ⟨consumed, hreads, hresult⟩ := h
  rw [hmessage] at hresult
  have hmore := eibdSplitter.split_more (bytesOf result.reads) hresult
  rw [List.append_assoc, ← bytesOf_append, ← hreads] at hmore
  exact hmore

/-- A message that a call returns can be parsed: its length field says how long it is. -/
theorem ReadSpec.copiesWellFormed {reads : List SysRead} {buffer message : List UInt8} {result : ReadReturn}
    (h : ReadSpec reads buffer result) (hmessage : result.message = some message) : CopiesWellFormed message :=
  copiesWellFormed_of_extract (h.extract_all hmessage)

theorem readMessage_spec (reads : List SysRead) (buffer : List UInt8) :
    ReadSpec reads buffer (readMessage reads buffer) := by
  induction reads generalizing buffer with
  | nil =>
      unfold readMessage
      split
      · rename_i hextract
        exact .extracted hextract
      · rename_i hextract
        exact .nothing hextract
  | cons answer reads ih =>
      unfold readMessage
      split
      · rename_i hextract
        exact .extracted hextract
      · rename_i hextract
        cases answer with
        | data chunk =>
            rw [readSome_data hextract]
            exact (ih _).after_data
        | eof => exact (ReadSpec.nothing hextract).after_other rfl
        | again => exact (ReadSpec.nothing hextract).after_other rfl
        | failed => exact (ReadSpec.nothing hextract).after_other rfl

/-- Without an answer that stops it, `read_message` finds the message that the bytes complete. -/
theorem readMessage_of_data {reads : List SysRead} (hdata : ∀ answer ∈ reads, ∃ chunk, answer = .data chunk)
    {buffer message rest : List UInt8}
    (h : tryExtractMessage (buffer ++ bytesOf reads) = some (message, rest)) :
    (readMessage reads buffer).message = some message := by
  induction reads generalizing buffer with
  | nil =>
      rw [bytesOf_nil, List.append_nil] at h
      simp only [readMessage, h]
  | cons answer reads ih =>
      obtain ⟨chunk, rfl⟩ := hdata answer List.mem_cons_self
      cases hextract : tryExtractMessage buffer with
      | some pair =>
          have hmore := eibdSplitter.split_more (bytesOf (.data chunk :: reads)) hextract
          cases h.symm.trans hmore
          simp only [readMessage, hextract]
      | none =>
          simp only [readMessage, hextract, readSome_data hextract]
          apply ih fun answer hanswer => hdata answer (List.mem_cons_of_mem _ hanswer)
          rw [List.append_assoc, ← bytesOf_cons_data]
          exact h

theorem readMessageDeadline_spec (waits : List DeadlineWait) (reads : List SysRead)
    (buffer : List UInt8) : ReadSpec reads buffer (readMessageDeadline waits reads buffer) := by
  induction waits generalizing reads buffer with
  | nil =>
      cases hextract : tryExtractMessage buffer with
      | some pair =>
          simp only [readMessageDeadline, hextract]
          exact .extracted hextract
      | none =>
          simp only [readMessageDeadline, hextract]
          exact .nothing hextract
  | cons wait waits ih =>
      cases hextract : tryExtractMessage buffer with
      | some pair =>
          rw [readMessageDeadline.eq_def]
          simp only [hextract]
          exact .extracted hextract
      | none =>
          cases wait with
          | expired | timeout | failed =>
              simp only [readMessageDeadline, hextract]
              exact .nothing hextract
          | interrupted =>
              simp only [readMessageDeadline, hextract]
              exact ih reads buffer
          | ready =>
              cases reads with
              | nil =>
                  simp only [readMessageDeadline, hextract]
                  exact ih [] buffer
              | cons answer reads =>
                  simp only [readMessageDeadline, hextract]
                  cases answer with
                  | data chunk =>
                      rw [readSome_data hextract]
                      exact (ih reads _).after_data
                  | again => exact (ih reads buffer).after_other rfl
                  | eof => exact (ReadSpec.nothing hextract).after_other rfl
                  | failed => exact (ReadSpec.nothing hextract).after_other rfl

end KnxdFcgi
