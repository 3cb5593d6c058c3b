import KnxdFcgi.CacheReader
import KnxdFcgi.KnxdSending

/-! The state of `KnxdClient` between its operations, for every sequence of them and every answer of the
kernel. What a call reads is recorded with the connection it was read from, so that one can say of the bytes
in the buffer where they come from: they are the end of what the current connection has brought. A `connect`
that fails leaves no connection behind, but for one of its exits. -/

namespace KnxdFcgi

open Machine Framing

namespace KnxdClient

/-- A reading call on the current connection. -/
def receipts (c : KnxdClient) (reads : List SysRead) (result : ReadReturn) : List (Receipt UInt8) :=
  match c.fd with
  | none => []
  | some fd => [⟨fd, c.readBuffer, bytesTaken reads result⟩]

def openGroupSocketReceipts (c : KnxdClient) (writeOnly : Bool) (script : HandshakeScript) :
    List (Receipt UInt8) :=
  if c.fd.isNone then []
  else
    match { c with writeOnly := writeOnly }.write script.writes (buildOpenGroupcon writeOnly) with
    | (_, false) => []
    | (c, true) => c.receipts script.reads (readMessageDeadline script.waits script.reads c.readBuffer)

def reconnectReceipts (c : KnxdClient) (script : HandshakeScript) : List (Receipt UInt8) :=
  if c.socketPath = "" then []
  else
    match c.disconnect.connect c.socketPath script.connect with
    | (_, false) => []
    | (c, true) => c.openGroupSocketReceipts c.writeOnly script

def sendFrameReceipts (c : KnxdClient) (frame : List UInt8) (script : SendScript) : List (Receipt UInt8) :=
  match c.write script.write frame with
  | (_, true) => []
  | (c, false) => c.reconnectReceipts script.reopening

def sendGroupPacketReceipts (c : KnxdClient) (groupAddr : UInt16) (apdu : List UInt8) (script : SendScript) :
    List (Receipt UInt8) :=
  if c.fd.isNone || !c.groupSocketOpen then
    c.reconnectReceipts script.opening ++
      match c.reconnect script.opening with
      | (_, false) => []
      | (c, true) => c.sendFrameReceipts (buildGroupPacket groupAddr apdu) script
  else c.sendFrameReceipts (buildGroupPacket groupAddr apdu) script

def takeMessageReceipts (c : KnxdClient) (reads : List SysRead) : List (Receipt UInt8) :=
  c.receipts reads (readMessage reads c.readBuffer)

def awaitMessageReceipts (c : KnxdClient) (script : PollScript) : List (Receipt UInt8) :=
  c.takeMessageReceipts script.reads ++
    match c.takeMessage script.reads with
    | (_, some _) => []
    | (c, none) =>
        if script.hangup then
          c.reconnectReceipts script.reopening ++
            match c.reconnect script.reopening with
            | (c, true) => c.takeMessageReceipts script.retry
            | (_, false) => []
        else []

def pollMessageReceipts (c : KnxdClient) (script : PollScript) : List (Receipt UInt8) :=
  if c.fd.isNone then
    c.reconnectReceipts script.opening ++
      match c.reconnect script.opening with
      | (_, false) => []
      | (c, true) => c.awaitMessageReceipts script
  else c.awaitMessageReceipts script

/-- An open group socket has a descriptor, a client without one holds no bytes, and what it holds is what is
left of the bytes received on its connection; no reading call has gone on with others. -/
structure Consistent (c : KnxdClient) (log : List (Receipt UInt8)) : Prop where
  socket : c.groupSocketOpen = true → c.fd.isSome
  empty : c.fd = none → c.readBuffer = []
  held : ∀ fd, c.fd = some fd → c.readBuffer <:+ Receipt.received log fd
  joined : Receipt.Joined log

variable {c : KnxdClient} {log : List (Receipt UInt8)}

theorem Consistent.closed (h : c.Consistent log) (hfd : c.fd = none) : c.groupSocketOpen = false := by
  by_contra hopen
  have hsome := h.socket (Bool.not_eq_false _ ▸ hopen)
  rw [hfd] at hsome
  cases hsome

theorem Consistent.of_fields (h : c.Consistent log) {c' : KnxdClient} (hfd : c'.fd = c.fd)
    (hopen : c'.groupSocketOpen = c.groupSocketOpen) (hbuffer : c'.readBuffer = c.readBuffer) :
    c'.Consistent log where
  socket := by rw [hopen, hfd]; exact h.socket
  empty := by rw [hfd, hbuffer]; exact h.empty
  held := by rw [hfd, hbuffer]; exact h.held
  joined := h.joined

/-- A client that has nothing from before. -/
theorem consistent_of_blank (hjoined : Receipt.Joined log) (hopen : c.groupSocketOpen = false)
    (hbuffer : c.readBuffer = []) : c.Consistent log where
  socket hsome := by
    rw [hopen] at hsome
    cases hsome
  empty _ := hbuffer
  held _ _ := by
    rw [hbuffer]
    exact List.nil_suffix
  joined := hjoined

theorem Consistent.disconnect (h : c.Consistent log) : c.disconnect.Consistent log :=
  consistent_of_blank h.joined rfl rfl

theorem disconnect_openFds (c : KnxdClient) : c.disconnect.openFds ⊆ c.openFds := by
  unfold KnxdClient.disconnect closeFd
  cases c.fd with
  | none => exact List.Subset.refl _
  | some fd => exact List.erase_subset

/-- What `connect` starts from, once it has disconnected a client that was connected: the fields are cleared
by that, or were those of a client without a descriptor. -/
theorem connect_start (c b : KnxdClient) (hb : b = if c.fd.isSome then c.disconnect else c) :
    b.fd = none ∧ b.openFds ⊆ c.openFds ∧
      (b.groupSocketOpen = false ↔ (c.fd = none → c.groupSocketOpen = false)) ∧
      (b.readBuffer = [] ↔ (c.fd = none → c.readBuffer = [])) := by
  subst hb
  split_ifs with hfd
  · have hsome : c.fd ≠ none := Option.isSome_iff_ne_none.mp hfd
    exact ⟨rfl, disconnect_openFds c, iff_of_true rfl (absurd · hsome), iff_of_true rfl (absurd · hsome)⟩
  · have hnone : c.fd = none := by simpa using hfd
    exact ⟨hnone, List.Subset.refl _, (imp_iff_right hnone).symm, (imp_iff_right hnone).symm⟩

/-- Every exit of `connect` leaves a client that has nothing from before. -/
theorem Consistent.connect (h : c.Consistent log) (path : String) (answer : ConnectAnswer) :
    (c.connect path answer).1.Consistent log := by
  have hstart := connect_start c
  unfold KnxdClient.connect
  generalize (if c.fd.isSome then c.disconnect else c) = b at hstart
  obtain ⟨-, -, hopen, hbuffer⟩ := hstart b rfl
  simp only
  split_ifs <;> exact consistent_of_blank h.joined (hopen.mpr h.closed) (hbuffer.mpr h.empty)

theorem Consistent.write (h : c.Consistent log) (answers : List SysWrite) (frame : List UInt8) :
    (c.write answers frame).1.Consistent log := by
  unfold KnxdClient.write
  split
  · exact h
  · exact h.of_fields rfl rfl rfl

/-- What a reading call leaves is the end of what it held and received. -/
theorem buffer_suffix {reads : List SysRead} {buffer : List UInt8} {result : ReadReturn}
    (h : ReadSpec reads buffer result) : result.buffer <:+ buffer ++ bytesTaken reads result := by
  have hresult := h.taken
  cases hmessage : result.message with
  | none =>
      simp only [hmessage] at hresult
      rw [hresult.2]
  | some message =>
      simp only [hmessage] at hresult
      exact ⟨message, eibdSplitter.split_append hresult⟩

/-- A reading call on a connection; whether the group socket is open may change with it. -/
theorem Consistent.receive (h : c.Consistent log) (hfd : c.fd.isSome) {reads : List SysRead}
    {result : ReadReturn} (hspec : ReadSpec reads c.readBuffer result) (isOpen : Bool) :
    Consistent { c with readBuffer := result.buffer, groupSocketOpen := isOpen } (log ++ c.receipts reads result) := by
  obtain ⟨fd, hfd⟩ := Option.isSome_iff_exists.mp hfd
  have hheld := h.held fd hfd
  have hreceipts : c.receipts reads result = [⟨fd, c.readBuffer, bytesTaken reads result⟩] := by
    rw [receipts, hfd]
  rw [hreceipts]
  refine ⟨fun _ => by simp [hfd], fun hnone => ?_, fun fd' hfd' => ?_, h.joined.append hheld⟩
  · rw [hfd] at hnone
    cases hnone
  · obtain rfl := Option.some.inj (hfd.symm.trans hfd')
    rw [Receipt.received_append_self log ⟨fd, c.readBuffer, bytesTaken reads result⟩]
    refine (buffer_suffix hspec).trans ?_
    obtain ⟨before, hbefore⟩ := hheld
    exact ⟨before, by rw [← hbefore, List.append_assoc]⟩

theorem Consistent.awaitReply (h : c.Consistent log) (hfd : c.fd.isSome) (script : HandshakeScript) :
    (c.awaitReply script).1.Consistent
      (log ++ c.receipts script.reads (readMessageDeadline script.waits script.reads c.readBuffer)) := by
  have hreceive := h.receive hfd (readMessageDeadline_spec script.waits script.reads c.readBuffer)
  simp only [KnxdClient.awaitReply]
  split
  · exact hreceive c.groupSocketOpen
  · split
    · exact hreceive _
    · exact hreceive c.groupSocketOpen

theorem Consistent.openGroupSocket (h : c.Consistent log) (writeOnly : Bool) (script : HandshakeScript) :
    (c.openGroupSocket writeOnly script).1.Consistent (log ++ c.openGroupSocketReceipts writeOnly script) := by
  unfold KnxdClient.openGroupSocket openGroupSocketReceipts
  split_ifs with hfd
  · rwa [List.append_nil]
  · have hsame : Consistent { c with writeOnly := writeOnly } log := h.of_fields rfl rfl rfl
    have hwrite := hsame.write script.writes (buildOpenGroupcon writeOnly)
    have hfields := (write_fields script.writes (buildOpenGroupcon writeOnly) { c with writeOnly := writeOnly }).1
    generalize KnxdClient.write { c with writeOnly := writeOnly } script.writes (buildOpenGroupcon writeOnly) = result
      at hwrite hfields ⊢
    obtain ⟨c', ok⟩ := result
    cases ok with
    | false => rwa [List.append_nil]
    | true =>
        refine hwrite.awaitReply ?_ script
        rw [hfields]
        simpa [Option.isSome_iff_ne_none] using hfd

theorem Consistent.reconnect (h : c.Consistent log) (script : HandshakeScript) :
    (c.reconnect script).1.Consistent (log ++ c.reconnectReceipts script) := by
  unfold KnxdClient.reconnect reconnectReceipts
  split_ifs with hpath
  · rwa [List.append_nil]
  · have hconnect := h.disconnect.connect c.socketPath script.connect
    generalize c.disconnect.connect c.socketPath script.connect = result at hconnect ⊢
    obtain ⟨c', ok⟩ := result
    cases ok with
    | false => rwa [List.append_nil]
    | true =>
        have hopen := hconnect.openGroupSocket c'.writeOnly script
        simp only
        generalize c'.openGroupSocket c'.writeOnly script = result at hopen ⊢
        obtain ⟨c'', ok⟩ := result
        cases ok with
        | false => exact hopen.disconnect
        | true => exact hopen

theorem Consistent.sendFrame (h : c.Consistent log) (frame : List UInt8) (script : SendScript) :
    (c.sendFrame frame script).1.Consistent (log ++ c.sendFrameReceipts frame script) := by
  have hwrite := h.write script.write frame
  unfold KnxdClient.sendFrame sendFrameReceipts
  generalize c.write script.write frame = result at hwrite ⊢
  obtain ⟨c', ok⟩ := result
  cases ok with
  | true => rwa [List.append_nil]
  | false =>
      have hreconnect := hwrite.reconnect script.reopening
      simp only
      generalize c'.reconnect script.reopening = result at hreconnect ⊢
      obtain ⟨c'', ok⟩ := result
      cases ok with
      | false => exact hreconnect
      | true => exact hreconnect.write script.retry frame

theorem Consistent.sendGroupPacket (h : c.Consistent log) (groupAddr : UInt16) (apdu : List UInt8)
    (script : SendScript) :
    (c.sendGroupPacket groupAddr apdu script).1.Consistent
      (log ++ c.sendGroupPacketReceipts groupAddr apdu script) := by
  unfold KnxdClient.sendGroupPacket sendGroupPacketReceipts
  split_ifs
  · have hreconnect := h.reconnect script.opening
    rw [← List.append_assoc]
    generalize c.reconnect script.opening = result at hreconnect ⊢
    obtain ⟨c', ok⟩ := result
    cases ok with
    | false => rwa [List.append_nil]
    | true => exact hreconnect.sendFrame _ script
  · exact h.sendFrame _ script

theorem Consistent.takeMessage (h : c.Consistent log) (hfd : c.fd.isSome) (reads : List SysRead) :
    (c.takeMessage reads).1.Consistent (log ++ c.takeMessageReceipts reads) :=
  h.receive hfd (readMessage_spec reads c.readBuffer) c.groupSocketOpen

theorem Consistent.awaitMessage (h : c.Consistent log) (hfd : c.fd.isSome) (script : PollScript) :
    (c.awaitMessage script).1.Consistent (log ++ c.awaitMessageReceipts script) := by
  have htake := h.takeMessage hfd script.reads
  unfold KnxdClient.awaitMessage awaitMessageReceipts
  rw [← List.append_assoc]
  generalize c.takeMessage script.reads = result at htake ⊢
  obtain ⟨c', message⟩ := result
  cases message with
  | some message => rwa [List.append_nil]
  | none =>
      simp only
      split_ifs
      · have hreconnect := htake.reconnect script.reopening
        have hopen : (c'.reconnect script.reopening).2 = true → _ := reconnect_true
        rw [← List.append_assoc]
        generalize c'.reconnect script.reopening = result at hreconnect hopen ⊢
        obtain ⟨c'', ok⟩ := result
        cases ok with
        | true => exact hreconnect.takeMessage (hopen rfl) script.retry
        | false => rwa [List.append_nil]
      · rwa [List.append_nil]

theorem Consistent.pollMessage (h : c.Consistent log) (script : PollScript) :
    (c.pollMessage script).1.Consistent (log ++ c.pollMessageReceipts script) := by
  unfold KnxdClient.pollMessage pollMessageReceipts
  split_ifs with hfd
  · have hreconnect := h.reconnect script.opening
    have hopen : (c.reconnect script.opening).2 = true → _ := reconnect_true
    rw [← List.append_assoc]
    generalize c.reconnect script.opening = result at hreconnect hopen ⊢
    obtain ⟨c', ok⟩ := result
    cases ok with
    | false => rwa [List.append_nil]
    | true => exact hreconnect.awaitMessage (hopen rfl) script
  · exact h.awaitMessage (by simpa [Option.isSome_iff_ne_none] using hfd) script

theorem Consistent.pollGroupTelegram (h : c.Consistent log) (script : PollScript) :
    (c.pollGroupTelegram script).1.Consistent (log ++ c.pollMessageReceipts script) := by
  have hpoll := h.pollMessage script
  unfold KnxdClient.pollGroupTelegram
  generalize c.pollMessage script = result at hpoll ⊢
  obtain ⟨c', message⟩ := result
  cases message with
  | none => exact hpoll
  | some message =>
      simp only
      split
      · exact hpoll
      · exact hpoll.of_fields rfl rfl rfl

/-! ### Sequences of calls -/

/-- A call on the client, with what the kernel answers to it. -/
inductive ClientCall where
  | connect (path : String) (answer : ConnectAnswer)
  | disconnect
  | reconnect (script : HandshakeScript)
  | openGroupSocket (writeOnly : Bool) (script : HandshakeScript)
  | sendGroupPacket (groupAddr : UInt16) (apdu : List UInt8) (script : SendScript)
  | pollGroupTelegram (script : PollScript)

/-- The client after a call. -/
def perform (c : KnxdClient) : ClientCall → KnxdClient
  | .connect path answer => (c.connect path answer).1
  | .disconnect => c.disconnect
  | .reconnect script => (c.reconnect script).1
  | .openGroupSocket writeOnly script => (c.openGroupSocket writeOnly script).1
  | .sendGroupPacket groupAddr apdu script => (c.sendGroupPacket groupAddr apdu script).1
  | .pollGroupTelegram script => (c.pollGroupTelegram script).1

/-- What it reads meanwhile. -/
def performReceipts (c : KnxdClient) : ClientCall → List (Receipt UInt8)
  | .connect _ _ | .disconnect => []
  | .reconnect script => c.reconnectReceipts script
  | .openGroupSocket writeOnly script => c.openGroupSocketReceipts writeOnly script
  | .sendGroupPacket groupAddr apdu script => c.sendGroupPacketReceipts groupAddr apdu script
  | .pollGroupTelegram script => c.pollMessageReceipts script

/-- A client and the record of its reading calls. -/
structure Observed where
  client : KnxdClient := {}
  receipts : List (Receipt UInt8) := []

def Observed.next (s : Observed) (call : ClientCall) : Observed where
  client := s.client.perform call
  receipts := s.receipts ++ s.client.performReceipts call

theorem Consistent.perform (h : c.Consistent log) (call : ClientCall) :
    (c.perform call).Consistent (log ++ c.performReceipts call) := by
  cases call with
  | connect path answer =>
      rw [performReceipts, List.append_nil]
      exact h.connect path answer
  | disconnect =>
      rw [performReceipts, List.append_nil]
      exact h.disconnect
  | reconnect script => exact h.reconnect script
  | openGroupSocket writeOnly script => exact h.openGroupSocket writeOnly script
  | sendGroupPacket groupAddr apdu script => exact h.sendGroupPacket groupAddr apdu script
  | pollGroupTelegram script => exact h.pollGroupTelegram script

theorem run_consistent (calls : List ClientCall) :
    (run Observed.next {} calls).client.Consistent (run Observed.next {} calls).receipts :=
  run_invariant (fun s : Observed => s.client.Consistent s.receipts) (fun _ call h => h.perform call) calls
    (consistent_of_blank Receipt.joined_nil rfl rfl)

/-- **The client is consistent after every sequence of calls**, whatever the kernel answers; and no reading
call, within an operation or across operations, goes on with bytes of an earlier connection. -/
theorem client_consistent (calls : List ClientCall) :
    ((run Observed.next {} calls).client.groupSocketOpen = true →
        (run Observed.next {} calls).client.fd.isSome) ∧
      ((run Observed.next {} calls).client.fd = none → (run Observed.next {} calls).client.readBuffer = []) ∧
      (∀ fd, (run Observed.next {} calls).client.fd = some fd →
        (run Observed.next {} calls).client.readBuffer <:+
          Receipt.received (run Observed.next {} calls).receipts fd) ∧
      ∀ before r after, (run Observed.next {} calls).receipts = before ++ r :: after →
        r.held <:+ Receipt.received before r.channel := by
  have h := run_consistent calls
  exact ⟨h.socket, h.empty, h.held, h.joined⟩

theorem takeMessage_copiesWellFormed {reads : List SysRead} {message : List UInt8}
    (h : (c.takeMessage reads).2 = some message) : CopiesWellFormed message :=
  (readMessage_spec reads c.readBuffer).copiesWellFormed h

theorem awaitMessage_copiesWellFormed {script : PollScript} {message : List UInt8}
    (h : (c.awaitMessage script).2 = some message) : CopiesWellFormed message := by
  unfold KnxdClient.awaitMessage at h
  split at h
  · rename_i c' first htake
    obtain rfl := Option.some.inj h
    exact takeMessage_copiesWellFormed (congrArg Prod.snd htake)
  · split_ifs at h
    split at h
    · exact takeMessage_copiesWellFormed h
    · cases h

/-- **The client parses no vector whose length is below its type**: neither the reply that it waits for nor a
message that it polls, from any state and whatever the kernel answers. -/
theorem parses_wellFormed (c : KnxdClient) (message : List UInt8) :
    (∀ script : HandshakeScript,
      (readMessageDeadline script.waits script.reads c.readBuffer).message = some message →
        CopiesWellFormed message) ∧
    ∀ script : PollScript, (c.pollMessage script).2 = some message → CopiesWellFormed message := by
  refine ⟨fun script h => (readMessageDeadline_spec _ _ _).copiesWellFormed h, fun script h => ?_⟩
  unfold KnxdClient.pollMessage at h
  split_ifs at h
  · split at h
    · cases h
    · exact awaitMessage_copiesWellFormed h
  · exact awaitMessage_copiesWellFormed h

/-- There is no connection, no open group socket, and no descriptor that was not open before. -/
def LeavesNothing (before after : KnxdClient) : Prop :=
  after.fd = none ∧ after.groupSocketOpen = false ∧ after.openFds ⊆ before.openFds

/-- The exit for a path that is too long is the only one that keeps the descriptor. -/
theorem connect_leavesNothing_iff (c : KnxdClient) (path : String) (answer : ConnectAnswer)
    (hfalse : (c.connect path answer).2 = false) :
    LeavesNothing c (c.connect path answer).1 ↔
      (answer = .noSocket ∨ path.utf8ByteSize < sunPathSize) ∧ (c.fd = none → c.groupSocketOpen = false) := by
  have hstart := connect_start c
  unfold KnxdClient.connect at hfalse ⊢
  generalize (if c.fd.isSome then c.disconnect else c) = b at hstart hfalse
  obtain ⟨hfd, hopen, hsocket, -⟩ := hstart b rfl
  simp only at hfalse ⊢
  split_ifs at hfalse ⊢ with hnone hlong hok
  · simp [LeavesNothing, hopen, ← hsocket, hnone]
  · simp [LeavesNothing, hnone, hlong]
  · simp [LeavesNothing, closeFd, hopen, ← hsocket, Nat.lt_of_not_le hlong]

/-- **A failed `connect` leaves nothing behind, unless a descriptor was created for a path that is too
long**: for every client, provided that one without a descriptor has no open group socket, which is so after
every sequence of calls. -/
theorem connect_false_iff (path : String) (answer : ConnectAnswer) :
    (∀ c : KnxdClient, (c.connect path answer).2 = false →
      (LeavesNothing c (c.connect path answer).1 ↔
        (answer = .noSocket ∨ path.utf8ByteSize < sunPathSize) ∧
          (c.fd = none → c.groupSocketOpen = false))) ∧
    ∀ calls : List ClientCall, ((run Observed.next {} calls).client.connect path answer).2 = false →
      (LeavesNothing (run Observed.next {} calls).client
          ((run Observed.next {} calls).client.connect path answer).1 ↔
        answer = .noSocket ∨ path.utf8ByteSize < sunPathSize) := by
  refine ⟨fun c => connect_leavesNothing_iff c path answer, fun calls hfalse => ?_⟩
  rw [connect_leavesNothing_iff _ path answer hfalse]
  exact and_iff_left (run_consistent calls).closed

/-- A path of 108 bytes: the call fails, and its descriptor stays open. -/
theorem connect_long_path : ∃ path : String, path.utf8ByteSize = 108 ∧
    (({} : KnxdClient).connect path .established).2 = false ∧
    (({} : KnxdClient).connect path .established).1.fd = some 0 ∧
    (({} : KnxdClient).connect path .established).1.openFds = [0] := by
  obtain ⟨path, hsize⟩ : ∃ path : String, path.utf8ByteSize = 108 :=
    ⟨String.ofList (List.replicate 108 'a'), by decide +kernel⟩
  refine ⟨path, hsize, ?_⟩
  simp [KnxdClient.connect, sunPathSize, hsize]

end KnxdClient
end KnxdFcgi
