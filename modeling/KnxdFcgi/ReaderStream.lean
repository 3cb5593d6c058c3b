import KnxdFcgi.CacheDrain
import KnxdFcgi.ClientState
import KnxdFcgi.ReaderProgress
import KnxdFcgi.Simulation

/-! From the bytes that knxd sends to the pushes into the cache. Every connection of the cache reader is a
stream of its own: the first message on it answers the handshake, and what follows is polled, message by
message. The pushes of a run are the group telegrams of its connections, one connection after the other and
each in the order of its stream; no telegram is pushed twice, or before one that came earlier. What is missing
is at the end of a stream: it is still held, or was when the connection was given up. -/

namespace KnxdFcgi

open Machine Framing

/-- The message is the reply that `open_group_socket` waits for. -/
def opensGroup (reply : List UInt8) : Bool :=
  match parseEibdMessage reply with
  | .parsed type _ => type = EibMessageType.openGroupcon
  | _ => false

/-- Of the messages of a connection, those that follow the reply that opens the group socket. -/
def groupMessages : List (List UInt8) → List (List UInt8)
  | [] => []
  | reply :: messages => if opensGroup reply then messages else []

/-- The address and value that are pushed for a message, if any. -/
def entryOf (message : List UInt8) : Option (UInt16 × List UInt8) :=
  match KnxdClient.telegramOf message with
  | none => none
  | some (addr, apdu) => (pushedValue apdu).map fun value => (addr, value)

def Push.entry (p : Push) : UInt16 × List UInt8 := (p.addr, p.value)

/-- The complete messages that a connection has brought for the group socket. -/
def deliveredBy (bytes : List UInt8) : List (List UInt8) := groupMessages (eibdSplitter.frames bytes).1

/-- The handshake has been answered as it should. -/
def Answered (messages : List (List UInt8)) : Prop :=
  ∃ reply rest, messages = reply :: rest ∧ opensGroup reply = true

theorem Answered.append {messages : List (List UInt8)} (h : Answered messages) (more : List (List UInt8)) :
    Answered (messages ++ more) ∧ groupMessages (messages ++ more) = groupMessages messages ++ more := by
  obtain ⟨reply, rest, rfl, hreply⟩ := h
  exact ⟨⟨reply, rest ++ more, rfl, hreply⟩, by simp [groupMessages, hreply]⟩

theorem groupMessages_prefix (messages more : List (List UInt8)) :
    groupMessages messages <+: groupMessages (messages ++ more) := by
  cases messages with
  | nil => exact List.nil_prefix
  | cons reply messages =>
      simp only [List.cons_append, groupMessages]
      split_ifs
      · exact List.prefix_append _ _
      · exact List.nil_prefix

namespace KnxdClient

/-- The messages that were polled from a connection. -/
def polled (log : List (Receipt UInt8)) (fd : Nat) : List (List UInt8) :=
  groupMessages (Receipt.messages eibdSplitter log fd)

/-- The messages that were polled from the first connections, one connection after the other. -/
def polledUpTo (log : List (Receipt UInt8)) (sockets : Nat) : List (List UInt8) :=
  (List.range sockets).flatMap (polled log)

/-- Every complete message that the connection brought for the group socket was polled. -/
def Settled (log : List (Receipt UInt8)) (fd : Nat) : Prop :=
  polled log fd = deliveredBy (Receipt.received log fd)

/-- The record goes with the client: its last connection is the current one, and what the client holds is what
the last call on it left. If connections are only given up when they are settled, as `kept` says, all but the
current one are. -/
structure Traced (kept : Prop) (c : KnxdClient) (log : List (Receipt UInt8)) : Prop where
  chained : Receipt.Chained eibdSplitter log
  channel_lt : ∀ r ∈ log, r.channel < c.sockets
  empty : c.fd = none → c.readBuffer = []
  current : ∀ fd, c.fd = some fd → fd + 1 = c.sockets ∧ c.readBuffer = Receipt.leftover eibdSplitter log fd
  lost : kept → ∀ fd, c.fd ≠ some fd → Settled log fd
  path : c.socketPath.utf8ByteSize < sunPathSize

/-- The current connection, if there is one, has an open group socket. -/
structure Served (kept : Prop) (c : KnxdClient) (log : List (Receipt UInt8)) : Prop extends Traced kept c log where
  answered : ∀ fd, c.fd = some fd → Answered (Receipt.messages eibdSplitter log fd)

/-- Nothing has been read from the current connection. -/
def Unread (c : KnxdClient) (log : List (Receipt UInt8)) : Prop :=
  ∀ fd, c.fd = some fd → ∀ r ∈ log, r.channel ≠ fd

variable {kept : Prop} {c : KnxdClient} {log : List (Receipt UInt8)} {fd : Nat}

theorem deliveredBy_received (h : Receipt.Chained eibdSplitter log) (fd : Nat) :
    deliveredBy (Receipt.received log fd) = groupMessages (Receipt.messages eibdSplitter log fd ++
      (eibdSplitter.frames (Receipt.leftover eibdSplitter log fd)).1) := by
  rw [deliveredBy, h.frames_received]

theorem settled_of_none (h : Receipt.Chained eibdSplitter log)
    (hnone : tryExtractMessage (Receipt.leftover eibdSplitter log fd) = none) : Settled log fd := by
  have hframes := Splitter.frames_of_none (S := eibdSplitter) hnone
  rw [Settled, deliveredBy_received h, hframes, List.append_nil, polled]

/-- A connection whose handshake was refused brings nothing. -/
theorem settled_of_refused (h : Receipt.Chained eibdSplitter log) {reply : List UInt8}
    (hreply : Receipt.messages eibdSplitter log fd = [reply]) (hrefused : opensGroup reply = false) :
    Settled log fd := by
  rw [Settled, deliveredBy_received h, polled, hreply]
  simp [groupMessages, hrefused]

theorem settled_of_unread (h : ∀ r ∈ log, r.channel ≠ fd) : Settled log fd := by
  obtain ⟨hreceived, hmessages, -⟩ := Receipt.unread eibdSplitter h
  rw [Settled, polled, hmessages, hreceived, deliveredBy, Splitter.frames_of_none (Splitter.split_nil _)]

theorem polledUpTo_succ_of_unread {sockets : Nat} (h : ∀ r ∈ log, r.channel < sockets) :
    polledUpTo log (sockets + 1) = polledUpTo log sockets := by
  have hunread := Receipt.unread eibdSplitter fun r hr => Nat.ne_of_lt (h r hr)
  rw [polledUpTo, List.range_succ, List.flatMap_append, List.flatMap_singleton, polled, hunread.2.1]
  exact List.append_nil _

theorem Traced.of_fields (h : Traced kept c log) {c' : KnxdClient} (hfd : c'.fd = c.fd)
    (hsockets : c'.sockets = c.sockets) (hbuffer : c'.readBuffer = c.readBuffer)
    (hpath : c'.socketPath = c.socketPath) : Traced kept c' log where
  chained := h.chained
  channel_lt := hsockets ▸ h.channel_lt
  empty := by rw [hfd, hbuffer]; exact h.empty
  current := by rw [hfd, hsockets, hbuffer]; exact h.current
  lost := by rw [hfd]; exact h.lost
  path := hpath ▸ h.path

theorem Traced.settled_of_holdsNothing (h : Traced kept c log) (hnothing : CacheReader.HoldsNothing c)
    (hfd : c.fd = some fd) : Settled log fd :=
  settled_of_none h.chained ((h.current fd hfd).2 ▸ hnothing)

/-- A client without a connection has no socket to open. -/
theorem Traced.served (h : Traced kept c log) (hfd : c.fd = none) : Served kept c log :=
  { h with answered := fun _ hsome => nomatch hfd.symm.trans hsome }

theorem Traced.disconnect (h : Traced kept c log) (hsettled : kept → ∀ fd, c.fd = some fd → Settled log fd) :
    Served kept c.disconnect log := by
  refine Traced.served ⟨h.chained, h.channel_lt, fun _ => rfl, nofun, fun hkept fd _ => ?_, h.path⟩ rfl
  by_cases hfd : c.fd = some fd
  · exact hsettled hkept fd hfd
  · exact h.lost hkept fd hfd

/-- A new connection is the last one, and nothing has been read from it. -/
theorem Traced.connect (h : Traced kept c log) (hfd : c.fd = none) (path : String) (answer : ConnectAnswer) :
    Traced kept (c.connect path answer).1 log ∧ Unread (c.connect path answer).1 log ∧
      polledUpTo log (c.connect path answer).1.sockets = polledUpTo log c.sockets ∧
      ((c.connect path answer).2 = true → (c.connect path answer).1.fd.isSome) ∧
      ((c.connect path answer).2 = false → path.utf8ByteSize < sunPathSize →
        (c.connect path answer).1.fd = none) := by
  have hlost (fd : Nat) (hkept : kept) : Settled log fd := h.lost hkept fd (by simp [hfd])
  have hless (r : Receipt UInt8) (hr : r ∈ log) : r.channel < c.sockets + 1 :=
    Nat.lt_succ_of_lt (h.channel_lt r hr)
  have hunread (r : Receipt UInt8) (hr : r ∈ log) : r.channel ≠ c.sockets := Nat.ne_of_lt (h.channel_lt r hr)
  have hcurrent (fd : Nat) (hsome : some c.sockets = some fd) : fd + 1 = c.sockets + 1 ∧
      c.readBuffer = Receipt.leftover eibdSplitter log fd := by
    obtain rfl := Option.some.inj hsome
    exact ⟨rfl, by rw [h.empty hfd, (Receipt.unread eibdSplitter hunread).2.2]⟩
  have hpolled := polledUpTo_succ_of_unread h.channel_lt
  simp only [KnxdClient.connect, hfd, Option.isSome_none, Bool.false_eq_true, if_false]
  split_ifs with hnone hlong hok
  · exact ⟨⟨h.chained, h.channel_lt, fun _ => h.empty hfd, by simp, fun hkept fd _ => hlost fd hkept, h.path⟩,
      by simp [Unread], rfl, by simp, fun _ _ => rfl⟩
  · refine ⟨⟨h.chained, hless, by simp, hcurrent, fun hkept fd _ => hlost fd hkept, h.path⟩, ?_, hpolled, by simp,
      fun _ hshort => absurd hlong (Nat.not_le.mpr hshort)⟩
    rintro fd hsome
    obtain rfl := Option.some.inj hsome
    exact hunread
  · refine ⟨⟨h.chained, hless, by simp, hcurrent, fun hkept fd _ => hlost fd hkept, Nat.lt_of_not_le hlong⟩, ?_,
      hpolled, fun _ => rfl, by simp⟩
    rintro fd hsome
    obtain rfl := Option.some.inj hsome
    exact hunread
  · exact ⟨⟨h.chained, hless, fun _ => h.empty hfd, by simp [closeFd], fun hkept fd _ => hlost fd hkept,
      Nat.lt_of_not_le hlong⟩, by simp [Unread, closeFd], hpolled, by simp, fun _ _ => rfl⟩

/-- The record of a reading call has its message and what it left. -/
theorem receipt_of_spec {reads : List SysRead} {buffer : List UInt8} {result : ReadReturn}
    (h : ReadSpec reads buffer result) (fd : Nat) :
    Receipt.message eibdSplitter ⟨fd, buffer, bytesTaken reads result⟩ = result.message ∧
      Receipt.left eibdSplitter ⟨fd, buffer, bytesTaken reads result⟩ = result.buffer := by
  have hresult := h.taken
  rw [Receipt.message, Receipt.left]
  cases hmessage : result.message with
  | none =>
      simp only [hmessage] at hresult
      obtain ⟨hnone, hbuffer⟩ := hresult
      have hsplit : eibdSplitter.split (buffer ++ bytesTaken reads result) = none := hbuffer ▸ hnone
      simp [hsplit, hbuffer]
  | some message =>
      simp only [hmessage] at hresult
      have hsplit : eibdSplitter.split (buffer ++ bytesTaken reads result) = some (message, result.buffer) := hresult
      simp [hsplit]

theorem Settled.append {r : Receipt UInt8} (h : Settled log fd) (hne : r.channel ≠ fd) : Settled (log ++ [r]) fd := by
  rw [Settled, polled, Receipt.messages_append_of_ne _ hne, Receipt.received_append_of_ne hne]
  exact h

/-- A reading call on the current connection extends its messages by the one it returns, and leaves those of
the other connections. -/
theorem Traced.receive (h : Traced kept c log) (hfd : c.fd = some fd) {reads : List SysRead}
    {result : ReadReturn} (hspec : ReadSpec reads c.readBuffer result) (isOpen : Bool) :
    Traced kept { c with readBuffer := result.buffer, groupSocketOpen := isOpen } (log ++ c.receipts reads result) ∧
      Receipt.messages eibdSplitter (log ++ c.receipts reads result) fd =
        Receipt.messages eibdSplitter log fd ++ result.message.toList ∧
      Receipt.leftover eibdSplitter (log ++ c.receipts reads result) fd = result.buffer ∧
      ∀ more, polled (log ++ c.receipts reads result) fd = polled log fd ++ more →
        polledUpTo (log ++ c.receipts reads result) c.sockets = polledUpTo log c.sockets ++ more := by
  obtain ⟨hmessage, hleft⟩ := receipt_of_spec hspec fd
  obtain ⟨hlast, hbuffer⟩ := h.current fd hfd
  have hreceipts : c.receipts reads result = [⟨fd, c.readBuffer, bytesTaken reads result⟩] := by
    rw [receipts, hfd]
  rw [hreceipts]
  generalize hr : (⟨fd, c.readBuffer, bytesTaken reads result⟩ : Receipt UInt8) = r at hmessage hleft
  have hchannel : r.channel = fd := hr ▸ rfl
  have hheld : r.held = c.readBuffer := hr ▸ rfl
  have hleftover : Receipt.leftover eibdSplitter (log ++ [r]) fd = result.buffer := by
    rw [← hchannel, Receipt.leftover_append_self, hleft]
  refine ⟨⟨.snoc h.chained (by rw [hheld, hchannel, hbuffer]), ?_, ?_, ?_, ?_, h.path⟩, ?_, hleftover, ?_⟩
  · intro r' hr'
    rcases List.mem_append.mp hr' with hr' | hr'
    · exact h.channel_lt r' hr'
    · rw [List.mem_singleton.mp hr', hchannel, ← hlast]
      exact Nat.lt_succ_self fd
  · intro hnone
    cases hfd.symm.trans hnone
  · intro fd' hfd'
    obtain rfl := Option.some.inj (hfd.symm.trans hfd')
    exact ⟨hlast, hleftover.symm⟩
  · intro hkept fd' hfd'
    have hne : fd ≠ fd' := fun heq => hfd' (heq ▸ hfd)
    exact (h.lost hkept fd' hfd').append (hchannel ▸ hne)
  · rw [← hchannel, Receipt.messages_append_self, hmessage]
  · intro more hmore
    have hothers : (List.range fd).flatMap (polled (log ++ [r])) = (List.range fd).flatMap (polled log) := by
      refine List.flatMap_congr fun fd' hfd' => ?_
      have hne : r.channel ≠ fd' := hchannel ▸ (Nat.ne_of_lt (List.mem_range.mp hfd')).symm
      rw [polled, Receipt.messages_append_of_ne _ hne, polled]
    rw [polledUpTo, polledUpTo, ← hlast, List.range_succ, List.flatMap_append, List.flatMap_append, hothers,
      List.flatMap_singleton, List.flatMap_singleton, hmore, List.append_assoc]

theorem awaitReply_eq (c : KnxdClient) (script : HandshakeScript) :
    ∃ isOpen, c.awaitReply script =
      ({ c with
          readBuffer := (readMessageDeadline script.waits script.reads c.readBuffer).buffer
          groupSocketOpen := isOpen },
        (readMessageDeadline script.waits script.reads c.readBuffer).message.any opensGroup) := by
  cases hmessage : (readMessageDeadline script.waits script.reads c.readBuffer).message with
  | none => exact ⟨c.groupSocketOpen, by simp only [awaitReply, hmessage, Option.any_none]⟩
  | some message =>
      cases hparse : parseEibdMessage message with
      | parsed type data =>
          exact ⟨decide (type = EibMessageType.openGroupcon),
            by simp only [awaitReply, hmessage, hparse, Option.any_some, opensGroup]⟩
      | rejected | illFormedRange =>
          exact ⟨c.groupSocketOpen, by simp only [awaitReply, hmessage, hparse, Option.any_some, opensGroup]⟩

/-- What a handshake on a connection leaves: either the group socket is open, or the connection has brought
nothing for it. Its reply is not one of the messages polled. -/
structure Handshaken (kept : Prop) (fd : Nat) (before : List (List UInt8)) (result : KnxdClient × Bool)
    (log : List (Receipt UInt8)) : Prop where
  traced : Traced kept result.1 log
  current : result.1.fd = some fd
  polled : polledUpTo log result.1.sockets = before
  opened : result.2 = true → Answered (Receipt.messages eibdSplitter log fd)
  refused : result.2 = false → Settled log fd

theorem Traced.awaitReply (h : Traced kept c log) (hfd : c.fd = some fd) (hunread : Unread c log)
    (script : HandshakeScript) :
    Handshaken kept fd (polledUpTo log c.sockets) (c.awaitReply script)
      (log ++ c.receipts script.reads (readMessageDeadline script.waits script.reads c.readBuffer)) := by
  have hspec := readMessageDeadline_spec script.waits script.reads c.readBuffer
  have hempty := (Receipt.unread eibdSplitter (hunread fd hfd)).2.1
  obtain ⟨isOpen, heq⟩ := awaitReply_eq c script
  obtain ⟨htraced, hmessages, hleftover, hpolled⟩ := h.receive hfd hspec isOpen
  rw [hempty, List.nil_append] at hmessages
  rw [heq]
  generalize readMessageDeadline script.waits script.reads c.readBuffer = reply at *
  generalize log ++ c.receipts script.reads reply = log' at *
  have hnothing : KnxdClient.polled log' fd = KnxdClient.polled log fd ++ [] := by
    rw [KnxdClient.polled, KnxdClient.polled, hmessages, hempty]
    cases reply.message <;> simp [groupMessages]
  refine ⟨htraced, hfd, (hpolled [] hnothing).trans (List.append_nil _), fun htrue => ?_, fun hfalse => ?_⟩
  · cases hmessage : reply.message with
    | none =>
        rw [hmessage] at htrue
        cases htrue
    | some message =>
        rw [hmessage] at hmessages htrue
        exact ⟨message, [], hmessages, htrue⟩
  · cases hmessage : reply.message with
    | none =>
        obtain ⟨consumed, -, hresult⟩ := hspec
        simp only [hmessage] at hresult
        exact settled_of_none htraced.chained (hleftover ▸ hresult.1)
    | some message =>
        rw [hmessage] at hmessages hfalse
        exact settled_of_refused htraced.chained hmessages hfalse

theorem Traced.write (h : Traced kept c log) (answers : List SysWrite) (frame : List UInt8) :
    Traced kept (c.write answers frame).1 log ∧ (c.write answers frame).1.fd = c.fd ∧
      (c.write answers frame).1.sockets = c.sockets := by
  unfold KnxdClient.write
  split
  · exact ⟨h, rfl, rfl⟩
  · exact ⟨h.of_fields rfl rfl rfl rfl, rfl, rfl⟩

theorem Traced.openGroupSocket (h : Traced kept c log) (hfd : c.fd = some fd) (hunread : Unread c log)
    (writeOnly : Bool) (script : HandshakeScript) :
    Handshaken kept fd (polledUpTo log c.sockets) (c.openGroupSocket writeOnly script)
      (log ++ c.openGroupSocketReceipts writeOnly script) := by
  have hwrite := Traced.write (c := { c with writeOnly := writeOnly }) (h.of_fields rfl rfl rfl rfl)
    script.writes (buildOpenGroupcon writeOnly)
  unfold KnxdClient.openGroupSocket openGroupSocketReceipts
  simp only [hfd, Option.isNone_some, Bool.false_eq_true, if_false] at hwrite ⊢
  generalize KnxdClient.write _ script.writes (buildOpenGroupcon writeOnly) = result at hwrite ⊢
  obtain ⟨c', ok⟩ := result
  obtain ⟨htraced, hfd', hsockets⟩ := hwrite
  cases ok with
  | false =>
      rw [List.append_nil]
      exact ⟨htraced, hfd', congrArg (polledUpTo log) hsockets, by simp, fun _ => settled_of_unread (hunread fd hfd)⟩
  | true =>
      have hunread' : Unread c' log := fun fd' hcurrent => hunread fd' (hfd.trans (hfd'.symm.trans hcurrent))
      have hshaken := htraced.awaitReply hfd' hunread' script
      rwa [show c'.sockets = c.sockets from hsockets] at hshaken

/-- A client that sets its connection up again, with nothing complete held of the old one, polls nothing. -/
theorem Served.reconnect (h : Served kept c log) (hnothing : CacheReader.HoldsNothing c)
    (script : HandshakeScript) :
    Served kept (c.reconnect script).1 (log ++ c.reconnectReceipts script) ∧
      polledUpTo (log ++ c.reconnectReceipts script) (c.reconnect script).1.sockets =
        polledUpTo log c.sockets := by
  unfold KnxdClient.reconnect reconnectReceipts
  split_ifs
  · rw [List.append_nil]
    exact ⟨h, rfl⟩
  · have hclosed := h.disconnect fun _ fd hfd => h.settled_of_holdsNothing hnothing hfd
    have hconnect := hclosed.connect rfl c.socketPath script.connect
    generalize c.disconnect.connect c.socketPath script.connect = result at hconnect ⊢
    obtain ⟨c', ok⟩ := result
    obtain ⟨htraced, hunread, hpolled, hopen, hfailed⟩ := hconnect
    cases ok with
    | false =>
        rw [List.append_nil]
        exact ⟨htraced.served (hfailed rfl h.path), hpolled⟩
    | true =>
        obtain ⟨fd, hfd⟩ := Option.isSome_iff_exists.mp (hopen rfl)
        have hshaken := htraced.openGroupSocket hfd hunread c'.writeOnly script
        simp only
        generalize c'.openGroupSocket c'.writeOnly script = result at hshaken ⊢
        obtain ⟨c'', ok⟩ := result
        obtain ⟨htraced', hfd', hpolled', hopened, hrefused⟩ := hshaken
        cases ok with
        | false =>
            refine ⟨htraced'.disconnect fun _ fd' hcurrent => ?_, hpolled'.trans hpolled⟩
            obtain rfl := Option.some.inj (hfd'.symm.trans hcurrent)
            exact hrefused rfl
        | true =>
            refine ⟨{ htraced' with answered := fun fd' hcurrent => ?_ }, hpolled'.trans hpolled⟩
            obtain rfl := Option.some.inj (hfd'.symm.trans hcurrent)
            exact hopened rfl

theorem Served.takeMessage (h : Served kept c log) (hfd : c.fd.isSome) (reads : List SysRead) :
    Served kept (c.takeMessage reads).1 (log ++ c.takeMessageReceipts reads) ∧
      polledUpTo (log ++ c.takeMessageReceipts reads) (c.takeMessage reads).1.sockets =
        polledUpTo log c.sockets ++ (c.takeMessage reads).2.toList := by
  obtain ⟨fd, hfd⟩ := Option.isSome_iff_exists.mp hfd
  obtain ⟨htraced, hmessages, -, hpolled⟩ :=
    h.receive hfd (readMessage_spec reads c.readBuffer) c.groupSocketOpen
  obtain ⟨hanswered, hgroup⟩ := (h.answered fd hfd).append (readMessage reads c.readBuffer).message.toList
  rw [← hmessages] at hanswered hgroup
  refine ⟨{ htraced with answered := fun fd' hcurrent => ?_ }, hpolled _ hgroup⟩
  obtain rfl := Option.some.inj (hfd.symm.trans hcurrent)
  exact hanswered

theorem Served.awaitMessage (h : Served kept c log) (hfd : c.fd.isSome) (script : PollScript) :
    Served kept (c.awaitMessage script).1 (log ++ c.awaitMessageReceipts script) ∧
      polledUpTo (log ++ c.awaitMessageReceipts script) (c.awaitMessage script).1.sockets =
        polledUpTo log c.sockets ++ (c.awaitMessage script).2.toList := by
  have htake := h.takeMessage hfd script.reads
  have hnone : (c.takeMessage script.reads).2 = none → CacheReader.HoldsNothing _ := takeMessage_none
  unfold KnxdClient.awaitMessage awaitMessageReceipts
  rw [← List.append_assoc]
  generalize c.takeMessage script.reads = result at htake hnone ⊢
  obtain ⟨c', message⟩ := result
  obtain ⟨hserved, hpolled⟩ := htake
  cases message with
  | some message =>
      rw [List.append_nil]
      exact ⟨hserved, hpolled⟩
  | none =>
      simp only at hpolled ⊢
      rw [Option.toList_none, List.append_nil] at hpolled
      split_ifs
      · have hreconnect := hserved.reconnect (hnone rfl) script.reopening
        have hopen : (c'.reconnect script.reopening).2 = true → _ := reconnect_true
        rw [← List.append_assoc, ← hpolled]
        generalize c'.reconnect script.reopening = result at hreconnect hopen ⊢
        obtain ⟨c'', ok⟩ := result
        obtain ⟨hserved', hpolled'⟩ := hreconnect
        cases ok with
        | true =>
            rw [← hpolled']
            exact hserved'.takeMessage (hopen rfl) script.retry
        | false =>
            rw [List.append_nil, Option.toList_none, List.append_nil]
            exact ⟨hserved', hpolled'⟩
      · rw [List.append_nil, Option.toList_none, List.append_nil]
        exact ⟨hserved, hpolled⟩

/-- **A poll takes the next message of the current connection's stream**, or sets up a new connection and takes
the first message after its handshake. -/
theorem Served.pollMessage (h : Served kept c log) (script : PollScript) :
    Served kept (c.pollMessage script).1 (log ++ c.pollMessageReceipts script) ∧
      polledUpTo (log ++ c.pollMessageReceipts script) (c.pollMessage script).1.sockets =
        polledUpTo log c.sockets ++ (c.pollMessage script).2.toList := by
  unfold KnxdClient.pollMessage pollMessageReceipts
  split_ifs with hfd
  · have hnothing : CacheReader.HoldsNothing c := by
      rw [CacheReader.HoldsNothing, h.empty (Option.isNone_iff_eq_none.mp hfd)]
      rfl
    have hreconnect := h.reconnect hnothing script.opening
    have hopen : (c.reconnect script.opening).2 = true → _ := reconnect_true
    rw [← List.append_assoc]
    generalize c.reconnect script.opening = result at hreconnect hopen ⊢
    obtain ⟨c', ok⟩ := result
    obtain ⟨hserved, hpolled⟩ := hreconnect
    rw [← hpolled]
    cases ok with
    | false =>
        rw [List.append_nil, Option.toList_none, List.append_nil]
        exact ⟨hserved, rfl⟩
    | true => exact hserved.awaitMessage (hopen rfl) script
  · exact h.awaitMessage (by simpa [Option.isSome_iff_ne_none] using hfd) script

end KnxdClient

/-! ### The loop -/

/-- The reading calls of an event of the loop. -/
def CacheReader.eventReceipts (options : CacheReaderOptions) (s : CacheReader) (script : ReaderScript) :
    List (Receipt UInt8) :=
  match s.pc with
  | .draining _ => s.client.pollMessageReceipts script.poll
  | .top =>
      if s.connected then []
      else
        match s.client.connect options.socketPath script.handshake.connect with
        | (_, false) => []
        | (c, true) => c.openGroupSocketReceipts false script.handshake

/-- A reader and the record of its reading calls. -/
structure WatchedReader where
  reader : CacheReader
  log : List (Receipt UInt8) := []

namespace WatchedReader

open KnxdClient

def start (options : CacheReaderOptions) : WatchedReader := { reader := .start options }

def next (options : CacheReaderOptions) (w : WatchedReader) (script : ReaderScript) : WatchedReader where
  reader := w.reader.next options script
  log := w.log ++ w.reader.eventReceipts options script

/-- The messages that the connections have brought since the record began, one connection after the other. -/
def brought (w : WatchedReader) : List (List UInt8) :=
  (List.range w.reader.client.sockets).flatMap fun fd => deliveredBy (Receipt.received w.log fd)

/-- The pushes are those from before the record began, and then those of the messages polled. -/
structure Delivered (kept : Prop) (before : List (UInt16 × List UInt8)) (w : WatchedReader) : Prop where
  served : Served kept w.reader.client w.log
  idle : w.reader.connected = false → w.reader.client.fd = none
  draining : ∀ pushed, w.reader.pc = .draining pushed → w.reader.connected = true
  journal : w.reader.journal.map Push.entry =
    before ++ (polledUpTo w.log w.reader.client.sockets).filterMap entryOf

variable {kept : Prop} {before : List (UInt16 × List UInt8)} {options : CacheReaderOptions} {w : WatchedReader}

theorem start_delivered : Delivered kept [] (start options) where
  served := ⟨⟨.nil, nofun, fun _ => rfl, nofun, fun _ _ _ => settled_of_unread nofun, (by decide : 0 < 108)⟩, nofun⟩
  idle _ := rfl
  draining := nofun
  journal := rfl

/-- A connection that is given up leaves the pushes as they are. -/
theorem Delivered.backOff {s : CacheReader} (hpc : s.pc = .top) {c : KnxdClient} {log : List (Receipt UInt8)}
    (htraced : Traced kept c log) (hsettled : kept → ∀ fd, c.fd = some fd → Settled log fd)
    (hjournal : s.journal.map Push.entry = before ++ (polledUpTo log c.sockets).filterMap entryOf) :
    Delivered kept before ⟨s.backOff options c, log⟩ where
  served := htraced.disconnect hsettled
  idle _ := rfl
  draining _ hdraining := nomatch hpc.symm.trans hdraining
  journal := hjournal

theorem Delivered.attemptConnect (h : Delivered kept before w) (hpc : w.reader.pc = .top)
    (hidle : w.reader.connected = false) (script : ReaderScript) : Delivered kept before (w.next options script) := by
  have hconnect := h.served.connect (h.idle hidle) options.socketPath script.handshake.connect
  have hjournal := h.journal
  simp only [WatchedReader.next, CacheReader.next, CacheReader.eventReceipts, CacheReader.attemptConnect, hpc,
    hidle, Bool.false_eq_true, if_false]
  generalize w.reader.client.connect options.socketPath script.handshake.connect = result at hconnect ⊢
  obtain ⟨c, ok⟩ := result
  obtain ⟨htraced, hunread, hpolled, hopen, -⟩ := hconnect
  rw [← hpolled] at hjournal
  cases ok with
  | false =>
      rw [List.append_nil]
      exact .backOff hpc htraced (fun _ fd hfd => settled_of_unread (hunread fd hfd)) hjournal
  | true =>
      obtain ⟨fd, hfd⟩ := Option.isSome_iff_exists.mp (hopen rfl)
      have hshaken := htraced.openGroupSocket hfd hunread false script.handshake
      simp only
      generalize c.openGroupSocket false script.handshake = result at hshaken ⊢
      obtain ⟨c', ok⟩ := result
      obtain ⟨htraced', hfd', hpolled', hopened, hrefused⟩ := hshaken
      simp only at hpolled'
      rw [← hpolled'] at hjournal
      cases ok with
      | false =>
          refine .backOff hpc htraced' (fun _ fd' hcurrent => ?_) hjournal
          obtain rfl := Option.some.inj (hfd'.symm.trans hcurrent)
          exact hrefused rfl
      | true =>
          refine ⟨{ htraced' with answered := fun fd' hcurrent => ?_ }, by simp, fun _ _ => rfl, hjournal⟩
          obtain rfl := Option.some.inj (hfd'.symm.trans hcurrent)
          exact hopened rfl

theorem Delivered.drain (h : Delivered kept before w) {pushed : Nat} (hpc : w.reader.pc = .draining pushed)
    (script : ReaderScript) : Delivered kept before (w.next options script) := by
  have hconnected := h.draining pushed hpc
  have hidle {c : KnxdClient} (hfalse : w.reader.connected = false) : c.fd = none := by
    rw [hconnected] at hfalse
    cases hfalse
  obtain ⟨hserved, hpolled⟩ := h.served.pollMessage script.poll
  have hjournal := h.journal
  simp only [WatchedReader.next, CacheReader.next, CacheReader.eventReceipts, CacheReader.drain,
    pollGroupTelegram, hpc]
  generalize w.log ++ w.reader.client.pollMessageReceipts script.poll = log at hserved hpolled ⊢
  generalize w.reader.client.pollMessage script.poll = result at hserved hpolled ⊢
  obtain ⟨c, message⟩ := result
  have hentries : before ++ (polledUpTo log c.sockets).filterMap entryOf =
      w.reader.journal.map Push.entry ++ message.toList.filterMap entryOf := by
    rw [hjournal, List.append_assoc, ← List.filterMap_append]
    exact congrArg (before ++ ·.filterMap entryOf) hpolled
  cases message with
  | none =>
      rw [Option.toList_none, List.filterMap_nil, List.append_nil] at hentries
      exact ⟨hserved, hidle, by simp, hentries.symm⟩
  | some message =>
      rw [Option.toList_some] at hentries
      cases htelegram : telegramOf message with
      | none =>
          have hentry : [message].filterMap entryOf = [] := by simp [entryOf, htelegram]
          rw [hentry, List.append_nil] at hentries
          simp only [htelegram]
          exact ⟨hserved, hidle, by simp, hentries.symm⟩
      | some telegram =>
          obtain ⟨addr, apdu⟩ := telegram
          have hserved' : Served kept { c with telegramCount := c.telegramCount + 1 } log :=
            { hserved.of_fields rfl rfl rfl rfl with answered := hserved.answered }
          cases hvalue : pushedValue apdu with
          | none =>
              have hentry : [message].filterMap entryOf = [] := by simp [entryOf, htelegram, hvalue]
              rw [hentry, List.append_nil] at hentries
              simp only [htelegram, hvalue]
              exact ⟨hserved', hidle, fun _ _ => hconnected, hentries.symm⟩
          | some value =>
              have hentry : [message].filterMap entryOf = [(addr, value)] := by simp [entryOf, htelegram, hvalue]
              rw [hentry] at hentries
              simp only [htelegram, hvalue]
              refine ⟨hserved', hidle, fun _ _ => hconnected, ?_⟩
              rw [List.map_append, List.map_singleton]
              exact hentries.symm

/-- A step of the loop. When it gives up a connection at a wait, what is held then is lost. -/
theorem Delivered.next (h : Delivered kept before w)
    (hheld : kept → w.reader.AtWait → CacheReader.HoldsNothing w.reader.client) (script : ReaderScript) :
    Delivered kept before (w.next options script) := by
  cases hpc : w.reader.pc with
  | draining pushed => exact h.drain hpc script
  | top =>
      by_cases hconnected : w.reader.connected = true
      · have hlog : (w.next options script).log = w.log := by
          simp only [WatchedReader.next, CacheReader.eventReceipts, hpc, hconnected, if_true, List.append_nil]
        have hreader : (w.next options script).reader = w.reader.next options script := rfl
        simp only [CacheReader.next, hpc, hconnected, if_true] at hreader
        generalize w.next options script = w' at hlog hreader ⊢
        obtain ⟨reader, log⟩ := w'
        obtain rfl : log = w.log := hlog
        obtain rfl := hreader
        cases w.reader.client.waitForActivity script.activity with
        | groupData => exact ⟨h.served, by simp, fun _ _ => rfl, h.journal⟩
        | timeout => exact h
        | error =>
            refine .backOff hpc h.served.toTraced (fun hkept fd hfd => ?_) h.journal
            exact h.served.settled_of_holdsNothing (hheld hkept ⟨hpc, hconnected⟩) hfd
      · exact h.attemptConnect hpc (by simpa using hconnected) script

/-- Whatever happens, the pushes are those of the messages polled. -/
theorem run_delivered (options : CacheReaderOptions) (scripts : List ReaderScript) :
    Delivered False [] (run (next options) (start options) scripts) :=
  run_invariant (Delivered False []) (fun _ script h => h.next nofun script) scripts start_delivered

/-- The loop, with the record left out. -/
theorem run_reader (options : CacheReaderOptions) (scripts : List ReaderScript) :
    (run (next options) (start options) scripts).reader = run (CacheReader.next options) (.start options) scripts :=
  run_map reader (fun _ _ => rfl) scripts

/-- **The pushes follow the streams.** In every run, whatever the kernel answers, the pushes are those of the
messages polled, one connection after the other in the order in which they were made. What was polled from a
connection is the beginning of what it brought after the reply that opened its group socket, so nothing is
skipped, pushed twice or taken from another stream; of the current connection, the rest is what the buffer
holds. -/
theorem pushes_follow_streams (options : CacheReaderOptions) (scripts : List ReaderScript) :
    ∃ polled : Nat → List (List UInt8),
      (run (CacheReader.next options) (.start options) scripts).journal.map Push.entry =
        (List.range (run (CacheReader.next options) (.start options) scripts).client.sockets).flatMap
          (fun fd => (polled fd).filterMap entryOf) ∧
      (∀ fd, polled fd <+: deliveredBy (Receipt.received (run (next options) (start options) scripts).log fd)) ∧
      ∀ fd, (run (CacheReader.next options) (.start options) scripts).client.fd = some fd →
        deliveredBy (Receipt.received (run (next options) (start options) scripts).log fd) =
          polled fd ++ (eibdSplitter.frames
            (run (CacheReader.next options) (.start options) scripts).client.readBuffer).1 := by
  have h := run_delivered options scripts
  rw [← run_reader]
  generalize run (next options) (start options) scripts = w at h ⊢
  have hchained := h.served.chained
  refine ⟨polled w.log, ?_, fun fd => ?_, fun fd hfd => ?_⟩
  · rw [h.journal, List.nil_append, polledUpTo, List.filterMap_flatMap]
  · rw [deliveredBy_received hchained]
    exact groupMessages_prefix _ _
  · rw [deliveredBy_received hchained, ← (h.served.current fd hfd).2]
    exact ((h.served.answered fd hfd).append _).2

/-- A run that leaves nothing complete behind, from a loop and a record that go together on. -/
theorem run_kept {scripts : List ReaderScript} (hinv : w.reader.Inv) (h : Delivered True before w)
    (halone : Along (CacheReader.next options) (CacheReader.Alone options) w.reader scripts) :
    (run (next options) w scripts).reader.Inv ∧ Delivered True before (run (next options) w scripts) :=
  run_invariant_along (fun w => w.reader.Inv ∧ Delivered True before w)
    (fun _ script halone h => ⟨h.1.next halone, h.2.next (fun _ => h.1.waiting) script⟩)
    (along_map (fun _ _ => rfl) halone) ⟨hinv, h⟩

/-- At the head of a loop that leaves nothing complete behind, all that was brought has been pushed. -/
theorem Delivered.journal_eq (h : Delivered True before w) (hinv : w.reader.Inv) (hpc : w.reader.pc = .top) :
    w.reader.journal.map Push.entry = before ++ w.brought.filterMap entryOf := by
  have hsettled (fd : Nat) : Settled w.log fd := by
    by_cases hfd : w.reader.client.fd = some fd
    · have hconnected : w.reader.connected = true := by
        by_contra hidle
        exact nomatch (h.idle (by simpa using hidle)).symm.trans hfd
      exact h.served.settled_of_holdsNothing (hinv.waiting ⟨hpc, hconnected⟩) hfd
    · exact h.served.lost trivial fd hfd
  have hbrought : polledUpTo w.log w.reader.client.sockets = w.brought :=
    List.flatMap_congr fun fd _ => hsettled fd
  rw [h.journal, hbrought]

/-- **Nothing is lost, when nothing complete is left behind.** In every run in which the reply to each handshake
comes without a further complete message, and no message that is not a telegram is followed by another complete
one in what was received with it, the pushes whenever the loop is at its head are exactly those of all the
messages that its connections have brought. -/
theorem pushes_complete (options : CacheReaderOptions) (scripts : List ReaderScript)
    (halone : Along (CacheReader.next options) (CacheReader.Alone options) (.start options) scripts)
    (hpc : (run (CacheReader.next options) (.start options) scripts).pc = .top) :
    (run (CacheReader.next options) (.start options) scripts).journal.map Push.entry =
      (List.range (run (CacheReader.next options) (.start options) scripts).client.sockets).flatMap fun fd =>
        (deliveredBy (Receipt.received (run (next options) (start options) scripts).log fd)).filterMap entryOf := by
  obtain ⟨hinv, h⟩ := run_kept (w := start options) CacheReader.start_inv start_delivered halone
  rw [← run_reader] at hpc ⊢
  rw [h.journal_eq hinv hpc, List.nil_append, brought, List.filterMap_flatMap]

/-- The hypotheses are met, and the telegram is pushed. -/
theorem pushes_complete_oneTelegram :
    [((0x0001 : UInt16), [(0x01 : UInt8)])] =
      (List.range (run (CacheReader.next {}) (.start {}) CacheReader.oneTelegram).client.sockets).flatMap fun fd =>
        (deliveredBy (Receipt.received (run (next {}) (start {}) CacheReader.oneTelegram).log fd)).filterMap entryOf :=
  (by decide : _ = (run (CacheReader.next {}) (.start {}) CacheReader.oneTelegram).journal.map Push.entry).trans
    (pushes_complete {} CacheReader.oneTelegram CacheReader.oneTelegram_alone (by decide))

end WatchedReader
end KnxdFcgi
