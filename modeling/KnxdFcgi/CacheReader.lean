import KnxdFcgi.CacheJournal
import KnxdFcgi.KnxdClient
import KnxdFcgi.Machine

/-! `run_cache_reader` over a `KnxdClient`. One event is one pass of the loop up to the next place where
it asks the kernel: a connection attempt, a wait, or one `poll_group_telegram` of `drain_telegrams`. The
loop waits on the socket alone, so it must not hold a complete message in its own buffer then. It can: the
read that brings the reply to the handshake may bring telegrams too, and draining stops at the first
message that is no telegram, whatever follows it. -/

namespace KnxdFcgi

open Machine

/-- The APCI bits of an APDU; `other` is the value that the enumeration of the source does not name. -/
inductive ApduType where
  | read | response | write | other
  deriving DecidableEq

def ApduType.ofByte (b : UInt8) : ApduType :=
  if b &&& 0xC0 = 0x00 then .read
  else if b &&& 0xC0 = 0x40 then .response
  else if b &&& 0xC0 = 0x80 then .write
  else .other

def parseApdu : List UInt8 → Option (ApduType × List UInt8)
  | _ :: b1 :: rest =>
      match ApduType.ofByte b1 with
      | .response => some (.response, if rest = [] then [b1 &&& 0x3F] else rest)
      | .write => some (.write, if rest = [] then [b1 &&& 0x3F] else rest)
      | type => some (type, [])
  | _ => none

/-- The value that `drain_telegrams` pushes for an APDU, if any. -/
def pushedValue (apdu : List UInt8) : Option (List UInt8) :=
  match parseApdu apdu with
  | none => none
  | some (type, value) => if type = .read then none else some value

structure CacheReaderOptions where
  socketPath : String := "/run/knx"
  reconnectBackoffMs : Int32 := 500
  maxReconnectBackoffMs : Int32 := 30000

namespace CacheReaderOptions

def initialBackoffMs (options : CacheReaderOptions) : Int32 := max 1 options.reconnectBackoffMs

def maxBackoffMs (options : CacheReaderOptions) : Int32 :=
  max options.initialBackoffMs options.maxReconnectBackoffMs

end CacheReaderOptions

/-- The kernel's answer to the `poll` of `wait_for_activity`: an error, `EINTR`, a timeout, or events. -/
inductive SysPoll where
  | failed
  | interrupted
  | nothing
  | ready (readable hangup : Bool)

inductive WaitResult where
  | groupData | timeout | error
  deriving DecidableEq

def KnxdClient.waitForActivity (c : KnxdClient) (answer : SysPoll) : WaitResult :=
  if c.fd.isNone then .error
  else
    match answer with
    | .failed => .error
    | .interrupted | .nothing => .timeout
    | .ready readable hangup => if hangup then .error else if readable then .groupData else .timeout

/-- Where the loop is: before its stop test, or in `drain_telegrams` with a number of values pushed. -/
inductive ReaderPc where
  | top
  | draining (pushed : Nat)
  deriving DecidableEq

/-- `journal` are the pushes made into the cache, `sleeps` the backoff sleeps requested. -/
structure CacheReader where
  pc : ReaderPc := .top
  client : KnxdClient := {}
  connected : Bool := false
  backoffMs : Int32
  journal : List Push := []
  sleeps : List Int32 := []

/-- What the kernel and the clock answer during one event. -/
structure ReaderScript where
  handshake : HandshakeScript := {}
  activity : SysPoll := .nothing
  poll : KnxdClient.PollScript := {}
  time : UInt32 := 0

namespace CacheReader

def start (options : CacheReaderOptions) : CacheReader := { backoffMs := options.initialBackoffMs }

/-- The connection is given up, and the loop sleeps before the next attempt. -/
def backOff (options : CacheReaderOptions) (s : CacheReader) (c : KnxdClient) : CacheReader :=
  { s with
    client := c.disconnect
    connected := false
    sleeps := s.sleeps ++ [s.backoffMs]
    backoffMs := min (s.backoffMs * 2) options.maxBackoffMs }

/-- The connection attempt at the head of the loop. -/
def attemptConnect (options : CacheReaderOptions) (s : CacheReader) (script : HandshakeScript) :
    CacheReader :=
  match s.client.connect options.socketPath script.connect with
  | (c, false) => s.backOff options c
  | (c, true) =>
      match c.openGroupSocket false script with
      | (c, false) => s.backOff options c
      | (c, true) => { s with client := c, connected := true, backoffMs := options.initialBackoffMs }

/-- One turn of the loop of `drain_telegrams`. -/
def drain (options : CacheReaderOptions) (s : CacheReader) (pushed : Nat) (script : ReaderScript) :
    CacheReader :=
  match s.client.pollGroupTelegram script.poll with
  | (c, none) =>
      { s with
        pc := .top
        client := c
        backoffMs := if 0 < pushed then options.initialBackoffMs else s.backoffMs }
  | (c, some (addr, apdu)) =>
      match pushedValue apdu with
      | none => { s with client := c }
      | some value =>
          { s with
            pc := .draining (pushed + 1)
            client := c
            journal := s.journal ++ [⟨addr, value, script.time⟩] }

def next (options : CacheReaderOptions) (s : CacheReader) (script : ReaderScript) : CacheReader :=
  match s.pc with
  | .draining pushed => s.drain options pushed script
  | .top =>
      if s.connected then
        match s.client.waitForActivity script.activity with
        | .groupData => { s with pc := .draining 0 }
        | .timeout => s
        | .error => s.backOff options s.client
      else s.attemptConnect options script.handshake

/-- The loop is about to call `wait_for_activity`. -/
def AtWait (s : CacheReader) : Prop := s.pc = .top ∧ s.connected = true

/-- The buffer has no complete message. -/
def HoldsNothing (c : KnxdClient) : Prop := tryExtractMessage c.readBuffer = none

/-- Of the bytes of a handshake, the reply is the only complete message. -/
def ReplyAlone (bytes : List UInt8) : Prop :=
  ∀ reply rest, tryExtractMessage bytes = some (reply, rest) → tryExtractMessage rest = none

/-- If the bytes begin with a message that is no telegram, it is the only complete one. -/
def StopsLast (bytes : List UInt8) : Prop :=
  ∀ message rest, tryExtractMessage bytes = some (message, rest) → KnxdClient.telegramOf message = none →
    tryExtractMessage rest = none

end CacheReader

namespace KnxdClient

/-- The bytes that a handshake on a new connection takes. -/
def replyBytes (script : HandshakeScript) : List UInt8 :=
  bytesTaken script.reads (readMessageDeadline script.waits script.reads [])

/-- The bytes of which `read_message` has its message: those that it holds and those that it takes. -/
def bytesInHand (c : KnxdClient) (reads : List SysRead) : List UInt8 :=
  c.readBuffer ++ bytesTaken reads (readMessage reads c.readBuffer)

/-- The part of `poll_group_telegram` that reads once more on a new connection is reached, with this client. -/
def ReadsAgain (c : KnxdClient) (script : PollScript) (c' : KnxdClient) : Prop :=
  (c.takeMessage script.reads).2 = none ∧ script.hangup = true ∧
    (c.takeMessage script.reads).1.reconnect script.reopening = (c', true)

end KnxdClient

namespace CacheReader

/-- What knxd sends does not leave a complete message behind: the reply to a handshake that succeeds comes without
a further one, and so does a message that is no telegram, in what is held and read when it is taken. When the
connection is lost in between, the same is asked of what the next one brings after the reply. -/
def Alone (options : CacheReaderOptions) (s : CacheReader) (script : ReaderScript) : Prop :=
  match s.pc with
  | .top =>
      s.connected = false → (s.attemptConnect options script.handshake).connected = true →
        ReplyAlone (KnxdClient.replyBytes script.handshake)
  | .draining _ =>
      StopsLast (s.client.bytesInHand script.poll.reads) ∧
        ∀ c, s.client.ReadsAgain script.poll c → StopsLast (c.bytesInHand script.poll.retry)

end CacheReader

namespace KnxdClient

theorem connect_readBuffer {c : KnxdClient} (hfd : c.fd = none) (path : String) (answer : ConnectAnswer) :
    (c.connect path answer).1.readBuffer = c.readBuffer := by
  simp only [connect, hfd, Option.isSome_none, Bool.false_eq_true, if_false]
  split_ifs <;> rfl

/-- A handshake that succeeds has taken the reply out of what it read. -/
def RepliedFrom (script : HandshakeScript) (before after : List UInt8) : Prop :=
  ∃ reply, tryExtractMessage
    (before ++ bytesTaken script.reads (readMessageDeadline script.waits script.reads before)) = some (reply, after)

theorem awaitReply_true {c : KnxdClient} {script : HandshakeScript} (h : (c.awaitReply script).2 = true) :
    (c.awaitReply script).1.fd = c.fd ∧ RepliedFrom script c.readBuffer (c.awaitReply script).1.readBuffer := by
  have hresult := (readMessageDeadline_spec script.waits script.reads c.readBuffer).taken
  cases hmessage : (readMessageDeadline script.waits script.reads c.readBuffer).message with
  | none => simp only [awaitReply, hmessage, Bool.false_eq_true] at h
  | some message =>
      simp only [hmessage] at hresult
      simp only [awaitReply, hmessage]
      split <;> exact ⟨rfl, message, hresult⟩

theorem openGroupSocket_true {c : KnxdClient} {writeOnly : Bool} {script : HandshakeScript}
    (h : (c.openGroupSocket writeOnly script).2 = true) :
    (c.openGroupSocket writeOnly script).1.fd.isSome ∧
      RepliedFrom script c.readBuffer (c.openGroupSocket writeOnly script).1.readBuffer := by
  cases hfd : c.fd with
  | none => simp [openGroupSocket, hfd] at h
  | some fd =>
      simp only [openGroupSocket, write, hfd, Option.isNone_some, Bool.false_eq_true, if_false] at h ⊢
      cases hwrite : (writeAll script.writes (buildOpenGroupcon writeOnly).length).2 with
      | false => simp only [hwrite, Bool.false_eq_true] at h
      | true =>
          simp only [hwrite] at h ⊢
          obtain ⟨hsame, hreply⟩ := awaitReply_true h
          exact ⟨hsame ▸ rfl, hreply⟩

theorem reconnect_true {c : KnxdClient} {script : HandshakeScript} (h : (c.reconnect script).2 = true) :
    (c.reconnect script).1.fd.isSome := by
  unfold reconnect at h ⊢
  split_ifs at h ⊢
  generalize c.disconnect.connect c.socketPath script.connect = result at h ⊢
  obtain ⟨c', ok⟩ := result
  cases ok with
  | false => cases h
  | true =>
      have hopen : (c'.openGroupSocket c'.writeOnly script).2 = true → _ := openGroupSocket_true
      simp only at h ⊢
      generalize c'.openGroupSocket c'.writeOnly script = result at h hopen ⊢
      obtain ⟨c'', ok⟩ := result
      cases ok with
      | false => cases h
      | true => exact (hopen rfl).1

/-- A reconnection that fails leaves an empty buffer, or the client as it was. -/
theorem reconnect_false {c : KnxdClient} (hbuffer : CacheReader.HoldsNothing c) {script : HandshakeScript}
    (h : (c.reconnect script).2 = false) : CacheReader.HoldsNothing (c.reconnect script).1 := by
  unfold reconnect at h ⊢
  split_ifs at h ⊢
  · exact hbuffer
  · have hconnect := connect_readBuffer (c := c.disconnect) rfl c.socketPath script.connect
    generalize c.disconnect.connect c.socketPath script.connect = result at h hconnect ⊢
    obtain ⟨c', ok⟩ := result
    cases ok with
    | false =>
        have hempty : c'.readBuffer = [] := hconnect
        rw [CacheReader.HoldsNothing, hempty]
        rfl
    | true =>
        simp only at h ⊢
        generalize c'.openGroupSocket c'.writeOnly script = result at h ⊢
        obtain ⟨c'', ok⟩ := result
        cases ok with
        | false => rfl
        | true => cases h

/-- `read_message` returns nothing only when the buffer has no complete message. -/
theorem takeMessage_none {c : KnxdClient} {reads : List SysRead} (h : (c.takeMessage reads).2 = none) :
    CacheReader.HoldsNothing (c.takeMessage reads).1 := by
  have hresult := (readMessage_spec reads c.readBuffer).taken
  have hnone : (readMessage reads c.readBuffer).message = none := h
  rw [hnone] at hresult
  exact hresult.1

/-- A message that `read_message` returns and that is no telegram leaves no complete one behind. -/
theorem takeMessage_some {c : KnxdClient} {reads : List SysRead} {message : List UInt8}
    (h : (c.takeMessage reads).2 = some message) (hlast : CacheReader.StopsLast (c.bytesInHand reads))
    (hnot : telegramOf message = none) : CacheReader.HoldsNothing (c.takeMessage reads).1 := by
  have hresult := (readMessage_spec reads c.readBuffer).taken
  have hmessage : (readMessage reads c.readBuffer).message = some message := h
  rw [hmessage] at hresult
  exact hlast message _ hresult hnot

/-- A poll on a connection ends without a complete message in the buffer, or with a message and on a
connection. -/
theorem awaitMessage_spec {c : KnxdClient} (hfd : c.fd.isSome) {script : PollScript}
    (hlast : CacheReader.StopsLast (c.bytesInHand script.reads))
    (hlast' : ∀ c', c.ReadsAgain script c' → CacheReader.StopsLast (c'.bytesInHand script.retry)) :
    ((c.awaitMessage script).2 = none → CacheReader.HoldsNothing (c.awaitMessage script).1) ∧
      ∀ message, (c.awaitMessage script).2 = some message → (c.awaitMessage script).1.fd.isSome ∧
        (telegramOf message = none → CacheReader.HoldsNothing (c.awaitMessage script).1) := by
  have hnone : (c.takeMessage script.reads).2 = none → CacheReader.HoldsNothing _ := takeMessage_none
  have hsome : ∀ message, (c.takeMessage script.reads).2 = some message → telegramOf message = none →
      CacheReader.HoldsNothing _ := fun _ h => takeMessage_some h hlast
  have hsame : (c.takeMessage script.reads).1.fd.isSome := hfd
  unfold ReadsAgain at hlast'
  unfold awaitMessage
  generalize c.takeMessage script.reads = result at hnone hsome hsame hlast' ⊢
  obtain ⟨c', message⟩ := result
  cases message with
  | some message =>
      refine ⟨nofun, fun message' heq => ⟨hsame, ?_⟩⟩
      cases heq
      exact hsome message rfl
  | none =>
      simp only
      split_ifs with hhangup
      · have hfalse : (c'.reconnect script.reopening).2 = false → CacheReader.HoldsNothing _ :=
          reconnect_false (hnone rfl)
        have htrue : (c'.reconnect script.reopening).2 = true → _ := reconnect_true
        have hagain : ∀ c'', c'.reconnect script.reopening = (c'', true) →
            CacheReader.StopsLast (c''.bytesInHand script.retry) := fun c'' heq => hlast' c'' ⟨rfl, hhangup, heq⟩
        generalize c'.reconnect script.reopening = result at hfalse htrue hagain ⊢
        obtain ⟨c'', ok⟩ := result
        cases ok with
        | true =>
            exact ⟨takeMessage_none, fun message h => ⟨htrue rfl, takeMessage_some h (hagain c'' rfl)⟩⟩
        | false => exact ⟨fun _ => hfalse rfl, nofun⟩
      · exact ⟨fun _ => hnone rfl, nofun⟩

end KnxdClient

/-! ### The invariant of the loop -/

namespace CacheReader

/-- Nothing is held at a wait; a loop that is not connected starts afresh; draining happens on a
connection. -/
structure Inv (s : CacheReader) : Prop where
  waiting : s.AtWait → HoldsNothing s.client
  idle : s.connected = false → s.client.fd = none ∧ s.client.readBuffer = []
  draining : ∀ pushed, s.pc = .draining pushed → s.client.fd.isSome ∧ s.connected = true

variable {options : CacheReaderOptions} {s : CacheReader}

theorem start_inv : Inv (start options) := ⟨nofun, fun _ => ⟨rfl, rfl⟩, nofun⟩

theorem backOff_inv (hpc : s.pc = .top) (c : KnxdClient) : Inv (s.backOff options c) :=
  ⟨fun h => absurd h.2 Bool.false_ne_true, fun _ => ⟨rfl, rfl⟩, fun _ h => nomatch hpc.symm.trans h⟩

theorem Inv.attemptConnect (h : s.Inv) (hpc : s.pc = .top) (hidle : s.connected = false)
    {script : HandshakeScript}
    (halone : (s.attemptConnect options script).connected = true → ReplyAlone (KnxdClient.replyBytes script)) :
    Inv (s.attemptConnect options script) := by
  obtain ⟨hfd, hempty⟩ := h.idle hidle
  have hbuffer := KnxdClient.connect_readBuffer hfd options.socketPath script.connect
  rw [hempty] at hbuffer
  unfold CacheReader.attemptConnect at halone ⊢
  generalize s.client.connect options.socketPath script.connect = result at hbuffer halone ⊢
  obtain ⟨c, ok⟩ := result
  cases ok with
  | false => exact backOff_inv hpc c
  | true =>
      have hopen : (c.openGroupSocket false script).2 = true → _ := KnxdClient.openGroupSocket_true
      simp only at halone ⊢
      generalize c.openGroupSocket false script = result at hopen halone ⊢
      obtain ⟨c', ok⟩ := result
      cases ok with
      | false => exact backOff_inv hpc c'
      | true =>
          obtain ⟨-, reply, hreply⟩ := hopen rfl
          rw [show c.readBuffer = [] from hbuffer, List.nil_append] at hreply
          exact ⟨fun _ => halone rfl reply _ hreply, nofun, fun _ hd => nomatch hpc.symm.trans hd⟩

theorem Inv.drain (h : s.Inv) {pushed : Nat} (hpc : s.pc = .draining pushed) {script : ReaderScript}
    (halone : s.Alone options script) : Inv (s.drain options pushed script) := by
  obtain ⟨hfd, hconnected⟩ := h.draining pushed hpc
  have hidle : s.connected ≠ false := by simp [hconnected]
  have htop : s.pc ≠ .top := by simp [hpc]
  have hpoll : s.client.pollMessage script.poll = s.client.awaitMessage script.poll := by
    rw [KnxdClient.pollMessage, if_neg (by simp [Option.isSome_iff_ne_none.mp hfd])]
  rw [Alone, hpc] at halone
  obtain ⟨hnone, hsome⟩ := KnxdClient.awaitMessage_spec hfd halone.1 halone.2
  rw [CacheReader.drain, KnxdClient.pollGroupTelegram, hpoll]
  generalize s.client.awaitMessage script.poll = result at hnone hsome ⊢
  obtain ⟨c, message⟩ := result
  cases message with
  | none => exact ⟨fun _ => hnone rfl, fun h => absurd h hidle, nofun⟩
  | some message =>
      obtain ⟨hopen, hlast⟩ := hsome message rfl
      simp only
      cases htelegram : KnxdClient.telegramOf message with
      | none => exact ⟨fun _ => hlast htelegram, fun h => absurd h hidle, nofun⟩
      | some telegram =>
          simp only
          split
          · exact ⟨fun hwait => absurd hwait.1 htop, fun h => absurd h hidle,
              fun _ _ => ⟨hopen, hconnected⟩⟩
          · exact ⟨fun hwait => absurd hwait.1 nofun, fun h => absurd h hidle,
              fun _ _ => ⟨hopen, hconnected⟩⟩

theorem Inv.next (h : s.Inv) {script : ReaderScript} (halone : s.Alone options script) :
    Inv (s.next options script) := by
  unfold CacheReader.next
  cases hpc : s.pc with
  | draining pushed => exact h.drain hpc halone
  | top =>
      rw [Alone, hpc] at halone
      simp only
      split_ifs with hconnected
      · cases hwait : s.client.waitForActivity script.activity with
        | groupData =>
            refine ⟨fun hat => absurd hat.1 nofun, h.idle, fun _ _ => ⟨?_, hconnected⟩⟩
            cases hfd : s.client.fd with
            | none =>
                simp only [KnxdClient.waitForActivity, hfd, Option.isNone_none, if_true] at hwait
                cases hwait
            | some fd => rfl
        | timeout => exact h
        | error => exact backOff_inv hpc s.client
      · have hidle : s.connected = false := by simpa using hconnected
        exact h.attemptConnect hpc hidle (halone hidle)

/-- **When the loop never waits on telegrams it holds.** In every run in which the reply to each handshake
comes without a further complete message, and no message that is not a telegram is followed by another
complete one in what was received with it, the buffer has no complete message whenever the loop waits. -/
theorem atWait_holdsNothing (options : CacheReaderOptions) (scripts : List ReaderScript)
    (halone : Along (next options) (Alone options) (start options) scripts)
    (hwait : (run (next options) (start options) scripts).AtWait) :
    tryExtractMessage (run (next options) (start options) scripts).client.readBuffer = none :=
  (run_invariant_along Inv (fun _ _ halone h => h.next halone) halone start_inv).waiting hwait

/-- The reply to the handshake, alone in its read or with more bytes after it. -/
def replyWith (more : List UInt8)
    (h : (buildEibdMessage EibMessageType.openGroupcon [] ++ more).length ≤ 4096) : ReaderScript where
  handshake :=
    { connect := .established
      writes := [.wrote 7]
      waits := [.ready]
      reads := [.data
        ⟨buildEibdMessage EibMessageType.openGroupcon [] ++ more, by simp [buildEibdMessage], h⟩] }

/-- A telegram of address 0/0/1. -/
def telegram : List UInt8 := buildEibdMessage EibMessageType.apduPacket [0x11, 0x01, 0x00, 0x01, 0x00, 0x81]

theorem replyWith_nil_alone : ReplyAlone (KnxdClient.replyBytes (replyWith [] (by decide)).handshake) := by
  intro reply rest hextract
  have hreply : tryExtractMessage (KnxdClient.replyBytes (replyWith [] (by decide)).handshake) =
      some (buildEibdMessage EibMessageType.openGroupcon [], []) := by decide
  obtain ⟨-, rfl⟩ := Prod.mk.inj (Option.some.inj (hreply.symm.trans hextract))
  rfl

theorem stopsLast_of_none {bytes : List UInt8} (h : tryExtractMessage bytes = none) : StopsLast bytes := by
  intro message rest hextract
  cases h.symm.trans hextract

theorem stopsLast_of_telegram {bytes message rest : List UInt8} (h : tryExtractMessage bytes = some (message, rest))
    (htelegram : KnxdClient.telegramOf message ≠ none) : StopsLast bytes := by
  intro message' rest' hextract hnone
  obtain ⟨rfl, -⟩ := Prod.mk.inj (Option.some.inj (h.symm.trans hextract))
  exact absurd hnone htelegram

/-- A poll that does not set the connection up again. -/
theorem alone_of_draining {pushed : Nat} (hpc : s.pc = .draining pushed) {script : ReaderScript}
    (hhangup : script.poll.hangup = false) (hlast : StopsLast (s.client.bytesInHand script.poll.reads)) :
    s.Alone options script := by
  rw [Alone, hpc]
  refine ⟨hlast, fun c hagain => ?_⟩
  cases hhangup.symm.trans hagain.2.1

/-- Connecting, then a telegram that is taken: the events of two turns of the loop. -/
def connectAndTake : List (List ReaderScript) :=
  [[replyWith [] (by decide)],
    [{ activity := .ready true false },
      { poll := { reads := [.data ⟨telegram, by decide, by decide⟩] } }, {}]]

def oneTelegram : List ReaderScript := connectAndTake.flatten

theorem oneTelegram_alone : Along (next {}) (Alone {}) (start {}) oneTelegram := by
  have hextract : tryExtractMessage ([] ++ bytesOf [.data ⟨telegram, by decide, by decide⟩]) = some (telegram, []) := by
    decide
  exact ⟨fun _ _ => replyWith_nil_alone, fun hidle => (by cases hidle),
    alone_of_draining rfl rfl (stopsLast_of_telegram hextract (by decide)),
    alone_of_draining rfl rfl (stopsLast_of_none (by decide)), trivial⟩

/-- The hypotheses are met by a telegram that comes after the reply and is pushed. -/
theorem atWait_holdsNothing_oneTelegram :
    (run (next {}) (start {}) oneTelegram).journal = [⟨0x0001, [0x01], 0⟩] ∧
      tryExtractMessage (run (next {}) (start {}) oneTelegram).client.readBuffer = none :=
  ⟨by decide, atWait_holdsNothing {} oneTelegram oneTelegram_alone ⟨by decide, by decide⟩⟩

/-- A telegram that comes with the reply is held while the loop waits. -/
theorem replyWith_telegram_held :
    (run (next {}) (start {}) [replyWith telegram (by decide)]).AtWait ∧
      tryExtractMessage (run (next {}) (start {}) [replyWith telegram (by decide)]).client.readBuffer =
        some (telegram, []) :=
  ⟨⟨by decide, by decide⟩, by decide⟩

end CacheReader
end KnxdFcgi
