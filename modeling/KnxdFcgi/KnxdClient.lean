import KnxdFcgi.KnxdRead

/-! `KnxdClient`: connecting, the group socket handshake, sending and polling. What the kernel answers in
one call is the call's script; a script that has run out answers like a socket that is never ready.
Connections are numbered in the order in which their sockets were created, and the client carries the
record of every attempt to write a frame on them. -/

namespace KnxdFcgi

open Framing

/-- `sizeof(sockaddr_un::sun_path)`. -/
def sunPathSize : Nat := 108

/-- The kernel's answer to a `write`: the bytes it took (at most those offered), `EINTR`, `EAGAIN` with
the outcome of the `poll` that follows, or another error. -/
inductive SysWrite where
  | wrote (n : Nat)
  | interrupted
  | blocked (ready : Bool)
  | failed

/-- `write_all` for `len` bytes: how many of them were written, and what it returns. -/
def writeAll : List SysWrite → Nat → Nat × Bool
  | _, 0 => (0, true)
  | [], _ + 1 => (0, false)
  | .wrote n :: answers, len + 1 =>
      let written := min n (len + 1)
      let rest := writeAll answers (len + 1 - written)
      (written + rest.1, rest.2)
  | .interrupted :: answers, len + 1 => writeAll answers (len + 1)
  | .blocked ready :: answers, len + 1 => if ready then writeAll answers (len + 1) else (0, false)
  | .failed :: _, _ + 1 => (0, false)

/-- The exits of `connect`, but for the check of the path: `socket` fails; `connect` fails at once; it is
in progress and `poll` times out or fails; it is in progress and `getsockopt` fails or reports an error;
the connection stands. -/
inductive ConnectAnswer where
  | noSocket | refused | unanswered | soError | established
  deriving DecidableEq

/-- What the kernel answers while a connection is set up. -/
structure HandshakeScript where
  connect : ConnectAnswer := .refused
  writes : List SysWrite := []
  waits : List DeadlineWait := []
  reads : List SysRead := []

/-- `fd` is the number of the connection; `sockets` counts the sockets created, `openFds` are those not
closed, and `attempts` are the frames written or begun. -/
structure KnxdClient where
  fd : Option Nat := none
  groupSocketOpen : Bool := false
  socketPath : String := ""
  writeOnly : Bool := false
  readBuffer : List UInt8 := []
  telegramCount : UInt64 := 0
  sockets : Nat := 0
  openFds : List Nat := []
  attempts : List (Attempt UInt8) := []

namespace KnxdClient

/-- `::close(fd); fd = -1` where there is a descriptor. -/
def closeFd (c : KnxdClient) : KnxdClient :=
  { c with
    fd := none
    openFds := match c.fd with
      | none => c.openFds
      | some fd => c.openFds.erase fd }

def disconnect (c : KnxdClient) : KnxdClient :=
  { c.closeFd with groupSocketOpen := false, readBuffer := [] }

def connect (c : KnxdClient) (socketPath : String) (answer : ConnectAnswer) : KnxdClient × Bool :=
  let c := if c.fd.isSome then c.disconnect else c
  if answer = .noSocket then ({ c with fd := none }, false)
  else
    let c := { c with fd := some c.sockets, sockets := c.sockets + 1, openFds := c.sockets :: c.openFds }
    -- this exit leaves the descriptor open
    if sunPathSize ≤ socketPath.utf8ByteSize then (c, false)
    else
      let c := { c with socketPath := socketPath }
      if answer = .established then (c, true) else (c.closeFd, false)

/-- `write_all` of a frame on the current connection; without one `write` fails. -/
def write (c : KnxdClient) (answers : List SysWrite) (frame : List UInt8) : KnxdClient × Bool :=
  match c.fd with
  | none => (c, false)
  | some fd =>
      let result := writeAll answers frame.length
      ({ c with attempts := c.attempts ++ [⟨fd, frame, result.1⟩] }, result.2)

/-- The part of `open_group_socket` that reads the reply. -/
def awaitReply (c : KnxdClient) (script : HandshakeScript) : KnxdClient × Bool :=
  let resp := readMessageDeadline script.waits script.reads c.readBuffer
  let c := { c with readBuffer := resp.buffer }
  match resp.message with
  | none => (c, false)
  | some message =>
      match parseEibdMessage message with
      | .parsed type _ =>
          ({ c with groupSocketOpen := type = EibMessageType.openGroupcon },
            type = EibMessageType.openGroupcon)
      | _ => (c, false)

def openGroupSocket (c : KnxdClient) (writeOnly : Bool) (script : HandshakeScript) : KnxdClient × Bool :=
  if c.fd.isNone then (c, false)
  else
    match { c with writeOnly := writeOnly }.write script.writes (buildOpenGroupcon writeOnly) with
    | (c, false) => (c, false)
    | (c, true) => c.awaitReply script

def reconnect (c : KnxdClient) (script : HandshakeScript) : KnxdClient × Bool :=
  if c.socketPath = "" then (c, false)
  else
    match c.disconnect.connect c.socketPath script.connect with
    | (c, false) => (c, false)
    | (c, true) =>
        match c.openGroupSocket c.writeOnly script with
        | (c, false) => (c.disconnect, false)
        | (c, true) => (c, true)

/-- What the kernel answers during one `send_group_packet`: while the group socket is opened, if need be,
to the write, while the connection is set up again after a failed write, and to the second write. -/
structure SendScript where
  opening : HandshakeScript := {}
  write : List SysWrite := []
  reopening : HandshakeScript := {}
  retry : List SysWrite := []

/-- The part of `send_group_packet` after the group socket is open. -/
def sendFrame (c : KnxdClient) (frame : List UInt8) (script : SendScript) : KnxdClient × Bool :=
  match c.write script.write frame with
  | (c, true) => (c, true)
  | (c, false) =>
      match c.reconnect script.reopening with
      | (c, false) => (c, false)
      | (c, true) => c.write script.retry frame

def sendGroupPacket (c : KnxdClient) (groupAddr : UInt16) (apdu : List UInt8) (script : SendScript) :
    KnxdClient × Bool :=
  if c.fd.isNone || !c.groupSocketOpen then
    match c.reconnect script.opening with
    | (c, false) => (c, false)
    | (c, true) => c.sendFrame (buildGroupPacket groupAddr apdu) script
  else c.sendFrame (buildGroupPacket groupAddr apdu) script

/-- What the kernel answers during one `poll_group_telegram`: while a lost connection is set up again, to
the reads, whether `poll` then reports a hangup or an error, while the connection is set up again for
that, and to the reads of the second attempt. -/
structure PollScript where
  opening : HandshakeScript := {}
  reads : List SysRead := []
  hangup : Bool := false
  reopening : HandshakeScript := {}
  retry : List SysRead := []

/-- `read_message` on the current connection. -/
def takeMessage (c : KnxdClient) (reads : List SysRead) : KnxdClient × Option (List UInt8) :=
  let result := readMessage reads c.readBuffer
  ({ c with readBuffer := result.buffer }, result.message)

/-- The part of `poll_group_telegram` that reads a message on a connection. -/
def awaitMessage (c : KnxdClient) (script : PollScript) : KnxdClient × Option (List UInt8) :=
  match c.takeMessage script.reads with
  | (c, some message) => (c, some message)
  | (c, none) =>
      if script.hangup then
        match c.reconnect script.reopening with
        | (c, true) => c.takeMessage script.retry
        | (c, false) => (c, none)
      else (c, none)

/-- The part of `poll_group_telegram` before the message is looked at. -/
def pollMessage (c : KnxdClient) (script : PollScript) : KnxdClient × Option (List UInt8) :=
  if c.fd.isNone then
    match c.reconnect script.opening with
    | (c, false) => (c, none)
    | (c, true) => c.awaitMessage script
  else c.awaitMessage script

/-- The address and APDU of a message that carries a telegram. -/
def telegramOf (message : List UInt8) : Option (UInt16 × List UInt8) :=
  match parseEibdMessage message with
  | .parsed type (_ :: _ :: addr0 :: addr1 :: apdu) =>
      if (type = EibMessageType.apduPacket ∨ type = EibMessageType.groupPacket) ∧ 2 ≤ apdu.length then
        some (UInt16.ofNat (bigEndian addr0 addr1), apdu)
      else none
  | _ => none

def pollGroupTelegram (c : KnxdClient) (script : PollScript) : KnxdClient × Option (UInt16 × List UInt8) :=
  match c.pollMessage script with
  | (c, none) => (c, none)
  | (c, some message) =>
      match telegramOf message with
      | none => (c, none)
      | some telegram => ({ c with telegramCount := c.telegramCount + 1 }, some telegram)

end KnxdClient
end KnxdFcgi
