import KnxdFcgi.KnxdClient
import KnxdFcgi.Machine

/-! What `send_group_packet` leaves on the wire. A write that stops inside a frame is answered by giving
up the connection, so the frame that follows goes to a new one. The second write, after the client has
reconnected, is the exception: when it stops inside its frame the connection is kept, and the next
call appends to the broken stream. -/

namespace KnxdFcgi

open Machine Framing

theorem writeAll_le (answers : List SysWrite) (len : Nat) : (writeAll answers len).1 ≤ len := by
  fun_induction writeAll answers len with
  | case1 | case2 | case6 | case7 => omega
  | case3 n answers len written rest ih =>
      have hwritten : written ≤ len + 1 := Nat.min_le_right _ _
      simp only [rest]
      omega
  | case4 answers len ih | case5 answers len ih => exact ih

/-- `write_all` succeeds exactly if it has written every byte. -/
theorem writeAll_eq_true_iff (answers : List SysWrite) (len : Nat) :
    (writeAll answers len).2 = true ↔ (writeAll answers len).1 = len := by
  fun_induction writeAll answers len with
  | case1 | case2 | case6 | case7 => simp
  | case3 n answers len written rest ih =>
      have hwritten : written ≤ len + 1 := Nat.min_le_right _ _
      simp only [rest]
      rw [ih]
      omega
  | case4 answers len ih | case5 answers len ih => exact ih

namespace KnxdClient

/-- One call of `send_group_packet`, with what the kernel answers to it. -/
structure SendCall where
  groupAddr : UInt16
  apdu : List UInt8
  script : SendScript

/-- The frames that calls write: the request to open the group socket, and the packet of each call. -/
def FrameOf (calls : List SendCall) (frame : List UInt8) : Prop :=
  (∃ writeOnly, frame = buildOpenGroupcon writeOnly) ∨
    ∃ call ∈ calls, frame = buildGroupPacket call.groupAddr call.apdu

/-- The frames are those of the calls, the connections are numbered as they were made, and every one of
them is framed. -/
structure Sound (calls : List SendCall) (c : KnxdClient) : Prop where
  built : ∀ a ∈ c.attempts, FrameOf calls a.frame
  channel_lt : ∀ a ∈ c.attempts, a.channel < c.sockets
  fd_lt : ∀ fd, c.fd = some fd → fd < c.sockets
  written_le : ∀ a ∈ c.attempts, a.written ≤ a.frame.length
  framed : ∀ channel, Attempt.Framed c.attempts channel

/-- No frame was cut on the current connection. -/
def Clean (c : KnxdClient) : Prop := ∀ fd, c.fd = some fd → Attempt.Clean c.attempts fd

/-- Between two calls: an open group socket stands on a clean connection, and can be opened again. -/
structure Ready (calls : List SendCall) (c : KnxdClient) : Prop where
  sound : Sound calls c
  clean : c.groupSocketOpen = true → c.Clean
  path : c.groupSocketOpen = true → c.socketPath ≠ ""

section Write

variable {calls : List SendCall} {c : KnxdClient} (answers : List SysWrite) (frame : List UInt8)

theorem write_fields (c : KnxdClient) :
    (c.write answers frame).1.fd = c.fd ∧ (c.write answers frame).1.groupSocketOpen = c.groupSocketOpen ∧
      (c.write answers frame).1.socketPath = c.socketPath := by
  unfold write
  split <;> simp_all

theorem Sound.write (h : c.Sound calls) (hclean : c.Clean) (hframe : FrameOf calls frame) :
    Sound calls (c.write answers frame).1 := by
  unfold KnxdClient.write
  split
  · exact h
  · rename_i fd hfd
    refine ⟨fun a ha => ?_, fun a ha => ?_, h.fd_lt, fun a ha => ?_, fun channel => ?_⟩
    · rcases List.mem_append.mp ha with ha | ha
      · exact h.built a ha
      · rw [List.mem_singleton.mp ha]
        exact hframe
    · rcases List.mem_append.mp ha with ha | ha
      · exact h.channel_lt a ha
      · rw [List.mem_singleton.mp ha]
        exact h.fd_lt fd hfd
    · rcases List.mem_append.mp ha with ha | ha
      · exact h.written_le a ha
      · rw [List.mem_singleton.mp ha]
        exact writeAll_le answers frame.length
    · exact (h.framed channel).append fun hchannel => hchannel ▸ hclean fd hfd

variable {answers frame}

/-- A write keeps the connection clean unless it stops inside the frame. -/
theorem Clean.write (hclean : c.Clean)
    (hwhole : (writeAll answers frame.length).1 = 0 ∨ (writeAll answers frame.length).1 = frame.length) :
    (c.write answers frame).1.Clean := by
  intro fd hfd
  rw [(write_fields answers frame c).1] at hfd
  rw [KnxdClient.write, hfd]
  apply (hclean fd hfd).append
  intro _ hcut
  obtain ⟨hpos, hlt⟩ := hcut
  simp only at hpos hlt
  omega

theorem Clean.write_of_true (hclean : c.Clean) (hok : (c.write answers frame).2 = true) :
    (c.write answers frame).1.Clean := by
  refine hclean.write (Or.inr ?_)
  unfold KnxdClient.write at hok
  split at hok
  · cases hok
  · exact (writeAll_eq_true_iff _ _).mp hok

end Write

section Connect

variable {calls : List SendCall} {c : KnxdClient}

theorem Sound.disconnect (h : c.Sound calls) : c.disconnect.Sound calls :=
  ⟨h.built, h.channel_lt, nofun, h.written_le, h.framed⟩

theorem Sound.ready_of_closed (h : c.Sound calls) (hclosed : c.groupSocketOpen = false) : c.Ready calls := by
  refine ⟨h, fun hopen => ?_, fun hopen => ?_⟩ <;>
  · rw [hclosed] at hopen
    cases hopen

/-- A new socket has a number of its own. -/
theorem Sound.newSocket (h : c.Sound calls) :
    Sound calls { c with
      fd := some c.sockets
      sockets := c.sockets + 1
      openFds := c.sockets :: c.openFds } where
  built := h.built
  channel_lt a ha := Nat.lt_succ_of_lt (h.channel_lt a ha)
  fd_lt fd hfd := by
    cases hfd
    exact Nat.lt_succ_self _
  written_le := h.written_le
  framed := h.framed

theorem Sound.newSocket_clean (h : c.Sound calls) : Attempt.Clean c.attempts c.sockets := by
  intro a ha hchannel
  exact absurd hchannel (h.channel_lt a ha).ne

/-- What `connect` does to a client without a connection. -/
theorem connect_spec (h : c.Sound calls) (hfd : c.fd = none) (path : String) (answer : ConnectAnswer) :
    (c.connect path answer).1.Sound calls ∧ (c.connect path answer).1.Clean ∧
      (c.connect path answer).1.groupSocketOpen = c.groupSocketOpen ∧
      ((c.connect path answer).2 = true → (c.connect path answer).1.socketPath = path) := by
  have hnew : ∀ fd, some c.sockets = some fd → Attempt.Clean c.attempts fd := by
    intro fd hsome
    cases hsome
    exact h.newSocket_clean
  simp only [connect, hfd, Option.isSome_none, Bool.false_eq_true, if_false]
  split_ifs
  · exact ⟨⟨h.built, h.channel_lt, nofun, h.written_le, h.framed⟩, nofun, rfl, nofun⟩
  · exact ⟨h.newSocket, hnew, rfl, nofun⟩
  · exact ⟨⟨h.built, h.newSocket.channel_lt, h.newSocket.fd_lt, h.written_le, h.framed⟩, hnew, rfl,
      fun _ => rfl⟩
  · exact ⟨⟨h.built, h.newSocket.channel_lt, nofun, h.written_le, h.framed⟩, nofun, rfl, nofun⟩

/-- Reading the reply changes the buffer and the state of the group socket only. -/
theorem awaitReply_spec (c : KnxdClient) (script : HandshakeScript) :
    ∃ buffer isOpen, (c.awaitReply script).1 = { c with readBuffer := buffer, groupSocketOpen := isOpen } ∧
      ((c.awaitReply script).2 = true → isOpen = true) ∧
      ((c.awaitReply script).2 = false → c.groupSocketOpen = false → isOpen = false) := by
  simp only [awaitReply]
  split
  · exact ⟨_, c.groupSocketOpen, rfl, nofun, fun _ h => h⟩
  · split
    · exact ⟨_, _, rfl, fun h => h, fun h _ => h⟩
    · exact ⟨_, c.groupSocketOpen, rfl, nofun, fun _ h => h⟩

/-- What `open_group_socket` does on a clean connection. -/
theorem openGroupSocket_spec (h : c.Sound calls) (hclean : c.Clean) (writeOnly : Bool)
    (script : HandshakeScript) :
    (c.openGroupSocket writeOnly script).1.Sound calls ∧
      (c.openGroupSocket writeOnly script).1.socketPath = c.socketPath ∧
      ((c.openGroupSocket writeOnly script).2 = true →
        (c.openGroupSocket writeOnly script).1.groupSocketOpen = true ∧
        (c.openGroupSocket writeOnly script).1.Clean) ∧
      ((c.openGroupSocket writeOnly script).2 = false → c.groupSocketOpen = false →
        (c.openGroupSocket writeOnly script).1.groupSocketOpen = false) := by
  unfold openGroupSocket
  split_ifs
  · exact ⟨h, rfl, nofun, fun _ h => h⟩
  · have hbefore : Sound calls { c with writeOnly := writeOnly } :=
      ⟨h.built, h.channel_lt, h.fd_lt, h.written_le, h.framed⟩
    have hsound := hbefore.write script.writes (buildOpenGroupcon writeOnly) hclean (Or.inl ⟨_, rfl⟩)
    have hok : (write { c with writeOnly := writeOnly } script.writes (buildOpenGroupcon writeOnly)).2 = true →
        Clean _ := Clean.write_of_true hclean
    obtain ⟨-, hopen, hpath⟩ :=
      write_fields script.writes (buildOpenGroupcon writeOnly) { c with writeOnly := writeOnly }
    generalize write { c with writeOnly := writeOnly } script.writes (buildOpenGroupcon writeOnly) =
      result at *
    obtain ⟨c', ok⟩ := result
    cases ok with
    | false => exact ⟨hsound, hpath, nofun, fun _ h => hopen.trans h⟩
    | true =>
        obtain ⟨buffer, isOpen, hreply, htrue, hfalse⟩ := c'.awaitReply_spec script
        simp only [hreply]
        refine ⟨⟨hsound.built, hsound.channel_lt, hsound.fd_lt, hsound.written_le, hsound.framed⟩, hpath,
          ?_, ?_⟩
        · exact fun hr => ⟨htrue hr, hok rfl⟩
        · exact fun hr hclosed => hfalse hr (hopen.trans hclosed)

/-- What `reconnect` does: it leaves an open group socket on a clean connection, or a closed one. -/
theorem Sound.reconnect (h : c.Sound calls) (hpath : c.groupSocketOpen = true → c.socketPath ≠ "")
    (script : HandshakeScript) :
    (c.reconnect script).1.Ready calls ∧ (c.reconnect script).1.groupSocketOpen = (c.reconnect script).2 := by
  unfold KnxdClient.reconnect
  split_ifs with hempty
  · have hclosed : c.groupSocketOpen = false := by
      rw [← Bool.not_eq_true]
      exact fun hopen => hpath hopen hempty
    exact ⟨h.ready_of_closed hclosed, hclosed⟩
  · obtain ⟨hsound, hclean, hclosed, hstored⟩ :=
      connect_spec h.disconnect rfl c.socketPath script.connect
    generalize c.disconnect.connect c.socketPath script.connect = result at *
    obtain ⟨c', ok⟩ := result
    have hclosed : c'.groupSocketOpen = false := hclosed
    cases ok with
    | false => exact ⟨hsound.ready_of_closed hclosed, hclosed⟩
    | true =>
        obtain ⟨hsound', hpath', htrue, -⟩ := openGroupSocket_spec hsound hclean c'.writeOnly script
        simp only
        generalize c'.openGroupSocket c'.writeOnly script = result at *
        obtain ⟨c'', ok⟩ := result
        cases ok with
        | false => exact ⟨hsound'.disconnect.ready_of_closed rfl, rfl⟩
        | true =>
            obtain ⟨hopen, hclean'⟩ := htrue rfl
            refine ⟨⟨hsound', fun _ => hclean', fun _ => ?_⟩, hopen⟩
            rw [show c''.socketPath = c'.socketPath from hpath', hstored rfl]
            exact hempty

end Connect

def send (c : KnxdClient) (call : SendCall) : KnxdClient :=
  (c.sendGroupPacket call.groupAddr call.apdu call.script).1

/-- The client as a call comes to its first write, if it does: the group socket is open, or is opened now. -/
def opened (c : KnxdClient) (script : SendScript) : KnxdClient × Bool :=
  if c.fd.isNone || !c.groupSocketOpen then c.reconnect script.opening else (c, true)

/-- The frame is written a second time: the first write fails, and the client gets a new connection. -/
def Retries (c : KnxdClient) (frame : List UInt8) (script : SendScript) : Prop :=
  (c.write script.write frame).2 = false ∧
    ((c.write script.write frame).1.reconnect script.reopening).2 = true

/-- The second write of the call, if the call comes to it, does not stop inside the frame. -/
def RetryWhole (c : KnxdClient) (call : SendCall) : Prop :=
  let frame := buildGroupPacket call.groupAddr call.apdu
  (c.opened call.script).2 = true → (c.opened call.script).1.Retries frame call.script →
    (writeAll call.script.retry frame.length).1 = 0 ∨ (writeAll call.script.retry frame.length).1 = frame.length

section Send

variable {calls : List SendCall} {c : KnxdClient}

theorem Ready.write (h : c.Ready calls) (hopen : c.groupSocketOpen = true) {answers : List SysWrite}
    {frame : List UInt8} (hframe : FrameOf calls frame) (hclean : (c.write answers frame).1.Clean) :
    (c.write answers frame).1.Ready calls := by
  obtain ⟨-, -, hpath⟩ := write_fields answers frame c
  refine ⟨h.sound.write answers frame (h.clean hopen) hframe, fun _ => hclean, fun _ => ?_⟩
  rw [hpath]
  exact h.path hopen

theorem Ready.sendFrame (h : c.Ready calls) (hopen : c.groupSocketOpen = true) {frame : List UInt8}
    (hframe : FrameOf calls frame) {script : SendScript}
    (hwhole : c.Retries frame script → (writeAll script.retry frame.length).1 = 0 ∨
      (writeAll script.retry frame.length).1 = frame.length) : (c.sendFrame frame script).1.Ready calls := by
  have hclean := h.clean hopen
  have hready : (c.write script.write frame).2 = true → (c.write script.write frame).1.Ready calls :=
    fun hok => h.write hopen hframe (hclean.write_of_true hok)
  have hsound := h.sound.write script.write frame hclean hframe
  obtain ⟨-, -, hpath⟩ := write_fields script.write frame c
  unfold Retries at hwhole
  unfold KnxdClient.sendFrame
  generalize c.write script.write frame = result at *
  obtain ⟨c', ok⟩ := result
  cases ok with
  | true => exact hready rfl
  | false =>
      obtain ⟨hready', hopen'⟩ := hsound.reconnect (fun _ => hpath ▸ h.path hopen) script.reopening
      simp only
      generalize c'.reconnect script.reopening = result at *
      obtain ⟨c'', ok⟩ := result
      cases ok with
      | false => exact hready'
      | true => exact hready'.write hopen' hframe ((hready'.clean hopen').write (hwhole ⟨rfl, rfl⟩))

theorem Ready.send (h : c.Ready calls) {call : SendCall} (hcall : call ∈ calls) (hwhole : c.RetryWhole call) :
    (c.send call).Ready calls := by
  have hframe : FrameOf calls (buildGroupPacket call.groupAddr call.apdu) := Or.inr ⟨call, hcall, rfl⟩
  unfold RetryWhole opened at hwhole
  unfold KnxdClient.send sendGroupPacket
  split_ifs at hwhole ⊢ with hneed
  · obtain ⟨hready, hopen⟩ := h.sound.reconnect h.path call.script.opening
    generalize c.reconnect call.script.opening = result at *
    obtain ⟨c', ok⟩ := result
    cases ok with
    | false => exact hready
    | true => exact hready.sendFrame hopen hframe (hwhole rfl)
  · have hopen : c.groupSocketOpen = true := by
      simp only [Bool.or_eq_true, not_or, Bool.not_eq_true, Bool.not_eq_false'] at hneed
      exact hneed.2
    exact h.sendFrame hopen hframe (hwhole rfl)

/-- The run of all the calls. -/
theorem run_ready (h : c.Ready calls) (hwhole : Along KnxdClient.send RetryWhole c calls) :
    (run KnxdClient.send c calls).Ready calls := by
  have hguard : Along KnxdClient.send (fun c call => c.RetryWhole call ∧ call ∈ calls) c calls :=
    hwhole.and_mem fun _ h => h
  exact run_invariant_along (Ready calls) (fun _ _ hguard h => h.send hguard.2 hguard.1) hguard h

end Send

/-! ### Whole runs -/

/-- How a client came to its first call: it is new, or was told to connect, or also to open its group
socket once connected. -/
inductive Setup where
  | new
  | connected (answer : ConnectAnswer)
  | opened (writeOnly : Bool) (script : HandshakeScript)

def Setup.client (path : String) : Setup → KnxdClient
  | .new => {}
  | .connected answer => (connect {} path answer).1
  | .opened writeOnly script =>
      match connect {} path script.connect with
      | (c, false) => c
      | (c, true) => (c.openGroupSocket writeOnly script).1

theorem new_sound (calls : List SendCall) : Sound calls {} :=
  ⟨nofun, nofun, nofun, nofun, fun _ _ _ _ h => absurd h (by simp)⟩

theorem Setup.client_ready (calls : List SendCall) {path : String} (hpath : path ≠ "") (setup : Setup) :
    (setup.client path).Ready calls := by
  cases setup with
  | new => exact (new_sound calls).ready_of_closed rfl
  | connected answer =>
      obtain ⟨hsound, -, hclosed, -⟩ := connect_spec (new_sound calls) rfl path answer
      exact hsound.ready_of_closed hclosed
  | opened writeOnly script =>
      obtain ⟨hsound, hclean, hclosed, hstored⟩ := connect_spec (new_sound calls) rfl path script.connect
      rw [Setup.client]
      generalize connect {} path script.connect = result at *
      obtain ⟨c, ok⟩ := result
      cases ok with
      | false => exact hsound.ready_of_closed hclosed
      | true =>
          obtain ⟨hsound', hpath', htrue, hfalse⟩ := openGroupSocket_spec hsound hclean writeOnly script
          simp only
          generalize c.openGroupSocket writeOnly script = result at *
          obtain ⟨c', ok⟩ := result
          cases ok with
          | false => exact hsound'.ready_of_closed (hfalse rfl hclosed)
          | true =>
              refine ⟨hsound', fun _ => (htrue rfl).2, fun _ => ?_⟩
              rw [show c'.socketPath = c.socketPath from hpath', hstored rfl]
              exact hpath

/-- A frame whose length fits its prefix is parsed as itself, and no proper part of it is complete. -/
theorem FrameOf.selfDelimiting {calls : List SendCall} (hsmall : ∀ call ∈ calls, call.apdu.length ≤ 65531)
    {frame : List UInt8} (h : FrameOf calls frame) : eibdSplitter.SelfDelimiting frame := by
  rcases h with ⟨writeOnly, rfl⟩ | ⟨call, hcall, rfl⟩
  · exact Splitter.selfDelimiting_of_split (tryExtract_buildEibdMessage _ (by simp))
  · refine Splitter.selfDelimiting_of_split (tryExtract_buildEibdMessage _ ?_)
    have hlen := hsmall call hcall
    simp only [List.length_append, List.length_cons, List.length_nil]
    omega

/-- **When the bytes on the wire stay framed.** For a client with a socket path, connected or not, and any
calls of `send_group_packet` of which none that writes its packet a second time stops inside the frame then,
every connection carries complete frames followed by at most one that was cut, and nothing was written after
a cut. Where the lengths of the frames fit their prefixes, this is also how knxd takes the bytes apart. -/
theorem send_framed (path : String) (hpath : path ≠ "") (setup : Setup) (calls : List SendCall)
    (hwhole : Along send RetryWhole (setup.client path) calls) (channel : Nat) :
    Attempt.Framed (run send (setup.client path) calls).attempts channel ∧
      ∃ (complete : List (List UInt8)) (cut : List UInt8),
        Attempt.sent (run send (setup.client path) calls).attempts channel = complete.flatten ++ cut ∧
        (∀ frame ∈ complete, FrameOf calls frame) ∧
        (cut = [] ∨ ∃ frame n, FrameOf calls frame ∧ n < frame.length ∧ cut = frame.take n) ∧
        ((∀ call ∈ calls, call.apdu.length ≤ 65531) →
          eibdSplitter.frames (Attempt.sent (run send (setup.client path) calls).attempts channel) =
            (complete, cut)) := by
  have hready := run_ready (setup.client_ready calls hpath) hwhole
  generalize run send (setup.client path) calls = c at hready ⊢
  have hframed := hready.sound.framed channel
  obtain ⟨complete, cut, hsent, hcomplete, hcut⟩ := hframed.sent_eq hready.sound.written_le
  have hbuilt : ∀ frame ∈ complete, FrameOf calls frame := by
    intro frame hframe
    obtain ⟨a, ha, -, rfl⟩ := hcomplete frame hframe
    exact hready.sound.built a ha
  have hpart : cut = [] ∨ ∃ frame n, FrameOf calls frame ∧ n < frame.length ∧ cut = frame.take n :=
    hcut.imp id fun ⟨a, ha, _, hacut, heq⟩ => ⟨a.frame, a.written, hready.sound.built a ha, hacut.2, heq⟩
  refine ⟨hframed, complete, cut, hsent, hbuilt, hpart, ?_⟩
  intro hsmall
  rw [hsent]
  refine Splitter.frames_flatten_append ?_ ?_
  · exact fun frame hframe => ((hbuilt frame hframe).selfDelimiting hsmall).1
  · rcases hpart with rfl | ⟨frame, n, hframe, hn, rfl⟩
    · exact eibdSplitter.split_nil
    · exact (hframe.selfDelimiting hsmall).2 n hn

/-- A handshake that knxd answers. -/
def answered : HandshakeScript where
  connect := .established
  writes := [.wrote 7]
  waits := [.ready]
  reads := [.data ⟨buildEibdMessage EibMessageType.openGroupcon [], by decide, by decide⟩]

/-- The hypotheses are met by a client whose first write fails halfway and whose second succeeds. -/
theorem send_framed_retry :
    Attempt.Framed (run send (Setup.client "/run/knx" (.opened true answered))
      [⟨1, [0x00, 0x80], { write := [.wrote 3, .failed], reopening := answered, retry := [.wrote 8] }⟩]).attempts 0 :=
  (send_framed "/run/knx" (by decide) (.opened true answered)
    [⟨1, [0x00, 0x80], { write := [.wrote 3, .failed], reopening := answered, retry := [.wrote 8] }⟩]
    ⟨fun _ _ => Or.inr (by decide), trivial⟩ 0).1

/-- The first write of the first call fails at once, and the second one after three bytes; the second call
then writes its frame. -/
def brokenStream : KnxdClient :=
  run send (Setup.client "/run/knx" (.opened true answered))
    [⟨1, [0x00, 0x80], { write := [.failed], reopening := answered, retry := [.wrote 3, .failed] }⟩,
      ⟨1, [0x00, 0x81], { write := [.wrote 8] }⟩]

/-- The second frame follows three bytes of the first on the same connection. -/
theorem brokenStream_not_framed :
    Attempt.sent brokenStream.attempts 1 =
        buildOpenGroupcon true ++ (buildGroupPacket 1 [0x00, 0x80]).take 3 ++ buildGroupPacket 1 [0x00, 0x81] ∧
      ¬Attempt.Framed brokenStream.attempts 1 := by
  refine ⟨by decide, ?_⟩
  intro hframed
  have hzero := hframed [⟨0, buildOpenGroupcon true, 7⟩, ⟨0, buildGroupPacket 1 [0x00, 0x80], 0⟩,
    ⟨1, buildOpenGroupcon true, 7⟩] ⟨1, buildGroupPacket 1 [0x00, 0x80], 3⟩
    [⟨1, buildGroupPacket 1 [0x00, 0x81], 8⟩] rfl rfl ⟨by decide, by decide⟩ _ (List.mem_singleton_self _) rfl
  cases hzero

end KnxdClient
end KnxdFcgi
