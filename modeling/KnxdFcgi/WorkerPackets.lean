import KnxdFcgi.CacheReader
import KnxdFcgi.KnxdSending
import KnxdFcgi.Worker

/-! What a worker writes to knxd over its whole life. The packets of a request are determined before the first
of them is sent, so the client of a worker makes one sequence of calls, and every frame on its connections is a
request to open the group socket or the packet of a request that was served. How the group socket is opened is
settled once, by the first connection: if that one fails, all later ones are opened for reading as well; and if
not even a socket was to be had then, the path is not known and the worker never reaches knxd again. -/

namespace KnxdFcgi

open Machine Framing

namespace KnxdClient

/-- The client goes on from `c`: its path and its mode are the same, and what it has tried to write since is to
open the group socket in this mode, or the frame. -/
structure GoesOn (frame : List UInt8) (c c' : KnxdClient) : Prop where
  socketPath : c'.socketPath = c.socketPath
  writeOnly : c'.writeOnly = c.writeOnly
  attempts : ∃ more, c'.attempts = c.attempts ++ more ∧
    ∀ a ∈ more, a.frame = buildOpenGroupcon c.writeOnly ∨ a.frame = frame

variable {frame : List UInt8} {c c' c'' : KnxdClient}

theorem GoesOn.of_fields (hpath : c'.socketPath = c.socketPath) (hmode : c'.writeOnly = c.writeOnly)
    (hattempts : c'.attempts = c.attempts) : GoesOn frame c c' :=
  ⟨hpath, hmode, [], by rw [hattempts, List.append_nil], nofun⟩

theorem GoesOn.trans (h : GoesOn frame c c') (h' : GoesOn frame c' c'') : GoesOn frame c c'' := by
  obtain ⟨more, hmore, hframes⟩ := h.attempts
  obtain ⟨more', hmore', hframes'⟩ := h'.attempts
  refine ⟨h'.socketPath.trans h.socketPath, h'.writeOnly.trans h.writeOnly, more ++ more', ?_, ?_⟩
  · rw [hmore', hmore, List.append_assoc]
  · intro a ha
    rcases List.mem_append.mp ha with ha | ha
    · exact hframes a ha
    · exact h.writeOnly ▸ hframes' a ha

theorem GoesOn.mem_attempts (h : GoesOn frame c c') {a : Attempt UInt8} (ha : a ∈ c.attempts) : a ∈ c'.attempts := by
  obtain ⟨more, hmore, -⟩ := h.attempts
  rw [hmore]
  exact List.mem_append_left _ ha

theorem goesOn_disconnect (frame : List UInt8) (c : KnxdClient) : GoesOn frame c c.disconnect :=
  .of_fields rfl rfl rfl

theorem goesOn_connect (frame : List UInt8) (c : KnxdClient) (answer : ConnectAnswer) :
    GoesOn frame c (c.connect c.socketPath answer).1 := by
  have hfresh : GoesOn frame c (if c.fd.isSome then c.disconnect else c) := by
    split_ifs
    · exact goesOn_disconnect frame c
    · exact .of_fields rfl rfl rfl
  refine hfresh.trans ?_
  rw [connect]
  generalize hc' : (if c.fd.isSome then c.disconnect else c) = c' at hfresh ⊢
  split_ifs
  · exact .of_fields rfl rfl rfl
  · exact .of_fields rfl rfl rfl
  · exact .of_fields hfresh.socketPath.symm rfl rfl
  · exact .of_fields hfresh.socketPath.symm rfl rfl

theorem goesOn_write {written : List UInt8} (hwritten : written = buildOpenGroupcon c.writeOnly ∨ written = frame)
    (answers : List SysWrite) : GoesOn frame c (c.write answers written).1 := by
  unfold write
  split
  · exact .of_fields rfl rfl rfl
  · refine ⟨rfl, rfl, _, rfl, ?_⟩
    intro a ha
    rw [List.mem_singleton.mp ha]
    exact hwritten

theorem goesOn_openGroupSocket (frame : List UInt8) (c : KnxdClient) (script : HandshakeScript) :
    GoesOn frame c (c.openGroupSocket c.writeOnly script).1 := by
  unfold openGroupSocket
  split_ifs
  · exact .of_fields rfl rfl rfl
  · have hwrite : GoesOn frame c (c.write script.writes (buildOpenGroupcon c.writeOnly)).1 :=
      goesOn_write (Or.inl rfl) script.writes
    generalize c.write script.writes (buildOpenGroupcon c.writeOnly) = result at hwrite ⊢
    obtain ⟨c', ok⟩ := result
    cases ok with
    | false => exact hwrite
    | true =>
        obtain ⟨buffer, isOpen, hreply, -, -⟩ := c'.awaitReply_spec script
        refine hwrite.trans ?_
        simp only [hreply]
        exact .of_fields rfl rfl rfl

theorem goesOn_reconnect (frame : List UInt8) (c : KnxdClient) (script : HandshakeScript) :
    GoesOn frame c (c.reconnect script).1 := by
  unfold reconnect
  split_ifs
  · exact .of_fields rfl rfl rfl
  · have hconnect := (goesOn_disconnect frame c).trans (goesOn_connect frame c.disconnect script.connect)
    rw [show c.disconnect.socketPath = c.socketPath from rfl] at hconnect
    generalize c.disconnect.connect c.socketPath script.connect = result at hconnect ⊢
    obtain ⟨c', ok⟩ := result
    cases ok with
    | false => exact hconnect
    | true =>
        have hopen := hconnect.trans (goesOn_openGroupSocket frame c' script)
        simp only
        generalize c'.openGroupSocket c'.writeOnly script = result at hopen ⊢
        obtain ⟨c'', ok⟩ := result
        cases ok with
        | false => exact hopen.trans (goesOn_disconnect frame c'')
        | true => exact hopen

theorem goesOn_sendFrame (frame : List UInt8) (c : KnxdClient) (script : SendScript) :
    GoesOn frame c (c.sendFrame frame script).1 := by
  have hwrite : GoesOn frame c (c.write script.write frame).1 := goesOn_write (Or.inr rfl) script.write
  unfold sendFrame
  generalize c.write script.write frame = result at hwrite ⊢
  obtain ⟨c', ok⟩ := result
  cases ok with
  | true => exact hwrite
  | false =>
      have hreconnect := hwrite.trans (goesOn_reconnect frame c' script.reopening)
      simp only
      generalize c'.reconnect script.reopening = result at hreconnect ⊢
      obtain ⟨c'', ok⟩ := result
      cases ok with
      | false => exact hreconnect
      | true => exact hreconnect.trans (goesOn_write (Or.inr rfl) script.retry)

theorem goesOn_send (c : KnxdClient) (call : SendCall) :
    GoesOn (buildGroupPacket call.groupAddr call.apdu) c (c.send call) := by
  unfold send sendGroupPacket
  split_ifs
  · have hreconnect := goesOn_reconnect (buildGroupPacket call.groupAddr call.apdu) c call.script.opening
    generalize c.reconnect call.script.opening = result at hreconnect ⊢
    obtain ⟨c', ok⟩ := result
    cases ok with
    | false => exact hreconnect
    | true => exact hreconnect.trans (goesOn_sendFrame _ c' call.script)
  · exact goesOn_sendFrame _ c call.script

/-- The connection is established, the request to open the group socket is written, and knxd confirms it. -/
structure Confirmed (script : HandshakeScript) : Prop where
  connect : script.connect = .established
  writes : ∀ writeOnly, (writeAll script.writes (buildOpenGroupcon writeOnly).length).2 = true
  reply : ∃ message data, (readMessageDeadline script.waits script.reads []).message = some message ∧
    parseEibdMessage message = .parsed EibMessageType.openGroupcon data

theorem awaitReply_confirmed {script : HandshakeScript} (h : Confirmed script) (hbuffer : c.readBuffer = []) :
    (c.awaitReply script).2 = true := by
  obtain ⟨message, data, hmessage, hparsed⟩ := h.reply
  simp only [awaitReply, hbuffer, hmessage, hparsed, decide_true]

theorem openGroupSocket_confirmed {script : HandshakeScript} (h : Confirmed script) (hbuffer : c.readBuffer = [])
    {fd : Nat} (hfd : c.fd = some fd) (writeOnly : Bool) :
    (c.openGroupSocket writeOnly script).2 = true ∧
      ∃ a ∈ (c.openGroupSocket writeOnly script).1.attempts, a.frame = buildOpenGroupcon writeOnly := by
  have hwrites := h.writes writeOnly
  simp only [openGroupSocket, write, hfd, Option.isNone_some, Bool.false_eq_true, if_false, hwrites]
  refine ⟨awaitReply_confirmed h hbuffer, ?_⟩
  generalize hc' : KnxdClient.mk .. = c'
  obtain ⟨buffer, isOpen, hreply, -, -⟩ := c'.awaitReply_spec script
  rw [hreply, ← hc']
  exact ⟨_, List.mem_append_right _ (List.mem_singleton_self _), rfl⟩

theorem connect_established (hfd : c.fd = none) {path : String} (hshort : path.utf8ByteSize < sunPathSize) :
    ∃ c', c.connect path .established = (c', true) ∧ c'.fd = some c.sockets ∧ c'.readBuffer = c.readBuffer ∧
      c'.writeOnly = c.writeOnly ∧ c'.socketPath = path ∧ c'.attempts = c.attempts := by
  simp only [connect, hfd, Option.isSome_none, Bool.false_eq_true, if_false, if_neg (Nat.not_le.mpr hshort),
    reduceCtorEq, if_true]
  exact ⟨_, rfl, rfl, rfl, rfl, rfl, rfl⟩

/-- A client that knows its path comes back as soon as knxd answers. -/
theorem reconnect_confirmed {script : HandshakeScript} (h : Confirmed script) (hpath : c.socketPath ≠ "")
    (hshort : c.socketPath.utf8ByteSize < sunPathSize) :
    (c.reconnect script).2 = true ∧ (c.reconnect script).1.fd.isSome ∧
      ∃ a ∈ (c.reconnect script).1.attempts, a.frame = buildOpenGroupcon c.writeOnly := by
  obtain ⟨c', hconnect, hfd, hbuffer, hmode, -⟩ := connect_established (c := c.disconnect) rfl hshort
  rw [← h.connect] at hconnect
  obtain ⟨hok, hattempt⟩ := openGroupSocket_confirmed h hbuffer hfd c'.writeOnly
  have hopen := (openGroupSocket_true hok).1
  rw [reconnect, if_neg hpath, hconnect, show c.writeOnly = c'.writeOnly from hmode.symm]
  simp only
  generalize c'.openGroupSocket c'.writeOnly script = result at hok hattempt hopen ⊢
  obtain ⟨c'', ok⟩ := result
  cases hok
  exact ⟨rfl, hopen, hattempt⟩

/-- The frame is written as a whole: at once, or else, after a write that fails, on a new connection that knxd
confirms. -/
def SendScript.Written (script : SendScript) (frame : List UInt8) : Prop :=
  (writeAll script.write frame.length).2 = true ∨
    Confirmed script.reopening ∧ (writeAll script.retry frame.length).2 = true

/-- knxd answers the call: it confirms the group socket where the client has to open it, and the packet is written. -/
structure Answers (c : KnxdClient) (call : SendCall) : Prop where
  opening : (c.fd.isNone || !c.groupSocketOpen) = true → Confirmed call.script.opening
  written : call.script.Written (buildGroupPacket call.groupAddr call.apdu)

theorem write_snd (hfd : c.fd.isSome) (answers : List SysWrite) (frame : List UInt8) :
    (c.write answers frame).2 = (writeAll answers frame.length).2 := by
  obtain ⟨fd, hfd⟩ := Option.isSome_iff_exists.mp hfd
  rw [write, hfd]

theorem sendFrame_written {script : SendScript} (hfd : c.fd.isSome) (hpath : c.socketPath ≠ "")
    (hshort : c.socketPath.utf8ByteSize < sunPathSize) (h : script.Written frame) :
    (c.sendFrame frame script).2 = true := by
  have hwrite := c.write_snd hfd script.write frame
  obtain ⟨-, -, hsame⟩ := write_fields script.write frame c
  unfold sendFrame
  generalize c.write script.write frame = result at hwrite hsame ⊢
  obtain ⟨c', ok⟩ := result
  cases ok with
  | true => rfl
  | false =>
      obtain hfirst | ⟨hreopening, hretry⟩ := h
      · exact absurd (hwrite.trans hfirst) Bool.false_ne_true
      · obtain ⟨hok, hfd', -⟩ := reconnect_confirmed hreopening (hsame ▸ hpath) (hsame ▸ hshort)
        simp only at hok hfd' ⊢
        generalize c'.reconnect script.reopening = result at hok hfd' ⊢
        obtain ⟨c'', ok⟩ := result
        cases hok
        exact (c''.write_snd hfd' script.retry frame).trans hretry

theorem sendGroupPacket_answered {call : SendCall} (h : c.Answers call) (hpath : c.socketPath ≠ "")
    (hshort : c.socketPath.utf8ByteSize < sunPathSize) :
    (c.sendGroupPacket call.groupAddr call.apdu call.script).2 = true := by
  unfold sendGroupPacket
  split_ifs with hneed
  · obtain ⟨hok, hfd, -⟩ := reconnect_confirmed (h.opening hneed) hpath hshort
    have hsame := (goesOn_reconnect [] c call.script.opening).socketPath
    generalize c.reconnect call.script.opening = result at hok hfd hsame ⊢
    obtain ⟨c', ok⟩ := result
    cases hok
    exact sendFrame_written hfd (hsame ▸ hpath) (hsame ▸ hshort) h.written
  · rw [Bool.or_eq_true, not_or, Bool.not_eq_true, Option.isNone_eq_false_iff] at hneed
    exact sendFrame_written hneed.1 hpath hshort h.written

/-- The attempts that a step adds tell whether the frame got out as a whole, and its result says the same. -/
def Tells (frame : List UInt8) (c : KnxdClient) (result : KnxdClient × Bool) : Prop :=
  ∃ more, result.1.attempts = c.attempts ++ more ∧
    (result.2 = true ↔ ∃ a ∈ more, a.frame = frame ∧ a.written = frame.length)

theorem write_tells (c : KnxdClient) (answers : List SysWrite) (frame : List UInt8) :
    Tells frame c (c.write answers frame) := by
  unfold write
  split
  · exact ⟨[], (List.append_nil _).symm, by simp⟩
  · refine ⟨_, rfl, (writeAll_eq_true_iff _ _).trans ?_⟩
    simp

/-- Frames that are not the packet make no difference. -/
theorem Tells.of_goesOn {other : List UInt8} (h : GoesOn other c c') (hopen : buildOpenGroupcon c.writeOnly ≠ frame)
    (hother : other ≠ frame) {result : KnxdClient × Bool} (htells : Tells frame c' result) : Tells frame c result := by
  obtain ⟨before, hbefore, hframes⟩ := h.attempts
  obtain ⟨more, hmore, hresult⟩ := htells
  refine ⟨before ++ more, by rw [hmore, hbefore, List.append_assoc], hresult.trans ?_⟩
  constructor
  · rintro ⟨a, ha, hframe⟩
    exact ⟨a, List.mem_append_right _ ha, hframe⟩
  · rintro ⟨a, ha, hframe, hwritten⟩
    rcases List.mem_append.mp ha with ha | ha
    · rcases hframes a ha with h | h
      · exact absurd (h.symm.trans hframe) hopen
      · exact absurd (h.symm.trans hframe) hother
    · exact ⟨a, ha, hframe, hwritten⟩

/-- A step after a write that failed. -/
theorem Tells.of_write {result result' : KnxdClient × Bool} (hwrite : Tells frame c result) (hfailed : result.2 = false)
    (htells : Tells frame result.1 result') : Tells frame c result' := by
  obtain ⟨before, hbefore, hnone⟩ := hwrite
  obtain ⟨more, hmore, hresult⟩ := htells
  refine ⟨before ++ more, by rw [hmore, hbefore, List.append_assoc], hresult.trans ?_⟩
  constructor
  · rintro ⟨a, ha, hframe⟩
    exact ⟨a, List.mem_append_right _ ha, hframe⟩
  · rintro ⟨a, ha, hframe⟩
    rcases List.mem_append.mp ha with ha | ha
    · have htrue := hnone.mpr ⟨a, ha, hframe⟩
      rw [hfailed] at htrue
      cases htrue
    · exact ⟨a, ha, hframe⟩

theorem tells_nothing (frame : List UInt8) (c : KnxdClient) : Tells frame c (c, false) :=
  ⟨[], (List.append_nil _).symm, by simp⟩

theorem sendFrame_tells (c : KnxdClient) (hframe : ∀ writeOnly, buildOpenGroupcon writeOnly ≠ frame)
    (script : SendScript) : Tells frame c (c.sendFrame frame script) := by
  have hwrite := write_tells c script.write frame
  unfold sendFrame
  generalize c.write script.write frame = result at hwrite ⊢
  obtain ⟨c', ok⟩ := result
  cases ok with
  | true => exact hwrite
  | false =>
      refine hwrite.of_write rfl ?_
      have hgoes := goesOn_reconnect (buildOpenGroupcon c'.writeOnly) c' script.reopening
      simp only
      generalize c'.reconnect script.reopening = result at hgoes ⊢
      obtain ⟨c'', ok⟩ := result
      cases ok with
      | false => exact (tells_nothing frame c'').of_goesOn hgoes (hframe _) (hframe _)
      | true => exact (write_tells c'' script.retry frame).of_goesOn hgoes (hframe _) (hframe _)

theorem buildOpenGroupcon_injective : Function.Injective buildOpenGroupcon := by decide

theorem buildOpenGroupcon_ne_buildGroupPacket (writeOnly : Bool) (addr : UInt16) (apdu : List UInt8) :
    buildOpenGroupcon writeOnly ≠ buildGroupPacket addr apdu := by
  intro h
  have htype : some (0x26 : UInt8) = some 0x27 := congrArg (·[3]?) h
  exact absurd htype (by decide)

/-- A call returns true exactly if it has written its packet as a whole. -/
theorem sendGroupPacket_tells (c : KnxdClient) (call : SendCall) :
    Tells (buildGroupPacket call.groupAddr call.apdu) c (c.sendGroupPacket call.groupAddr call.apdu call.script) := by
  have hframe := fun writeOnly => buildOpenGroupcon_ne_buildGroupPacket writeOnly call.groupAddr call.apdu
  unfold sendGroupPacket
  split_ifs
  · have hgoes := goesOn_reconnect (buildOpenGroupcon c.writeOnly) c call.script.opening
    generalize c.reconnect call.script.opening = result at hgoes ⊢
    obtain ⟨c', ok⟩ := result
    cases ok with
    | false => exact (tells_nothing _ c').of_goesOn hgoes (hframe _) (hframe _)
    | true => exact (sendFrame_tells c' hframe call.script).of_goesOn hgoes (hframe _) (hframe _)
  · exact sendFrame_tells c hframe call.script

/-- The call has written its packet as a whole, on one of the connections that it used. -/
def Delivers (c : KnxdClient) (call : SendCall) : Prop :=
  ∃ more, (c.send call).attempts = c.attempts ++ more ∧
    ∃ a ∈ more, a.frame = buildGroupPacket call.groupAddr call.apdu ∧
      a.written = (buildGroupPacket call.groupAddr call.apdu).length

theorem sendGroupPacket_true_iff (c : KnxdClient) (call : SendCall) :
    (c.sendGroupPacket call.groupAddr call.apdu call.script).2 = true ↔ c.Delivers call := by
  obtain ⟨more, hmore, hresult⟩ := sendGroupPacket_tells c call
  rw [hresult]
  constructor
  · exact fun ha => ⟨more, hmore, ha⟩
  · rintro ⟨more', hmore', ha⟩
    rw [send, hmore, List.append_right_inj] at hmore'
    rw [hmore']
    exact ha

/-- Without a path there is nothing to connect to. -/
theorem sendGroupPacket_noPath (hpath : c.socketPath = "") (hclosed : c.groupSocketOpen = false) (groupAddr : UInt16)
    (apdu : List UInt8) (script : SendScript) : c.sendGroupPacket groupAddr apdu script = (c, false) := by
  rw [sendGroupPacket, hclosed, Bool.not_false, Bool.or_true, if_pos rfl, reconnect, if_pos hpath]

end KnxdClient

open KnxdClient (SendCall SendScript)

namespace WriteHandler

/-- The calls on the client for some packets, each with its script. -/
def sendCalls : List SendScript → List (UInt16 × List UInt8) → List SendCall
  | _, [] => []
  | scripts, (addr, apdu) :: rest => ⟨addr, apdu, scripts.headD {}⟩ :: sendCalls scripts.tail rest

theorem sendAll_eq_run (c : KnxdClient) (scripts : List SendScript) (packets : List (UInt16 × List UInt8)) :
    sendAll c scripts packets = run KnxdClient.send c (sendCalls scripts packets) := by
  induction packets generalizing c scripts with
  | nil => rfl
  | cons packet packets ih => exact ih _ _

theorem mem_sendCalls {scripts : List SendScript} {packets : List (UInt16 × List UInt8)} {call : SendCall}
    (h : call ∈ sendCalls scripts packets) : (call.groupAddr, call.apdu) ∈ packets := by
  induction packets generalizing scripts with
  | nil => cases h
  | cons packet packets ih =>
      rcases List.mem_cons.mp h with rfl | h
      · exact List.mem_cons_self
      · exact List.mem_cons_of_mem _ (ih h)

/-- Every call gets its packet out. -/
def allSent : KnxdClient → List SendCall → Bool
  | _, [] => true
  | c, call :: calls => (c.sendGroupPacket call.groupAddr call.apdu call.script).2 && allSent (c.send call) calls

theorem allSent_iff (c : KnxdClient) (calls : List SendCall) :
    allSent c calls = true ↔
      ∀ before call after, calls = before ++ call :: after → (run KnxdClient.send c before).Delivers call := by
  induction calls generalizing c with
  | nil => exact iff_of_true rfl fun before call after h => absurd h (by simp)
  | cons call calls ih =>
      rw [allSent, Bool.and_eq_true, KnxdClient.sendGroupPacket_true_iff, ih]
      constructor
      · rintro ⟨hfirst, hrest⟩ before other after heq
        cases before with
        | nil =>
            obtain ⟨rfl, -⟩ := List.cons.inj heq
            exact hfirst
        | cons first before =>
            obtain ⟨rfl, htail⟩ := List.cons.inj heq
            exact hrest before other after htail
      · intro h
        refine ⟨h [] call calls rfl, fun before other after heq => ?_⟩
        exact h (call :: before) other after (by rw [heq]; rfl)

/-- The flags of the loop. -/
theorem writeEach_flags (defaultNamespace : Text) (apdu : List UInt8) (addresses : List Text)
    (scripts : List SendScript) (s : Loop) :
    let calls := sendCalls scripts (addresses.filterMap fun addr =>
      (KnxAddress.fromCometvisu defaultNamespace addr).map fun parsed => (parsed.group.toEibaddr, apdu))
    (writeEach defaultNamespace apdu addresses scripts s).anyValid = (s.anyValid || !calls.isEmpty) ∧
      (writeEach defaultNamespace apdu addresses scripts s).anyFailed = (s.anyFailed || !allSent s.client calls) := by
  induction addresses generalizing scripts s with
  | nil => simp [writeEach, sendCalls, allSent]
  | cons addr addresses ih =>
      unfold writeEach
      cases haddr : KnxAddress.fromCometvisu defaultNamespace addr with
      | none =>
          rw [List.filterMap_cons_none (by rw [haddr]; rfl)]
          exact ih scripts s
      | some parsed =>
          rw [List.filterMap_cons_some (by rw [haddr]; rfl)]
          obtain ⟨hvalid, hfailed⟩ := ih scripts.tail
            { client := (s.client.sendGroupPacket parsed.group.toEibaddr apdu (scripts.headD {})).1
              anyValid := true
              anyFailed := s.anyFailed || !(s.client.sendGroupPacket parsed.group.toEibaddr apdu (scripts.headD {})).2 }
          simp only [hvalid, hfailed, sendCalls, allSent, KnxdClient.send, List.isEmpty_cons, Bool.not_false,
            Bool.true_or, Bool.or_true, Bool.not_and, Bool.or_assoc, true_and]

/-- A write of something says whether all of it got out. -/
theorem handle_status {defaultNamespace : Text} {isValid : Text → Bool} {query : Text}
    (hcalls : calls defaultNamespace isValid query ≠ []) (c : KnxdClient) (scripts : List SendScript) :
    (handle defaultNamespace isValid c scripts query).2.httpStatus =
      if allSent c (sendCalls scripts (calls defaultNamespace isValid query)) then 200 else 503 := by
  obtain ⟨⟨addr, apdu⟩, hmem⟩ := List.exists_mem_of_ne_nil _ hcalls
  obtain ⟨⟨value, ⟨hvalue, hsession, -⟩, hapdu⟩, x, hx, -⟩ := mem_calls_iff.mp hmem
  have heq : calls defaultNamespace isValid query =
      ((QueryString.parse query).getAll (text "a")).filterMap fun addr =>
        (KnxAddress.fromCometvisu defaultNamespace addr).map fun parsed => (parsed.group.toEibaddr, apdu) := by
    simp only [calls, hvalue, Option.bind_some, hapdu, hsession, Bool.false_eq_true, if_false]
  obtain ⟨hvalid, hfailed⟩ := writeEach_flags defaultNamespace apdu
    ((QueryString.parse query).getAll (text "a")) scripts { client := c }
  rw [← heq] at hvalid hfailed
  have hsome : (sendCalls scripts (calls defaultNamespace isValid query)).isEmpty = false := by
    cases hlist : calls defaultNamespace isValid query with
    | nil => exact absurd hlist hcalls
    | cons packet packets => rfl
  simp only [handle, hvalue, if_neg (List.ne_nil_of_mem hx), hsession, Bool.false_eq_true, if_false, hapdu, Loop.result,
    hvalid, hfailed, hsome, Bool.not_false, Bool.or_true, Bool.not_true, Bool.false_or]
  cases allSent c (sendCalls scripts (calls defaultNamespace isValid query)) <;> rfl

end WriteHandler

namespace Worker

/-- The packets that a request sends. -/
def packets (config : WorkerConfig) (w : Worker) (e : Serving) : List (UInt16 × List UInt8) :=
  let isValid := fun id => (w.sessions.isValid id e.now).2
  if e.request.path = text "/r" then groupReads config.defaultNamespace isValid e e.request.queryString
  else if e.request.path = text "/w" then
    WriteHandler.calls config.defaultNamespace isValid e.request.queryString
  else []

def sendCalls (config : WorkerConfig) (w : Worker) (e : Serving) : List SendCall :=
  WriteHandler.sendCalls e.scripts (packets config w e)

theorem next_client (config : WorkerConfig) (w : Worker) (e : Serving) :
    (next config w e).client = run KnxdClient.send w.client (sendCalls config w e) := by
  rw [next, sendCalls, packets]
  split_ifs with hr hw
  · rw [serve_read hr, ← WriteHandler.sendAll_eq_run]
    rfl
  · rw [serve_write hw, ← WriteHandler.sendAll_eq_run, ← WriteHandler.handle_client]
    rfl
  · by_cases hl : e.request.path = text "/l"
    · rw [serve_login hl]
      rfl
    · rw [serve_other hl hr hw]
      rfl

/-- The calls of a worker over some requests. -/
def lifeCalls (config : WorkerConfig) : Worker → List Serving → List SendCall
  | _, [] => []
  | w, e :: served => sendCalls config w e ++ lifeCalls config (next config w e) served

theorem run_client (config : WorkerConfig) (w : Worker) (served : List Serving) :
    (run (next config) w served).client = run KnxdClient.send w.client (lifeCalls config w served) := by
  induction served generalizing w with
  | nil => rfl
  | cons e served ih => rw [run_cons, ih, lifeCalls, run_append, next_client]

/-- Every call is made for one of the requests, on the sessions that it meets. -/
theorem mem_lifeCalls {config : WorkerConfig} {w : Worker} {served : List Serving} {call : SendCall}
    (h : call ∈ lifeCalls config w served) :
    ∃ before e after, served = before ++ e :: after ∧
      (call.groupAddr, call.apdu) ∈ packets config (run (next config) w before) e := by
  induction served generalizing w with
  | nil => cases h
  | cons e served ih =>
      rcases List.mem_append.mp h with h | h
      · exact ⟨[], e, served, rfl, WriteHandler.mem_sendCalls h⟩
      · obtain ⟨before, e', after, rfl, hpacket⟩ := ih h
        exact ⟨e :: before, e', after, rfl, hpacket⟩

/-- `knxd_writer` when a worker begins to serve: one attempt to connect and to open a write-only group socket. -/
def writer (path : String) (first : HandshakeScript) : KnxdClient :=
  match ({} : KnxdClient).connect path first.connect with
  | (c, false) => c
  | (c, true) =>
      match c.openGroupSocket true first with
      | (c, false) => c.disconnect
      | (c, true) => c

theorem writer_ready (calls : List SendCall) {path : String} (hpath : path ≠ "") (first : HandshakeScript) :
    (writer path first).Ready calls := by
  obtain ⟨hsound, hclean, hclosed, hstored⟩ :=
    KnxdClient.connect_spec (KnxdClient.new_sound calls) rfl path first.connect
  unfold writer
  generalize KnxdClient.connect {} path first.connect = result at hsound hclean hclosed hstored ⊢
  obtain ⟨c, ok⟩ := result
  cases ok with
  | false => exact hsound.ready_of_closed hclosed
  | true =>
      obtain ⟨hsound', hpath', htrue, -⟩ := KnxdClient.openGroupSocket_spec hsound hclean true first
      simp only
      generalize c.openGroupSocket true first = result at hsound' hpath' htrue ⊢
      obtain ⟨c', ok⟩ := result
      cases ok with
      | false => exact hsound'.disconnect.ready_of_closed rfl
      | true =>
          refine ⟨hsound', fun _ => (htrue rfl).2, fun _ => ?_⟩
          rw [show c'.socketPath = c.socketPath from hpath', hstored rfl]
          exact hpath

/-- Where the first connection stands, the worker knows its path, and its group sockets are write-only. -/
theorem writer_established {path : String} (hshort : path.utf8ByteSize < sunPathSize) {first : HandshakeScript}
    (hfirst : first.connect = .established) :
    (writer path first).socketPath = path ∧ (writer path first).writeOnly = true ∧
      ∀ a ∈ (writer path first).attempts, a.frame = buildOpenGroupcon true := by
  obtain ⟨c, hconnect, hfd, -, -, hpath, hattempts⟩ := KnxdClient.connect_established (c := {}) rfl hshort
  rw [← hfirst] at hconnect
  have hsame : c.openGroupSocket true first = KnxdClient.openGroupSocket { c with writeOnly := true } true first := by
    simp only [KnxdClient.openGroupSocket, hfd, Option.isNone_some, Bool.false_eq_true, if_false]
  have hgoes := KnxdClient.goesOn_openGroupSocket (buildOpenGroupcon true) { c with writeOnly := true } first
  have hresult : (writer path first).socketPath = (c.openGroupSocket true first).1.socketPath ∧
      (writer path first).writeOnly = (c.openGroupSocket true first).1.writeOnly ∧
      (writer path first).attempts = (c.openGroupSocket true first).1.attempts := by
    simp only [writer, hconnect]
    generalize c.openGroupSocket true first = result
    obtain ⟨c', ok⟩ := result
    cases ok <;> exact ⟨rfl, rfl, rfl⟩
  rw [← hsame] at hgoes
  obtain ⟨more, hmore, hframes⟩ := hgoes.attempts
  refine ⟨hresult.1.trans (hgoes.socketPath.trans hpath), hresult.2.1.trans hgoes.writeOnly, ?_⟩
  intro a ha
  rw [hresult.2.2, hmore, hattempts, List.nil_append] at ha
  exact (hframes a ha).elim id id

/-- Where it does not, the client has written nothing, its group sockets are not write-only, and it knows its path
unless no socket was to be had or the path is too long. -/
theorem writer_failed {path : String} {first : HandshakeScript}
    (hfirst : ¬(first.connect = .established ∧ path.utf8ByteSize < sunPathSize)) :
    (writer path first).socketPath =
        (if first.connect = .noSocket ∨ sunPathSize ≤ path.utf8ByteSize then "" else path) ∧
      (writer path first).writeOnly = false ∧ (writer path first).attempts = [] ∧
      (writer path first).groupSocketOpen = false := by
  simp only [writer, KnxdClient.connect, Option.isSome_none, Bool.false_eq_true, if_false]
  by_cases hsocket : first.connect = .noSocket
  · simp only [hsocket, if_true, true_or, and_self]
  · by_cases hlong : sunPathSize ≤ path.utf8ByteSize
    · simp only [hsocket, hlong, if_true, if_false, or_true, and_self]
    · have hrefused : first.connect ≠ .established := fun h => hfirst ⟨h, Nat.not_le.mp hlong⟩
      simp only [hsocket, hlong, hrefused, if_false, or_self, and_self, KnxdClient.closeFd]

/-- Where no socket was to be had for the first connection, the worker has no path. -/
theorem writer_noSocket (path : String) {first : HandshakeScript} (hfirst : first.connect = .noSocket) :
    (writer path first).socketPath = "" ∧ (writer path first).attempts = [] ∧
      (writer path first).groupSocketOpen = false := by
  obtain ⟨hstored, -, hattempts, hclosed⟩ := @writer_failed path first fun h => by
    rw [hfirst] at h
    cases h.1
  exact ⟨hstored.trans (if_pos (Or.inl hfirst)), hattempts, hclosed⟩

theorem writer_attempts (path : String) (first : HandshakeScript) :
    ∀ a ∈ (writer path first).attempts, a.frame = buildOpenGroupcon (writer path first).writeOnly := by
  by_cases hfirst : first.connect = .established ∧ path.utf8ByteSize < sunPathSize
  · obtain ⟨-, hmode, hattempts⟩ := writer_established hfirst.2 hfirst.1
    rw [hmode]
    exact hattempts
  · rw [(writer_failed hfirst).2.2.1]
    exact nofun

/-! ### The frames of a worker's life -/

/-- A frame that a worker may write while it serves the requests: it opens the group socket in the mode of the
worker's client, or is the packet of one of the requests, on the sessions that this one meets. -/
def Writes (config : WorkerConfig) (w : Worker) (served : List Serving) (frame : List UInt8) : Prop :=
  frame = buildOpenGroupcon w.client.writeOnly ∨
    ∃ before e after packet, served = before ++ e :: after ∧ packet ∈ packets config (run (next config) w before) e ∧
      frame = buildGroupPacket packet.1 packet.2

/-- The client has the path and the mode of the first one, and has tried to write such frames only. -/
structure Follows (config : WorkerConfig) (w : Worker) (served : List Serving) (c : KnxdClient) : Prop where
  socketPath : c.socketPath = w.client.socketPath
  writeOnly : c.writeOnly = w.client.writeOnly
  attempts : ∀ a ∈ c.attempts, Writes config w served a.frame

theorem Follows.send {config : WorkerConfig} {w : Worker} {served : List Serving} {c : KnxdClient}
    (h : Follows config w served c) {call : SendCall} (hcall : call ∈ lifeCalls config w served) :
    Follows config w served (c.send call) := by
  have hgoes := KnxdClient.goesOn_send c call
  obtain ⟨more, hmore, hframes⟩ := hgoes.attempts
  refine ⟨hgoes.socketPath.trans h.socketPath, hgoes.writeOnly.trans h.writeOnly, fun a ha => ?_⟩
  rw [hmore] at ha
  rcases List.mem_append.mp ha with ha | ha
  · exact h.attempts a ha
  · rcases hframes a ha with hopen | hpacket
    · exact Or.inl (h.writeOnly ▸ hopen)
    · obtain ⟨before, e, after, heq, hmem⟩ := mem_lifeCalls hcall
      exact Or.inr ⟨before, e, after, _, heq, hmem, hpacket⟩

theorem run_follows (config : WorkerConfig) (path : String) (first : HandshakeScript) (served : List Serving) :
    Follows config (start (writer path first)) served
      (run (next config) (start (writer path first)) served).client := by
  rw [run_client]
  exact run_invariant_along (Follows config _ served) (fun _ _ hcall h => h.send hcall)
    (along_of_forall fun call hcall _ => hcall)
    ⟨rfl, rfl, fun a ha => Or.inl (writer_attempts path first a ha)⟩

theorem Writes.selfDelimiting {config : WorkerConfig} {w : Worker} {served : List Serving}
    (hsmall : ∀ before e after, served = before ++ e :: after →
      ∀ packet ∈ packets config (run (next config) w before) e, packet.2.length ≤ 65531)
    {frame : List UInt8} (h : Writes config w served frame) : eibdSplitter.SelfDelimiting frame := by
  rcases h with rfl | ⟨before, e, after, packet, heq, hpacket, rfl⟩
  · exact Splitter.selfDelimiting_of_split (tryExtract_buildEibdMessage _ (by simp))
  · refine Splitter.selfDelimiting_of_split (tryExtract_buildEibdMessage _ ?_)
    have hlen := hsmall before e after heq packet hpacket
    simp only [List.length_append, List.length_cons, List.length_nil]
    omega

/-- **Every byte that a worker sends belongs to a request.** Over the whole life of a worker, if no second write
that is made stops inside its frame, every connection carries complete frames, each to open the group socket or the
packet of a request that was served, and at most one more that was cut; where the packets fit their prefixes this is
how knxd takes the bytes apart. -/
theorem wire_framed (config : WorkerConfig) {path : String} (hpath : path ≠ "") (first : HandshakeScript)
    (served : List Serving)
    (hwhole : Along KnxdClient.send KnxdClient.RetryWhole (writer path first)
      (lifeCalls config (start (writer path first)) served))
    (channel : Nat) :
    ∃ (complete : List (List UInt8)) (cut : List UInt8),
      Attempt.sent (run (next config) (start (writer path first)) served).client.attempts channel =
          complete.flatten ++ cut ∧
        (∀ frame ∈ complete, Writes config (start (writer path first)) served frame) ∧
        (cut = [] ∨ ∃ frame n, Writes config (start (writer path first)) served frame ∧ n < frame.length ∧
          cut = frame.take n) ∧
        ((∀ before e after, served = before ++ e :: after →
            ∀ packet ∈ packets config (run (next config) (start (writer path first)) before) e,
              packet.2.length ≤ 65531) →
          eibdSplitter.frames
              (Attempt.sent (run (next config) (start (writer path first)) served).client.attempts channel) =
            (complete, cut)) := by
  have hready : (run (next config) (start (writer path first)) served).client.Ready
      (lifeCalls config (start (writer path first)) served) := by
    rw [run_client]
    exact KnxdClient.run_ready (writer_ready _ hpath first) hwhole
  have hattempts := (run_follows config path first served).attempts
  obtain ⟨complete, cut, hsent, hcomplete, hcut⟩ := (hready.sound.framed channel).sent_eq hready.sound.written_le
  have hwrites : ∀ frame ∈ complete, Writes config (start (writer path first)) served frame := by
    intro frame hframe
    obtain ⟨a, ha, -, rfl⟩ := hcomplete frame hframe
    exact hattempts a ha
  have hpart : cut = [] ∨ ∃ frame n, Writes config (start (writer path first)) served frame ∧ n < frame.length ∧
      cut = frame.take n :=
    hcut.imp id fun ⟨a, ha, _, hacut, heq⟩ => ⟨a.frame, a.written, hattempts a ha, hacut.2, heq⟩
  refine ⟨complete, cut, hsent, hwrites, hpart, ?_⟩
  intro hsmall
  rw [hsent]
  refine Splitter.frames_flatten_append ?_ ?_
  · exact fun frame hframe => ((hwrites frame hframe).selfDelimiting hsmall).1
  · rcases hpart with rfl | ⟨frame, n, hframe, hn, rfl⟩
    · exact eibdSplitter.split_nil
    · exact (hframe.selfDelimiting hsmall).2 n hn

/-- A write to 1/2/3 that knxd answers. -/
def writeOnce : Serving where
  request := { pathInfo := text "/w", queryString := WriteHandler.query (text "1/2/3") (text "80") }
  num := 0
  cleaned := 0
  created := 0
  now := 0
  scripts := [{ opening := KnxdClient.answered, write := [.wrote 8] }]
  reading := Reader.start

theorem writeOnce_path : writeOnce.request.path = text "/w" := by decide +kernel

theorem writeOnce_packets (config : WorkerConfig) (w : Worker) : packets config w writeOnce = [(2563, [0x00, 0x80])] := by
  have haddress : KnxAddress.fromCometvisu config.defaultNamespace (urlDecode (text "1/2/3")) =
      some ⟨config.defaultNamespace, ⟨1, 2, 3, by decide, by decide⟩⟩ := by
    have hcolon : ascii ':' ∉ urlDecode (text "1/2/3") := by decide
    rw [KnxAddress.fromCometvisu, if_neg hcolon]
    rfl
  have hne : text "/w" ≠ text "/r" := by decide
  have hapdu : WriteHandler.apduOf (urlDecode (text "80")) = some [0x00, 0x80] := by decide
  have hplain : ascii '&' ∉ text "1/2/3" ∧ ascii '&' ∉ text "80" := by decide
  rw [packets, writeOnce_path, if_neg hne, if_pos rfl]
  have hcalls := WriteHandler.calls_query (fun id => (w.sessions.isValid id writeOnce.now).2) hplain.1 hplain.2
    haddress hapdu
  have haddr : KnxGroupAddress.toEibaddr ⟨1, 2, 3, by decide, by decide⟩ = 2563 := by decide
  rw [haddr] at hcalls
  exact hcalls

theorem confirmed_answered : KnxdClient.Confirmed KnxdClient.answered where
  connect := rfl
  writes := by decide
  reply := ⟨buildEibdMessage EibMessageType.openGroupcon [], [], by decide, by decide⟩

/-- The same write where the connection breaks inside the packet, which knxd then gets on a new one. -/
def writeTwice : Serving :=
  { writeOnce with
    scripts := [{ write := [.wrote 3, .failed], reopening := KnxdClient.answered, retry := [.wrote 8] }] }

theorem writeTwice_packets (config : WorkerConfig) (w : Worker) :
    packets config w writeTwice = [(2563, [0x00, 0x80])] :=
  writeOnce_packets config w

theorem wire_framed_writeTwice :
    let w := start (writer "/run/knx" KnxdClient.answered)
    ∃ (complete : List (List UInt8)) (cut : List UInt8),
      Attempt.sent (run (next ⟨[], {}⟩) w [writeTwice]).client.attempts 0 = complete.flatten ++ cut ∧
        (∀ frame ∈ complete, Writes ⟨[], {}⟩ w [writeTwice] frame) ∧
        (∃ frame n, Writes ⟨[], {}⟩ w [writeTwice] frame ∧ n < frame.length ∧ cut = frame.take n) ∧
        eibdSplitter.frames (Attempt.sent (run (next ⟨[], {}⟩) w [writeTwice]).client.attempts 0) = (complete, cut) ∧
        cut = (buildGroupPacket 2563 [0x00, 0x80]).take 3 := by
  intro w
  have hcalls : lifeCalls ⟨[], {}⟩ w [writeTwice] = [⟨2563, [0x00, 0x80], writeTwice.scripts.headD {}⟩] := by
    rw [lifeCalls, lifeCalls, List.append_nil, sendCalls, writeTwice_packets]
    rfl
  have hwhole : Along KnxdClient.send KnxdClient.RetryWhole (writer "/run/knx" KnxdClient.answered)
      (lifeCalls ⟨[], {}⟩ w [writeTwice]) := by
    rw [hcalls]
    exact ⟨fun _ _ => Or.inr (by decide), trivial⟩
  have hsmall : ∀ before e after, [writeTwice] = before ++ e :: after →
      ∀ packet ∈ packets ⟨[], {}⟩ (run (next ⟨[], {}⟩) w before) e, packet.2.length ≤ 65531 := by
    intro before e after heq packet hpacket
    obtain rfl : writeTwice = e := by
      cases before with
      | nil => exact (List.cons.inj heq).1
      | cons first before => exact absurd (List.cons.inj heq).2 (by simp)
    rw [writeTwice_packets, List.mem_singleton] at hpacket
    rw [hpacket]
    decide
  obtain ⟨complete, cut, hsent, hwrites, hpart, hframes⟩ :=
    wire_framed ⟨[], {}⟩ (by decide) KnxdClient.answered [writeTwice] hwhole 0
  have hattempts : Attempt.sent (run (next ⟨[], {}⟩) w [writeTwice]).client.attempts 0 =
      buildOpenGroupcon true ++ (buildGroupPacket 2563 [0x00, 0x80]).take 3 := by
    rw [run_client, hcalls]
    decide
  have hcut : cut = (buildGroupPacket 2563 [0x00, 0x80]).take 3 := by
    have hsplit := hframes hsmall
    have hopen : eibdSplitter.frames ([buildOpenGroupcon true].flatten ++ (buildGroupPacket 2563 [0x00, 0x80]).take 3) =
        ([buildOpenGroupcon true], (buildGroupPacket 2563 [0x00, 0x80]).take 3) :=
      Splitter.frames_flatten_append (by decide) (by decide)
    rw [hattempts] at hsplit
    exact congrArg Prod.snd (hsplit.symm.trans hopen)
  refine ⟨complete, cut, hsent, hwrites, hpart.resolve_left ?_, hframes hsmall, hcut⟩
  rw [hcut]
  decide

theorem serve_write_status {config : WorkerConfig} {w : Worker} {e : Serving} (hpath : e.request.path = text "/w")
    (hpackets : packets config w e ≠ []) :
    (serve config w e).1.statusCode = if WriteHandler.allSent w.client (sendCalls config w e) then 200 else 503 := by
  have hne : text "/w" ≠ text "/r" := by decide
  rw [packets, hpath, if_neg hne, if_pos rfl] at hpackets
  rw [serve_write hpath, sendCalls, packets, hpath, if_neg hne, if_pos rfl]
  exact WriteHandler.handle_status hpackets w.client e.scripts

/-- **200 means written.** A write that has something to send is answered with 200 exactly if each of its packets was
written as a whole when its turn came, and with 503 otherwise. -/
theorem ok_iff_delivered {config : WorkerConfig} {w : Worker} {e : Serving} (hpath : e.request.path = text "/w")
    (hpackets : packets config w e ≠ []) :
    ((serve config w e).1.statusCode = 200 ↔
        ∀ before call after, sendCalls config w e = before ++ call :: after →
          (run KnxdClient.send w.client before).Delivers call) ∧
      ((serve config w e).1.statusCode = 200 ∨ (serve config w e).1.statusCode = 503) := by
  rw [serve_write_status hpath hpackets, ← WriteHandler.allSent_iff]
  cases WriteHandler.allSent w.client (sendCalls config w e) <;> simp

theorem ok_iff_delivered_writeOnce :
    (serve ⟨[], {}⟩ (start (writer "/run/knx" KnxdClient.answered)) writeOnce).1.statusCode = 200 ↔
      ∀ before call after,
        sendCalls ⟨[], {}⟩ (start (writer "/run/knx" KnxdClient.answered)) writeOnce = before ++ call :: after →
          (run KnxdClient.send (start (writer "/run/knx" KnxdClient.answered)).client before).Delivers call := by
  refine (ok_iff_delivered writeOnce_path ?_).1
  rw [writeOnce_packets]
  decide

theorem send_noPath {c : KnxdClient} (hpath : c.socketPath = "") (hclosed : c.groupSocketOpen = false)
    (calls : List SendCall) : run KnxdClient.send c calls = c := by
  induction calls with
  | nil => rfl
  | cons call calls ih =>
      rw [run_cons, KnxdClient.send, KnxdClient.sendGroupPacket_noPath hpath hclosed]
      exact ih

/-- It never writes anything, nor tries to. -/
theorem run_noPath (config : WorkerConfig) {w : Worker} (hpath : w.client.socketPath = "")
    (hclosed : w.client.groupSocketOpen = false) (served : List Serving) :
    (run (next config) w served).client = w.client := by
  rw [run_client, send_noPath hpath hclosed]

theorem write_noPath {config : WorkerConfig} {w : Worker} (hnone : w.client.socketPath = "")
    (hclosed : w.client.groupSocketOpen = false) {e : Serving} (hpath : e.request.path = text "/w")
    (hpackets : packets config w e ≠ []) : (serve config w e).1.statusCode = 503 := by
  rw [serve_write_status hpath hpackets, sendCalls]
  obtain ⟨packet, rest, hcons⟩ := List.exists_cons_of_ne_nil hpackets
  rw [hcons, WriteHandler.sendCalls, WriteHandler.allSent,
    KnxdClient.sendGroupPacket_noPath hnone hclosed, Bool.false_and, if_neg Bool.false_ne_true]

/-- One answered write makes a worker that knows its path open its group socket, if it is not open yet. -/
theorem next_writeOnce_opens (config : WorkerConfig) {w : Worker} (hclosed : w.client.groupSocketOpen = false)
    (hpath : w.client.socketPath ≠ "") (hshort : w.client.socketPath.utf8ByteSize < sunPathSize) :
    ∃ a ∈ (next config w writeOnce).client.attempts, a.frame = buildOpenGroupcon w.client.writeOnly := by
  obtain ⟨hok, -, a, ha, hframe⟩ := KnxdClient.reconnect_confirmed confirmed_answered hpath hshort
  refine ⟨a, ?_, hframe⟩
  rw [next_client, sendCalls, writeOnce_packets]
  change a ∈ (w.client.sendGroupPacket 2563 [0x00, 0x80] { opening := KnxdClient.answered, write := [.wrote 8] }).1.attempts
  rw [KnxdClient.sendGroupPacket, hclosed, Bool.not_false, Bool.or_true, if_pos rfl]
  generalize w.client.reconnect KnxdClient.answered = result at hok ha ⊢
  obtain ⟨c, ok⟩ := result
  cases hok
  exact (KnxdClient.goesOn_sendFrame _ c _).mem_attempts ha

/-- Every group socket of a worker is opened in the mode of its first client. -/
theorem opened_mode {config : WorkerConfig} {path : String} {first : HandshakeScript} {served : List Serving}
    {a : Attempt UInt8} (ha : a ∈ (run (next config) (start (writer path first)) served).client.attempts)
    {writeOnly : Bool} (hframe : a.frame = buildOpenGroupcon writeOnly) :
    writeOnly = (writer path first).writeOnly := by
  rcases (run_follows config path first served).attempts a ha with hopen | ⟨_, _, _, packet, -, -, hpacket⟩
  · exact KnxdClient.buildOpenGroupcon_injective (hframe.symm.trans hopen)
  · exact absurd (hframe.symm.trans hpacket) (KnxdClient.buildOpenGroupcon_ne_buildGroupPacket _ _ _)

/-- **The first connection decides how all others are opened.** A worker never asks knxd for the telegrams of the
bus, which it would not read, exactly if its first connection is established, or no socket is to be had for it. After
any other failure it asks for them whenever it opens its group socket. -/
theorem opens_writeOnly_iff (config : WorkerConfig) {path : String} (hpath : path ≠ "")
    (hshort : path.utf8ByteSize < sunPathSize) (first : HandshakeScript) :
    ((∀ served, ∀ a ∈ (run (next config) (start (writer path first)) served).client.attempts,
          a.frame ≠ buildOpenGroupcon false) ↔
        first.connect = .established ∨ first.connect = .noSocket) ∧
      (first.connect ≠ .established → first.connect ≠ .noSocket →
        ∀ served, ∀ a ∈ (run (next config) (start (writer path first)) served).client.attempts,
          ∀ writeOnly, a.frame = buildOpenGroupcon writeOnly → writeOnly = false) := by
  refine ⟨⟨fun hnever => ?_, ?_⟩, fun hfirst _ served a ha writeOnly hframe => ?_⟩
  · by_contra hfirst
    rw [not_or] at hfirst
    obtain ⟨hstored, hmode, -, hclosed⟩ := writer_failed fun h => hfirst.1 h.1
    rw [if_neg (not_or.mpr ⟨hfirst.2, Nat.not_le.mpr hshort⟩)] at hstored
    obtain ⟨a, ha, hframe⟩ := @next_writeOnce_opens config (start (writer path first)) hclosed
      (hstored.symm ▸ hpath) (hstored.symm ▸ hshort)
    exact hnever [writeOnce] a ha (hframe.trans (congrArg buildOpenGroupcon hmode))
  · rintro (hfirst | hfirst) served a ha
    · intro hframe
      have hmode := (opened_mode ha hframe).trans (writer_established hshort hfirst).2.1
      cases hmode
    · obtain ⟨hstored, hattempts, hclosed⟩ := writer_noSocket path hfirst
      rw [run_noPath config hstored hclosed, show (start (writer path first)).client.attempts = [] from hattempts] at ha
      cases ha
  · exact (opened_mode ha hframe).trans (writer_failed fun h => hfirst h.1).2.1

theorem opens_writeOnly_iff_refused :
    (¬∀ served, ∀ a ∈ (run (next ⟨[], {}⟩) (start (writer "/run/knx" {})) served).client.attempts,
        a.frame ≠ buildOpenGroupcon false) ∧
      ∀ a ∈ (run (next ⟨[], {}⟩) (start (writer "/run/knx" {})) [writeOnce]).client.attempts,
        ∀ writeOnly, a.frame = buildOpenGroupcon writeOnly → writeOnly = false := by
  have hpath : "/run/knx" ≠ "" ∧ "/run/knx".utf8ByteSize < sunPathSize := by decide +kernel
  obtain ⟨hiff, hreading⟩ := opens_writeOnly_iff ⟨[], {}⟩ hpath.1 hpath.2 {}
  exact ⟨fun h => absurd (hiff.mp h) (by decide), hreading (by decide) (by decide) [writeOnce]⟩

/-- The calls that knxd answers all get through on a client that knows its path. -/
theorem allSent_answered {c : KnxdClient} (hpath : c.socketPath ≠ "") (hshort : c.socketPath.utf8ByteSize < sunPathSize)
    {calls : List SendCall} (hanswers : Along KnxdClient.send KnxdClient.Answers c calls) :
    WriteHandler.allSent c calls = true := by
  induction calls generalizing c with
  | nil => rfl
  | cons call calls ih =>
      have hsame := (KnxdClient.goesOn_send c call).socketPath
      rw [WriteHandler.allSent, KnxdClient.sendGroupPacket_answered hanswers.1 hpath hshort, Bool.true_and]
      exact ih (hsame ▸ hpath) (hsame ▸ hshort) hanswers.2

/-- **A worker comes back from every failure of knxd but one.** Whatever it has been through, a write is answered
with 200 as soon as knxd answers it, on the connection at hand or on a new one, exactly if the worker got a socket
for its first connection. If it did not, every write is answered with 503. -/
theorem writes_recover_iff (config : WorkerConfig) {path : String} (hpath : path ≠ "")
    (hshort : path.utf8ByteSize < sunPathSize) (first : HandshakeScript) :
    ((∀ served e, e.request.path = text "/w" →
          packets config (run (next config) (start (writer path first)) served) e ≠ [] →
          Along KnxdClient.send KnxdClient.Answers (run (next config) (start (writer path first)) served).client
            (sendCalls config (run (next config) (start (writer path first)) served) e) →
          (serve config (run (next config) (start (writer path first)) served) e).1.statusCode = 200) ↔
        first.connect ≠ .noSocket) ∧
      (first.connect = .noSocket →
        ∀ served e, e.request.path = text "/w" →
          packets config (run (next config) (start (writer path first)) served) e ≠ [] →
          (serve config (run (next config) (start (writer path first)) served) e).1.statusCode = 503) := by
  have hnever : first.connect = .noSocket → ∀ served e, e.request.path = text "/w" →
      packets config (run (next config) (start (writer path first)) served) e ≠ [] →
      (serve config (run (next config) (start (writer path first)) served) e).1.statusCode = 503 := by
    intro hfirst served e hwrite hpackets
    obtain ⟨hstored, -, hclosed⟩ := writer_noSocket path hfirst
    have hsame := run_noPath config (w := start (writer path first)) hstored hclosed served
    exact write_noPath (hsame ▸ hstored) (hsame ▸ hclosed) hwrite hpackets
  refine ⟨⟨fun hrecover hfirst => ?_, fun hfirst served e hwrite hpackets hanswers => ?_⟩, hnever⟩
  · have hpackets : packets config (start (writer path first)) writeOnce ≠ [] := by
      rw [writeOnce_packets]
      exact List.cons_ne_nil _ _
    have hanswers : Along KnxdClient.send KnxdClient.Answers (writer path first)
        (sendCalls config (start (writer path first)) writeOnce) := by
      rw [sendCalls, writeOnce_packets]
      exact ⟨⟨fun _ => confirmed_answered, Or.inl (by decide)⟩, trivial⟩
    have hok := hrecover [] writeOnce writeOnce_path hpackets hanswers
    rw [hnever hfirst [] writeOnce writeOnce_path hpackets] at hok
    cases hok
  · have hstored : (writer path first).socketPath = path := by
      by_cases hestablished : first.connect = .established
      · exact (writer_established hshort hestablished).1
      · rw [(writer_failed fun h => hestablished h.1).1, if_neg (not_or.mpr ⟨hfirst, Nat.not_le.mpr hshort⟩)]
    have hsame := (run_follows config path first served).socketPath.trans hstored
    have hsent := allSent_answered (by rw [hsame]; exact hpath) (by rw [hsame]; exact hshort) hanswers
    rw [serve_write_status hwrite hpackets, hsent, if_pos rfl]

/-- The second write after a broken connection gets through; without a first socket nothing does. -/
theorem writes_recover_iff_writeTwice :
    (serve ⟨[], {}⟩ (start (writer "/run/knx" KnxdClient.answered)) writeTwice).1.statusCode = 200 ∧
      (serve ⟨[], {}⟩ (start (writer "/run/knx" { connect := .noSocket })) writeOnce).1.statusCode = 503 := by
  have hanswers : Along KnxdClient.send KnxdClient.Answers (writer "/run/knx" KnxdClient.answered)
      (sendCalls ⟨[], {}⟩ (start (writer "/run/knx" KnxdClient.answered)) writeTwice) := by
    rw [sendCalls, writeTwice_packets]
    exact ⟨⟨fun hclosed => absurd hclosed (by decide), Or.inr ⟨confirmed_answered, by decide⟩⟩, trivial⟩
  have hsome : ∀ w, packets ⟨[], {}⟩ w writeTwice ≠ [] ∧ packets ⟨[], {}⟩ w writeOnce ≠ [] := by
    intro w
    rw [writeTwice_packets, writeOnce_packets]
    simp
  constructor
  · exact (writes_recover_iff ⟨[], {}⟩ (by decide) (by decide +kernel) KnxdClient.answered).1.mpr (by decide) [] writeTwice
      writeOnce_path (hsome _).1 hanswers
  · exact (writes_recover_iff ⟨[], {}⟩ (by decide) (by decide +kernel) { connect := .noSocket }).2 rfl [] writeOnce
      writeOnce_path (hsome _).2

end Worker
end KnxdFcgi
