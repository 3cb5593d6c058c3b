import KnxdFcgi.CacheDrain
import KnxdFcgi.KnxdSending
import KnxdFcgi.ReadReply
import KnxdFcgi.WriteHandler

/-! A value written by `/w` comes back from `/r`. The way leads over the query string, the digits of the
value, the APDU and its frame to knxd, which is assumed to put every packet that it has received whole on
the socket of the cache reader; and from there over the frame, the APDU, the slot of the cache and the
digits again to the text of the answer. -/

namespace KnxdFcgi

open Machine Framing Telegram

/-- The packet that the cache reader receives for an APDU written to a group address: the device that is
named as its source, the address and the APDU. -/
def busPacket (source : UInt8 × UInt8) (addr : UInt16) (apdu : List UInt8) : List UInt8 :=
  buildEibdMessage EibMessageType.apduPacket
    ([source.1, source.2, UInt8.ofNat (addr.toNat / 256), UInt8.ofNat addr.toNat] ++ apdu)

/-- What knxd makes of a frame: it passes on the group packets that it has received whole. -/
def relay (source : UInt8 × UInt8) (a : Attempt UInt8) : Option (List UInt8) :=
  if a.written = a.frame.length then
    match parseEibdMessage a.frame with
    | .parsed type (addr0 :: addr1 :: apdu) =>
        if type = EibMessageType.groupPacket then
          some (buildEibdMessage EibMessageType.apduPacket (source.1 :: source.2 :: addr0 :: addr1 :: apdu))
        else none
    | _ => none
  else none

/-- The packets that knxd has passed on for a client. -/
def relays (source : UInt8 × UInt8) (c : KnxdClient) : List (List UInt8) := c.attempts.filterMap (relay source)

theorem relay_openGroupcon (source : UInt8 × UInt8) (fd written : Nat) (writeOnly : Bool) :
    relay source ⟨fd, buildOpenGroupcon writeOnly, written⟩ = none := by
  have hparse : parseEibdMessage (buildOpenGroupcon writeOnly) = .parsed EibMessageType.openGroupcon _ :=
    parseEibdMessage_build _ (by simp)
  have htype : EibMessageType.openGroupcon ≠ EibMessageType.groupPacket := by decide
  simp [relay, hparse, htype]

theorem relay_groupPacket (source : UInt8 × UInt8) (fd written : Nat) (addr : UInt16) {apdu : List UInt8}
    (hapdu : apdu.length ≤ 65531) :
    relay source ⟨fd, buildGroupPacket addr apdu, written⟩ =
      if written = (buildGroupPacket addr apdu).length then some (busPacket source addr apdu) else none := by
  have hparse : parseEibdMessage (buildGroupPacket addr apdu) = .parsed EibMessageType.groupPacket _ :=
    parseEibdMessage_build _ (by simp; omega)
  simp only [relay, hparse, List.cons_append, List.nil_append, if_true]
  rfl

namespace KnxdClient

variable {c : KnxdClient} (source : UInt8 × UInt8)

theorem relays_connect (path : String) (answer : ConnectAnswer) :
    relays source (c.connect path answer).1 = relays source c := by
  have hattempts : (c.connect path answer).1.attempts = c.attempts := by
    unfold connect
    dsimp only
    split_ifs <;> rfl
  rw [relays, relays, hattempts]

theorem relays_write (answers : List SysWrite) (frame : List UInt8) :
    relays source (c.write answers frame).1 = relays source c ++ match c.fd with
      | none => []
      | some fd => (relay source ⟨fd, frame, (writeAll answers frame.length).1⟩).toList := by
  unfold write
  cases c.fd with
  | none => exact (List.append_nil _).symm
  | some fd => simp only [relays, List.filterMap_append, List.filterMap_cons, List.filterMap_nil]; rfl

theorem relays_openGroupSocket (writeOnly : Bool) (script : HandshakeScript) :
    relays source (c.openGroupSocket writeOnly script).1 = relays source c := by
  have hwrite := relays_write (c := { c with writeOnly := writeOnly }) source script.writes
    (buildOpenGroupcon writeOnly)
  unfold openGroupSocket
  split_ifs
  · rfl
  · generalize { c with writeOnly := writeOnly }.write script.writes (buildOpenGroupcon writeOnly) = result
      at hwrite ⊢
    obtain ⟨c', ok⟩ := result
    have hsame : relays source c' = relays source c := by
      simp only [relay_openGroupcon, Option.toList_none] at hwrite
      split at hwrite <;> exact hwrite.trans (List.append_nil _)
    cases ok with
    | false => exact hsame
    | true =>
        simp only [awaitReply]
        split
        · exact hsame
        · split <;> exact hsame

theorem relays_reconnect (script : HandshakeScript) :
    relays source (c.reconnect script).1 = relays source c := by
  have hconnect := relays_connect (c := c.disconnect) source c.socketPath script.connect
  unfold reconnect
  split_ifs
  · rfl
  · generalize c.disconnect.connect c.socketPath script.connect = result at hconnect ⊢
    obtain ⟨c', ok⟩ := result
    cases ok with
    | false => exact hconnect
    | true =>
        have hopen := relays_openGroupSocket (c := c') source c'.writeOnly script
        simp only
        generalize c'.openGroupSocket c'.writeOnly script = result at hopen ⊢
        obtain ⟨c'', ok⟩ := result
        cases ok <;> exact hopen.trans hconnect

theorem relays_write_groupPacket (answers : List SysWrite) (addr : UInt16) {apdu : List UInt8}
    (hapdu : apdu.length ≤ 65531) :
    relays source (c.write answers (buildGroupPacket addr apdu)).1 =
      relays source c ++
        bif (c.write answers (buildGroupPacket addr apdu)).2 then [busPacket source addr apdu] else [] := by
  rw [relays_write]
  cases hfd : c.fd with
  | none => simp [write, hfd]
  | some fd =>
      simp only [write, hfd, relay_groupPacket _ _ _ _ hapdu, ← writeAll_eq_true_iff]
      cases (writeAll answers (buildGroupPacket addr apdu).length).2 <;> rfl

theorem relays_sendFrame (addr : UInt16) {apdu : List UInt8} (hapdu : apdu.length ≤ 65531)
    (script : SendScript) :
    relays source (c.sendFrame (buildGroupPacket addr apdu) script).1 =
      relays source c ++
        bif (c.sendFrame (buildGroupPacket addr apdu) script).2 then [busPacket source addr apdu] else [] := by
  have hwrite := relays_write_groupPacket (c := c) source script.write addr hapdu
  unfold sendFrame
  generalize c.write script.write (buildGroupPacket addr apdu) = result at hwrite ⊢
  obtain ⟨c', ok⟩ := result
  cases ok with
  | true => exact hwrite
  | false =>
      have hsame : relays source c' = relays source c := by simpa using hwrite
      have hreconnect := relays_reconnect (c := c') source script.reopening
      simp only
      generalize c'.reconnect script.reopening = result at hreconnect ⊢
      obtain ⟨c'', ok⟩ := result
      cases ok with
      | false => simpa [hsame] using hreconnect
      | true =>
          have hretry := relays_write_groupPacket (c := c'') source script.retry addr hapdu
          rwa [show relays source c'' = relays source c from hreconnect.trans hsame] at hretry

/-- A packet is passed on exactly if `send_group_packet` reports that it was sent. -/
theorem relays_sendGroupPacket (addr : UInt16) {apdu : List UInt8} (hapdu : apdu.length ≤ 65531)
    (script : SendScript) :
    relays source (c.sendGroupPacket addr apdu script).1 =
      relays source c ++
        bif (c.sendGroupPacket addr apdu script).2 then [busPacket source addr apdu] else [] := by
  unfold sendGroupPacket
  split_ifs
  · have hreconnect := relays_reconnect (c := c) source script.opening
    generalize c.reconnect script.opening = result at hreconnect ⊢
    obtain ⟨c', ok⟩ := result
    cases ok with
    | false => simpa using hreconnect
    | true =>
        have hframe := relays_sendFrame (c := c') source addr hapdu script
        rwa [show relays source c' = relays source c from hreconnect] at hframe
  · exact relays_sendFrame source addr hapdu script

end KnxdClient

/-! ### From knxd into the cache -/

theorem telegramOf_busPacket (source : UInt8 × UInt8) (addr : UInt16) {apdu : List UInt8}
    (hshort : 2 ≤ apdu.length) (hlong : apdu.length ≤ 65529) :
    KnxdClient.telegramOf (busPacket source addr apdu) = some (addr, apdu) := by
  have hparse : parseEibdMessage (busPacket source addr apdu) = .parsed EibMessageType.apduPacket _ :=
    parseEibdMessage_build _ (by simp; omega)
  simp only [KnxdClient.telegramOf, hparse, List.cons_append, List.nil_append, hshort, true_or, and_self,
    if_true, bigEndian_ofNat addr.toNat_lt, UInt16.ofNat_toNat]

namespace CacheReader

/-- The telegram of a packet is taken by the poll whose reads complete it, however it was cut. -/
theorem taken_busPacket {s : CacheReader} {pushed : Nat} (hpc : s.pc = .draining pushed)
    (hfd : s.client.fd.isSome) {source : UInt8 × UInt8} {addr : UInt16} {apdu more : List UInt8}
    (hshort : 2 ≤ apdu.length) (hlong : apdu.length ≤ 65529) {script : ReaderScript}
    (hdata : ∀ answer ∈ script.poll.reads, ∃ chunk, answer = .data chunk)
    (hstream : s.client.readBuffer ++ bytesOf script.poll.reads = busPacket source addr apdu ++ more) :
    s.taken script = some ⟨addr, apdu, script.time⟩ := by
  have hself : eibdSplitter.split (busPacket source addr apdu) = some (busPacket source addr apdu, []) :=
    tryExtract_buildEibdMessage _ (by simp; omega)
  have hextract : tryExtractMessage (s.client.readBuffer ++ bytesOf script.poll.reads) =
      some (busPacket source addr apdu, [] ++ more) := by
    rw [hstream]
    exact eibdSplitter.split_more more hself
  have hmessage := readMessage_of_data hdata hextract
  have hopen : s.client.fd.isNone = false := by simpa [Option.isNone_iff_eq_none] using hfd
  simp only [taken, hpc, KnxdClient.pollGroupTelegram, KnxdClient.pollMessage, hopen, KnxdClient.awaitMessage,
    KnxdClient.takeMessage, hmessage, telegramOf_busPacket source addr hshort hlong, Bool.false_eq_true,
    if_false, Option.map_some]

end CacheReader

/-- The value of a write with the given APCI byte and data. -/
def writtenValue (apci : UInt8) (data : List UInt8) : List UInt8 := if data = [] then [apci &&& 0x3F] else data

theorem pushOf_write {apci : UInt8} (hapci : apci &&& 0xC0 = 0x80) (addr : UInt16) (data : List UInt8)
    (time : UInt32) :
    pushOf ⟨addr, 0x00 :: apci :: data, time⟩ = some ⟨addr, writtenValue apci data, time⟩ := by
  rw [pushOf_cons, hapci]
  rfl

theorem apduOf_write {value : Text} {apci : UInt8} {data : List UInt8}
    (hvalue : hexDecode value = apci :: data) (hapci : apci &&& 0xC0 = 0x80) :
    WriteHandler.apduOf value = some (0x00 :: apci :: data) := by
  have hbit : ∀ b : UInt8, b &&& 0xC0 = 0x80 → b &&& 0x80 = 0x80 := by decide +kernel
  rw [WriteHandler.apduOf, hvalue]
  exact if_neg (not_not.mpr (hbit apci hapci))

/-- A write that is answered with 200 has put its packet on the bus. -/
theorem relays_handle {defaultNamespace : Text} {isValid : Text → Bool} {rawAddr rawValue : Text}
    (hrawAddr : ascii '&' ∉ rawAddr) (hrawValue : ascii '&' ∉ rawValue) {address : KnxAddress}
    (haddress : KnxAddress.fromCometvisu defaultNamespace (urlDecode rawAddr) = some address)
    {apdu : List UInt8} (hapdu : WriteHandler.apduOf (urlDecode rawValue) = some apdu)
    (hlen : apdu.length ≤ 65531) {worker worker' : KnxdClient} {scripts : List KnxdClient.SendScript}
    (hwrite : WriteHandler.handle defaultNamespace isValid worker scripts
      (WriteHandler.query rawAddr rawValue) = (worker', {})) (source : UInt8 × UInt8) :
    relays source worker' = relays source worker ++ [busPacket source address.group.toEibaddr apdu] := by
  have hpassed := KnxdClient.relays_sendGroupPacket (c := worker) source address.group.toEibaddr hlen
    (scripts.headD {})
  rw [WriteHandler.handle_query isValid worker scripts hrawAddr hrawValue haddress hapdu] at hwrite
  obtain ⟨hclient, hresult⟩ := Prod.mk.inj hwrite
  cases hok : (worker.sendGroupPacket address.group.toEibaddr apdu (scripts.headD {})).2 with
  | true => rwa [hok, hclient] at hpassed
  | false =>
      rw [hok] at hresult
      cases congrArg WriteResult.httpStatus hresult

/-- The poll that receives the packet of a write pushes the value written. -/
theorem pushes_taken {reader : CacheReader} {pushed : Nat} (hpc : reader.pc = .draining pushed)
    (hfd : reader.client.fd.isSome) {source : UInt8 × UInt8} {addr : UInt16} {apci : UInt8}
    {data more : List UInt8} (hapci : apci &&& 0xC0 = 0x80) (hlen : data.length ≤ 65527)
    {script : ReaderScript} (hdata : ∀ answer ∈ script.poll.reads, ∃ chunk, answer = .data chunk)
    (hstream : reader.client.readBuffer ++ bytesOf script.poll.reads =
      busPacket source addr (0x00 :: apci :: data) ++ more) :
    pushes (reader.taken script).toList = [⟨addr, writtenValue apci data, script.time⟩] := by
  have hshort : 2 ≤ (0x00 :: apci :: data).length := by simp
  have hlong : (0x00 :: apci :: data).length ≤ 65529 := by
    simp only [List.length_cons]
    omega
  rw [CacheReader.taken_busPacket hpc hfd hshort hlong hdata hstream, Option.toList_some, pushes,
    List.filterMap_cons_some (pushOf_write hapci addr data script.time), List.filterMap_nil]

namespace ReadSystem

/-- The request of `a=…&t=-1` for one address. -/
def cacheRequest (addr : UInt16) : ReadRequest := ⟨some (-1), none, [addr], List.pairwise_singleton _ _⟩

/-- Where the handler of a read from the cache is when it has so many steps to go, and what it has
collected. -/
def stage (addr : UInt16) (value : List UInt8) : Nat → ReadPc × List (UInt16 × List UInt8)
  | 0 => (.done, [(addr, value)])
  | 1 => (.loopHead, [(addr, value)])
  | 2 => (.groupReads, [(addr, value)])
  | 3 => (.get [], [(addr, value)])
  | _ => (.get [addr], [])

/-- The cache holds the value, and the handler has so many steps to go. -/
structure Reading (addr : UInt16) (value : List UInt8) (s : ReadSystem) (stepsLeft : Nat) : Prop where
  held : ∃ e, SharedGroupCache.stored s.cache addr = some e ∧ e.bytes = value
  at_stage : (s.reader.pc, s.reader.values) = stage addr value stepsLeft
  le_four : stepsLeft ≤ 4

/-- The steps of the handler among the events. -/
def steps : List ReadEvent → Nat
  | [] => 0
  | .push _ :: events => steps events
  | .step _ :: events => steps events + 1

variable {config : ReadConfig} {addr : UInt16} {value : List UInt8} {s : ReadSystem} {stepsLeft : Nat}

theorem Reading.push (h : s.Reading addr value stepsLeft) (hzero : addr ≠ 0) {p : Push} (hp : p.addr ≠ addr) :
    (s.next config (cacheRequest addr) (.push p)).Reading addr value stepsLeft := by
  refine ⟨?_, h.at_stage, h.le_four⟩
  have hsame : SharedGroupCache.stored (s.next config (cacheRequest addr) (.push p)).cache addr =
      SharedGroupCache.stored s.cache addr :=
    SharedGroupCache.stored_snoc_of_ne s.journal p hzero hp.symm
  rw [hsame]
  exact h.held

theorem Reading.step (h : s.Reading addr value stepsLeft) (tick : Tick) :
    (s.next config (cacheRequest addr) (.step tick)).Reading addr value (stepsLeft - 1) := by
  refine ⟨h.held, ?_, (Nat.sub_le _ _).trans h.le_four⟩
  obtain ⟨hpc, hvalues⟩ := Prod.mk.inj h.at_stage
  have hget : SharedGroupCache.get s.cache addr (-1) tick.now = some value := by
    obtain ⟨e, hstored, hbytes⟩ := h.held
    rw [SharedGroupCache.get_eq, hstored, ← hbytes]
    rfl
  have hage : (cacheRequest addr).maxAgeSec = -1 := rfl
  have htimeout : (cacheRequest addr).timeoutSec config = 0 := rfl
  have hle := h.le_four
  match stepsLeft, hle, hpc, hvalues with
  | 0, _, hpc, hvalues => simp [next, Reader.step, hpc, hvalues, stage]
  | 1, _, hpc, hvalues => simp [next, Reader.step, hpc, hvalues, stage, htimeout]
  | 2, _, hpc, hvalues => simp [next, Reader.step, hpc, hvalues, stage]
  | 3, _, hpc, hvalues => simp [next, Reader.step, hpc, hvalues, stage]
  | 4, _, hpc, hvalues => simp [next, Reader.step, hpc, hvalues, stage, hage, hget]

/-- With four steps of its own and any number of pushes for other addresses, the handler is done. -/
theorem Reading.run (config : ReadConfig) (hzero : addr ≠ 0) {events : List ReadEvent} (h : s.Reading addr value stepsLeft)
    (hother : ∀ p, .push p ∈ events → p.addr ≠ addr) :
    (Machine.run (next config (cacheRequest addr)) s events).Reading addr value (stepsLeft - steps events) := by
  induction events generalizing s stepsLeft with
  | nil => exact h
  | cons event events ih =>
      have hrest : ∀ p, .push p ∈ events → p.addr ≠ addr := fun p hp => hother p (List.mem_cons_of_mem _ hp)
      cases event with
      | push p => exact ih (h.push hzero (hother p List.mem_cons_self)) hrest
      | step tick =>
          rw [steps, Nat.add_comm, ← Nat.sub_sub]
          exact ih (h.step tick) hrest

theorem start_reading {journal : List Push} {p : Push} (hlen : p.value.length ≤ kMaxSharedValueBytes)
    {slot : Fin kSharedCacheCapacity}
    (hslot : SharedGroupCache.findSlot (SharedGroupCache.replay journal) p.addr = some slot) (covered : Nat) :
    (start (cacheRequest p.addr) (journal ++ [p]) covered).Reading p.addr p.value 4 := by
  refine ⟨⟨_, SharedGroupCache.stored_snoc_self journal p hslot, ?_⟩, rfl, le_rfl⟩
  rw [SharedGroupCache.entryOf, SharedGroupCache.makeEntry_bytes, SharedGroupCache.keptValue,
    List.take_of_length_le hlen]

theorem Reading.response (h : s.Reading addr value 0) :
    ∃ i, s.reader.response = some ⟨[(addr, value)], i⟩ := by
  obtain ⟨hpc, hvalues⟩ := Prod.mk.inj h.at_stage
  exact ⟨s.reader.lastpos, by rw [Reader.response, if_pos hpc, hvalues]⟩

end ReadSystem

/-- A read of one address from the cache answers with the value that was pushed last for it. -/
theorem read_replies {defaultNamespace : Text} {isValid : Text → Bool} {rawAddr : Text}
    (hrawAddr : ascii '&' ∉ rawAddr) {address : KnxAddress}
    (haddress : KnxAddress.fromCometvisu defaultNamespace (urlDecode rawAddr) = some address)
    (hzero : address.group.toEibaddr ≠ 0) {journal : List Push} {value : List UInt8}
    (hlen : value.length ≤ kMaxSharedValueBytes) {slot : Fin kSharedCacheCapacity}
    (hslot : SharedGroupCache.findSlot (SharedGroupCache.replay journal) address.group.toEibaddr = some slot)
    (time : UInt32) (config : ReadConfig) (covered : Nat) {events : List ReadEvent}
    (hother : ∀ p, .push p ∈ events → p.addr ≠ address.group.toEibaddr)
    (hsteps : 4 ≤ ReadSystem.steps events) :
    ∃ request i,
      ReadHandler.request defaultNamespace isValid (ReadHandler.cacheQuery rawAddr) = .ok request ∧
      (run (ReadSystem.next config request)
          (ReadSystem.start request (journal ++ [⟨address.group.toEibaddr, value, time⟩]) covered)
          events).reader.response.map (ReadHandler.reply defaultNamespace) =
        some (ReadHandler.singleReply (KnxAddress.toCometvisu ⟨defaultNamespace, address.group⟩) value i) := by
  have hstart := ReadSystem.start_reading (p := ⟨address.group.toEibaddr, value, time⟩) hlen hslot covered
  have hread := hstart.run config hzero hother
  rw [Nat.sub_eq_zero_of_le hsteps] at hread
  obtain ⟨i, hresponse⟩ := hread.response
  refine ⟨ReadSystem.cacheRequest address.group.toEibaddr, i.toNat,
    ReadHandler.request_cacheQuery isValid hrawAddr haddress, ?_⟩
  rw [hresponse, Option.map_some, ReadHandler.reply_single, ReadHandler.addrKey,
    KnxGroupAddress.fromEibaddr_toEibaddr]

/-- **What is written is read back.** A write of an address and a value that `WriteHandler` answers with
200 has put one packet on the bus. Once the cache reader has taken the step that receives it, whatever the
cache held before and whatever is pushed for other addresses meanwhile, a read of the address from the cache
answers with the data bytes of the value in lower-case hexadecimal, or with its six bits where it has no
others. -/
theorem write_readBack {defaultNamespace : Text} {isValid : Text → Bool} {rawAddr rawValue : Text}
    (hrawAddr : ascii '&' ∉ rawAddr) (hrawValue : ascii '&' ∉ rawValue) {address : KnxAddress}
    (haddress : KnxAddress.fromCometvisu defaultNamespace (urlDecode rawAddr) = some address)
    (hzero : address.group.toEibaddr ≠ 0) {apci : UInt8} {data : List UInt8}
    (hvalue : hexDecode (urlDecode rawValue) = apci :: data) (hapci : apci &&& 0xC0 = 0x80)
    (hlen : data.length ≤ 14)
    {worker worker' : KnxdClient} {scripts : List KnxdClient.SendScript}
    (hwrite : WriteHandler.handle defaultNamespace isValid worker scripts
      (WriteHandler.query rawAddr rawValue) = (worker', {}))
    {source : UInt8 × UInt8} {delivered : List (List UInt8)}
    (hdelivered : relays source worker' = relays source worker ++ delivered)
    {reader : CacheReader} {pushed : Nat} (hpc : reader.pc = .draining pushed)
    (hfd : reader.client.fd.isSome) {script : ReaderScript}
    (hdata : ∀ answer ∈ script.poll.reads, ∃ chunk, answer = .data chunk) {more : List UInt8}
    (hstream : reader.client.readBuffer ++ bytesOf script.poll.reads = delivered.flatten ++ more)
    {slot : Fin kSharedCacheCapacity}
    (hslot : SharedGroupCache.findSlot (SharedGroupCache.replay reader.journal) address.group.toEibaddr = some slot)
    (options : CacheReaderOptions) (config : ReadConfig) (covered : Nat) {events : List ReadEvent}
    (hother : ∀ p, .push p ∈ events → p.addr ≠ address.group.toEibaddr)
    (hsteps : 4 ≤ ReadSystem.steps events) :
    ∃ request i,
      ReadHandler.request defaultNamespace isValid (ReadHandler.cacheQuery rawAddr) = .ok request ∧
      (run (ReadSystem.next config request)
          (ReadSystem.start request (reader.next options script).journal covered)
          events).reader.response.map (ReadHandler.reply defaultNamespace) =
        some (ReadHandler.singleReply (KnxAddress.toCometvisu ⟨defaultNamespace, address.group⟩)
          (if data = [] then [apci &&& 0x3F] else data) i) := by
  have hapdu := apduOf_write hvalue hapci
  have hlong : (0x00 :: apci :: data).length ≤ 65531 := by
    simp only [List.length_cons]
    omega
  have hpassed := relays_handle hrawAddr hrawValue haddress hapdu hlong hwrite source
  have hpacket : delivered = [busPacket source address.group.toEibaddr (0x00 :: apci :: data)] :=
    List.append_cancel_left (hdelivered.symm.trans hpassed)
  rw [hpacket, List.flatten_cons, List.flatten_nil, List.append_nil] at hstream
  have hkept : (writtenValue apci data).length ≤ kMaxSharedValueBytes := by
    unfold writtenValue
    split_ifs
    · exact show 1 ≤ kMaxSharedValueBytes by decide
    · exact hlen
  rw [CacheReader.next_journal, pushes_taken hpc hfd hapci (by omega) hdata hstream]
  exact read_replies hrawAddr haddress hzero hkept hslot script.time config covered hother hsteps

namespace WriteReadback

/-- The group address 1/1/1 in a spelling of its own. -/
def addrText : Text := text "KNX:01%2f1/1"

def valueText : Text := text "800C6f"

def address : KnxAddress := ⟨text "KNX", KnxGroupAddress.fromEibaddr 0x0901⟩

def worker : KnxdClient :=
  { fd := some 0, groupSocketOpen := true, socketPath := "/run/knx", sockets := 1, openFds := [0] }

def written : KnxdClient × WriteResult :=
  WriteHandler.handle [] (fun _ => false) worker [{ write := [.wrote 64] }]
    (WriteHandler.query addrText valueText)

def packet : List UInt8 := busPacket (0x11, 0x01) 0x0901 [0x00, 0x80, 0x0C, 0x6F]

def reader : CacheReader :=
  { pc := .draining 0, client := { fd := some 0 }, connected := true, backoffMs := 500, journal := [⟨1, [0x2a], 0⟩] }

def twoReads : ReaderScript where
  poll :=
    { reads := [.data ⟨packet.take 3, by decide, by decide⟩, .data ⟨packet.drop 3, by decide, by decide⟩] }

/-- A write of two data bytes whose packet the cache reader receives in two reads. -/
theorem write_readBack_twoReads :
    ∃ request i,
      ReadHandler.request [] (fun _ => false) (ReadHandler.cacheQuery addrText) = .ok request ∧
      (run (ReadSystem.next ⟨300, by decide, by decide⟩ request)
          (ReadSystem.start request (reader.next {} twoReads).journal 0)
          (List.replicate 4 (.step {}))).reader.response.map (ReadHandler.reply []) =
        some (ReadHandler.singleReply (text "1/1/1") [0x0C, 0x6F] i) := by
  have haddress : KnxAddress.fromCometvisu [] (urlDecode addrText) = some address := by decide
  have hvalue : hexDecode (urlDecode valueText) = 0x80 :: [0x0C, 0x6F] := by decide
  have hwrite : WriteHandler.handle [] (fun _ => false) worker [{ write := [.wrote 64] }]
      (WriteHandler.query addrText valueText) = (written.1, {}) := Prod.ext rfl (by decide)
  have hdelivered : relays (0x11, 0x01) written.1 = relays (0x11, 0x01) worker ++ [packet] := by decide
  have hdata : ∀ answer ∈ twoReads.poll.reads, ∃ chunk, answer = .data chunk := by simp [twoReads]
  have hstream : reader.client.readBuffer ++ bytesOf twoReads.poll.reads = [packet].flatten ++ [] := by
    decide
  have hslot : SharedGroupCache.findSlot (SharedGroupCache.replay reader.journal) address.group.toEibaddr =
      some 257 := by decide
  have hother : ∀ p, .push p ∈ List.replicate 4 (ReadEvent.step {}) → p.addr ≠ address.group.toEibaddr := by
    simp
  obtain ⟨request, i, hrequest, hreply⟩ := write_readBack (show ascii '&' ∉ addrText by decide)
    (show ascii '&' ∉ valueText by decide) haddress (by decide) hvalue (by decide) (by decide) hwrite
    hdelivered (show reader.pc = .draining 0 from rfl) rfl hdata hstream hslot {} ⟨300, by decide, by decide⟩
    0 hother (by decide)
  exact ⟨request, i, hrequest, hreply⟩

end WriteReadback
end KnxdFcgi
