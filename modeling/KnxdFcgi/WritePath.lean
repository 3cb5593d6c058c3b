import KnxdFcgi.ReaderStream
import KnxdFcgi.WorkerPackets
import KnxdFcgi.WriteReadback

/-! The way of the writes through the whole program. A worker serves requests over connections that break and are set
up again; the cache reader, a process of its own, follows the bus over its own connections. What joins them is knxd,
which is assumed to pass on every packet that it has received whole, in order and among other telegrams. Then no write
that was answered with 200 is missing from the cache's pushes, and they are pushed in the order of the requests. -/

namespace KnxdFcgi

open Machine Framing

open KnxdClient (SendCall)

/-- What is pushed for a packet of a write: the address, and the data bytes or the six bits of the value. The service
whose upper two bits are both set is pushed without a value. -/
def writtenEntry : UInt16 × List UInt8 → UInt16 × List UInt8
  | (addr, _ :: apci :: data) => (addr, if apci &&& 0xC0 = 0x80 then writtenValue apci data else [])
  | (addr, _) => (addr, [])

def relayed (source : UInt8 × UInt8) (packet : UInt16 × List UInt8) : List UInt8 := busPacket source packet.1 packet.2

namespace WriteHandler

variable {source : UInt8 × UInt8} {c : KnxdClient} {calls : List SendCall}

theorem relays_send {call : SendCall} (hlen : call.apdu.length ≤ 65531) :
    relays source (c.send call) = relays source c ++
      bif (c.sendGroupPacket call.groupAddr call.apdu call.script).2 then [busPacket source call.groupAddr call.apdu]
      else [] :=
  KnxdClient.relays_sendGroupPacket source call.groupAddr hlen call.script

/-- Calls add to what has been passed on. -/
theorem relays_run_prefix (hlen : ∀ call ∈ calls, call.apdu.length ≤ 65531) :
    relays source c <+: relays source (run KnxdClient.send c calls) := by
  induction calls generalizing c with
  | nil => exact List.prefix_rfl
  | cons call calls ih =>
      have hfirst : relays source c <+: relays source (c.send call) := by
        rw [relays_send (hlen call List.mem_cons_self)]
        exact List.prefix_append _ _
      exact hfirst.trans (ih fun call hcall => hlen call (List.mem_cons_of_mem _ hcall))

/-- Where every call gets its packet out, all of them are passed on. -/
theorem relays_run_allSent (hlen : ∀ call ∈ calls, call.apdu.length ≤ 65531) (hsent : allSent c calls = true) :
    relays source (run KnxdClient.send c calls) =
      relays source c ++ calls.map fun call => relayed source (call.groupAddr, call.apdu) := by
  induction calls generalizing c with
  | nil => exact (List.append_nil _).symm
  | cons call calls ih =>
      obtain ⟨hfirst, hrest⟩ := Bool.and_eq_true_iff.mp hsent
      rw [run_cons, ih (fun call hcall => hlen call (List.mem_cons_of_mem _ hcall)) hrest,
        relays_send (hlen call List.mem_cons_self), hfirst, List.map_cons, List.append_assoc]
      rfl

theorem map_sendCalls {α : Type} (f : UInt16 × List UInt8 → α) (scripts : List KnxdClient.SendScript)
    (packets : List (UInt16 × List UInt8)) :
    (sendCalls scripts packets).map (fun call => f (call.groupAddr, call.apdu)) = packets.map f := by
  induction packets generalizing scripts with
  | nil => rfl
  | cons packet packets ih => exact congrArg _ (ih scripts.tail)

end WriteHandler

namespace Worker

variable {config : WorkerConfig} {w : Worker}

/-- The packets of the writes that were answered with 200, in the order of the requests. -/
def acknowledged (config : WorkerConfig) : Worker → List Serving → List (UInt16 × List UInt8)
  | _, [] => []
  | w, e :: served =>
      (if e.request.path = text "/w" ∧ (serve config w e).1.statusCode = 200 then packets config w e else []) ++
        acknowledged config (next config w e) served

/-- What one request adds to what knxd has passed on has the packets of a write that is answered with 200. -/
theorem relays_next (source : UInt8 × UInt8) {e : Serving}
    (hlen : ∀ call ∈ sendCalls config w e, call.apdu.length ≤ 65531) :
    ∃ more, relays source (next config w e).client = relays source w.client ++ more ∧
      ((if e.request.path = text "/w" ∧ (serve config w e).1.statusCode = 200 then packets config w e else []).map
        (relayed source)).Sublist more := by
  rw [next_client]
  obtain ⟨more, hmore⟩ : relays source w.client <+: _ := WriteHandler.relays_run_prefix hlen
  refine ⟨more, hmore.symm, ?_⟩
  split_ifs with hacknowledged
  · obtain ⟨hpath, hstatus⟩ := hacknowledged
    by_cases hpackets : packets config w e = []
    · rw [hpackets]
      exact List.nil_sublist _
    · have hsent : WriteHandler.allSent w.client (sendCalls config w e) = true := by
        by_contra hfailed
        rw [serve_write_status hpath hpackets, if_neg hfailed] at hstatus
        cases hstatus
      rw [WriteHandler.relays_run_allSent hlen hsent, sendCalls, WriteHandler.map_sendCalls (relayed source)] at hmore
      exact (List.append_cancel_left hmore).symm ▸ List.Sublist.refl _
  · exact List.nil_sublist _

/-- Over the life of a worker, what was acknowledged has been passed on in order. -/
theorem acknowledged_relayed (source : UInt8 × UInt8) {served : List Serving}
    (hlen : ∀ call ∈ lifeCalls config w served, call.apdu.length ≤ 65531) :
    ((acknowledged config w served).map (relayed source)).Sublist
      (relays source (run (next config) w served).client) := by
  have hmore : ∃ more, relays source (run (next config) w served).client = relays source w.client ++ more ∧
      ((acknowledged config w served).map (relayed source)).Sublist more := by
    induction served generalizing w with
    | nil => exact ⟨[], (List.append_nil _).symm, List.Sublist.refl _⟩
    | cons e served ih =>
        obtain ⟨first, hfirst, hsub⟩ := relays_next source
          fun call hcall => hlen call (List.mem_append_left _ hcall)
        obtain ⟨rest, hrest, hsub'⟩ := ih fun call hcall => hlen call (List.mem_append_right _ hcall)
        refine ⟨first ++ rest, ?_, ?_⟩
        · rw [run_cons, hrest, hfirst, List.append_assoc]
        · rw [acknowledged, List.map_append]
          exact hsub.append hsub'
  obtain ⟨more, heq, hsub⟩ := hmore
  exact heq ▸ hsub.trans (List.sublist_append_right _ _)

/-- A packet that was acknowledged is one of the worker's calls, and its APDU has the bit of a write. -/
theorem mem_acknowledged {served : List Serving} {packet : UInt16 × List UInt8}
    (h : packet ∈ acknowledged config w served) :
    (∃ call ∈ lifeCalls config w served, (call.groupAddr, call.apdu) = packet) ∧
      ∃ apci data, packet.2 = 0x00 :: apci :: data ∧ apci &&& 0x80 = 0x80 := by
  induction served generalizing w with
  | nil => cases h
  | cons e served ih =>
      rcases List.mem_append.mp h with h | h
      · split_ifs at h with hacknowledged
        · have hcalls : (sendCalls config w e).map (fun call => (call.groupAddr, call.apdu)) = packets config w e :=
            (WriteHandler.map_sendCalls id e.scripts _).trans (List.map_id _)
          have hne : text "/w" ≠ text "/r" := by decide
          constructor
          · rw [← hcalls] at h
            obtain ⟨call, hcall, heq⟩ := List.mem_map.mp h
            exact ⟨call, List.mem_append_left _ hcall, heq⟩
          · rw [packets, hacknowledged.1, if_neg hne, if_pos rfl] at h
            obtain ⟨⟨value, -, hapdu⟩, -⟩ := WriteHandler.mem_calls_iff.mp h
            obtain ⟨apci, data, -, hwrite, heq⟩ := WriteHandler.apduOf_eq_some_iff.mp hapdu
            exact ⟨apci, data, heq, hwrite⟩
        · cases h
      · obtain ⟨⟨call, hcall, heq⟩, hapdu⟩ := ih h
        exact ⟨⟨call, List.mem_append_right _ hcall, heq⟩, hapdu⟩

end Worker

/-- The cache reader pushes the entry of a packet that it receives. -/
theorem entryOf_relayed (source : UInt8 × UInt8) (addr : UInt16) {apci : UInt8} {data : List UInt8}
    (hwrite : apci &&& 0x80 = 0x80) (hlen : (0x00 :: apci :: data).length ≤ 65529) :
    entryOf (relayed source (addr, 0x00 :: apci :: data)) = some (writtenEntry (addr, 0x00 :: apci :: data)) := by
  have hpushed : pushedValue (0x00 :: apci :: data) =
      some (if apci &&& 0xC0 = 0x80 then writtenValue apci data else []) := by
    rcases (WriteHandler.apci_write_cases apci).1.mp hwrite with hapci | hapci
    · simp [pushedValue, parseApdu, ApduType.ofByte, hapci, writtenValue]
    · simp [pushedValue, parseApdu, ApduType.ofByte, hapci]
  have hshort : 2 ≤ (0x00 :: apci :: data).length := by simp
  rw [entryOf, relayed, telegramOf_busPacket source addr hshort hlen]
  simp only [hpushed, Option.map_some, writtenEntry]

namespace Worker

/-- **No acknowledged write is lost on the way to the cache.** A worker serves any requests, whatever becomes of its
connections; the cache reader runs with connections of its own, and leaves nothing complete behind. If knxd passes on
the packets that the worker has written whole, in their order and among any other telegrams, then the values of all
writes that were answered with 200 are among the reader's pushes, in the order of the requests. -/
theorem acknowledged_pushed (config : WorkerConfig) (w : Worker) (served : List Serving)
    (hlen : ∀ call ∈ lifeCalls config w served, call.apdu.length ≤ 65529) (source : UInt8 × UInt8)
    (options : CacheReaderOptions) (scripts : List ReaderScript)
    (halone : Along (CacheReader.next options) (CacheReader.Alone options) (.start options) scripts)
    (hpc : (run (CacheReader.next options) (.start options) scripts).pc = .top)
    (hrelays : (relays source (run (next config) w served).client).Sublist
      (run (WatchedReader.next options) (.start options) scripts).brought) :
    ((acknowledged config w served).map writtenEntry).Sublist
      ((run (CacheReader.next options) (.start options) scripts).journal.map Push.entry) := by
  obtain ⟨hinv, hdelivered⟩ := WatchedReader.run_kept (w := .start options) CacheReader.start_inv
    WatchedReader.start_delivered halone
  rw [← WatchedReader.run_reader] at hpc ⊢
  rw [hdelivered.journal_eq hinv hpc, List.nil_append]
  have hentries : ((acknowledged config w served).map (relayed source)).filterMap entryOf =
      (acknowledged config w served).map writtenEntry := by
    rw [List.filterMap_map, ← List.filterMap_eq_map]
    refine List.filterMap_congr fun packet hpacket => ?_
    obtain ⟨addr, apdu⟩ := packet
    obtain ⟨⟨call, hcall, heq⟩, apci, data, rfl, hwrite⟩ := mem_acknowledged hpacket
    have hshort := hlen call hcall
    rw [(Prod.mk.inj heq).2] at hshort
    exact entryOf_relayed source addr hwrite hshort
  rw [← hentries]
  have hrelayed := acknowledged_relayed source fun call hcall => (hlen call hcall).trans (by omega)
  exact (hrelayed.trans hrelays).filterMap entryOf

/-- What the cache reader receives for `writeOnce`. -/
def onceRelayed : List UInt8 := relayed (0x11, 0x01) (2563, [0x00, 0x80])

def receivesOnce : List ReaderScript :=
  CacheReader.oneTelegram.take 2 ++
    ([{ poll := { reads := [.data ⟨onceRelayed, by decide, by decide⟩] } }, {}] : List ReaderScript)

theorem receivesOnce_alone : Along (CacheReader.next {}) (CacheReader.Alone {}) (.start {}) receivesOnce := by
  have hextract : tryExtractMessage ([] ++ bytesOf [.data ⟨onceRelayed, by decide, by decide⟩]) =
      some (onceRelayed, []) := by decide
  exact ⟨fun _ _ => CacheReader.replyWith_nil_alone, fun hidle => (by cases hidle),
    CacheReader.alone_of_draining rfl rfl (CacheReader.stopsLast_of_telegram hextract (by decide)),
    CacheReader.alone_of_draining rfl rfl (CacheReader.stopsLast_of_none (by decide)), trivial⟩

theorem receivesOnce_brought :
    (run (WatchedReader.next {}) (.start {}) receivesOnce).brought = [onceRelayed] := by
  have hsockets : (run (WatchedReader.next {}) (.start {}) receivesOnce).reader.client.sockets = 1 := by decide
  have hreceived : Receipt.received (run (WatchedReader.next {}) (.start {}) receivesOnce).log 0 =
      [buildEibdMessage EibMessageType.openGroupcon [], onceRelayed].flatten := by decide
  have hframes : eibdSplitter.frames [buildEibdMessage EibMessageType.openGroupcon [], onceRelayed].flatten =
      ([buildEibdMessage EibMessageType.openGroupcon [], onceRelayed], []) :=
    Splitter.frames_flatten (by decide)
  rw [WatchedReader.brought, hsockets, List.range_one, List.flatMap_singleton, hreceived, deliveredBy, hframes]
  decide

/-- The value of `writeOnce` is pushed. -/
theorem acknowledged_pushed_writeOnce :
    [((2563 : UInt16), [(0x00 : UInt8)])].Sublist
      ((run (CacheReader.next {}) (.start {}) receivesOnce).journal.map Push.entry) := by
  have hcalls : lifeCalls ⟨[], {}⟩ (start (writer "/run/knx" KnxdClient.answered)) [writeOnce] =
      [⟨2563, [0x00, 0x80], { opening := KnxdClient.answered, write := [.wrote 8] }⟩] := by
    rw [lifeCalls, lifeCalls, List.append_nil, sendCalls, writeOnce_packets]
    rfl
  have hstatus : (serve ⟨[], {}⟩ (start (writer "/run/knx" KnxdClient.answered)) writeOnce).1.statusCode = 200 := by
    have hpackets : packets ⟨[], {}⟩ (start (writer "/run/knx" KnxdClient.answered)) writeOnce ≠ [] := by
      rw [writeOnce_packets]
      decide
    rw [serve_write_status writeOnce_path hpackets, sendCalls, writeOnce_packets]
    decide
  have hclient : (run (next ⟨[], {}⟩) (start (writer "/run/knx" KnxdClient.answered)) [writeOnce]).client =
      (writer "/run/knx" KnxdClient.answered).send
        ⟨2563, [0x00, 0x80], { opening := KnxdClient.answered, write := [.wrote 8] }⟩ := by
    rw [run_client, hcalls]
    rfl
  have hacknowledged : acknowledged ⟨[], {}⟩ (start (writer "/run/knx" KnxdClient.answered)) [writeOnce] =
      [(2563, [0x00, 0x80])] := by
    rw [acknowledged, if_pos ⟨writeOnce_path, hstatus⟩, writeOnce_packets, acknowledged]
    rfl
  have hpushed := acknowledged_pushed ⟨[], {}⟩ (start (writer "/run/knx" KnxdClient.answered)) [writeOnce]
    (by rw [hcalls]; decide) (0x11, 0x01) {} receivesOnce receivesOnce_alone (by decide)
    (by rw [hclient, receivesOnce_brought]; decide)
  rw [hacknowledged] at hpushed
  exact hpushed

end Worker
end KnxdFcgi
