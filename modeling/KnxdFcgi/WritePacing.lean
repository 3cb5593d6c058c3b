import KnxdFcgi.WorkerPackets

/-! The rate limit of `send_group_packet`. A call that comes less than 50 ms after the end of the last one that wrote
something sleeps for the rest of the time, so the packets of one process keep that distance; and a process that takes
the place of a dead one is not started sooner. But every process counts for itself: the pool as a whole writes as
many packets at once as it has workers. -/

namespace KnxdFcgi

open Machine
open KnxdClient (SendCall)

/-- `kMinWriteInterval`, in nanoseconds of the steady clock. -/
def kMinWriteInterval : Nat := 50 * 10 ^ 6

/-- The moments of a call: the reading of the clock before the sleep, the end of the sleep, the two writes of the
packet if it comes to them, and the reading of the clock at the end. -/
structure CallTimes where
  now : Nat
  resumed : Nat
  written : Nat
  rewritten : Nat
  finished : Nat

/-- A client and its `last_group_write_`; `clock` is when its last call returned. -/
structure PacedClient where
  client : KnxdClient
  lastGroupWrite : Nat := 0
  clock : Nat

/-- The packet of a call that came to write it: when it was first written, and when a second time. -/
structure PacketWrite where
  first : Nat
  second : Option Nat

def PacketWrite.times (p : PacketWrite) : List Nat := p.first :: p.second.toList

namespace PacedClient

/-- The sleep at the beginning of a call. -/
def sleepFor (lastGroupWrite now : Nat) : Nat :=
  if 0 < lastGroupWrite then
    let elapsed := now - lastGroupWrite
    if elapsed < kMinWriteInterval then kMinWriteInterval - elapsed else 0
  else 0

/-- The part of `send_group_packet` that writes the packet. -/
def writePacket (c : KnxdClient) (call : SendCall) (t : CallTimes) : PacedClient × PacketWrite :=
  let frame := buildGroupPacket call.groupAddr call.apdu
  match c.write call.script.write frame with
  | (c, true) => (⟨c, t.finished, t.finished⟩, ⟨t.written, none⟩)
  | (c, false) =>
      match c.reconnect call.script.reopening with
      | (c, false) => (⟨c, t.finished, t.finished⟩, ⟨t.written, none⟩)
      | (c, true) => (⟨(c.write call.script.retry frame).1, t.finished, t.finished⟩, ⟨t.written, some t.rewritten⟩)

/-- `send_group_packet` with its limiter; a call that does not reach knxd leaves the limiter alone. -/
def send (s : PacedClient) (call : SendCall) (t : CallTimes) : PacedClient × Option PacketWrite :=
  match if s.client.fd.isNone || !s.client.groupSocketOpen then s.client.reconnect call.script.opening
      else (s.client, true) with
  | (c, false) => ({ s with client := c, clock := t.finished }, none)
  | (c, true) => ((writePacket c call t).1, some (writePacket c call t).2)

theorem writePacket_client (c : KnxdClient) (call : SendCall) (t : CallTimes) :
    (writePacket c call t).1.client =
      (c.sendFrame (buildGroupPacket call.groupAddr call.apdu) call.script).1 := by
  unfold writePacket KnxdClient.sendFrame
  simp only
  generalize c.write call.script.write (buildGroupPacket call.groupAddr call.apdu) = result
  obtain ⟨c', ok⟩ := result
  cases ok with
  | true => rfl
  | false =>
      simp only
      generalize c'.reconnect call.script.reopening = result
      obtain ⟨c'', ok⟩ := result
      cases ok <;> rfl

/-- The limiter does not change what is sent. -/
theorem send_client (s : PacedClient) (call : SendCall) (t : CallTimes) :
    (s.send call t).1.client = s.client.send call := by
  unfold send KnxdClient.send KnxdClient.sendGroupPacket
  split_ifs
  · generalize s.client.reconnect call.script.opening = result
    obtain ⟨c, ok⟩ := result
    cases ok with
    | false => rfl
    | true => exact writePacket_client c call t
  · exact writePacket_client s.client call t

/-- The clock goes on, and the sleep is not cut short. -/
structure Admissible (s : PacedClient) (t : CallTimes) : Prop where
  pos : 0 < t.now
  later : s.clock ≤ t.now
  slept : t.now + sleepFor s.lastGroupWrite t.now ≤ t.resumed
  written : t.resumed ≤ t.written
  rewritten : t.written ≤ t.rewritten
  finished : t.rewritten ≤ t.finished

theorem writePacket_spec (c : KnxdClient) (call : SendCall) (t : CallTimes) :
    (writePacket c call t).1.lastGroupWrite = t.finished ∧ (writePacket c call t).1.clock = t.finished ∧
      (writePacket c call t).2.first = t.written ∧
      ∀ time ∈ (writePacket c call t).2.times, time = t.written ∨ time = t.rewritten := by
  unfold writePacket
  simp only
  generalize c.write call.script.write (buildGroupPacket call.groupAddr call.apdu) = result
  obtain ⟨c', ok⟩ := result
  cases ok with
  | true => simp [PacketWrite.times]
  | false =>
      simp only
      generalize c'.reconnect call.script.reopening = result
      obtain ⟨c'', ok⟩ := result
      cases ok <;> simp [PacketWrite.times]

/-- A call writes nothing and leaves the limiter as it was, or it writes its packet and sets the limiter. -/
theorem send_cases (s : PacedClient) (call : SendCall) (t : CallTimes) :
    (s.send call t).1.clock = t.finished ∧
      ((s.send call t).2 = none ∧ (s.send call t).1.lastGroupWrite = s.lastGroupWrite ∨
        (s.send call t).1.lastGroupWrite = t.finished ∧ ∃ p, (s.send call t).2 = some p ∧ p.first = t.written ∧
          ∀ time ∈ p.times, time = t.written ∨ time = t.rewritten) := by
  unfold send
  generalize (if s.client.fd.isNone || !s.client.groupSocketOpen then s.client.reconnect call.script.opening
    else (s.client, true)) = result
  obtain ⟨c, ok⟩ := result
  cases ok with
  | false => exact ⟨rfl, Or.inl ⟨rfl, rfl⟩⟩
  | true =>
      obtain ⟨hlast, hclock, hfirst, htimes⟩ := writePacket_spec c call t
      exact ⟨hclock, Or.inr ⟨hlast, _, rfl, hfirst, htimes⟩⟩

/-- After the sleep the interval is over. -/
theorem sleepFor_spec {lastGroupWrite now : Nat} (hpos : 0 < lastGroupWrite) (hle : lastGroupWrite ≤ now) :
    lastGroupWrite + kMinWriteInterval ≤ now + sleepFor lastGroupWrite now := by
  simp only [sleepFor, if_pos hpos]
  split_ifs <;> omega

/-- A write lies behind the client: the limiter knows of it, or the client is new and the interval is over. -/
def Past (s : PacedClient) (time : Nat) : Prop :=
  0 < s.lastGroupWrite ∧ time ≤ s.lastGroupWrite ∨ time + kMinWriteInterval ≤ s.clock

section Send

variable {s : PacedClient} {t : CallTimes} (hle : s.lastGroupWrite ≤ s.clock) (ht : s.Admissible t) (call : SendCall)

include hle ht

/-- A packet is not written before the interval is over. -/
theorem Past.add_le_written {time : Nat} (h : s.Past time) : time + kMinWriteInterval ≤ t.written := by
  have hlater := ht.later
  have hslept := ht.slept
  have hwritten := ht.written
  rcases h with ⟨hpos, htime⟩ | htime
  · have hsleep := sleepFor_spec hpos (hle.trans hlater)
    omega
  · omega

theorem Past.send {time : Nat} (h : s.Past time) : (s.send call t).1.Past time := by
  have hlater := ht.later
  have hslept := ht.slept
  have hwritten := ht.written
  have hrewritten := ht.rewritten
  have hfinished := ht.finished
  obtain ⟨hclock, ⟨-, hlast⟩ | ⟨hlast, -⟩⟩ := s.send_cases call t
  · rcases h with ⟨hpos, htime⟩ | htime
    · exact Or.inl (hlast.symm ▸ ⟨hpos, htime⟩)
    · refine Or.inr ?_
      omega
  · have hnow := ht.pos
    refine Or.inl ?_
    rcases h with ⟨hpos, htime⟩ | htime <;> omega

theorem send_last_le : (s.send call t).1.lastGroupWrite ≤ (s.send call t).1.clock := by
  have hlater := ht.later
  have hslept := ht.slept
  have hwritten := ht.written
  have hrewritten := ht.rewritten
  have hfinished := ht.finished
  obtain ⟨hclock, ⟨-, hlast⟩ | ⟨hlast, -⟩⟩ := s.send_cases call t <;> omega

end Send

/-- What a call has written lies behind it. -/
theorem past_of_send {s : PacedClient} {t : CallTimes} (ht : s.Admissible t) {call : SendCall} {p : PacketWrite}
    (hp : (s.send call t).2 = some p) : ∀ time ∈ p.times, t.written ≤ time ∧ (s.send call t).1.Past time := by
  have hpos := ht.pos
  have hslept := ht.slept
  have hwritten := ht.written
  have hrewritten := ht.rewritten
  have hfinished := ht.finished
  intro time htime
  obtain ⟨-, ⟨hnone, -⟩ | ⟨hlast, q, hq, -, htimes⟩⟩ := s.send_cases call t
  · rw [hnone] at hp
    cases hp
  · rw [hq, Option.some.injEq] at hp
    subst hp
    rcases htimes time htime with rfl | rfl
    · exact ⟨le_rfl, Or.inl (by omega)⟩
    · exact ⟨hrewritten, Or.inl (by omega)⟩

end PacedClient

/-! ### The pool -/

/-- A packet written, and the worker that wrote it. -/
structure PoolWrite (n : Nat) where
  worker : Fin n
  packet : PacketWrite

structure PacedPool (n : Nat) where
  workers : Fin n → PacedClient
  log : List (PoolWrite n)

/-- A worker sends a packet; or it dies, perhaps in the middle of a call, and another one takes its place, which is
started at some time and makes its first connection. -/
inductive PacedEvent (n : Nat) where
  | send (i : Fin n) (call : SendCall) (t : CallTimes)
  | restart (i : Fin n) (cut : Option (SendCall × CallTimes)) (first : HandshakeScript) (started : Nat)

namespace PacedPool

variable {n : Nat}

/-- The workers when all of them have been started, at some time. -/
def start (path : String) (first : Fin n → HandshakeScript) (clock : Nat) : PacedPool n where
  workers i := { client := Worker.writer path (first i), clock := clock }
  log := []

def send (s : PacedPool n) (i : Fin n) (call : SendCall) (t : CallTimes) : PacedPool n :=
  let (worker, packet) := (s.workers i).send call t
  { workers := Function.update s.workers i worker
    log := s.log ++ (packet.map (PoolWrite.mk i)).toList }

/-- What a dying worker was in the middle of. -/
def cutOff (s : PacedPool n) (i : Fin n) : Option (SendCall × CallTimes) → PacedPool n
  | none => s
  | some (call, t) => s.send i call t

def next (path : String) (s : PacedPool n) : PacedEvent n → PacedPool n
  | .send i call t => s.send i call t
  | .restart i cut first started =>
      let s := s.cutOff i cut
      { s with
        workers := Function.update s.workers i { client := Worker.writer path first, clock := started } }

/-- The times of an event are possible: those of each call; and between the death of a worker and the start of the
next one lies a sleep of the supervisor. -/
def Admissible (s : PacedPool n) : PacedEvent n → Prop
  | .send i _ t => (s.workers i).Admissible t
  | .restart i cut _ started =>
      (∀ call t, cut = some (call, t) → (s.workers i).Admissible t) ∧
        ∃ delayMs, Pool.Paced delayMs ∧ ((s.cutOff i cut).workers i).clock + delayMs * 10 ^ 6 ≤ started

/-- Two packets of one worker keep the interval. -/
def Distant (p q : PoolWrite n) : Prop :=
  p.worker = q.worker → ∀ a ∈ p.packet.times, ∀ b ∈ q.packet.times, a + kMinWriteInterval ≤ b

/-- The packets of each worker keep the interval, and all of them lie behind it. -/
structure Inv (s : PacedPool n) : Prop where
  last_le : ∀ i, (s.workers i).lastGroupWrite ≤ (s.workers i).clock
  past : ∀ p ∈ s.log, ∀ time ∈ p.packet.times, (s.workers p.worker).Past time
  distant : s.log.Pairwise Distant

theorem start_inv (path : String) (first : Fin n → HandshakeScript) (clock : Nat) : (start path first clock).Inv where
  last_le _ := Nat.zero_le _
  past := nofun
  distant := List.Pairwise.nil

variable {path : String} {s : PacedPool n}

theorem log_send {i : Fin n} {call : SendCall} {t : CallTimes} {packet : PacketWrite}
    (hpacket : ((s.workers i).send call t).2 = some packet) : (s.send i call t).log = s.log ++ [⟨i, packet⟩] := by
  simp only [PacedPool.send, hpacket, Option.map_some, Option.toList_some]

theorem Inv.send (h : s.Inv) {i : Fin n} {t : CallTimes} (ht : (s.workers i).Admissible t) (call : SendCall) :
    (s.send i call t).Inv := by
  have hworkers : (s.send i call t).workers = Function.update s.workers i ((s.workers i).send call t).1 := rfl
  have hold : ∀ p ∈ s.log, ∀ time ∈ p.packet.times, ((s.send i call t).workers p.worker).Past time := by
    intro p hp time htime
    rw [hworkers]
    by_cases hi : p.worker = i
    · rw [hi, Function.update_self]
      exact PacedClient.Past.send (h.last_le i) ht call (hi ▸ h.past p hp time htime)
    · rw [Function.update_of_ne hi]
      exact h.past p hp time htime
  have hlast : ∀ j, ((s.send i call t).workers j).lastGroupWrite ≤ ((s.send i call t).workers j).clock := by
    intro j
    rw [hworkers]
    by_cases hj : j = i
    · rw [hj, Function.update_self]
      exact PacedClient.send_last_le (h.last_le i) ht call
    · rw [Function.update_of_ne hj]
      exact h.last_le j
  cases hpacket : ((s.workers i).send call t).2 with
  | none =>
      have hlog : (s.send i call t).log = s.log := by
        simp only [PacedPool.send, hpacket, Option.map_none, Option.toList_none, List.append_nil]
      exact ⟨hlast, hlog ▸ hold, hlog ▸ h.distant⟩
  | some packet =>
      have hlog := log_send hpacket
      have hnew := PacedClient.past_of_send ht hpacket
      refine ⟨hlast, ?_, ?_⟩
      · rw [hlog]
        intro p hp time htime
        rcases List.mem_append.mp hp with hp | hp
        · exact hold p hp time htime
        · obtain rfl := List.mem_singleton.mp hp
          rw [hworkers, Function.update_self]
          exact (hnew time htime).2
      · rw [hlog, List.pairwise_append]
        refine ⟨h.distant, List.pairwise_singleton _ _, ?_⟩
        intro p hp q hq hsame a ha b hb
        obtain rfl := List.mem_singleton.mp hq
        have hi : p.worker = i := hsame
        have hpast : (s.workers i).Past a := hi ▸ h.past p hp a ha
        exact (hpast.add_le_written (h.last_le i) ht).trans (hnew b hb).1

theorem Inv.next (h : s.Inv) {event : PacedEvent n} (hevent : s.Admissible event) : (s.next path event).Inv := by
  cases event with
  | send i call t => exact h.send hevent call
  | restart i cut first started =>
      obtain ⟨hcut, delayMs, hdelay, hstarted⟩ := hevent
      have hbefore : (s.cutOff i cut).Inv := by
        cases cut with
        | none => exact h
        | some last => exact h.send (hcut last.1 last.2 rfl) last.1
      have hworkers : (s.next path (.restart i cut first started)).workers =
          Function.update (s.cutOff i cut).workers i ⟨Worker.writer path first, 0, started⟩ := rfl
      refine ⟨fun j => ?_, fun p hp time htime => ?_, hbefore.distant⟩
      · by_cases hj : j = i
        · rw [hworkers, hj, Function.update_self]
          exact Nat.zero_le _
        · rw [hworkers, Function.update_of_ne hj]
          exact hbefore.last_le j
      · by_cases hi : p.worker = i
        · have hslept : kMinWriteInterval ≤ delayMs * 10 ^ 6 := by
            have hlow := hdelay.1
            rw [kMinWriteInterval]
            omega
          have hpast := hbefore.past p hp time htime
          have hle := hbefore.last_le i
          rw [hi] at hpast
          rw [hworkers, hi, Function.update_self]
          refine Or.inr ?_
          simp only
          rcases hpast with ⟨-, hpast⟩ | hpast <;> omega
        · rw [hworkers, Function.update_of_ne hi]
          exact hbefore.past p hp time htime

theorem run_inv {first : Fin n → HandshakeScript} {clock : Nat} {events : List (PacedEvent n)}
    (h : Along (next path) Admissible (start path first clock) events) :
    (run (next path) (start path first clock) events).Inv :=
  run_invariant_along Inv (fun _ _ hevent hs => hs.next hevent) h (start_inv path first clock)

/-- Times that keep a distance are few in a window. -/
theorem length_mul_lt_of_spaced {gap : Nat} {t : Nat} {times : List Nat} (h : (t :: times).Pairwise (· + gap ≤ ·))
    {low width : Nat} (hlow : low ≤ t) (hwindow : ∀ u ∈ t :: times, u < low + width) : times.length * gap < width := by
  induction times generalizing t low width with
  | nil =>
      have ht := hwindow t List.mem_cons_self
      simp only [List.length_nil]
      omega
  | cons u times ih =>
      obtain ⟨hfirst, hrest⟩ := List.pairwise_cons.mp h
      have hu := hfirst u List.mem_cons_self
      have hsame : ∀ v ∈ u :: times, v < t + gap + (low + width - (t + gap)) := by
        intro v hv
        have hv' := hwindow v (List.mem_cons_of_mem _ hv)
        have hle := hfirst v hv
        omega
      have hless := ih hrest hu hsame
      have hwidth := hsame u List.mem_cons_self
      rw [List.length_cons, Nat.add_mul]
      omega

theorem length_le_of_spaced {gap : Nat} (hgap : 0 < gap) {times : List Nat} (h : times.Pairwise (· + gap ≤ ·))
    {low width : Nat} (hwindow : ∀ t ∈ times, low ≤ t ∧ t < low + width) :
    times.length ≤ (width + gap - 1) / gap := by
  rw [Nat.le_div_iff_mul_le hgap]
  cases times with
  | nil => simp
  | cons t times =>
      have hless := length_mul_lt_of_spaced h (hwindow t List.mem_cons_self).1 fun u hu => (hwindow u hu).2
      rw [List.length_cons, Nat.add_mul]
      omega

theorem length_eq_sum_workers (writes : List (PoolWrite n)) :
    writes.length = ∑ i, (writes.filter (·.worker = i)).length := by
  induction writes with
  | nil => simp
  | cons p writes ih =>
      have hcons : ∀ i, ((p :: writes).filter (·.worker = i)).length =
          (if p.worker = i then 1 else 0) + (writes.filter (·.worker = i)).length := by
        intro i
        by_cases hi : p.worker = i <;> simp [hi, Nat.add_comm]
      simp only [hcons, Finset.sum_add_distrib, Finset.sum_ite_eq, Finset.mem_univ, if_true, List.length_cons, ← ih,
        Nat.add_comm]

/-- The packets whose first write falls into a window. -/
def within (low width : Nat) (log : List (PoolWrite n)) : List (PoolWrite n) :=
  log.filter fun p => low ≤ p.packet.first ∧ p.packet.first < low + width

/-- **The rate of the pool.** However the workers are used and however often they are replaced, in a window of any
width each of them begins at most one packet for every 50 ms, rounded up. -/
theorem rate_bound (path : String) (first : Fin n → HandshakeScript) (clock : Nat) {events : List (PacedEvent n)}
    (h : Along (next path) Admissible (start path first clock) events) (low width : Nat) :
    (within low width (run (next path) (start path first clock) events).log).length ≤
      n * ((width + kMinWriteInterval - 1) / kMinWriteInterval) := by
  have hdistant := (run_inv h).distant
  generalize (run (next path) (start path first clock) events).log = log at hdistant ⊢
  have hworker : ∀ i : Fin n, ((within low width log).filter (·.worker = i)).length ≤
      (width + kMinWriteInterval - 1) / kMinWriteInterval := by
    intro i
    have hspaced : (((within low width log).filter (·.worker = i)).map (·.packet.first)).Pairwise
        (· + kMinWriteInterval ≤ ·) := by
      rw [List.pairwise_map]
      refine ((hdistant.filter _).filter _).imp_of_mem fun {p q} hp hq hpq => ?_
      have hsame : p.worker = q.worker := by
        rw [of_decide_eq_true (List.mem_filter.mp hp).2, of_decide_eq_true (List.mem_filter.mp hq).2]
      exact hpq hsame _ List.mem_cons_self _ List.mem_cons_self
    have hwindow : ∀ t ∈ ((within low width log).filter (·.worker = i)).map (·.packet.first),
        low ≤ t ∧ t < low + width := by
      intro t ht
      obtain ⟨p, hp, rfl⟩ := List.mem_map.mp ht
      exact of_decide_eq_true (List.mem_filter.mp (List.mem_filter.mp hp).1).2
    rw [← List.length_map (·.packet.first)]
    exact length_le_of_spaced (by decide) hspaced hwindow
  calc (within low width log).length
      = ∑ i, ((within low width log).filter (·.worker = i)).length := length_eq_sum_workers _
    _ ≤ ∑ _i : Fin n, (width + kMinWriteInterval - 1) / kMinWriteInterval :=
        Finset.sum_le_sum fun i _ => hworker i
    _ = n * ((width + kMinWriteInterval - 1) / kMinWriteInterval) := by
        rw [Finset.sum_const, Finset.card_univ, Fintype.card_fin, smul_eq_mul]

/-- A call that knxd answers, all in one moment. -/
def prompt : SendCall := ⟨2563, [0x00, 0x80], { opening := KnxdClient.answered, write := [.wrote 8] }⟩

/-- A call that may begin at one moment and writes at another. -/
def atOnce (now time : Nat) : CallTimes := ⟨now, time, time, time, time⟩

theorem atOnce_admissible {s : PacedClient} {now time : Nat} (hpos : 0 < now) (hlater : s.clock ≤ now)
    (hslept : now + PacedClient.sleepFor s.lastGroupWrite now ≤ time) : s.Admissible (atOnce now time) where
  pos := hpos
  later := hlater
  slept := hslept
  written := le_rfl
  rewritten := le_rfl
  finished := le_rfl

/-- The second packet waits for the limiter, and the third for a worker that takes the place of the first one. -/
def threePackets : List (PacedEvent 1) :=
  [.send 0 prompt (atOnce 1 1), .send 0 prompt (atOnce 1 50000001), .restart 0 none {} 150000001,
    .send 0 prompt (atOnce 150000001 150000001)]

theorem rate_bound_threePackets :
    let log := (run (next "/run/knx") (start "/run/knx" (fun _ : Fin 1 => {}) 0) threePackets).log
    log.map (·.packet.first) = [1, 50000001, 150000001] ∧ (within 1 (10 ^ 8) log).length ≤ 1 * 2 := by
  have hadmissible : Along (next "/run/knx") Admissible (start "/run/knx" (fun _ : Fin 1 => {}) 0) threePackets := by
    refine ⟨atOnce_admissible ?_ ?_ ?_, atOnce_admissible ?_ ?_ ?_, ⟨nofun, 100, Pool.paced_initial, ?_⟩,
      atOnce_admissible ?_ ?_ ?_, trivial⟩ <;> decide +kernel
  exact ⟨by decide +kernel, rate_bound "/run/knx" (fun _ => {}) 0 hadmissible 1 (10 ^ 8)⟩

/-- No two writes of the packets are closer than the interval. -/
def Apart (p q : PoolWrite n) : Prop :=
  ∀ a ∈ p.packet.times, ∀ b ∈ q.packet.times, a + kMinWriteInterval ≤ b ∨ b + kMinWriteInterval ≤ a

end PacedPool

end KnxdFcgi
