import KnxdFcgi.ClientState
import KnxdFcgi.KnxdSending

/-! The descriptors of a client, and the check of knxd at startup. After whatever calls, the only socket that a client
has left open is the one of its `fd`. `connect_knxd_with_retry` tries four times, or six, with growing delays between;
`main` drops the connection again before it forks, so that no child inherits it, unless the path is too long: then the
last attempt leaves a socket behind. -/

namespace KnxdFcgi

open Machine

namespace KnxdClient

/-- The sockets that are open are the current one. -/
def Owned (c : KnxdClient) : Prop := c.openFds = c.fd.toList

variable {c : KnxdClient}

theorem Owned.of_fields (h : c.Owned) {c' : KnxdClient} (hfd : c'.fd = c.fd) (hopen : c'.openFds = c.openFds) :
    c'.Owned := by
  rw [Owned, hfd, hopen]
  exact h

theorem Owned.closeFd (h : c.Owned) : c.closeFd.openFds = [] := by
  unfold KnxdClient.closeFd
  rw [Owned] at h
  cases hfd : c.fd with
  | none => simpa [hfd] using h
  | some fd => simp [h, hfd]

theorem Owned.disconnect (h : c.Owned) : c.disconnect.Owned := h.closeFd

theorem Owned.disconnect_openFds (h : c.Owned) : c.disconnect.openFds = [] := h.closeFd

/-- `connect` keeps the descriptor only where it succeeds, or where the path is too long. -/
theorem Owned.connect_cases (h : c.Owned) (path : String) (answer : ConnectAnswer) :
    (c.connect path answer).1.Owned ∧
      ((c.connect path answer).2 = true ↔ answer = .established ∧ path.utf8ByteSize < sunPathSize) ∧
      ((c.connect path answer).2 = false →
        ((c.connect path answer).1.openFds = [] ↔ answer = .noSocket ∨ path.utf8ByteSize < sunPathSize)) := by
  have hfresh : (if c.fd.isSome then c.disconnect else c).openFds = [] := by
    split_ifs with hfd
    · exact h.disconnect_openFds
    · rw [Option.not_isSome_iff_eq_none] at hfd
      rw [h, hfd, Option.toList_none]
  rw [connect]
  generalize (if c.fd.isSome then c.disconnect else c) = c' at hfresh ⊢
  split_ifs with hsocket hlong hestablished
  · exact ⟨hfresh, by simp [hsocket], fun _ => iff_of_true hfresh (Or.inl hsocket)⟩
  · refine ⟨by simp [Owned, hfresh], by simp [Nat.not_lt.mpr hlong], fun _ => ?_⟩
    simp [hsocket, Nat.not_lt.mpr hlong]
  · exact ⟨by simp [Owned, hfresh], by simp [hestablished, Nat.not_le.mp hlong], by simp⟩
  · refine ⟨by simp [Owned, KnxdClient.closeFd, hfresh], by simp [hestablished], fun _ => ?_⟩
    simp [KnxdClient.closeFd, hfresh, Nat.not_le.mp hlong]

theorem Owned.connect (h : c.Owned) (path : String) (answer : ConnectAnswer) : (c.connect path answer).1.Owned :=
  (h.connect_cases path answer).1

theorem Owned.write (h : c.Owned) (answers : List SysWrite) (frame : List UInt8) : (c.write answers frame).1.Owned := by
  unfold KnxdClient.write
  split
  · exact h
  · exact h.of_fields rfl rfl

theorem Owned.openGroupSocket (h : c.Owned) (writeOnly : Bool) (script : HandshakeScript) :
    (c.openGroupSocket writeOnly script).1.Owned := by
  unfold KnxdClient.openGroupSocket
  split_ifs
  · exact h
  · have hsame : Owned { c with writeOnly := writeOnly } := h.of_fields rfl rfl
    have hwrite := hsame.write script.writes (buildOpenGroupcon writeOnly)
    generalize KnxdClient.write { c with writeOnly := writeOnly } script.writes (buildOpenGroupcon writeOnly) = result
      at hwrite ⊢
    obtain ⟨c', ok⟩ := result
    cases ok with
    | false => exact hwrite
    | true =>
        obtain ⟨buffer, isOpen, hreply, -, -⟩ := c'.awaitReply_spec script
        simp only [hreply]
        exact hwrite.of_fields rfl rfl

theorem Owned.reconnect (h : c.Owned) (script : HandshakeScript) : (c.reconnect script).1.Owned := by
  unfold KnxdClient.reconnect
  split_ifs
  · exact h
  · have hconnect := h.disconnect.connect c.socketPath script.connect
    generalize c.disconnect.connect c.socketPath script.connect = result at hconnect ⊢
    obtain ⟨c', ok⟩ := result
    cases ok with
    | false => exact hconnect
    | true =>
        have hopen := hconnect.openGroupSocket c'.writeOnly script
        simp only
        generalize c'.openGroupSocket c'.writeOnly script = result at hopen ⊢
        obtain ⟨c'', ok⟩ := result
        cases ok with
        | false => exact hopen.disconnect
        | true => exact hopen

theorem Owned.sendFrame (h : c.Owned) (frame : List UInt8) (script : SendScript) :
    (c.sendFrame frame script).1.Owned := by
  have hwrite := h.write script.write frame
  unfold KnxdClient.sendFrame
  generalize c.write script.write frame = result at hwrite ⊢
  obtain ⟨c', ok⟩ := result
  cases ok with
  | true => exact hwrite
  | false =>
      have hreconnect := hwrite.reconnect script.reopening
      simp only
      generalize c'.reconnect script.reopening = result at hreconnect ⊢
      obtain ⟨c'', ok⟩ := result
      cases ok with
      | false => exact hreconnect
      | true => exact hreconnect.write script.retry frame

theorem Owned.sendGroupPacket (h : c.Owned) (groupAddr : UInt16) (apdu : List UInt8) (script : SendScript) :
    (c.sendGroupPacket groupAddr apdu script).1.Owned := by
  unfold KnxdClient.sendGroupPacket
  split_ifs
  · have hreconnect := h.reconnect script.opening
    generalize c.reconnect script.opening = result at hreconnect ⊢
    obtain ⟨c', ok⟩ := result
    cases ok with
    | false => exact hreconnect
    | true => exact hreconnect.sendFrame _ script
  · exact h.sendFrame _ script

theorem Owned.awaitMessage (h : c.Owned) (script : PollScript) : (c.awaitMessage script).1.Owned := by
  have htake : ∀ {c : KnxdClient}, c.Owned → ∀ reads, (c.takeMessage reads).1.Owned :=
    fun h reads => h.of_fields rfl rfl
  have hfirst := htake h script.reads
  unfold KnxdClient.awaitMessage
  generalize c.takeMessage script.reads = result at hfirst ⊢
  obtain ⟨c', message⟩ := result
  cases message with
  | some message => exact hfirst
  | none =>
      have hreconnect := hfirst.reconnect script.reopening
      simp only
      split_ifs
      · generalize c'.reconnect script.reopening = result at hreconnect ⊢
        obtain ⟨c'', ok⟩ := result
        cases ok with
        | true => exact htake hreconnect script.retry
        | false => exact hreconnect
      · exact hfirst

theorem Owned.pollMessage (h : c.Owned) (script : PollScript) : (c.pollMessage script).1.Owned := by
  unfold KnxdClient.pollMessage
  split_ifs
  · have hreconnect := h.reconnect script.opening
    generalize c.reconnect script.opening = result at hreconnect ⊢
    obtain ⟨c', ok⟩ := result
    cases ok with
    | false => exact hreconnect
    | true => exact hreconnect.awaitMessage script
  · exact h.awaitMessage script

theorem Owned.pollGroupTelegram (h : c.Owned) (script : PollScript) : (c.pollGroupTelegram script).1.Owned := by
  have hpoll := h.pollMessage script
  unfold KnxdClient.pollGroupTelegram
  generalize c.pollMessage script = result at hpoll ⊢
  obtain ⟨c', message⟩ := result
  cases message with
  | none => exact hpoll
  | some message =>
      simp only
      split
      · exact hpoll
      · exact hpoll.of_fields rfl rfl

theorem Owned.perform (h : c.Owned) (call : ClientCall) : (c.perform call).Owned := by
  cases call with
  | connect path answer => exact h.connect path answer
  | disconnect => exact h.disconnect
  | reconnect script => exact h.reconnect script
  | openGroupSocket writeOnly script => exact h.openGroupSocket writeOnly script
  | sendGroupPacket groupAddr apdu script => exact h.sendGroupPacket groupAddr apdu script
  | pollGroupTelegram script => exact h.pollGroupTelegram script

/-- **A client never has more than one socket open.** After every sequence of calls, whatever the kernel answers to
them, the sockets that it has created and not closed are the one in `fd`, if there is one. -/
theorem one_descriptor (calls : List ClientCall) :
    (run perform {} calls).openFds = (run perform {} calls).fd.toList :=
  run_invariant Owned (fun _ call h => h.perform call) calls rfl

end KnxdClient

/-- The delays between the attempts, in milliseconds. -/
def defaultDelaysMs : List Nat := [500, 1000, 2000, 4000, 8000]

/-- How the attempts end: the client, what is returned, and the delays slept through. -/
structure RetryResult where
  client : KnxdClient
  connected : Bool
  slept : List Nat

/-- The loop: one attempt before each of the delays, and one after the last; `answers` are those of the kernel to the
attempts that are left. -/
def connectAttempts (path : String) : List Nat → (Nat → ConnectAnswer) → KnxdClient → RetryResult
  | [], answers, c =>
      let (c, ok) := c.connect path (answers 0)
      ⟨c, ok, []⟩
  | delay :: delaysMs, answers, c =>
      match c.connect path (answers 0) with
      | (c, true) => ⟨c, true, []⟩
      | (c, false) =>
          let rest := connectAttempts path delaysMs (fun k => answers (k + 1)) c
          { rest with slept := delay :: rest.slept }

def connectKnxdWithRetry (c : KnxdClient) (path : String) (hasWorkedBefore : Bool) (answers : Nat → ConnectAnswer) :
    RetryResult :=
  let numRetries := if hasWorkedBefore then 5 else 3
  connectAttempts path (defaultDelaysMs.take numRetries) answers c

/-- What the attempts come to: they end with the first that succeeds, and sleep between those that do not. -/
structure RetryResult.Spec (path : String) (delaysMs : List Nat) (answers : Nat → ConnectAnswer) (r : RetryResult) :
    Prop where
  owned : r.client.Owned
  connected : r.connected = true ↔
    path.utf8ByteSize < sunPathSize ∧ ∃ k ≤ delaysMs.length, answers k = .established
  slept : r.slept <+: delaysMs
  openFds : r.connected = false →
    (r.client.openFds = [] ↔ answers delaysMs.length = .noSocket ∨ path.utf8ByteSize < sunPathSize)

theorem connectAttempts_spec (path : String) (delaysMs : List Nat) (answers : Nat → ConnectAnswer) {c : KnxdClient}
    (h : c.Owned) : (connectAttempts path delaysMs answers c).Spec path delaysMs answers := by
  induction delaysMs generalizing answers c with
  | nil =>
      obtain ⟨howned, hok, hopen⟩ := h.connect_cases path (answers 0)
      refine ⟨howned, hok.trans ?_, List.prefix_refl _, hopen⟩
      simp [and_comm]
  | cons delay delaysMs ih =>
      obtain ⟨howned, hok, hopen⟩ := h.connect_cases path (answers 0)
      unfold connectAttempts
      generalize c.connect path (answers 0) = result at howned hok hopen ⊢
      obtain ⟨c', ok⟩ := result
      cases ok with
      | true =>
          obtain ⟨hfirst, hshort⟩ := hok.mp rfl
          exact ⟨howned, iff_of_true rfl ⟨hshort, 0, Nat.zero_le _, hfirst⟩, List.nil_prefix, nofun⟩
      | false =>
          have hrest := ih (fun k => answers (k + 1)) howned
          refine ⟨hrest.owned, hrest.connected.trans ?_, List.prefix_cons_inj _ |>.mpr hrest.slept, hrest.openFds⟩
          refine and_congr_right fun hshort => ?_
          have hfirst : answers 0 ≠ .established := fun h => nomatch hok.mpr ⟨h, hshort⟩
          constructor
          · rintro ⟨k, hk, hanswer⟩
            exact ⟨k + 1, Nat.succ_le_succ hk, hanswer⟩
          · rintro ⟨k, hk, hanswer⟩
            cases k with
            | zero => exact absurd hanswer hfirst
            | succ k => exact ⟨k, Nat.le_of_succ_le_succ hk, hanswer⟩

/-- `knxd_parent` when the first child is forked. -/
def verifyKnxd (path : String) (answers : Nat → ConnectAnswer) (script : HandshakeScript) : KnxdClient :=
  let result := connectKnxdWithRetry {} path false answers
  if result.connected then (result.client.openGroupSocket false script).1.disconnect else result.client

/-- **The check at startup.** It finds knxd if one of four attempts is answered; it never sleeps for more than 3.5 s in
all; and it leaves no socket to the children, exactly if the path fits or there is no socket for the last attempt. -/
theorem startup_check (path : String) (answers : Nat → ConnectAnswer) (script : HandshakeScript) :
    ((connectKnxdWithRetry {} path false answers).connected = true ↔
        path.utf8ByteSize < sunPathSize ∧ ∃ k < 4, answers k = .established) ∧
      (connectKnxdWithRetry {} path false answers).slept.sum ≤ 3500 ∧
      ((verifyKnxd path answers script).openFds = [] ↔
        answers 3 = .noSocket ∨ path.utf8ByteSize < sunPathSize) := by
  have hnew : ({} : KnxdClient).Owned := rfl
  have hspec : (connectKnxdWithRetry {} path false answers).Spec path [500, 1000, 2000] answers :=
    connectAttempts_spec path [500, 1000, 2000] answers hnew
  refine ⟨?_, ?_, ?_⟩
  · rw [hspec.connected]
    simp only [List.length_cons, List.length_nil, Nat.lt_succ_iff]
  · exact (hspec.slept.sublist.sum_le_sum fun _ _ => Nat.zero_le _).trans (by decide)
  · rw [verifyKnxd]
    split_ifs with hconnected
    · obtain ⟨hshort, -⟩ := hspec.connected.mp hconnected
      exact iff_of_true (hspec.owned.openGroupSocket false script).disconnect_openFds (Or.inr hshort)
    · exact hspec.openFds (Bool.not_eq_true _ ▸ hconnected)

end KnxdFcgi
