import KnxdFcgi.ReaderStream
import KnxdFcgi.WorkerPackets

/-! The cache reader comes back. Whatever its connections have been through, a connection that is lost and an attempt
that fails cost one sleep each, and the next attempt that knxd confirms ends in a loop that pushes what comes again, as
if it had just been started. The one thing it cannot recover from is its configuration: a path that does not fit the
socket address makes every attempt fail. -/

namespace KnxdFcgi

open Machine

namespace KnxdClient

variable {c : KnxdClient}

theorem connect_true {path : String} {answer : ConnectAnswer} (h : (c.connect path answer).2 = true) :
    answer = .established ∧ path.utf8ByteSize < sunPathSize := by
  unfold connect at h
  generalize (if c.fd.isSome then c.disconnect else c) = c' at h
  dsimp only at h
  split_ifs at h with hnone hlong hok
  exact ⟨hok, Nat.not_le.mp hlong⟩

/-- On a new connection the handshake succeeds exactly if knxd confirms it. -/
theorem openGroupSocket_iff_confirmed {script : HandshakeScript} (hconnect : script.connect = .established)
    (hbuffer : c.readBuffer = []) {fd : Nat} (hfd : c.fd = some fd) (writeOnly : Bool) :
    (c.openGroupSocket writeOnly script).2 = true ↔ Confirmed script := by
  refine ⟨fun hok => ?_, fun h => (openGroupSocket_confirmed h hbuffer hfd writeOnly).1⟩
  have hlength : ∀ other, (buildOpenGroupcon other).length = (buildOpenGroupcon writeOnly).length := by
    intro other
    cases other <;> cases writeOnly <;> rfl
  simp only [openGroupSocket, write, hfd, Option.isNone_some, Bool.false_eq_true, if_false] at hok
  cases hwrites : (writeAll script.writes (buildOpenGroupcon writeOnly).length).2 with
  | false => simp only [hwrites, Bool.false_eq_true] at hok
  | true =>
      simp only [hwrites] at hok
      generalize hc' : KnxdClient.mk .. = c' at hok
      have hempty : c'.readBuffer = [] := by rw [← hc', hbuffer]
      obtain ⟨isOpen, heq⟩ := awaitReply_eq c' script
      rw [heq, hempty, Option.any_eq_true] at hok
      obtain ⟨message, hmessage, hopens⟩ := hok
      refine ⟨hconnect, fun other => by rw [hlength, hwrites], message, ?_⟩
      cases hparse : parseEibdMessage message with
      | parsed type data =>
          rw [opensGroup, hparse, decide_eq_true_iff] at hopens
          exact ⟨data, hmessage, by rw [hopens]⟩
      | rejected | illFormedRange =>
          rw [opensGroup, hparse] at hopens
          cases hopens

end KnxdClient

namespace CacheReader

variable {options : CacheReaderOptions} {s : CacheReader} {script : ReaderScript}

/-- The attempt of a loop that has nothing left of an earlier connection. -/
theorem attemptConnect_cases (options : CacheReaderOptions) (hfd : s.client.fd = none)
    (hbuffer : s.client.readBuffer = []) (script : HandshakeScript) :
    (KnxdClient.Confirmed script ∧ options.socketPath.utf8ByteSize < sunPathSize ∧
        ∃ c, s.attemptConnect options script =
          { s with client := c, connected := true, backoffMs := options.initialBackoffMs }) ∨
      ¬(KnxdClient.Confirmed script ∧ options.socketPath.utf8ByteSize < sunPathSize) ∧
        ∃ c, s.attemptConnect options script = s.backOff options c := by
  unfold attemptConnect
  by_cases hconnects : script.connect = .established ∧ options.socketPath.utf8ByteSize < sunPathSize
  · obtain ⟨c, hconnect, hnew, hkept, -⟩ := KnxdClient.connect_established hfd hconnects.2
    have hiff := KnxdClient.openGroupSocket_iff_confirmed hconnects.1 (hkept.trans hbuffer) hnew false
    rw [hconnects.1, hconnect]
    simp only
    generalize c.openGroupSocket false script = result at hiff ⊢
    obtain ⟨c', ok⟩ := result
    cases ok with
    | true => exact Or.inl ⟨hiff.mp rfl, hconnects.2, c', rfl⟩
    | false => exact Or.inr ⟨fun h => Bool.false_ne_true (hiff.mpr h.1), c', rfl⟩
  · have hfails : (s.client.connect options.socketPath script.connect).2 = true → False :=
      fun htrue => hconnects (KnxdClient.connect_true htrue)
    generalize s.client.connect options.socketPath script.connect = result at hfails ⊢
    obtain ⟨c, ok⟩ := result
    cases ok with
    | true => exact (hfails rfl).elim
    | false => exact Or.inr ⟨fun h => hconnects ⟨h.1.connect, h.2⟩, c, rfl⟩

/-- The event costs the loop a sleep: the wait on its connection reports an error or a hangup, or it has none and
knxd does not confirm the attempt to make one. -/
def Loses (s : CacheReader) (script : ReaderScript) : Prop :=
  if s.connected then s.client.waitForActivity script.activity = .error
  else ¬KnxdClient.Confirmed script.handshake

theorem next_loses (options : CacheReaderOptions) (hpc : s.pc = .top)
    (hidle : s.connected = false → s.client.fd = none ∧ s.client.readBuffer = []) (h : s.Loses script) :
    ∃ c, s.next options script = s.backOff options c := by
  unfold Loses at h
  simp only [next, hpc]
  split_ifs at h ⊢ with hconnected
  · rw [h]
    exact ⟨s.client, rfl⟩
  · obtain ⟨hfd, hbuffer⟩ := hidle (by simpa using hconnected)
    obtain ⟨hconfirmed, -⟩ | ⟨-, hbacked⟩ := attemptConnect_cases options hfd hbuffer script.handshake
    · exact absurd hconfirmed h
    · exact hbacked

/-- The loop is at its head without a connection, and has nothing left of an earlier one. -/
structure Idle (s : CacheReader) : Prop where
  pc : s.pc = .top
  connected : s.connected = false
  fd : s.client.fd = none
  empty : s.client.readBuffer = []

/-- With a path that does not fit, the loop never has a connection. -/
theorem Idle.next (h : s.Idle) (hlong : sunPathSize ≤ options.socketPath.utf8ByteSize) (script : ReaderScript) :
    (s.next options script).Idle := by
  obtain ⟨-, hshort, -⟩ | ⟨-, c, hbacked⟩ := attemptConnect_cases options h.fd h.empty script.handshake
  · exact absurd hshort (Nat.not_lt.mpr hlong)
  · simp only [CacheReader.next, h.pc, h.connected, Bool.false_eq_true, if_false, hbacked]
    exact ⟨h.pc, rfl, rfl, rfl⟩

theorem run_idle (hlong : sunPathSize ≤ options.socketPath.utf8ByteSize) (scripts : List ReaderScript) :
    (run (next options) (start options) scripts).Idle :=
  run_invariant Idle (fun _ script h => h.next hlong script) scripts ⟨rfl, rfl, rfl, rfl⟩

/-- What can happen to a loop at its head: the connection is lost or cannot be made, any number of times; then knxd
confirms an attempt, and whatever follows, on this connection or later ones, leaves nothing complete behind. -/
structure Recovery (options : CacheReaderOptions) (s : CacheReader) where
  losses : List ReaderScript
  opened : ReaderScript
  more : List ReaderScript
  loses : Along (next options) Loses s losses
  unconnected : losses ≠ [] ∨ s.connected = false
  confirmed : KnxdClient.Confirmed opened.handshake
  alone : Along (next options) (Alone options) (run (next options) s losses) (opened :: more)

/-- The loop when its losses are over. -/
def Recovery.lost (r : Recovery options s) : CacheReader := run (next options) s r.losses

end CacheReader

namespace WatchedReader

open CacheReader (Loses Recovery)

variable {options : CacheReaderOptions} {before : List (UInt16 × List UInt8)} {w : WatchedReader}

/-- Losses keep the pushes and cost one sleep each. -/
theorem Delivered.run_losses (h : Delivered False before w) (hpc : w.reader.pc = .top) {losses : List ReaderScript}
    (hloses : Along (CacheReader.next options) Loses w.reader losses) :
    (run (CacheReader.next options) w.reader losses).pc = .top ∧
      (run (CacheReader.next options) w.reader losses).journal = w.reader.journal ∧
      (run (CacheReader.next options) w.reader losses).sleeps.length = w.reader.sleeps.length + losses.length ∧
      (losses ≠ [] ∨ w.reader.connected = false → (run (CacheReader.next options) w.reader losses).connected = false) := by
  induction losses generalizing w with
  | nil => exact ⟨hpc, rfl, rfl, fun hidle => hidle.resolve_left (not_not.mpr rfl)⟩
  | cons script losses ih =>
      have hidle : w.reader.connected = false → w.reader.client.fd = none ∧ w.reader.client.readBuffer = [] :=
        fun hidle => ⟨h.idle hidle, h.served.empty (h.idle hidle)⟩
      obtain ⟨c, hbacked⟩ := CacheReader.next_loses options hpc hidle hloses.1
      have hnext : (w.next options script).reader = w.reader.backOff options c := hbacked
      obtain ⟨htop, hjournal, hsleeps, hlost⟩ :=
        ih (w := w.next options script) (h.next nofun script) (by rw [hnext]; exact hpc) hloses.2
      rw [hnext] at htop hjournal hsleeps hlost
      rw [run_cons, hbacked]
      refine ⟨htop, hjournal, hsleeps.trans ?_, fun _ => hlost (Or.inr rfl)⟩
      simp only [CacheReader.backOff, List.length_append, List.length_cons, List.length_nil]
      omega

/-- A loop without a connection is as a new one for a record that begins now. -/
theorem Delivered.resume (h : Delivered False before w) (hpc : w.reader.pc = .top) (hidle : w.reader.connected = false) :
    w.reader.Inv ∧ Delivered True (w.reader.journal.map Push.entry) { reader := w.reader } := by
  have hfd := h.idle hidle
  have hbuffer := h.served.empty hfd
  have htraced : KnxdClient.Traced True w.reader.client [] :=
    { chained := .nil
      channel_lt := by simp
      empty := fun _ => hbuffer
      current := by simp [hfd]
      lost := fun _ _ _ => KnxdClient.settled_of_unread (by simp)
      path := h.served.path }
  refine ⟨⟨?_, fun _ => ⟨hfd, hbuffer⟩, ?_⟩, ⟨htraced.served hfd, fun _ => hfd, ?_, ?_⟩⟩
  · intro hwait
    rw [CacheReader.HoldsNothing, hbuffer]
    rfl
  · intro pushed hdraining
    cases hpc.symm.trans hdraining
  · intro pushed hdraining
    cases hpc.symm.trans hdraining
  · have hnothing : KnxdClient.polledUpTo [] w.reader.client.sockets = [] := List.flatMap_eq_nil_iff.mpr fun _ _ => rfl
    rw [hnothing, List.filterMap_nil, List.append_nil]

/-- The loop comes back and pushes what comes. -/
theorem Delivered.recovers (h : Delivered False before w) (hpc : w.reader.pc = .top)
    (hshort : options.socketPath.utf8ByteSize < sunPathSize) (r : Recovery options w.reader) :
    ((r.lost.next options r.opened).connected = true ∧
        (r.lost.next options r.opened).sleeps.length = w.reader.sleeps.length + r.losses.length) ∧
      ((run (CacheReader.next options) r.lost (r.opened :: r.more)).pc = .top →
        (run (CacheReader.next options) r.lost (r.opened :: r.more)).journal.map Push.entry =
          w.reader.journal.map Push.entry ++
            (run (WatchedReader.next options) { reader := r.lost } (r.opened :: r.more)).brought.filterMap entryOf) := by
  obtain ⟨htop, hjournal, hsleeps, hidle⟩ := h.run_losses hpc r.loses
  have hidle := hidle r.unconnected
  have hreader : (run (WatchedReader.next options) w r.losses).reader = r.lost := run_map reader (fun _ _ => rfl) r.losses
  have hlost : Delivered False before (run (WatchedReader.next options) w r.losses) :=
    run_invariant (Delivered False before) (fun _ script h => h.next nofun script) r.losses h
  have halone := r.alone
  rw [← Recovery.lost] at htop hjournal hsleeps hidle halone
  generalize run (WatchedReader.next options) w r.losses = w' at hlost hreader
  generalize r.lost = lost at hreader htop hjournal hsleeps hidle halone ⊢
  subst hreader
  constructor
  · have hfd := hlost.idle hidle
    obtain ⟨-, -, c, hconnected⟩ | ⟨hrefused, -⟩ :=
      CacheReader.attemptConnect_cases options hfd (hlost.served.empty hfd) r.opened.handshake
    · simp only [CacheReader.next, htop, hidle, Bool.false_eq_true, if_false, hconnected]
      exact ⟨trivial, hsleeps⟩
    · exact absurd ⟨r.confirmed, hshort⟩ hrefused
  · intro hhead
    obtain ⟨hinv, hfresh⟩ := hlost.resume htop hidle
    obtain ⟨hinv', h'⟩ := run_kept (w := { reader := w'.reader }) hinv hfresh halone
    have hreader' : (run (WatchedReader.next options) { reader := w'.reader } (r.opened :: r.more)).reader =
        run (CacheReader.next options) w'.reader (r.opened :: r.more) := run_map reader (fun _ _ => rfl) _
    rw [← hreader'] at hhead ⊢
    rw [h'.journal_eq hinv' hhead, hjournal]

end WatchedReader

namespace CacheReader

/-- The first attempt is confirmed. -/
def connectsAtOnce (options : CacheReaderOptions) : Recovery options (start options) where
  losses := []
  opened := connectAndTake.flatten.headD {}
  more := []
  loses := trivial
  unconnected := Or.inr rfl
  confirmed := ⟨rfl, by decide, buildEibdMessage EibMessageType.openGroupcon [], [], by decide, by decide⟩
  alone := ⟨fun _ _ => replyWith_nil_alone, trivial⟩

/-- **The cache reader comes back from every failure of knxd.** In every run, whenever the loop is at its head: after
any number of losses and failed attempts, one sleep for each, the first attempt that knxd confirms gives it a
connection; and whenever it is at its head again, it has added to its pushes exactly those of the messages that have
come since, however they were cut into reads, as long as nothing complete is left behind. This is so exactly if the
path fits the socket address; if it does not, the loop never has a connection. -/
theorem recovers_iff (options : CacheReaderOptions) :
    ((∀ scripts, (run (next options) (start options) scripts).pc = .top →
          ∀ r : Recovery options (run (next options) (start options) scripts),
        ((r.lost.next options r.opened).connected = true ∧
            (r.lost.next options r.opened).sleeps.length =
              (run (next options) (start options) scripts).sleeps.length + r.losses.length) ∧
          ((run (next options) r.lost (r.opened :: r.more)).pc = .top →
            (run (next options) r.lost (r.opened :: r.more)).journal.map Push.entry =
              (run (next options) (start options) scripts).journal.map Push.entry ++
                (run (WatchedReader.next options) { reader := r.lost } (r.opened :: r.more)).brought.filterMap
                  entryOf)) ↔
        options.socketPath.utf8ByteSize < sunPathSize) ∧
      (sunPathSize ≤ options.socketPath.utf8ByteSize →
        ∀ scripts, (run (next options) (start options) scripts).connected = false) := by
  refine ⟨⟨fun hrecovers => ?_, fun hshort scripts hpc r => ?_⟩, fun hlong scripts => (run_idle hlong scripts).connected⟩
  · by_contra hlong
    have hconnected := (hrecovers [] rfl (connectsAtOnce options)).1.1
    have hnever := (run_idle (Nat.not_lt.mp hlong) [(connectsAtOnce options).opened]).connected
    exact Bool.false_ne_true (hnever.symm.trans hconnected)
  · have h := WatchedReader.run_delivered options scripts
    have hreader := WatchedReader.run_reader options scripts
    generalize run (WatchedReader.next options) (.start options) scripts = w at h hreader
    generalize run (next options) (start options) scripts = s at hpc hreader r ⊢
    subst hreader
    exact h.recovers hpc hshort r

/-- A telegram that comes in two parts, with `EAGAIN` between them. -/
def cutTelegram : List ReaderScript :=
  [{ activity := .ready true false }, { poll := { reads := [.data ⟨telegram.take 5, by decide, by decide⟩, .again] } },
    { activity := .ready true false }, { poll := { reads := [.data ⟨telegram.drop 5, by decide, by decide⟩] } }, {}]

/-- A wait that fails, an attempt whose handshake fails, and one that knxd confirms and the telegram follows. -/
def comesBack : Recovery {} (run (next {}) (start {}) oneTelegram) where
  losses := [{ activity := .failed }, { handshake := { connect := .established } }]
  opened := oneTelegram.headD {}
  more := cutTelegram
  loses := ⟨(by decide : _ = WaitResult.error), fun h => absurd (h.writes false) (by decide), trivial⟩
  unconnected := Or.inl (List.cons_ne_nil _ _)
  confirmed := (connectsAtOnce {}).confirmed
  alone := by
    have hextract : tryExtractMessage telegram = some (telegram, []) := by decide
    exact ⟨fun _ _ => replyWith_nil_alone, fun hidle => (by cases hidle),
      alone_of_draining rfl rfl (stopsLast_of_none (by decide)), fun hidle => (by cases hidle),
      alone_of_draining rfl rfl (stopsLast_of_telegram hextract (by decide)),
      alone_of_draining rfl rfl (stopsLast_of_none (by decide)), trivial⟩

theorem recovers_iff_comesBack :
    (run (next {}) comesBack.lost (comesBack.opened :: comesBack.more)).journal.map Push.entry =
        [(0x0001, [0x01]), (0x0001, [0x01])] ∧
      (run (WatchedReader.next {}) { reader := comesBack.lost } (comesBack.opened :: comesBack.more)).brought.filterMap
        entryOf = [(0x0001, [0x01])] := by
  have hshort : ({} : CacheReaderOptions).socketPath.utf8ByteSize < sunPathSize := by decide +kernel
  have hbefore : (run (next {}) (start {}) oneTelegram).journal.map Push.entry = [(0x0001, [0x01])] := by decide
  have hafter : (run (next {}) comesBack.lost (comesBack.opened :: comesBack.more)).journal.map Push.entry =
      [(0x0001, [0x01]), (0x0001, [0x01])] := by decide
  have hpushed := ((recovers_iff {}).1.mpr hshort oneTelegram (by decide) comesBack).2 (by decide)
  rw [hbefore, hafter] at hpushed
  exact ⟨hafter, (List.cons.inj hpushed).2.symm⟩

end CacheReader
end KnxdFcgi
