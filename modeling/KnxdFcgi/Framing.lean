import Mathlib

/-! Framed streams, from both ends. On the reading end a splitter takes the first complete message off a
stream and does not change its mind when the stream grows; taking messages off greedily is then
independent of the pieces in which the stream arrives. On the writing end frames are written to numbered
channels, each attempt possibly in part; a channel stays framed as long as nothing follows a frame that
was cut. A record of the calls that read from such channels says which bytes each of them went on with.
Nothing is assumed of the format of a message. -/

namespace KnxdFcgi.Framing

structure Splitter (α : Type) where
  /-- The first message of the stream and what follows it, once the message is complete. -/
  split : List α → Option (List α × List α)
  split_append {stream message rest : List α} :
    split stream = some (message, rest) → message ++ rest = stream
  split_ne_nil {stream message rest : List α} : split stream = some (message, rest) → message ≠ []
  split_more {stream message rest : List α} (more : List α) :
    split stream = some (message, rest) → split (stream ++ more) = some (message, rest ++ more)

namespace Splitter

variable {α : Type} (S : Splitter α)

theorem split_length {stream message rest : List α} (h : S.split stream = some (message, rest)) :
    rest.length < stream.length := by
  have hpos := List.length_pos_iff.mpr (S.split_ne_nil h)
  rw [← S.split_append h, List.length_append]
  omega

/-- The greedy parse of a stream: its complete messages, and what is left. -/
def frames (stream : List α) : List (List α) × List α :=
  match h : S.split stream with
  | none => ([], stream)
  | some (message, rest) =>
      have := S.split_length h
      (message :: (frames rest).1, (frames rest).2)
termination_by stream.length

variable {S} {stream message rest : List α}

theorem frames_of_none (h : S.split stream = none) : S.frames stream = ([], stream) := by
  unfold frames
  split
  · rfl
  · rename_i hsome
    rw [h] at hsome
    cases hsome

theorem frames_of_some (h : S.split stream = some (message, rest)) :
    S.frames stream = (message :: (S.frames rest).1, (S.frames rest).2) := by
  conv_lhs => rw [frames]
  split
  · rename_i hnone
    rw [h] at hnone
    cases hnone
  · rename_i hsome
    rw [h] at hsome
    cases hsome
    rfl

/-- What has been parsed stays parsed when the stream grows. -/
theorem frames_append (stream more : List α) :
    S.frames (stream ++ more) =
      ((S.frames stream).1 ++ (S.frames ((S.frames stream).2 ++ more)).1,
        (S.frames ((S.frames stream).2 ++ more)).2) := by
  induction hn : stream.length using Nat.strong_induction_on generalizing stream with
  | _ n ih =>
      cases hsplit : S.split stream with
      | none => rw [frames_of_none hsplit, List.nil_append]
      | some pair =>
          obtain ⟨message, rest⟩ := pair
          have hrest := ih rest.length (hn ▸ S.split_length hsplit) rest rfl
          rw [frames_of_some (S.split_more more hsplit), frames_of_some hsplit, hrest, List.cons_append]

theorem split_nil (S : Splitter α) : S.split [] = none := by
  by_contra hsome
  obtain ⟨pair, hpair⟩ := Option.ne_none_iff_exists'.mp hsome
  have hless : pair.2.length < ([] : List α).length := S.split_length hpair
  exact absurd hless (Nat.not_lt_zero _)

/-- Complete messages and a part of another one are parsed into themselves. -/
theorem frames_flatten_append {messages : List (List α)} (h : ∀ m ∈ messages, S.split m = some (m, []))
    (hrest : S.split rest = none) : S.frames (messages.flatten ++ rest) = (messages, rest) := by
  induction messages with
  | nil => exact frames_of_none hrest
  | cons message messages ih =>
      have hsplit := S.split_more (messages.flatten ++ rest) (h message List.mem_cons_self)
      rw [← List.append_assoc, ← List.flatten_cons] at hsplit
      rw [frames_of_some hsplit, List.nil_append, ih fun m hm => h m (List.mem_cons_of_mem _ hm)]

theorem frames_flatten {messages : List (List α)} (h : ∀ m ∈ messages, S.split m = some (m, [])) :
    S.frames messages.flatten = (messages, []) := by
  have hframes := frames_flatten_append h S.split_nil
  rwa [List.append_nil] at hframes

/-- A message that is taken off whole, and not before it is complete. -/
def SelfDelimiting (S : Splitter α) (message : List α) : Prop :=
  S.split message = some (message, []) ∧ ∀ n < message.length, S.split (message.take n) = none

/-- A message that is taken off whole is not taken off earlier. -/
theorem selfDelimiting_of_split (h : S.split message = some (message, [])) : S.SelfDelimiting message := by
  refine ⟨h, ?_⟩
  intro n hn
  cases hsplit : S.split (message.take n) with
  | none => rfl
  | some pair =>
      obtain ⟨first, rest⟩ := pair
      have hmore := S.split_more (message.drop n) hsplit
      rw [List.take_append_drop, h] at hmore
      obtain ⟨rfl, -⟩ := Prod.mk.inj (Option.some.inj hmore)
      have hlen := congrArg List.length (S.split_append hsplit)
      rw [List.length_append, List.length_take] at hlen
      omega

end Splitter

/-- One attempt to write a frame to a channel: how many of its bytes were written. -/
structure Attempt (α : Type) where
  channel : Nat
  frame : List α
  written : Nat

namespace Attempt

variable {α : Type}

/-- The frame was begun and not finished. -/
def Cut (a : Attempt α) : Prop := 0 < a.written ∧ a.written < a.frame.length

/-- The bytes that the attempts wrote to a channel. -/
def sent (log : List (Attempt α)) (channel : Nat) : List α :=
  (log.filter (·.channel = channel)).flatMap fun a => a.frame.take a.written

/-- No frame on the channel was cut. -/
def Clean (log : List (Attempt α)) (channel : Nat) : Prop :=
  ∀ a ∈ log, a.channel = channel → ¬a.Cut

/-- Nothing was written to the channel after a frame that was cut. -/
def Framed (log : List (Attempt α)) (channel : Nat) : Prop :=
  ∀ before a after, log = before ++ a :: after → a.channel = channel → a.Cut →
    ∀ b ∈ after, b.channel = channel → b.written = 0

variable {log : List (Attempt α)} {channel : Nat} {a : Attempt α}

theorem Clean.append (h : Clean log channel) (ha : a.channel = channel → ¬a.Cut) :
    Clean (log ++ [a]) channel := by
  intro b hb
  rcases List.mem_append.mp hb with hb | hb
  · exact h b hb
  · rw [List.mem_singleton.mp hb]
    exact ha

/-- A new attempt keeps a channel framed if the channel was clean, or if the attempt goes elsewhere. -/
theorem Framed.append (h : Framed log channel) (ha : a.channel = channel → Clean log channel) :
    Framed (log ++ [a]) channel := by
  intro before b after hlog hchannel hcut c hc hcc
  rcases List.eq_nil_or_concat' after with rfl | ⟨after', last, rfl⟩
  · cases hc
  · rw [← List.cons_append, ← List.append_assoc] at hlog
    obtain ⟨rfl, hlast⟩ := List.append_inj' hlog rfl
    cases List.singleton_inj.mp hlast
    rcases List.mem_append.mp hc with hc | hc
    · exact h before b after' rfl hchannel hcut c hc hcc
    · obtain rfl := List.mem_singleton.mp hc
      exact absurd hcut (ha hcc b (by simp) hchannel)

theorem sent_append (log : List (Attempt α)) (a : Attempt α) (channel : Nat) :
    sent (log ++ [a]) channel =
      sent log channel ++ if a.channel = channel then a.frame.take a.written else [] := by
  rw [sent, sent, List.filter_append, List.flatMap_append]
  by_cases ha : a.channel = channel <;> simp [ha]

theorem Framed.init (h : Framed (log ++ [a]) channel) : Framed log channel := by
  rintro before b after rfl hchannel hcut c hc
  exact h before b (after ++ [a]) (by simp) hchannel hcut c (List.mem_append_left _ hc)

/-- **What a framed channel carries**: complete frames, and at most one more that was cut. -/
theorem Framed.sent_eq (h : Framed log channel) (hwritten : ∀ a ∈ log, a.written ≤ a.frame.length) :
    ∃ (complete : List (List α)) (cut : List α), sent log channel = complete.flatten ++ cut ∧
      (∀ frame ∈ complete, ∃ a ∈ log, a.channel = channel ∧ a.frame = frame) ∧
      (cut = [] ∨ ∃ a ∈ log, a.channel = channel ∧ a.Cut ∧ cut = a.frame.take a.written) := by
  induction log using List.reverseRecOn with
  | nil => exact ⟨[], [], rfl, by simp, Or.inl rfl⟩
  | append_singleton log a ih =>
      obtain ⟨complete, cut, hsent, hcomplete, hcut⟩ :=
        ih h.init fun b hb => hwritten b (List.mem_append_left _ hb)
      have hle := hwritten a (by simp)
      have hold : ∀ frame ∈ complete, ∃ b ∈ log ++ [a], b.channel = channel ∧ b.frame = frame := by
        intro frame hframe
        obtain ⟨b, hb, hbf⟩ := hcomplete frame hframe
        exact ⟨b, List.mem_append_left _ hb, hbf⟩
      rw [sent_append, hsent]
      by_cases hnothing : a.channel = channel ∧ a.written ≠ 0
      · obtain ⟨hchannel, hne⟩ := hnothing
        rw [if_pos hchannel]
        have hnone : cut = [] := by
          rcases hcut with rfl | ⟨b, hb, hbc, hbcut, -⟩
          · rfl
          · obtain ⟨before, after, rfl⟩ := List.append_of_mem hb
            exact absurd (h before b (after ++ [a]) (by simp) hbc hbcut a (by simp) hchannel) hne
        rw [hnone, List.append_nil]
        by_cases hwhole : a.written = a.frame.length
        · refine ⟨complete ++ [a.frame], [], ?_, ?_, Or.inl rfl⟩
          · rw [hwhole, List.take_length]
            simp
          · intro frame hframe
            rcases List.mem_append.mp hframe with hframe | hframe
            · exact hold frame hframe
            · exact ⟨a, by simp, hchannel, (List.mem_singleton.mp hframe).symm⟩
        · exact ⟨complete, a.frame.take a.written, rfl, hold,
            Or.inr ⟨a, by simp, hchannel, ⟨by omega, by omega⟩, rfl⟩⟩
      · have hempty : (if a.channel = channel then a.frame.take a.written else []) = [] := by
          split_ifs with hchannel
          · rw [not_and_not_right.mp hnothing hchannel, List.take_zero]
          · rfl
        rw [hempty, List.append_nil]
        refine ⟨complete, cut, rfl, hold, hcut.imp id ?_⟩
        rintro ⟨b, hb, hrest⟩
        exact ⟨b, List.mem_append_left _ hb, hrest⟩

end Attempt

/-- One call that reads from a channel: the bytes it held from earlier calls, and those it received. -/
structure Receipt (α : Type) where
  channel : Nat
  held : List α
  bytes : List α

namespace Receipt

variable {α : Type}

/-- The bytes that the calls received from a channel. -/
def received (log : List (Receipt α)) (channel : Nat) : List α :=
  (log.filter (·.channel = channel)).flatMap bytes

/-- Every call went on with what was left of the bytes of its own channel. -/
def Joined (log : List (Receipt α)) : Prop :=
  ∀ before r after, log = before ++ r :: after → r.held <:+ received before r.channel

variable {log : List (Receipt α)} {r : Receipt α}

theorem joined_nil : Joined ([] : List (Receipt α)) := by
  intro before r after hlog
  simp at hlog

theorem Joined.append (h : Joined log) (hr : r.held <:+ received log r.channel) : Joined (log ++ [r]) := by
  intro before r' after hlog
  rcases List.eq_nil_or_concat' after with rfl | ⟨after', last, rfl⟩
  · obtain ⟨rfl, hlast⟩ := List.append_inj' hlog rfl
    cases List.singleton_inj.mp hlast
    exact hr
  · rw [← List.cons_append, ← List.append_assoc] at hlog
    obtain ⟨rfl, -⟩ := List.append_inj' hlog rfl
    exact h before r' after' rfl

theorem received_append_self (log : List (Receipt α)) (r : Receipt α) :
    received (log ++ [r]) r.channel = received log r.channel ++ r.bytes := by
  simp [received, List.filter_append]

theorem received_append_of_ne {channel : Nat} (h : r.channel ≠ channel) :
    received (log ++ [r]) channel = received log channel := by
  simp [received, List.filter_append, h]

/-! ### Calls that take one message each -/

variable (S : Splitter α)

/-- What the call returned: the first message of what it held and received. -/
def message (r : Receipt α) : Option (List α) := (S.split (r.held ++ r.bytes)).map Prod.fst

/-- What it left for the next call. -/
def left (r : Receipt α) : List α := ((S.split (r.held ++ r.bytes)).map Prod.snd).getD (r.held ++ r.bytes)

/-- The messages that the calls on a channel returned. -/
def messages (log : List (Receipt α)) (channel : Nat) : List (List α) :=
  (log.filter (·.channel = channel)).filterMap (message S)

/-- What the last call on a channel left. -/
def leftover (log : List (Receipt α)) (channel : Nat) : List α :=
  ((log.filter (·.channel = channel)).getLast?.map (left S)).getD []

/-- Every call went on with what the one before it on its channel had left. -/
inductive Chained : List (Receipt α) → Prop where
  | nil : Chained []
  | snoc {log : List (Receipt α)} {r : Receipt α} (h : Chained log) (hheld : r.held = leftover S log r.channel) :
      Chained (log ++ [r])

theorem messages_append_self (log : List (Receipt α)) (r : Receipt α) :
    messages S (log ++ [r]) r.channel = messages S log r.channel ++ (r.message S).toList := by
  cases hmessage : r.message S <;> simp [messages, List.filter_append, hmessage]

theorem messages_append_of_ne {channel : Nat} (h : r.channel ≠ channel) :
    messages S (log ++ [r]) channel = messages S log channel := by
  simp [messages, List.filter_append, h]

theorem leftover_append_self (log : List (Receipt α)) (r : Receipt α) :
    leftover S (log ++ [r]) r.channel = r.left S := by
  simp [leftover, List.filter_append]

theorem leftover_append_of_ne {channel : Nat} (h : r.channel ≠ channel) :
    leftover S (log ++ [r]) channel = leftover S log channel := by
  simp [leftover, List.filter_append, h]

/-- A channel that nothing was read from. -/
theorem unread {channel : Nat} (h : ∀ r ∈ log, r.channel ≠ channel) :
    received log channel = [] ∧ messages S log channel = [] ∧ leftover S log channel = [] := by
  have hnone : log.filter (·.channel = channel) = [] := by simpa using h
  simp [received, messages, leftover, hnone]

variable {S}

/-- A call parses the first message off, and leaves the rest of the parse. -/
theorem frames_of_receipt (r : Receipt α) :
    S.frames (r.held ++ r.bytes) = ((r.message S).toList ++ (S.frames (r.left S)).1, (S.frames (r.left S)).2) := by
  cases hsplit : S.split (r.held ++ r.bytes) with
  | none => simp [message, left, hsplit]
  | some pair =>
      rw [Splitter.frames_of_some hsplit]
      simp [message, left, hsplit]

/-- **Calls that each go on with what the last one left return the stream's own messages.** On every channel
the messages returned so far begin the greedy parse of what was received, and what is left parses into the rest
of it. -/
theorem Chained.frames_received (h : Chained S log) (channel : Nat) :
    S.frames (received log channel) =
      (messages S log channel ++ (S.frames (leftover S log channel)).1, (S.frames (leftover S log channel)).2) := by
  induction h with
  | nil => exact Splitter.frames_of_none S.split_nil ▸ rfl
  | @snoc log r h hheld ih =>
      by_cases hchannel : r.channel = channel
      · subst hchannel
        have hstream : S.frames (received log r.channel ++ r.bytes) =
            (messages S log r.channel ++ (S.frames (r.held ++ r.bytes)).1, (S.frames (r.held ++ r.bytes)).2) := by
          rw [Splitter.frames_append, ih, ← hheld, Splitter.frames_append r.held, List.append_assoc]
        rw [received_append_self, messages_append_self, leftover_append_self, hstream, frames_of_receipt,
          List.append_assoc]
      · rw [received_append_of_ne hchannel, messages_append_of_ne S hchannel, leftover_append_of_ne S hchannel]
        exact ih

end Receipt
end KnxdFcgi.Framing
