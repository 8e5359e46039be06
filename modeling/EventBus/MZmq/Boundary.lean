import EventBus.MZmq.RoundTrip
import EventBus.Transition.Run

/-!
# Receivers and message boundaries

`RecvEventEntity` and `RecvMsgString` read at most two frames and never ask whether more follow the
second one; nor do they skip the rest of a message when the second read fails. So a call leaves the
reader at the start of a message exactly if the message it found there has one part, or has two and
both were read. A message of three parts (`Send3PartStrings`), or a failure between the frames,
leaves a frame behind that the next call takes for a title.
-/

namespace EventBus.MZmq

open Framing Transition

/-! ## The property and its condition -/

/-- The call took at least one frame off the socket. -/
def Consumes (x : Taken RecvSocket RecvCall) : Prop :=
  (x.label.exec x.pre).socket.frames.length < x.pre.frames.length

/-- A call that took a frame found the start of a message, reported the first part of that message
as its title, and left the reader at the start of a message. -/
def StaysOnStart (msgs : List (Message Bytes)) (x : Taken RecvSocket RecvCall) : Prop :=
  Consumes x →
    (∃ k m ms, msgs.drop k = m :: ms ∧ x.pre.frames = wire (m :: ms) ∧
      (x.label.exec x.pre).title = m.first.take (msgSize m.first)) ∧
    AtStart msgs x.post.frames

/-- The call fits what is waiting: no frame is read, or the message waiting has one part, or it has
two and the second one can be read as well. -/
def Fits (x : Taken RecvSocket RecvCall) : Prop :=
  x.label.first = none → x.pre.frames = [] ∨ ∃ m ms, x.pre.frames = wire (m :: ms) ∧
    (m.rest = [] ∨ m.rest.length = 1 ∧ x.label.second = none)

/-! ## One call -/

section OneCall
variable {msgs : List (Message Bytes)} {s : RecvSocket} {c : RecvCall}

/-- A call whose first receive yields nothing keeps the socket. -/
theorem exec_of_error {e : Errno} (h : zmqMsgRecv c.first s = .error e) :
    (c.exec s).socket = s := by
  rw [RecvCall.exec_eq, recvTwoFrames_of_error h]

/-- A call that finds a one-part message takes it whole. -/
theorem exec_one_part {a : Bytes} {ms : List (Message Bytes)} (hfirst : c.first = none)
    (hs : s.frames = wire (⟨a, []⟩ :: ms)) :
    c.exec s = ⟨-1, a.take (msgSize a), [], .ofMessages ms⟩ := by
  rw [RecvCall.exec_eq, hfirst]
  exact recvTwoFrames_single (f := ⟨a, false⟩) hs rfl

/-- A call that finds more parts but fails on the second one stops behind the first. -/
theorem exec_second_fails {a b : Bytes} {bs : List Bytes} {ms : List (Message Bytes)} {e : Errno}
    (hfirst : c.first = none) (hsecond : c.second = some e)
    (hs : s.frames = wire (⟨a, b :: bs⟩ :: ms)) :
    c.exec s = ⟨-1, a.take (msgSize a), [], ⟨framesOf b bs ++ wire ms, true⟩⟩ := by
  rw [RecvCall.exec_eq, hfirst]
  have hframes : s.frames = ⟨a, true⟩ :: (framesOf b bs ++ wire ms) := by
    rw [hs, wire_cons]
    rfl
  have herr : zmqMsgRecv c.second ⟨framesOf b bs ++ wire ms, true⟩ = .error e := by
    rw [hsecond]
    rfl
  exact recvTwoFrames_second_fails hframes rfl herr

/-- A call that finds a two-part message and does not fail takes it whole. -/
theorem exec_two_parts {a b : Bytes} {ms : List (Message Bytes)} (hfirst : c.first = none)
    (hsecond : c.second = none) (hs : s.frames = wire (⟨a, [b]⟩ :: ms)) :
    c.exec s = ⟨msgSize b, a.take (msgSize a), c.receiver.copy b, .ofMessages ms⟩ := by
  rw [RecvCall.exec_eq, hfirst, hsecond]
  exact recvTwoFrames_pair (f := ⟨a, true⟩) (g := ⟨b, false⟩) hs rfl

/-- A call that finds three or more parts stops behind the second one. -/
theorem exec_more_parts {a b b' : Bytes} {bs : List Bytes} {ms : List (Message Bytes)}
    (hfirst : c.first = none) (hsecond : c.second = none)
    (hs : s.frames = wire (⟨a, b :: b' :: bs⟩ :: ms)) :
    c.exec s = ⟨msgSize b, a.take (msgSize a), c.receiver.copy b,
      ⟨framesOf b' bs ++ wire ms, true⟩⟩ := by
  rw [RecvCall.exec_eq, hfirst, hsecond]
  have hframes : s.frames = ⟨a, true⟩ :: ⟨b, true⟩ :: (framesOf b' bs ++ wire ms) := by
    rw [hs, wire_cons]
    rfl
  exact recvTwoFrames_pair hframes rfl

/-- A frame that announces another belongs to a message with further parts. -/
theorem rest_ne_nil_of_more {m : Message Bytes} {ms : List (Message Bytes)} {f : Frame Bytes}
    {fs : List (Frame Bytes)} (h : f :: fs = wire (m :: ms)) (hmore : f.more = true) :
    m.rest ≠ [] := by
  intro hrest
  obtain ⟨a, rest⟩ := m
  cases hrest
  have hf : f = ⟨a, false⟩ := (List.cons.inj h).1
  rw [hf] at hmore
  cases hmore

/-- Taking the whole message at position `k` stays on message starts. -/
theorem staysOnStart_of_whole {k : Nat} {m : Message Bytes} {ms : List (Message Bytes)}
    (hk : msgs.drop k = m :: ms) (hs : s.frames = wire (m :: ms))
    (hexec : ∃ r ct, c.exec s = ⟨r, m.first.take (msgSize m.first), ct, .ofMessages ms⟩) :
    StaysOnStart msgs ⟨s, c, c.next s⟩ := by
  obtain ⟨r, ct, hexec⟩ := hexec
  intro _
  refine ⟨⟨k, m, ms, hk, hs, by rw [hexec]⟩, ?_⟩
  show AtStart msgs (c.exec s).socket.frames
  rw [hexec]
  exact .next hk

/-- Taking some but not all frames of the message at position `k` does not. -/
theorem not_staysOnStart_of_mid {k : Nat} {m : Message Bytes} {ms : List (Message Bytes)}
    (hk : msgs.drop k = m :: ms) (hs : s.frames = wire (m :: ms)) {l : List (Frame Bytes)}
    (hexec : (c.exec s).socket.frames = l ++ wire ms) (hpos : 0 < l.length)
    (hlt : l.length < m.rest.length + 1) : ¬ StaysOnStart msgs ⟨s, c, c.next s⟩ := by
  intro hstays
  have hlen : s.frames.length = m.rest.length + 1 + (wire ms).length := by
    rw [hs, wire_cons, List.length_append, Message.length_frames]
  have hcons : Consumes ⟨s, c, c.next s⟩ := by
    show (c.exec s).socket.frames.length < s.frames.length
    rw [hexec, hlen, List.length_append]
    omega
  have hstart : AtStart msgs (c.exec s).socket.frames := (hstays hcons).2
  rw [hexec] at hstart
  refine not_atStart_of_mid hk ?_ ?_ hstart
  · rw [List.length_append]
    omega
  · rw [← hs, hlen, List.length_append]
    omega

/-- A call that reads stops inside a two-part message if its second receive fails. -/
theorem not_fits_of_second_fails {a b : Bytes} {bs : List Bytes} {ms : List (Message Bytes)}
    {e : Errno} {t : RecvSocket} (hfirst : c.first = none) (hsecond : c.second = some e)
    (hs : s.frames = wire (⟨a, b :: bs⟩ :: ms)) : ¬ Fits ⟨s, c, t⟩ := by
  intro hfits
  rcases hfits hfirst with hnil | ⟨m, ms', hm, hrest | ⟨-, hnone⟩⟩
  · cases hs.symm.trans hnil
  · exact rest_ne_nil_of_more (hs.symm.trans hm) rfl hrest
  · cases hsecond.symm.trans hnone

/-- A call that reads stops inside a message of three or more parts. -/
theorem not_fits_of_more_parts {a b b' : Bytes} {bs : List Bytes} {ms : List (Message Bytes)}
    {t : RecvSocket} (hfirst : c.first = none)
    (hs : s.frames = wire (⟨a, b :: b' :: bs⟩ :: ms)) : ¬ Fits ⟨s, c, t⟩ := by
  intro hfits
  rcases hfits hfirst with hnil | ⟨⟨a', rest'⟩, ms', hm, hrest | ⟨hone, -⟩⟩
  · cases hs.symm.trans hnil
  · exact rest_ne_nil_of_more (hs.symm.trans hm) rfl hrest
  · obtain ⟨d, rfl⟩ := List.length_eq_one_iff.mp hone
    have htail := (List.cons.inj (hs.symm.trans hm)).2
    cases congrArg Frame.more (List.cons.inj htail).1

theorem not_staysOnStart_of_second_fails {k : Nat} {a b : Bytes} {bs : List Bytes}
    {ms : List (Message Bytes)} {e : Errno} (hfirst : c.first = none) (hsecond : c.second = some e)
    (hk : msgs.drop k = ⟨a, b :: bs⟩ :: ms) (hs : s.frames = wire (⟨a, b :: bs⟩ :: ms)) :
    ¬ StaysOnStart msgs ⟨s, c, c.next s⟩ := by
  apply not_staysOnStart_of_mid (l := framesOf b bs) hk hs
  · rw [exec_second_fails hfirst hsecond hs]
  · simp
  · simp

theorem not_staysOnStart_of_more_parts {k : Nat} {a b b' : Bytes} {bs : List Bytes}
    {ms : List (Message Bytes)} (hfirst : c.first = none)
    (hk : msgs.drop k = ⟨a, b :: b' :: bs⟩ :: ms)
    (hs : s.frames = wire (⟨a, b :: b' :: bs⟩ :: ms)) :
    ¬ StaysOnStart msgs ⟨s, c, c.next s⟩ := by
  cases hsecond : c.second with
  | some e => exact not_staysOnStart_of_second_fails hfirst hsecond hk hs
  | none =>
      apply not_staysOnStart_of_mid (l := framesOf b' bs) hk hs
      · rw [exec_more_parts hfirst hsecond hs]
      · simp
      · simp

/-- At the start of a message, a call stays on message starts exactly if it fits that message. -/
theorem staysOnStart_iff_fits (h : AtStart msgs s.frames) :
    StaysOnStart msgs ⟨s, c, c.next s⟩ ↔ Fits ⟨s, c, c.next s⟩ := by
  obtain ⟨k, -, hs⟩ := h
  have hnothing : (c.exec s).socket = s → StaysOnStart msgs ⟨s, c, c.next s⟩ := by
    intro hsock hcons
    rw [Consumes, hsock] at hcons
    exact absurd hcons (Nat.lt_irrefl _)
  cases hfirst : c.first with
  | some e =>
      -- the first receive fails
      refine iff_of_true (hnothing (exec_of_error (e := e) (by rw [hfirst]; rfl))) fun hnone => ?_
      cases hfirst.symm.trans hnone
  | none =>
      cases hk : msgs.drop k with
      | nil =>
          -- the queue is empty
          rw [hk, wire_nil] at hs
          have herr : zmqMsgRecv c.first s = .error .EAGAIN := by simp [zmqMsgRecv, hfirst, hs]
          exact iff_of_true (hnothing (exec_of_error herr)) fun _ => Or.inl hs
      | cons m ms =>
          rw [hk] at hs
          obtain ⟨a, rest⟩ := m
          cases rest with
          | nil =>
              refine iff_of_true
                (staysOnStart_of_whole hk hs ⟨_, _, exec_one_part hfirst hs⟩) fun _ => ?_
              exact Or.inr ⟨_, ms, hs, Or.inl rfl⟩
          | cons b parts =>
              cases hparts : parts with
              | nil =>
                  rw [hparts] at hk hs
                  cases hsecond : c.second with
                  | none =>
                      refine iff_of_true
                        (staysOnStart_of_whole hk hs ⟨_, _, exec_two_parts hfirst hsecond hs⟩)
                        fun _ => ?_
                      exact Or.inr ⟨_, ms, hs, Or.inr ⟨rfl, hsecond⟩⟩
                  | some e =>
                      exact iff_of_false
                        (not_staysOnStart_of_second_fails hfirst hsecond hk hs)
                        (not_fits_of_second_fails hfirst hsecond hs)
              | cons b' bs =>
                  rw [hparts] at hk hs
                  exact iff_of_false (not_staysOnStart_of_more_parts hfirst hk hs)
                    (not_fits_of_more_parts hfirst hs)

/-- A fitting call leads from a start to a start. -/
theorem atStart_next (h : AtStart msgs s.frames) (hfits : Fits ⟨s, c, c.next s⟩) :
    AtStart msgs (c.next s).frames := by
  by_cases hcons : Consumes ⟨s, c, c.next s⟩
  · exact ((staysOnStart_iff_fits h).mpr hfits hcons).2
  · -- a call that takes no frame leaves the queue as it is
    have hsame : (c.exec s).socket = s := by
      cases hrecv : zmqMsgRecv c.first s with
      | error e => exact exec_of_error hrecv
      | ok r =>
          exfalso
          apply hcons
          obtain ⟨frames, rcvmore⟩ := s
          cases hfirst : c.first with
          | some e => rw [hfirst] at hrecv; cases hrecv
          | none =>
              cases frames with
              | nil => rw [hfirst] at hrecv; cases hrecv
              | cons f fs =>
                  show (c.exec _).socket.frames.length < _
                  rw [RecvCall.exec_eq, hfirst, recvTwoFrames]
                  simp only [zmqMsgRecv]
                  grind
    show AtStart msgs (c.exec s).socket.frames
    rw [hsame]
    exact h

end OneCall

/-! ## Runs -/

/-- **Receivers stay on message boundaries exactly if** every call fits the message it finds: along
every run of calls of the two receivers, on every queue of messages and with every outcome of the
single receives, each call that takes a frame takes a whole message and reports its first part,
if and only if each call reads nothing, finds a one-part message, or finds a two-part message and
reads both parts. -/
theorem staysOnStart_run_iff (msgs : List (Message Bytes)) (calls : List RecvCall) :
    (∀ x ∈ trace RecvCall.next (.ofMessages msgs) calls, StaysOnStart msgs x) ↔
      ∀ x ∈ trace RecvCall.next (.ofMessages msgs) calls, Fits x := by
  refine Run.forall_iff (I := fun s => AtStart msgs s.frames) ?_ ?_
    (run_trace RecvCall.next (.ofMessages msgs) calls) (.all msgs)
  · rintro s c t rfl hs
    exact staysOnStart_iff_fits hs
  · rintro s c t rfl hs hfits
    exact atStart_next hs hfits

/-- The third frame of a `Send3PartStrings` message is left for the next call to take as a title. -/
theorem not_staysOnStart_three_parts :
    ¬ ∀ x ∈ trace RecvCall.next
        (.ofMessages (send3PartStrings none none none [1] [2] [3] .fresh).2.messages) [recvEvent],
      StaysOnStart (send3PartStrings none none none [1] [2] [3] .fresh).2.messages x := by
  have hmsgs : (send3PartStrings none none none [1] [2] [3] .fresh).2.messages =
      [⟨[1], [[2], [3]]⟩] := rfl
  rw [hmsgs]
  intro h
  refine not_staysOnStart_of_mid (k := 0) (m := ⟨[1], [[2], [3]]⟩) (l := [⟨[3], false⟩]) rfl rfl
    rfl (by decide) (by decide) (h _ List.mem_cons_self)

end EventBus.MZmq
