import EventBus.MZmq.Outcomes
import EventBus.Transition.Run

/-!
# `RecvAllMessages`

The batch receiver has a frame reader of its own: a loop that appends a title and a content for each
two frames it reads, ends well when nothing is left, and gives up at the first message it cannot
read. Reading a queue with it is reading it with one `RecvEventEntity` call after the other.
-/

namespace EventBus.MZmq

open Framing Transition

/-- What `RecvAllMessages` hands back: its return value, the two vectors, `errNum`, and the
socket. -/
structure ReceivedAll where
  rc : Int
  titles : List Bytes
  contents : List Bytes
  errNum : Option Errno
  socket : RecvSocket

/-- A `size_t` returned as an `int`. -/
def intOfSize (n : Nat) : Int := (n : Int).bmod (2 ^ 32)

theorem intOfSize_of_lt {n : Nat} (h : n < 2 ^ 31) : intOfSize n = n := by
  apply Int.bmod_eq_of_le <;> omega

/-- Reading a frame takes it off the socket. -/
theorem frames_of_recv_ok {o : Outcome} {s s' : RecvSocket} {msg : Bytes}
    (h : zmqMsgRecv o s = .ok (msg, s')) : s'.frames.length < s.frames.length := by
  obtain ⟨frames, rcvmore⟩ := s
  cases o with
  | some e => cases h
  | none =>
      cases frames with
      | nil => cases h
      | cons f fs =>
          cases h
          exact Nat.lt_succ_self _

/-- `o k` is what becomes of the `k`-th `zmq_msg_recv` call, and `errno` is what `zmq_errno()` says
as long as none has failed. -/
def recvAllMessages (o : Nat → Outcome) (errno : Option Errno) (titles contents : List Bytes)
    (s : RecvSocket) : ReceivedAll :=
  match h₁ : zmqMsgRecv (o 0) s with
  | .error e =>
      if e = .EAGAIN then ⟨intOfSize contents.length, titles, contents, some e, s⟩
      else ⟨-1, titles, contents, some e, s⟩
  | .ok (msg, s₁) =>
      let title := msg.take (msgSize msg)
      if s₁.rcvmore then
        match h₂ : zmqMsgRecv (o 1) s₁ with
        | .error e => ⟨-1, titles, contents, some e, s₁⟩
        | .ok (msg, s₂) =>
            recvAllMessages (fun k => o (k + 2)) errno (titles ++ [title])
              (contents ++ [msg.take (msgSize msg)]) s₂
      else ⟨-1, titles, contents, errno, s₁⟩
termination_by s.frames.length
decreasing_by exact Nat.lt_trans (frames_of_recv_ok h₂) (frames_of_recv_ok h₁)

/-- The batch receiver when `zmq_msg_recv` fails on an empty queue only. -/
def recvAll (errno : Option Errno) (titles contents : List Bytes) (s : RecvSocket) : ReceivedAll :=
  recvAllMessages (fun _ => none) errno titles contents s

/-! ## One round of the loop -/

section Rounds
variable {errno : Option Errno} {titles contents : List Bytes} {s : RecvSocket}

/-- The loop ends well on an empty queue. -/
theorem recvAll_empty (hs : s.frames = []) :
    recvAll errno titles contents s =
      ⟨intOfSize contents.length, titles, contents, some .EAGAIN, s⟩ := by
  have hrecv : zmqMsgRecv none s = .error .EAGAIN := by simp [zmqMsgRecv, hs]
  rw [recvAll, recvAllMessages]
  split
  · next e he =>
    cases hrecv.symm.trans he
    rfl
  · next msg s₁ hok => cases hrecv.symm.trans hok

/-- The loop gives up where the next call of `RecvEventEntity` rejects what it finds. -/
theorem recvAll_rejects (errno : Option Errno) (titles contents : List Bytes)
    (h : recvEvent.verdict s = .error) :
    ∃ errNum, recvAll errno titles contents s =
      ⟨-1, titles, contents, errNum, (recvEvent.exec s).socket⟩ := by
  obtain ⟨frames, rcvmore⟩ := s
  cases frames with
  | nil => cases h
  | cons f fs =>
      obtain ⟨title, more⟩ := f
      rw [recvAll, recvAllMessages]
      split
      · next e he => cases he
      · next msg s₁ hok =>
        cases hok
        cases more with
        | false => exact ⟨errno, rfl⟩
        | true =>
            cases fs with
            | nil => exact ⟨some .EAGAIN, rfl⟩
            | cons g fs => cases h

theorem recvEvent_next_of_frames {title content : Bytes} {more : Bool} {fs : List (Frame Bytes)}
    (hs : s.frames = ⟨title, true⟩ :: ⟨content, more⟩ :: fs) :
    recvEvent.next s = ⟨fs, more⟩ := by
  rw [RecvCall.next, RecvCall.exec_eq]
  exact congrArg Received.socket (recvTwoFrames_pair hs rfl)

/-- The loop takes two frames as `RecvEventEntity` does. -/
theorem recvAll_reads {title content : Bytes} (h : recvEvent.Reads s title content) :
    recvAll errno titles contents s =
      recvAll errno (titles ++ [title.take (msgSize title)])
        (contents ++ [content.take (msgSize content)]) (recvEvent.next s) := by
  obtain ⟨-, -, more, fs, hs⟩ := h
  have hfirst : zmqMsgRecv none s = .ok (title, ⟨⟨content, more⟩ :: fs, true⟩) := by
    simp [zmqMsgRecv, hs]
  rw [recvAll, recvAllMessages, recvEvent_next_of_frames hs]
  split
  · next e he => cases hfirst.symm.trans he
  · next msg s₁ hok =>
    cases hfirst.symm.trans hok
    rfl

end Rounds

/-! ## The whole loop -/

/-- The socket after `n` calls of `RecvEventEntity`. -/
def afterSingle (n : Nat) (s : RecvSocket) : RecvSocket :=
  (List.replicate n recvEvent).foldl RecvCall.next s

/-- The batch `r` is what `n` calls of `RecvEventEntity` read and the next one does not go on from:
it finds the queue empty or rejects what it finds. -/
structure AgreesWithSingle (n : Nat) (titles contents : List Bytes) (s : RecvSocket)
    (r : ReceivedAll) : Prop where
  reads : ∀ x ∈ trace RecvCall.next s (List.replicate n recvEvent),
    ∃ title content, x.label.Reads x.pre title content
  stops : (afterSingle n s).frames = [] ∨ (recvEvent.exec (afterSingle n s)).rc < 0
  titles_eq : r.titles = titles ++
    (recvCalls (List.replicate n recvEvent) s).map Received.title
  contents_eq : r.contents = contents ++
    (recvCalls (List.replicate n recvEvent) s).map Received.content
  socket_eq : r.socket = (recvEvent.exec (afterSingle n s)).socket
  rejected : r.rc < 0 ↔ (recvEvent.exec (afterSingle n s)).rc < 0

section Loop
variable {errno : Option Errno} {titles contents : List Bytes} {s : RecvSocket}

theorem agreesWithSingle_empty (hs : s.frames = []) (hfits : contents.length < 2 ^ 31) :
    AgreesWithSingle 0 titles contents s (recvAll errno titles contents s) := by
  have hnothing : recvEvent.exec s = ⟨0, [], [], s⟩ :=
    exec_of_nothing (verdict_eq_nothing_iff.mpr (by simp [zmqMsgRecv, recvEvent, hs]))
  have hafter : afterSingle 0 s = s := rfl
  rw [recvAll_empty hs]
  constructor
  · intro x hx
    cases hx
  · exact Or.inl hs
  · simp [recvCalls]
  · simp [recvCalls]
  · rw [hafter, hnothing]
  · rw [hafter, hnothing, intOfSize_of_lt hfits]
    simp

theorem agreesWithSingle_rejects (h : recvEvent.verdict s = .error) :
    AgreesWithSingle 0 titles contents s (recvAll errno titles contents s) := by
  obtain ⟨errNum, hall⟩ := recvAll_rejects errno titles contents h
  have hrc : (recvEvent.exec (afterSingle 0 s)).rc < 0 := by
    have hneg := exec_rc_of_error h
    show (recvEvent.exec s).rc < 0
    omega
  rw [hall]
  constructor
  · intro x hx
    cases hx
  · exact Or.inr hrc
  · simp [recvCalls]
  · simp [recvCalls]
  · rfl
  · exact iff_of_true (Int.negSucc_lt_zero 0) hrc

/-- A message more in front of the queue is a call more. -/
theorem AgreesWithSingle.reads_first {n : Nat} {title content : Bytes}
    (h : recvEvent.Reads s title content) {r : ReceivedAll}
    (hrest : AgreesWithSingle n (titles ++ [title.take (msgSize title)])
      (contents ++ [content.take (msgSize content)]) (recvEvent.next s) r) :
    AgreesWithSingle (n + 1) titles contents s r := by
  obtain ⟨-, htitle, hcontent⟩ := h.exec
  constructor
  · intro x hx
    rw [List.replicate_succ, trace] at hx
    rcases List.mem_cons.mp hx with rfl | hx
    · exact ⟨title, content, h⟩
    · exact hrest.reads x hx
  · exact hrest.stops
  · rw [hrest.titles_eq, List.replicate_succ, recvCalls, List.map_cons, htitle, List.append_assoc,
      List.singleton_append]
  · rw [hrest.contents_eq, List.replicate_succ, recvCalls, List.map_cons, hcontent,
      List.append_assoc, List.singleton_append]
    rfl
  · exact hrest.socket_eq
  · exact hrest.rejected

/-- Reading two frames leaves fewer. -/
theorem frames_next_lt {title content : Bytes} (h : recvEvent.Reads s title content) :
    (recvEvent.next s).frames.length < s.frames.length := by
  obtain ⟨-, -, more, fs, hs⟩ := h
  rw [recvEvent_next_of_frames hs, hs]
  show fs.length < fs.length + 1 + 1
  omega

theorem exists_agreesWithSingle
    (hfits : (recvAll errno titles contents s).contents.length < 2 ^ 31) :
    ∃ n, AgreesWithSingle n titles contents s (recvAll errno titles contents s) := by
  induction hlen : s.frames.length using Nat.strongRecOn generalizing titles contents s with
  | ind len ih =>
      cases hv : recvEvent.verdict s with
      | received =>
          obtain ⟨title, content, hreads⟩ := verdict_eq_received_iff.mp hv
          rw [recvAll_reads hreads] at hfits ⊢
          obtain ⟨n, hn⟩ := ih _ (hlen ▸ frames_next_lt hreads) hfits rfl
          exact ⟨n + 1, hn.reads_first hreads⟩
      | nothing =>
          have hs : s.frames = [] := by
            have hrecv := verdict_eq_nothing_iff.mp hv
            cases hf : s.frames with
            | nil => rfl
            | cons f fs => simp [zmqMsgRecv, recvEvent, hf] at hrecv
          rw [recvAll_empty hs] at hfits
          exact ⟨0, agreesWithSingle_empty hs hfits⟩
      | error => exact ⟨0, agreesWithSingle_rejects hv⟩

end Loop

/-- **`RecvAllMessages` agrees with repeated `RecvEventEntity`.** On every queue it terminates and
appends, in order, the titles and contents that as many single calls read, up to the one that finds
the queue empty or rejects what it finds; the two vectors stay equally long, the same frames are
consumed, and its return value is negative exactly if that last call rejected. -/
theorem recvAllMessages_agrees (errno : Option Errno) (titles contents : List Bytes)
    (s : RecvSocket) (hlen : titles.length = contents.length)
    (hfits : (recvAll errno titles contents s).contents.length < 2 ^ 31) :
    (∃ n, AgreesWithSingle n titles contents s (recvAll errno titles contents s)) ∧
      (recvAll errno titles contents s).titles.length =
        (recvAll errno titles contents s).contents.length := by
  obtain ⟨n, hn⟩ := exists_agreesWithSingle hfits
  refine ⟨⟨n, hn⟩, ?_⟩
  rw [hn.titles_eq, hn.contents_eq]
  simp [hlen]

theorem recvAllMessages_agrees_witness :
    (∃ n, AgreesWithSingle n [[9]] [[8]] ⟨[⟨[1], true⟩, ⟨[2], false⟩, ⟨[3], false⟩], false⟩
        (recvAll none [[9]] [[8]] ⟨[⟨[1], true⟩, ⟨[2], false⟩, ⟨[3], false⟩], false⟩)) ∧
      (recvAll none [[9]] [[8]]
          ⟨[⟨[1], true⟩, ⟨[2], false⟩, ⟨[3], false⟩], false⟩).titles.length =
        (recvAll none [[9]] [[8]]
          ⟨[⟨[1], true⟩, ⟨[2], false⟩, ⟨[3], false⟩], false⟩).contents.length := by
  apply recvAllMessages_agrees none [[9]] [[8]] _ rfl
  have hreads : recvEvent.Reads ⟨[⟨[1], true⟩, ⟨[2], false⟩, ⟨[3], false⟩], false⟩ [1] [2] :=
    ⟨rfl, rfl, false, [⟨[3], false⟩], rfl⟩
  -- the third frame is a message of one part
  have hrejects : recvEvent.verdict
      (recvEvent.next ⟨[⟨[1], true⟩, ⟨[2], false⟩, ⟨[3], false⟩], false⟩) = .error := rfl
  obtain ⟨errNum, hall⟩ := recvAll_rejects none [[9], [1]] [[8], [2]] hrejects
  rw [recvAll_reads hreads]
  show (recvAll none [[9], [1]] [[8], [2]] _).contents.length < 2 ^ 31
  rw [hall]
  show 2 < 2 ^ 31
  decide

end EventBus.MZmq
