import EventBus.MZmq.Socket

/-!
# `RecvEventEntity` and `RecvMsgString`

The two single-message receivers are one function up to the line that copies the second frame:
`RecvEventEntity` copies the `int` number of bytes `zmq_msg_recv` returned, `RecvMsgString` the
`size_t` number `zmq_msg_size` reports.
-/

namespace EventBus.MZmq

open Framing

/-- What a receiver hands back: its return value, the two output buffers, and the socket. -/
structure Received where
  rc : Int
  title : Bytes
  content : Bytes
  socket : RecvSocket
  deriving DecidableEq, Repr

/-- Two frames off the socket, `copy` being what is taken over of the second one. -/
def recvTwoFrames (copy : Bytes → Bytes) (o₁ o₂ : Outcome) (s : RecvSocket) : Received :=
  match zmqMsgRecv o₁ s with
  | .error e => ⟨if e = .EAGAIN then 0 else -1, [], [], s⟩
  | .ok (msg, s₁) =>
      let title := msg.take (msgSize msg)
      if s₁.rcvmore then
        match zmqMsgRecv o₂ s₁ with
        | .error _ => ⟨-1, title, [], s₁⟩
        | .ok (msg, s₂) => ⟨msgSize msg, title, copy msg, s₂⟩
      else ⟨-1, title, [], s₁⟩

def recvEventEntity (o₁ o₂ : Outcome) (s : RecvSocket) : Received :=
  recvTwoFrames (fun msg => msg.take (msgSize msg)) o₁ o₂ s

def recvMsgString (o₁ o₂ : Outcome) (s : RecvSocket) : Received :=
  recvTwoFrames id o₁ o₂ s

/-! ## The five ways through the function -/

section Cases
variable {copy : Bytes → Bytes} {o₁ o₂ : Outcome} {s : RecvSocket}

/-- Nothing read: the first receive failed, or no frame was waiting. -/
theorem recvTwoFrames_of_error {e : Errno} (h : zmqMsgRecv o₁ s = .error e) :
    recvTwoFrames copy o₁ o₂ s = ⟨if e = .EAGAIN then 0 else -1, [], [], s⟩ := by
  rw [recvTwoFrames, h]

/-- One frame read, and it was the last of its message. -/
theorem recvTwoFrames_single {f : Frame Bytes} {fs : List (Frame Bytes)}
    (hf : s.frames = f :: fs) (hm : f.more = false) :
    recvTwoFrames copy none o₂ s = ⟨-1, f.data.take (msgSize f.data), [], ⟨fs, false⟩⟩ := by
  simp [recvTwoFrames, zmqMsgRecv, hf, hm]

/-- One frame read, and the second receive failed. -/
theorem recvTwoFrames_second_fails {f : Frame Bytes} {fs : List (Frame Bytes)} {e : Errno}
    (hf : s.frames = f :: fs) (hm : f.more = true)
    (h : zmqMsgRecv o₂ ⟨fs, true⟩ = .error e) :
    recvTwoFrames copy none o₂ s = ⟨-1, f.data.take (msgSize f.data), [], ⟨fs, true⟩⟩ := by
  simp [recvTwoFrames, zmqMsgRecv, hf, hm] at h ⊢
  rw [h]

/-- Two frames read. -/
theorem recvTwoFrames_pair {f g : Frame Bytes} {fs : List (Frame Bytes)}
    (hf : s.frames = f :: g :: fs) (hm : f.more = true) :
    recvTwoFrames copy none none s =
      ⟨msgSize g.data, f.data.take (msgSize f.data), copy g.data, ⟨fs, g.more⟩⟩ := by
  simp [recvTwoFrames, zmqMsgRecv, hf, hm]

end Cases

/-! ## Successive calls -/

inductive Receiver
  | eventEntity | msgString
  deriving DecidableEq, Repr

/-- One call of a receiver, with the outcomes of the two `zmq_msg_recv` calls it may make. -/
structure RecvCall where
  receiver : Receiver
  first : Outcome
  second : Outcome

/-- How a receiver copies the second frame. -/
def Receiver.copy : Receiver → Bytes → Bytes
  | .eventEntity, msg => msg.take (msgSize msg)
  | .msgString, msg => msg

def RecvCall.exec (c : RecvCall) (s : RecvSocket) : Received :=
  match c.receiver with
  | .eventEntity => recvEventEntity c.first c.second s
  | .msgString => recvMsgString c.first c.second s

theorem RecvCall.exec_eq (c : RecvCall) (s : RecvSocket) :
    c.exec s = recvTwoFrames c.receiver.copy c.first c.second s := by
  obtain ⟨receiver, o₁, o₂⟩ := c
  cases receiver <;> rfl

/-- The socket after a call. -/
def RecvCall.next (s : RecvSocket) (c : RecvCall) : RecvSocket := (c.exec s).socket

/-- What successive calls hand back. -/
def recvCalls : List RecvCall → RecvSocket → List Received
  | [], _ => []
  | c :: cs, s => c.exec s :: recvCalls cs (c.next s)

end EventBus.MZmq
