import EventBus.Framing.Basic
import Mathlib.Algebra.Group.Nat.Defs

/-!
# The socket calls the helpers of `MZmq.h` are written with

Only what `zmq_msg_send`, `zmq_msg_recv` and `zmq_getsockopt(ZMQ_RCVMORE)` show to their caller:

* a sending socket keeps the frames of a message that is still open (its last frame went out with
  `ZMQ_SNDMORE`) and the messages that are complete;
* a receiving socket keeps the frames waiting and the `ZMQ_RCVMORE` flag of the last frame read.

Whether a call succeeds is not up to the code: every call takes an `Outcome` from its environment.
A call that fails transfers no frame and leaves the socket as it was.
-/

namespace EventBus.MZmq

open Framing

/-- A `char` or `unsigned char`. -/
abbrev Byte := Fin 256

abbrev Bytes := List Byte

inductive Errno
  | EAGAIN | EINTR | ETERM | EFSM | ENOTSUP | ENOTSOCK | EFAULT | EINVAL | EHOSTUNREACH
  deriving DecidableEq, Repr

/-- What the environment does with one call: `none` lets it succeed. -/
abbrev Outcome := Option Errno

def INT_MAX : Nat := 2147483647

/-- The `int` in which the library reports the size of a frame, capped at `INT_MAX`. -/
def msgSize (msg : Bytes) : Nat := min msg.length INT_MAX

/-- A frame shorter than `2 ^ 31` bytes reports its true size. -/
theorem msgSize_of_lt {msg : Bytes} (h : msg.length < 2 ^ 31) : msgSize msg = msg.length := by
  unfold msgSize INT_MAX
  omega

theorem take_msgSize_of_lt {msg : Bytes} (h : msg.length < 2 ^ 31) :
    msg.take (msgSize msg) = msg := by
  rw [msgSize_of_lt h, List.take_length]

/-! ## Sending -/

structure SendSocket where
  openParts : List Bytes
  messages : List (Message Bytes)

/-- A socket nothing has been sent on. -/
def SendSocket.fresh : SendSocket := ⟨[], []⟩

/-- `zmq_msg_send(&msg, s, sndmore ? ZMQ_SNDMORE : 0)`. -/
def zmqMsgSend (o : Outcome) (msg : Bytes) (sndmore : Bool) (s : SendSocket) : Int × SendSocket :=
  match o with
  | some _ => (-1, s)
  | none => (msgSize msg,
      if sndmore then { s with openParts := s.openParts ++ [msg] }
      else ⟨[], s.messages ++ [Message.close s.openParts msg]⟩)

/-! ## Receiving -/

structure RecvSocket where
  frames : List (Frame Bytes)
  rcvmore : Bool
  deriving DecidableEq, Repr

/-- A socket with these messages waiting, none of them begun. -/
def RecvSocket.ofMessages (ms : List (Message Bytes)) : RecvSocket := ⟨wire ms, false⟩

/-- `zmq_msg_recv(&msg, s, ZMQ_DONTWAIT)`: the frame's bytes, or the error number. -/
def zmqMsgRecv (o : Outcome) (s : RecvSocket) : Except Errno (Bytes × RecvSocket) :=
  match o, s.frames with
  | some e, _ => .error e
  | none, [] => .error .EAGAIN
  | none, f :: fs => .ok (f.data, ⟨fs, f.more⟩)

end EventBus.MZmq
