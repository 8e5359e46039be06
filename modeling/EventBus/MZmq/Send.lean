import EventBus.MZmq.Socket

/-!
# `SendEventEntity`, `SendMsgStrings`, `Send3PartStrings`

The three senders share one shape: build a frame, send it, return on the first failure, go on with
the next frame. `sendFrames` is that shape; each sender is its list of frames.
-/

namespace EventBus.MZmq

open Framing

/-- Send frames in order and return at the first failure. The result is that of the last
`zmq_msg_send` made, or the initial `rc = -1` when there is nothing to send. -/
def sendFrames : List (Outcome × Frame Bytes) → SendSocket → Int × SendSocket
  | [], s => (-1, s)
  | [(o, f)], s => zmqMsgSend o f.data f.more s
  | (o, f) :: fs, s =>
      let r := zmqMsgSend o f.data f.more s
      if r.1 < 0 then r else sendFrames fs r.2

/-- The second frame of an event: `dataLen` bytes from `data`, or nothing if `data` is null. -/
def eventPayload (data : Option Bytes) (dataLen : Nat) : Bytes :=
  match data with
  | some d => d.take dataLen
  | none => []

def sendEventEntity (o₁ o₂ : Outcome) (title : Bytes) (data : Option Bytes) (dataLen : Nat)
    (s : SendSocket) : Int × SendSocket :=
  sendFrames [(o₁, ⟨title, true⟩), (o₂, ⟨eventPayload data dataLen, false⟩)] s

/-- The last frame of the string senders: a single zero byte in place of an empty content. -/
def stringPayload (content : Bytes) : Bytes := if content.isEmpty then [0] else content

def sendMsgStrings (o₁ o₂ : Outcome) (title content : Bytes) (s : SendSocket) : Int × SendSocket :=
  sendFrames [(o₁, ⟨title, true⟩), (o₂, ⟨stringPayload content, false⟩)] s

/-- The middle frame is left out when `title1` is empty. -/
def send3PartStrings (o₁ o₂ o₃ : Outcome) (title title1 content : Bytes) (s : SendSocket) :
    Int × SendSocket :=
  sendFrames ((o₁, ⟨title, true⟩) ::
    ((if title1.isEmpty then [] else [(o₂, ⟨title1, true⟩)]) ++
      [(o₃, ⟨stringPayload content, false⟩)])) s

/-! ## What a call leaves on the socket -/

theorem sendEventEntity_ok (title : Bytes) (data : Option Bytes) (dataLen : Nat) (s : SendSocket) :
    sendEventEntity none none title data dataLen s =
      (↑(msgSize (eventPayload data dataLen)), ⟨[], s.messages ++
        [Message.close (s.openParts ++ [title]) (eventPayload data dataLen)]⟩) := by
  have hrc : ¬ ((msgSize title : Int) < 0) := by omega
  simp [sendEventEntity, sendFrames, zmqMsgSend, hrc]

/-- A failure on the first frame sends nothing. -/
theorem sendEventEntity_first_fails (e : Errno) (o : Outcome) (title : Bytes) (data : Option Bytes)
    (dataLen : Nat) (s : SendSocket) :
    sendEventEntity (some e) o title data dataLen s = (-1, s) := by
  simp [sendEventEntity, sendFrames, zmqMsgSend]

/-- A failure on the second frame leaves the title behind, in a message that stays open. -/
theorem sendEventEntity_second_fails (e : Errno) (title : Bytes) (data : Option Bytes)
    (dataLen : Nat) (s : SendSocket) :
    sendEventEntity none (some e) title data dataLen s =
      (-1, { s with openParts := s.openParts ++ [title] }) := by
  have hrc : ¬ ((msgSize title : Int) < 0) := by omega
  simp [sendEventEntity, sendFrames, zmqMsgSend, hrc]

/-! ## `EventClient::publish_event` -/

/-- The pointer `publish_event` passes: null for an empty content. -/
def dataPointer (content : Bytes) : Option Bytes := if content.isEmpty then none else some content

/-- `EventClient::publish_event`, which drops the return code. -/
def publishEvent (o₁ o₂ : Outcome) (type content : Bytes) (pubSocket : SendSocket) : SendSocket :=
  (sendEventEntity o₁ o₂ type (dataPointer content) content.length pubSocket).2

/-- Whichever pointer is passed, the second frame is the content. -/
theorem eventPayload_dataPointer (content : Bytes) :
    eventPayload (dataPointer content) content.length = content := by
  unfold dataPointer
  cases content <;> simp [eventPayload]

/-- `publish_event` passes no more bytes than there are. -/
theorem length_le_of_dataPointer {content d : Bytes} (h : dataPointer content = some d) :
    content.length ≤ d.length := by
  unfold dataPointer at h
  split at h
  · cases h
  · cases h
    exact Nat.le_refl _

theorem publishEvent_ok (type content : Bytes) (s : SendSocket) :
    publishEvent none none type content s =
      ⟨[], s.messages ++ [Message.close (s.openParts ++ [type]) content]⟩ := by
  rw [publishEvent, sendEventEntity_ok, eventPayload_dataPointer]

end EventBus.MZmq
