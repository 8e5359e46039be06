import EventBus.MZmq.Send
import EventBus.MZmq.Recv

/-!
# Receiving undoes sending

Events that were all sent successfully come back as they were sent, one `RecvEventEntity` call for
each. An event is a two-part message on the wire, whatever pointer its content was passed through,
and `RecvEventEntity` on a stream of two-part messages takes exactly one message a call.
-/

namespace EventBus.MZmq

open Framing

/-- The message an event becomes. -/
def eventMessage (e : Bytes × Bytes) : Message Bytes := ⟨e.1, [e.2]⟩

/-! ## Sending a list of events -/

/-- The arguments of a `SendEventEntity` call. The `dataLen` bytes it copies are there. -/
structure EventSend where
  title : Bytes
  data : Option Bytes
  dataLen : Nat
  fits : ∀ d, data = some d → dataLen ≤ d.length

/-- The event the call stands for. -/
def EventSend.event (c : EventSend) : Bytes × Bytes := (c.title, eventPayload c.data c.dataLen)

/-- The call `publish_event` makes for an event. -/
def EventSend.ofEvent (e : Bytes × Bytes) : EventSend where
  title := e.1
  data := dataPointer e.2
  dataLen := e.2.length
  fits := fun _ => length_le_of_dataPointer

/-- Successful `SendEventEntity` calls in a row. -/
def sendAll (calls : List EventSend) (s : SendSocket) : SendSocket :=
  calls.foldl (fun s c => (sendEventEntity none none c.title c.data c.dataLen s).2) s

/-- Successful `publish_event` calls in a row. -/
def publishEvents (events : List (Bytes × Bytes)) (s : SendSocket) : SendSocket :=
  events.foldl (fun s e => publishEvent none none e.1 e.2 s) s

/-- With no message open, successful calls add one complete two-part message each. -/
theorem sendAll_eq (calls : List EventSend) (ms : List (Message Bytes)) :
    sendAll calls ⟨[], ms⟩ = ⟨[], ms ++ calls.map (fun c => eventMessage c.event)⟩ := by
  induction calls generalizing ms with
  | nil => simp [sendAll]
  | cons c cs ih =>
      have hstep : (sendEventEntity none none c.title c.data c.dataLen ⟨[], ms⟩).2 =
          ⟨[], ms ++ [eventMessage c.event]⟩ := by
        rw [sendEventEntity_ok]
        rfl
      show sendAll cs (sendEventEntity none none c.title c.data c.dataLen ⟨[], ms⟩).2 = _
      rw [hstep, ih]
      simp

/-- `publish_event` sends what any `SendEventEntity` call for the same event sends. -/
theorem publishEvents_eq_sendAll (calls : List EventSend) (s : SendSocket) :
    publishEvents (calls.map EventSend.event) s = sendAll calls s := by
  induction calls generalizing s with
  | nil => rfl
  | cons c cs ih =>
      have hstep : publishEvent none none c.event.1 c.event.2 s =
          (sendEventEntity none none c.title c.data c.dataLen s).2 := by
        rw [publishEvent_ok, sendEventEntity_ok]
        rfl
      show publishEvents (cs.map EventSend.event) (publishEvent none none c.event.1 c.event.2 s) = _
      rw [hstep, ih]
      rfl

/-! ## Receiving two-part messages -/

/-- An event after its frames have been copied: each is cut at `INT_MAX` bytes. -/
def cut (e : Bytes × Bytes) : Bytes × Bytes := (e.1.take (msgSize e.1), e.2.take (msgSize e.2))

theorem cut_of_lt {e : Bytes × Bytes} (h₁ : e.1.length < 2 ^ 31) (h₂ : e.2.length < 2 ^ 31) :
    cut e = e := by
  rw [cut, take_msgSize_of_lt h₁, take_msgSize_of_lt h₂]

/-- A `RecvEventEntity` call both of whose `zmq_msg_recv` calls go through if a frame is there. -/
def recvEvent : RecvCall := ⟨.eventEntity, none, none⟩

theorem recvEvent_exec (e : Bytes × Bytes) (ms : List (Message Bytes)) :
    recvEvent.exec (.ofMessages (eventMessage e :: ms)) =
      ⟨msgSize e.2, (cut e).1, (cut e).2, .ofMessages ms⟩ := by
  have hframes : (RecvSocket.ofMessages (eventMessage e :: ms)).frames =
      ⟨e.1, true⟩ :: ⟨e.2, false⟩ :: wire ms := by
    simp [RecvSocket.ofMessages, eventMessage, Message.frames, framesOf]
  exact recvTwoFrames_pair hframes rfl

theorem recvEvent_next (e : Bytes × Bytes) (ms : List (Message Bytes)) :
    recvEvent.next (.ofMessages (eventMessage e :: ms)) = .ofMessages ms := by
  rw [RecvCall.next, recvEvent_exec]

/-- One call for each event waiting returns the events in order and empties the queue. -/
theorem recvCalls_events (events : List (Bytes × Bytes))
    (hshort : ∀ e ∈ events, e.1.length < 2 ^ 31 ∧ e.2.length < 2 ^ 31) :
    (recvCalls (List.replicate events.length recvEvent)
        (.ofMessages (events.map eventMessage))).map (fun r => (r.rc, r.title, r.content)) =
      events.map (fun e => ((e.2.length : Int), e.1, e.2)) ∧
    (List.replicate events.length recvEvent).foldl RecvCall.next
      (.ofMessages (events.map eventMessage)) = .ofMessages [] := by
  induction events with
  | nil => exact ⟨rfl, rfl⟩
  | cons e es ih =>
      obtain ⟨htitle, hcontent⟩ := hshort e List.mem_cons_self
      obtain ⟨ih₁, ih₂⟩ := ih fun e' he' => hshort e' (List.mem_cons_of_mem e he')
      rw [List.length_cons, List.replicate_succ, List.map_cons, List.foldl_cons, recvCalls,
        recvEvent_next]
      refine ⟨?_, ih₂⟩
      rw [List.map_cons, ih₁, recvEvent_exec, List.map_cons, cut_of_lt htitle hcontent,
        msgSize_of_lt hcontent]

/-- **`RecvEventEntity` undoes `SendEventEntity` over whole streams.** For any calls that all
succeed, as many receives return the same events in the same order, each with its content length,
and leave nothing unread; and publishing these events puts the same messages on the wire. -/
theorem recvEventEntity_undoes_sendEventEntity (calls : List EventSend)
    (hshort : ∀ c ∈ calls, c.event.1.length < 2 ^ 31 ∧ c.event.2.length < 2 ^ 31) :
    (recvCalls (List.replicate calls.length recvEvent)
        (.ofMessages (sendAll calls .fresh).messages)).map
          (fun r => (r.rc, r.title, r.content)) =
      calls.map (fun c => ((c.event.2.length : Int), c.event.1, c.event.2)) ∧
    ((List.replicate calls.length recvEvent).foldl RecvCall.next
      (.ofMessages (sendAll calls .fresh).messages)).frames = [] ∧
    publishEvents (calls.map EventSend.event) .fresh = sendAll calls .fresh := by
  have hsent : (sendAll calls .fresh).messages = (calls.map EventSend.event).map eventMessage := by
    rw [SendSocket.fresh, sendAll_eq, List.nil_append, List.map_map]
    rfl
  have hrecv := recvCalls_events (calls.map EventSend.event) (by
    intro e he
    obtain ⟨c, hc, rfl⟩ := List.mem_map.mp he
    exact hshort c hc)
  rw [List.length_map] at hrecv
  obtain ⟨hevents, hempty⟩ := hrecv
  rw [hsent]
  refine ⟨?_, ?_, publishEvents_eq_sendAll calls .fresh⟩
  · rw [hevents, List.map_map]
    rfl
  · rw [hempty]
    rfl

theorem recvEventEntity_undoes_sendEventEntity_witness :
    (recvCalls [recvEvent, recvEvent] (.ofMessages (sendAll
        [.ofEvent ([], []), .ofEvent ([97, 0], [0, 98])] .fresh).messages)).map
          (fun r => (r.rc, r.title, r.content)) =
      [(0, [], []), (2, [97, 0], [0, 98])] :=
  (recvEventEntity_undoes_sendEventEntity
    [.ofEvent ([], []), .ofEvent ([97, 0], [0, 98])] (by decide)).1

end EventBus.MZmq
