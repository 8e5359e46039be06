import EventBus.Client.Registry

/-!
# What the two dispatch loops call

`handle_event` loops over `equal_range(title)`, `publish_loc_event` from `find(type)` to `end()`.
The first visits the observers of the title, each once and in order of registration. The second
visits these and then everything registered under a greater type.

`handle_event` also enters its loop whatever `RecvEventEntity` returned, with the title the receive
left behind: the first waiting frame if one was read, the empty string otherwise. So the loop
belongs to a whole event only if the socket stood at the start of a two-part message and both
receives went through.
-/

namespace EventBus

open Framing MZmq

namespace Registry
variable {Target : Type}

/-- The calls an event is owed: one for each observer of its type, in order of registration. -/
def owed (reg : List (EventType × Target)) (type : EventType) (content : EventContent) :
    List (Call Target) :=
  (observers reg type).map fun object => ⟨object, type, content⟩

theorem owed_eq_nil {reg : List (EventType × Target)} {type : EventType} {content : EventContent} :
    owed reg type content = [] ↔ observers reg type = [] := by
  rw [owed, List.map_eq_nil_iff]

theorem owed_nodup {reg : List (EventType × Target)} (h : reg.Nodup) (type : EventType)
    (content : EventContent) : (owed reg type content).Nodup := by
  apply (observers_nodup h type).map
  intro x y hxy
  exact congrArg Call.target hxy

theorem mem_owed {reg : List (EventType × Target)} {type : EventType} {content : EventContent}
    {call : Call Target} :
    call ∈ owed reg type content ↔
      (type, call.target) ∈ reg ∧ call.type = type ∧ call.content = content := by
  rw [owed, List.mem_map]
  constructor
  · rintro ⟨object, hobj, rfl⟩
    exact ⟨mem_observers.mp hobj, rfl, rfl⟩
  · rintro ⟨hmem, rfl, rfl⟩
    exact ⟨call.target, mem_observers.mpr hmem, rfl⟩

end Registry

namespace EventClient
variable {Target : Type}

open Registry

section Loops
variable {c : EventClient Target} {reg : List (EventType × Target)}

theorem dispatch_under (h : Represents c.eventObjectMap reg) (type : EventType)
    (content : EventContent) :
    dispatch type content (c.eventObjectMap.under type) = owed reg type content := by
  rw [owed, ← h.under type, List.map_map]
  rfl

/-- The loop over the equal range calls what is owed. -/
theorem dispatchTitle_eq (h : Represents c.eventObjectMap reg) (title : EventType)
    (content : EventContent) : c.dispatchTitle title content = owed reg title content := by
  rw [← dispatch_under h, ← Multimap.range_equalRange]
  rfl

/-- The loop to `end()` calls what is owed, and then everything above the type. -/
theorem publishLocEvent_eq (h : Represents c.eventObjectMap reg) (type : EventType)
    (content : EventContent) :
    c.publishLocEvent type content = if observers reg type = [] then [] else
      owed reg type content ++ dispatch type content (c.eventObjectMap.above type) := by
  rw [publishLocEvent, Multimap.suffix_find]
  by_cases hnone : observers reg type = []
  · rw [if_pos hnone, if_pos (h.under_eq_nil.mpr hnone)]
    rfl
  · rw [if_neg hnone, if_neg (mt h.under_eq_nil.mp hnone), ← dispatch_under h]
    exact List.map_append

theorem above_eq_nil (h : Represents c.eventObjectMap reg) {type : EventType} :
    c.eventObjectMap.above type = [] ↔ ∀ p ∈ reg, p.1 ≤ type := by
  rw [List.eq_nil_iff_forall_not_mem]
  constructor
  · rintro hnone ⟨type', object⟩ hp
    obtain ⟨n, hn, hkey, -⟩ := h.mem_iff.mpr hp
    by_contra hlt
    refine hnone n (Multimap.mem_above.mpr ⟨hn, ?_⟩)
    rw [hkey]
    exact not_le.mp hlt
  · intro hall n hn
    obtain ⟨hn, hlt⟩ := Multimap.mem_above.mp hn
    have hmem : (n.key, n.val) ∈ reg := h.mem_iff.mp ⟨n, hn, rfl, rfl⟩
    exact absurd (hall _ hmem) (not_le.mpr hlt)

end Loops

/-! ## Local delivery -/

section Local
variable [DecidableEq Target]

/-- **When local delivery is right**: after any history of registrations, `publish_loc_event` calls
each observer of the type once, in order of registration, nobody else, and so the same observers as
the loop of `handle_event` would, exactly if the type has no observer or no pair is registered under
a greater type. -/
theorem publishLocEvent_iff (calls : List (ClientCall Target)) (type : EventType)
    (content : EventContent) :
    (publishLocEvent type content (run calls) =
        owed (registrations (calls.map ClientCall.op)) type content ∧
      publishLocEvent type content (run calls) = dispatchTitle type content (run calls)) ↔
      observers (registrations (calls.map ClientCall.op)) type = [] ∨
        ∀ p ∈ registrations (calls.map ClientCall.op), p.1 ≤ type := by
  have h := represents_run calls
  rw [dispatchTitle_eq h, and_self, publishLocEvent_eq h]
  by_cases hnone : observers (registrations (calls.map ClientCall.op)) type = []
  · rw [if_pos hnone]
    exact iff_of_true (owed_eq_nil.mpr hnone).symm (Or.inl hnone)
  · rw [if_neg hnone, List.append_right_eq_self, dispatch, List.map_eq_nil_iff, above_eq_nil h]
    exact (or_iff_right hnone).symm

/-- An observer of `[2]` alone is called for a local event of type `[1]`. -/
theorem publishLocEvent_reaches_greater_type :
    ¬ publishLocEvent [1] [7] (run [⟨.register [1] 0, none⟩, ⟨.register [2] 1, none⟩]) =
        owed (registrations [.register [1] 0, .register [2] 1]) [1] [7] := by
  decide

end Local

/-! ## Events from the bus -/

section Bus

/-- Between `s` and `s'` exactly one event has been read: a title frame at the start of a message,
and the content frame that ends the message. -/
def ReadsEvent (s s' : RecvSocket) (title : EventType) (content : EventContent) : Prop :=
  ∃ frames, s = ⟨⟨title, true⟩ :: ⟨content, false⟩ :: frames, false⟩ ∧ s' = ⟨frames, false⟩

/-- The handler calls of one call of `handle_event`. -/
def handlerCalls (r : EventClient Target × Option (Dispatch Target)) : List (Call Target) :=
  r.2.elim [] Dispatch.calls

/-- Handlers are called only if the call has read an event, and for an event each observer of its
title is called once. -/
def HandlesWholeEvents (reg : List (EventType × Target)) (c : EventClient Target)
    (r : EventClient Target × Option (Dispatch Target)) : Prop :=
  (handlerCalls r ≠ [] →
    ∃ title content, ReadsEvent c.subSocket.recv r.1.subSocket.recv title content) ∧
  ∀ title content, ReadsEvent c.subSocket.recv r.1.subSocket.recv title content →
    handlerCalls r = owed reg title content

/-- The title a receive leaves in its output buffer. -/
def titleLeft (o₁ : Outcome) (frames : List (Frame Bytes)) : EventType :=
  match o₁, frames with
  | none, f :: _ => f.data
  | _, _ => []

/-- The socket stands at the start of a message of two frames. -/
def EventWaiting (s : RecvSocket) : Prop :=
  ∃ title content frames, s = ⟨⟨title, true⟩ :: ⟨content, false⟩ :: frames, false⟩

variable {o₁ o₂ : Outcome} {s : RecvSocket}

theorem recvEventEntity_title (hlen : ∀ f ∈ s.frames, f.data.length < 2 ^ 31) :
    (recvEventEntity o₁ o₂ s).title = titleLeft o₁ s.frames := by
  obtain ⟨frames, rcvmore⟩ := s
  cases o₁ with
  | some e => rfl
  | none =>
      cases frames with
      | nil => rfl
      | cons f fs =>
          have htake : f.data.take (msgSize f.data) = f.data :=
            take_msgSize_of_lt (hlen f List.mem_cons_self)
          simp only [recvEventEntity, recvTwoFrames, zmqMsgRecv, titleLeft, htake]
          split
          · split <;> rfl
          · rfl

/-- An event is read if and only if one is waiting and both receives go through. -/
theorem readsEvent_recvEventEntity {title : EventType} {content : EventContent} :
    ReadsEvent s (recvEventEntity o₁ o₂ s).socket title content ↔
      (∃ frames, s = ⟨⟨title, true⟩ :: ⟨content, false⟩ :: frames, false⟩) ∧
        o₁ = none ∧ o₂ = none := by
  constructor
  · rintro ⟨frames, rfl, hs'⟩
    refine ⟨⟨frames, rfl⟩, ?_⟩
    -- a failed receive leaves at least one frame too many behind
    have hlength := congrArg (fun s => s.frames.length) hs'
    cases o₁ with
    | some e =>
        have : frames.length + 2 = frames.length := hlength
        omega
    | none =>
        cases o₂ with
        | some e =>
            have : frames.length + 1 = frames.length := hlength
            omega
        | none => exact ⟨rfl, rfl⟩
  · rintro ⟨⟨frames, rfl⟩, rfl, rfl⟩
    exact ⟨frames, rfl, rfl⟩

theorem handleEvent_of_pollin (o₁ o₂ : Outcome) {c : EventClient Target} {poll : Poll}
    (h : zmqPoll poll c.revents &&& ZMQ_POLLIN ≠ 0) :
    (handleEvent poll o₁ o₂ c).1.subSocket.recv =
        (recvEventEntity o₁ o₂ c.subSocket.recv).socket ∧
      handlerCalls (handleEvent poll o₁ o₂ c) =
        c.dispatchTitle (recvEventEntity o₁ o₂ c.subSocket.recv).title
          (recvEventEntity o₁ o₂ c.subSocket.recv).content := by
  unfold handleEvent
  rw [if_pos h]
  exact ⟨rfl, rfl⟩

theorem handleEvent_of_not_pollin (o₁ o₂ : Outcome) {c : EventClient Target} {poll : Poll}
    (h : zmqPoll poll c.revents &&& ZMQ_POLLIN = 0) :
    (handleEvent poll o₁ o₂ c).1.subSocket.recv = c.subSocket.recv ∧
      handlerCalls (handleEvent poll o₁ o₂ c) = [] := by
  simp [handleEvent, h, handlerCalls]

/-- After the timeout nothing is received and nothing is dispatched. -/
theorem handleEvent_timeout (o₁ o₂ : Outcome) (c : EventClient Target) :
    handleEvent .timeout o₁ o₂ c = ({ c with revents := 0 }, none) := by
  have hclear : ¬ ((0 : BitVec 16) &&& ZMQ_POLLIN ≠ 0) := by decide
  unfold handleEvent
  exact if_neg hclear

/-- A poll that finds an event waiting dispatches that event. -/
theorem handleEvent_event {c : EventClient Target} {title : EventType} {content : EventContent}
    {frames : List (Frame Bytes)}
    (hrecv : c.subSocket.recv = ⟨⟨title, true⟩ :: ⟨content, false⟩ :: frames, false⟩)
    (htitle : title.length < 2 ^ 31) (hcontent : content.length < 2 ^ 31) :
    handleEvent .ready none none c =
      ({ c with
        revents := ZMQ_POLLIN
        subSocket := { c.subSocket with recv := ⟨frames, false⟩ } },
      some ⟨title, content, c.dispatchTitle title content⟩) := by
  have hset : ZMQ_POLLIN &&& ZMQ_POLLIN ≠ 0 := by decide
  have hreceived : recvEventEntity none none c.subSocket.recv =
      ⟨msgSize content, title, content, ⟨frames, false⟩⟩ := by
    unfold recvEventEntity
    rw [hrecv, recvTwoFrames_pair rfl rfl, take_msgSize_of_lt htitle, take_msgSize_of_lt hcontent]
  unfold handleEvent zmqPoll
  simp only [if_pos hset, hreceived]

variable {c : EventClient Target} {reg : List (EventType × Target)} {poll : Poll}

/-- With the poll item set, the handlers of whatever title is left are called. -/
theorem handlesWholeEvents_of_pollin (h : Represents c.eventObjectMap reg)
    (hlen : ∀ f ∈ c.subSocket.recv.frames, f.data.length < 2 ^ 31)
    (hpollin : zmqPoll poll c.revents &&& ZMQ_POLLIN ≠ 0) :
    HandlesWholeEvents reg c (handleEvent poll o₁ o₂ c) ↔
      (EventWaiting c.subSocket.recv ∧ o₁ = none ∧ o₂ = none) ∨
        observers reg (titleLeft o₁ c.subSocket.recv.frames) = [] := by
  obtain ⟨hsock, hcalls⟩ := handleEvent_of_pollin o₁ o₂ hpollin
  rw [dispatchTitle_eq h, recvEventEntity_title hlen] at hcalls
  rw [HandlesWholeEvents, hsock, hcalls]
  simp only [readsEvent_recvEventEntity]
  constructor
  · rintro ⟨honly, -⟩
    by_cases hobs : observers reg (titleLeft o₁ c.subSocket.recv.frames) = []
    · exact Or.inr hobs
    · obtain ⟨title, content, hread⟩ := honly (mt owed_eq_nil.mp hobs)
      exact Or.inl ⟨⟨title, content, hread.1⟩, hread.2⟩
  · intro hcond
    refine ⟨fun hne => ?_, ?_⟩
    · rcases hcond with ⟨⟨title, content, hread⟩, hok⟩ | hobs
      · exact ⟨title, content, hread, hok⟩
      · exact absurd (owed_eq_nil.mpr hobs) hne
    · -- the event read is the one whose frames were waiting
      rintro title content ⟨⟨frames, hs⟩, rfl, rfl⟩
      rw [hs] at hlen ⊢
      have hcontent : content.take (msgSize content) = content :=
        take_msgSize_of_lt (hlen ⟨content, false⟩ (by simp))
      simp [titleLeft, recvEventEntity, recvTwoFrames, zmqMsgRecv, hcontent]

theorem handlesWholeEvents_of_not_pollin
    (hpollin : zmqPoll poll c.revents &&& ZMQ_POLLIN = 0) :
    HandlesWholeEvents reg c (handleEvent poll o₁ o₂ c) := by
  obtain ⟨hsock, hcalls⟩ := handleEvent_of_not_pollin o₁ o₂ hpollin
  rw [HandlesWholeEvents, hsock, hcalls]
  refine ⟨fun hne => absurd rfl hne, ?_⟩
  rintro title content ⟨frames, hs, hs'⟩
  have hlength : frames.length + 2 = frames.length :=
    congrArg (fun s => s.frames.length) (hs.symm.trans hs')
  omega

/-- The client with this much left in its poll item and waiting on its SUB socket. -/
def receiving (c : EventClient Target) (revents : BitVec 16) (s : RecvSocket) :
    EventClient Target :=
  { c with revents := revents, subSocket := { c.subSocket with recv := s } }

variable [DecidableEq Target]

/-- **When `handle_event` dispatches whole events only**: after any history of registrations, with
any poll item, any frames waiting, any result of the poll and any outcome of the receives, the call
dispatches nothing but an event it has read, and that to each observer of the title once, exactly if
the poll item is not set, or an event is waiting and both receives go through, or the title the
receive leaves behind has no observer. -/
theorem handlesWholeEvents_iff (calls : List (ClientCall Target)) (revents : BitVec 16)
    (s : RecvSocket) (poll : Poll) (o₁ o₂ : Outcome)
    (hlen : ∀ f ∈ s.frames, f.data.length < 2 ^ 31) :
    HandlesWholeEvents (registrations (calls.map ClientCall.op))
        (receiving (run calls) revents s)
        (handleEvent poll o₁ o₂ (receiving (run calls) revents s)) ↔
      zmqPoll poll revents &&& ZMQ_POLLIN = 0 ∨ (EventWaiting s ∧ o₁ = none ∧ o₂ = none) ∨
        observers (registrations (calls.map ClientCall.op)) (titleLeft o₁ s.frames) = [] := by
  have h : Represents (receiving (run calls) revents s).eventObjectMap
      (registrations (calls.map ClientCall.op)) := represents_run calls
  by_cases hpollin : zmqPoll poll revents &&& ZMQ_POLLIN = 0
  · exact iff_of_true (handlesWholeEvents_of_not_pollin hpollin) (Or.inl hpollin)
  · rw [or_iff_right hpollin]
    exact handlesWholeEvents_of_pollin h hlen hpollin

/-- With an observer of `[1]`, a message of the one frame `[1]`, and both bytes in range. -/
theorem handlesWholeEvents_iff_one_frame :
    (∀ f ∈ [(⟨[1], false⟩ : Frame Bytes)], f.data.length < 2 ^ 31) ∧
    (HandlesWholeEvents (registrations [.register [1] 0])
        (receiving (run [⟨.register [1] 0, none⟩]) 0 ⟨[⟨[1], false⟩], false⟩)
        (handleEvent .ready none none
          (receiving (run [⟨.register [1] 0, none⟩]) 0 ⟨[⟨[1], false⟩], false⟩)) ↔
      zmqPoll .ready 0 &&& ZMQ_POLLIN = 0 ∨
        (EventWaiting ⟨[⟨[1], false⟩], false⟩ ∧ (none : Outcome) = none ∧
          (none : Outcome) = none) ∨
        observers (registrations [.register [1] 0])
          (titleLeft none [(⟨[1], false⟩ : Frame Bytes)]) = []) :=
  ⟨by decide, handlesWholeEvents_iff [⟨.register [1] 0, none⟩] 0 ⟨[⟨[1], false⟩], false⟩ .ready
    none none (by decide)⟩

/-- An interrupted poll leaves `revents` set, nothing is waiting, and the observer of the empty type
is called. A message of one frame reaches the observer of that frame. -/
theorem not_handlesWholeEvents_interrupted :
    ¬ HandlesWholeEvents (registrations [.register [] 0])
        (receiving (run [⟨.register [] 0, none⟩]) ZMQ_POLLIN ⟨[], false⟩)
        (handleEvent .interrupted none none
          (receiving (run [⟨.register [] 0, none⟩]) ZMQ_POLLIN ⟨[], false⟩)) ∧
    ¬ HandlesWholeEvents (registrations [.register [1] 0])
        (receiving (run [⟨.register [1] 0, none⟩]) 0 ⟨[⟨[1], false⟩], false⟩)
        (handleEvent .ready none none
          (receiving (run [⟨.register [1] 0, none⟩]) 0 ⟨[⟨[1], false⟩], false⟩)) := by
  constructor
  · rintro ⟨honly, -⟩
    obtain ⟨title, content, frames, hs, -⟩ := honly (by decide)
    cases hs
  · rintro ⟨honly, -⟩
    obtain ⟨title, content, frames, hs, -⟩ := honly (by decide)
    cases hs

end Bus
end EventClient
end EventBus
