import EventBus.MZmq.RoundTrip
import EventBus.Transition.Run

/-!
# Publishing when sends fail

`publish_event` makes two `zmq_msg_send` calls and ignores the result. When the second one fails the
title has already gone out with `ZMQ_SNDMORE`, and the message it opened stays open: the frames of
the next call go into it. This file says exactly when that does no harm. A call that got its title
out but not its content must not be followed by a call that gets its title out; then every message
holds the frames of one call, and what a receiver makes of the stream is what was published.
-/

namespace EventBus.MZmq

open Framing Transition

/-- A `publish_event` call and what becomes of its two sends. -/
structure PublishCall where
  type : Bytes
  content : Bytes
  first : Outcome
  second : Outcome

namespace PublishCall

def event (c : PublishCall) : Bytes × Bytes := (c.type, c.content)

def TitleSent (c : PublishCall) : Prop := c.first = none

def Sent (c : PublishCall) : Prop := c.first = none ∧ c.second = none

def HalfSent (c : PublishCall) : Prop := c.first = none ∧ c.second ≠ none

instance : DecidablePred Sent := fun c => inferInstanceAs (Decidable (c.first = none ∧ _))

def exec (s : SendSocket) (c : PublishCall) : SendSocket :=
  publishEvent c.first c.second c.type c.content s

theorem exec_of_sent {c : PublishCall} (h : c.Sent) (s : SendSocket) :
    c.exec s = ⟨[], s.messages ++ [Message.close (s.openParts ++ [c.type]) c.content]⟩ := by
  rw [exec, h.1, h.2, publishEvent_ok]

theorem exec_of_halfSent {c : PublishCall} (h : c.HalfSent) (s : SendSocket) :
    c.exec s = { s with openParts := s.openParts ++ [c.type] } := by
  obtain ⟨e, he⟩ := Option.ne_none_iff_exists'.mp h.2
  rw [exec, h.1, he, publishEvent, sendEventEntity_second_fails]

theorem exec_of_not_titleSent {c : PublishCall} (h : ¬ c.TitleSent) (s : SendSocket) :
    c.exec s = s := by
  obtain ⟨e, he⟩ := Option.ne_none_iff_exists'.mp h
  rw [exec, he, publishEvent, sendEventEntity_first_fails]

theorem sent_or_halfSent {c : PublishCall} (h : c.TitleSent) : c.Sent ∨ c.HalfSent := by
  by_cases h₂ : c.second = none
  · exact Or.inl ⟨h, h₂⟩
  · exact Or.inr ⟨h, h₂⟩

end PublishCall

/-- A run of `publish_event` calls on one client. -/
def publishAll (calls : List PublishCall) (s : SendSocket) : SendSocket :=
  calls.foldl PublishCall.exec s

/-! ## Calls that keep apart -/

/-- No call that left its message open is followed by one that sends a title. -/
def KeepApart (calls : List PublishCall) : Prop :=
  calls.Pairwise (fun a b => ¬ (a.HalfSent ∧ b.TitleSent))

/-- Calls that send no title leave the socket alone. -/
theorem publishAll_of_none_titleSent {calls : List PublishCall}
    (h : ∀ c ∈ calls, ¬ c.TitleSent) (s : SendSocket) : publishAll calls s = s := by
  induction calls with
  | nil => rfl
  | cons c cs ih =>
      show publishAll cs (c.exec s) = s
      rw [PublishCall.exec_of_not_titleSent (h c List.mem_cons_self)]
      exact ih fun c' hc' => h c' (List.mem_cons_of_mem c hc')

/-- After a call that left its message open, calls that keep apart from it send nothing. -/
theorem publishAll_of_halfSent {c : PublishCall} {cs : List PublishCall} (h : c.HalfSent)
    (hrest : ∀ c' ∈ cs, ¬ c'.TitleSent) (ms : List (Message Bytes)) :
    publishAll (c :: cs) ⟨[], ms⟩ = ⟨[c.type], ms⟩ ∧
      (c :: cs).filter (fun c => c.Sent) = [] := by
  constructor
  · show publishAll cs (c.exec ⟨[], ms⟩) = _
    rw [PublishCall.exec_of_halfSent h]
    exact publishAll_of_none_titleSent hrest _
  · rw [List.filter_eq_nil_iff]
    intro c' hc'
    rcases List.mem_cons.mp hc' with rfl | hc'
    · simpa using fun hs : c'.Sent => h.2 hs.2
    · simpa using fun hs : c'.Sent => hrest c' hc' hs.1

/-- Calls that keep apart put one message on the wire for each call that was fully sent, and leave
at most the title of one call in an open message. -/
theorem publishAll_of_keepApart {calls : List PublishCall} (h : KeepApart calls)
    (ms : List (Message Bytes)) :
    (publishAll calls ⟨[], ms⟩).messages =
        ms ++ (calls.filter (fun c => c.Sent)).map (fun c => eventMessage c.event) ∧
      ((publishAll calls ⟨[], ms⟩).openParts = [] ∨
        ∃ c ∈ calls, (publishAll calls ⟨[], ms⟩).openParts = [c.type]) := by
  induction calls generalizing ms with
  | nil => simp [publishAll]
  | cons c cs ih =>
      obtain ⟨hc, hcs⟩ := List.pairwise_cons.mp h
      have hlift : ∀ {ps : List Bytes}, (ps = [] ∨ ∃ c' ∈ cs, ps = [c'.type]) →
          ps = [] ∨ ∃ c' ∈ c :: cs, ps = [c'.type] := by
        rintro ps (h | ⟨c', hc', h⟩)
        · exact Or.inl h
        · exact Or.inr ⟨c', List.mem_cons_of_mem c hc', h⟩
      by_cases ht : c.TitleSent
      · rcases PublishCall.sent_or_halfSent ht with hs | hh
        · have hexec : publishAll (c :: cs) ⟨[], ms⟩ =
              publishAll cs ⟨[], ms ++ [eventMessage c.event]⟩ := by
            show publishAll cs (c.exec ⟨[], ms⟩) = _
            rw [PublishCall.exec_of_sent hs]
            rfl
          obtain ⟨hmsgs, hopen⟩ := ih hcs (ms ++ [eventMessage c.event])
          rw [hexec]
          refine ⟨?_, hlift hopen⟩
          rw [hmsgs, List.filter_cons_of_pos (by simpa using hs), List.map_cons,
            List.append_assoc, List.singleton_append]
        · -- the message stays open, and no later call sends anything
          have hrest : ∀ c' ∈ cs, ¬ c'.TitleSent := fun c' hc' ht' => hc c' hc' ⟨hh, ht'⟩
          obtain ⟨hexec, hnone⟩ := publishAll_of_halfSent hh hrest ms
          rw [hexec, hnone]
          exact ⟨by simp, Or.inr ⟨c, List.mem_cons_self, rfl⟩⟩
      · have hexec : publishAll (c :: cs) ⟨[], ms⟩ = publishAll cs ⟨[], ms⟩ := by
          show publishAll cs (c.exec ⟨[], ms⟩) = _
          rw [PublishCall.exec_of_not_titleSent ht]
        have hns : ¬ c.Sent := fun hs => ht hs.1
        obtain ⟨hmsgs, hopen⟩ := ih hcs ms
        rw [hexec]
        refine ⟨?_, hlift hopen⟩
        rw [hmsgs, List.filter_cons_of_neg (by simpa using hns)]

/-! ## Calls that do not -/

/-- Frames of two calls have come together in one message, complete or still open. -/
def Mixed (s : SendSocket) : Prop :=
  (∃ m ∈ s.messages, 2 < m.parts.length) ∨ 2 ≤ s.openParts.length

/-- A call that sends a title into an open message mixes two calls. -/
theorem mixed_exec_of_open {s : SendSocket} (hs : 1 ≤ s.openParts.length) {c : PublishCall}
    (h : c.TitleSent) : Mixed (c.exec s) := by
  rcases PublishCall.sent_or_halfSent h with h | h
  · rw [PublishCall.exec_of_sent h]
    refine Or.inl ⟨_, List.mem_append_right _ List.mem_cons_self, ?_⟩
    simp
    omega
  · rw [PublishCall.exec_of_halfSent h]
    refine Or.inr ?_
    simp
    omega

/-- What has come together stays together. -/
theorem mixed_exec {s : SendSocket} (hs : Mixed s) (c : PublishCall) : Mixed (c.exec s) := by
  by_cases ht : c.TitleSent
  · rcases hs with ⟨m, hm, hlen⟩ | hopen
    · refine Or.inl ⟨m, ?_, hlen⟩
      rcases PublishCall.sent_or_halfSent ht with h | h
      · rw [PublishCall.exec_of_sent h]
        exact List.mem_append_left _ hm
      · rw [PublishCall.exec_of_halfSent h]
        exact hm
    · exact mixed_exec_of_open (by omega) ht
  · rwa [PublishCall.exec_of_not_titleSent ht]

theorem mixed_publishAll {s : SendSocket} (hs : Mixed s) (calls : List PublishCall) :
    Mixed (publishAll calls s) := by
  induction calls generalizing s with
  | nil => exact hs
  | cons c cs ih => exact ih (mixed_exec hs c)

theorem mixed_publishAll_of_open {s : SendSocket} (hs : 1 ≤ s.openParts.length)
    {calls : List PublishCall} (h : ∃ c ∈ calls, c.TitleSent) : Mixed (publishAll calls s) := by
  induction calls with
  | nil =>
      obtain ⟨c, hc, -⟩ := h
      cases hc
  | cons c cs ih =>
      show Mixed (publishAll cs (c.exec s))
      by_cases ht : c.TitleSent
      · exact mixed_publishAll (mixed_exec_of_open hs ht) cs
      · rw [PublishCall.exec_of_not_titleSent ht]
        obtain ⟨c', hc', ht'⟩ := h
        rcases List.mem_cons.mp hc' with rfl | hc'
        · exact absurd ht' ht
        · exact ih ⟨c', hc', ht'⟩

/-- If no message is mixed in the end, the calls kept apart. -/
theorem keepApart_of_not_mixed {calls : List PublishCall} {s : SendSocket}
    (h : ¬ Mixed (publishAll calls s)) : KeepApart calls := by
  induction calls generalizing s with
  | nil => exact .nil
  | cons c cs ih =>
      refine List.pairwise_cons.mpr ⟨?_, ih h⟩
      rintro c' hc' ⟨hh, ht⟩
      apply h
      show Mixed (publishAll cs (c.exec s))
      rw [PublishCall.exec_of_halfSent hh]
      exact mixed_publishAll_of_open (by simp) ⟨c', hc', ht⟩

/-! ## The receiver -/

/-- The call took at least one frame, did not report a failure, and handed back the event `e`. -/
def Obtains (x : Taken RecvSocket RecvCall) (e : Bytes × Bytes) : Prop :=
  (x.label.exec x.pre).socket.frames.length < x.pre.frames.length ∧
    0 ≤ (x.label.exec x.pre).rc ∧
    ((x.label.exec x.pre).title, (x.label.exec x.pre).content) = e

/-- A receiver that keeps calling `RecvEventEntity` obtains `e` at some call. -/
def Delivers (s : RecvSocket) (e : Bytes × Bytes) : Prop :=
  ∃ n, ∃ x ∈ trace RecvCall.next s (List.replicate n recvEvent), Obtains x e

theorem not_delivers_nil (e : Bytes × Bytes) : ¬ Delivers (.ofMessages []) e := by
  rintro ⟨n, x, hx, hlt, -⟩
  have hexec : recvEvent.exec (.ofMessages []) = ⟨0, [], [], .ofMessages []⟩ := rfl
  induction n with
  | zero => cases hx
  | succ n ih =>
      rw [List.replicate_succ, trace, RecvCall.next, hexec] at hx
      rcases List.mem_cons.mp hx with rfl | hx
      · rw [hexec] at hlt
        exact absurd hlt (Nat.lt_irrefl _)
      · exact ih hx

/-- On a stream of events the receiver obtains exactly these events, cut. -/
theorem delivers_events {events : List (Bytes × Bytes)} {e : Bytes × Bytes} :
    Delivers (.ofMessages (events.map eventMessage)) e ↔ ∃ e' ∈ events, cut e' = e := by
  induction events with
  | nil => simpa using not_delivers_nil e
  | cons e₀ es ih =>
      have hfirst : Obtains ⟨.ofMessages ((e₀ :: es).map eventMessage), recvEvent,
          .ofMessages (es.map eventMessage)⟩ e ↔ cut e₀ = e := by
        have hlen : (wire (es.map eventMessage)).length <
            (wire ((e₀ :: es).map eventMessage)).length := by
          simp [eventMessage, Message.length_frames]
        rw [Obtains, List.map_cons, recvEvent_exec]
        exact ⟨fun h => h.2.2, fun h => ⟨hlen, by simp, h⟩⟩
      rw [List.exists_mem_cons_iff, ← hfirst, ← ih]
      constructor
      · rintro ⟨n, x, hx, hobt⟩
        cases n with
        | zero => cases hx
        | succ n =>
            rw [List.replicate_succ, trace, List.map_cons, recvEvent_next] at hx
            rcases List.mem_cons.mp hx with rfl | hx
            · exact Or.inl hobt
            · exact Or.inr ⟨n, x, hx, hobt⟩
      · rintro (hobt | ⟨n, x, hx, hobt⟩)
        · refine ⟨1, _, ?_, hobt⟩
          rw [List.replicate_succ, trace, List.map_cons, recvEvent_next]
          exact List.mem_cons_self
        · refine ⟨n + 1, x, ?_, hobt⟩
          rw [List.replicate_succ, trace, List.map_cons, recvEvent_next]
          exact List.mem_cons_of_mem _ hx

/-! ## When publishing is atomic -/

/-- Atomic publishing: a receiver obtains only events that were passed to one call, and no message,
complete or open, holds frames of two calls. -/
def Atomic (calls : List PublishCall) : Prop :=
  let s := publishAll calls .fresh
  (∀ e, Delivers (.ofMessages s.messages) e → ∃ c ∈ calls, c.event = e) ∧
  (∀ m ∈ s.messages, ∃ c ∈ calls, m.parts = [c.type, c.content]) ∧
  (s.openParts = [] ∨ ∃ c ∈ calls, s.openParts = [c.type])

/-- **Publishing is atomic exactly if** the calls keep apart and every fully sent event survives the
copying, which it does when its title and content are shorter than `2 ^ 31` bytes. -/
theorem atomic_iff (calls : List PublishCall) :
    Atomic calls ↔ KeepApart calls ∧ ∀ a ∈ calls, a.Sent → ∃ b ∈ calls, b.event = cut a.event := by
  have hmessages : KeepApart calls → (publishAll calls .fresh).messages =
      ((calls.filter (fun c => c.Sent)).map PublishCall.event).map eventMessage := by
    intro h
    rw [SendSocket.fresh, (publishAll_of_keepApart h []).1, List.nil_append, List.map_map]
    rfl
  constructor
  · rintro ⟨hdelivered, hmsgs, hopen⟩
    have hkeep : KeepApart calls := by
      apply keepApart_of_not_mixed (s := .fresh)
      rintro (⟨m, hm, hlen⟩ | hlen)
      · obtain ⟨c, -, hparts⟩ := hmsgs m hm
        rw [hparts] at hlen
        exact absurd hlen (by simp)
      · rcases hopen with h | ⟨c, -, h⟩ <;> rw [h] at hlen <;> simp at hlen
    refine ⟨hkeep, fun a ha hsent => hdelivered (cut a.event) ?_⟩
    rw [hmessages hkeep, delivers_events]
    exact ⟨a.event, List.mem_map.mpr ⟨a, List.mem_filter.mpr ⟨ha, by simpa using hsent⟩, rfl⟩, rfl⟩
  · rintro ⟨hkeep, hcut⟩
    refine ⟨?_, ?_, (publishAll_of_keepApart hkeep []).2⟩
    · intro e he
      rw [hmessages hkeep, delivers_events] at he
      obtain ⟨e', he', rfl⟩ := he
      obtain ⟨a, ha, rfl⟩ := List.mem_map.mp he'
      obtain ⟨ha, hsent⟩ := List.mem_filter.mp ha
      exact hcut a ha (by simpa using hsent)
    · intro m hm
      rw [hmessages hkeep, List.map_map] at hm
      obtain ⟨c, hc, rfl⟩ := List.mem_map.mp hm
      exact ⟨c, (List.mem_filter.mp hc).1, rfl⟩

/-- An interrupted second send makes the next event's title the content of the first one. -/
theorem not_atomic_interrupted :
    ¬ Atomic [⟨[65], [1], none, some .EINTR⟩, ⟨[66], [2], none, none⟩] := by
  rintro ⟨hdelivered, -⟩
  have hobtained : Delivers (.ofMessages (publishAll
      [⟨[65], [1], none, some .EINTR⟩, ⟨[66], [2], none, none⟩] .fresh).messages) ([65], [66]) :=
    ⟨1, _, List.mem_cons_self, by decide, by decide, by decide⟩
  obtain ⟨c, hc, he⟩ := hdelivered _ hobtained
  simp only [List.mem_cons, List.not_mem_nil, or_false] at hc
  rcases hc with rfl | rfl <;> exact absurd he (by decide)

end EventBus.MZmq
