import EventBus.Bus.Basic
import EventBus.Transition.Relay

/-!
# Safety of the whole bus

For one publisher and one client the bus is a lossy relay: its first queue is the pipe from the
publisher, its second one the messages of that publisher in the pipe to the client. A step of the
bus is some steps of each of these relays, so every client dispatches a subsequence of what every
publisher has published. The tables play no part in this; they only decide what is lost.

What is dispatched goes to the observers of exactly that title. A message enters the pipe of a
client once, however many topics match it, and `handle_event` looks its title up in the map.
-/

namespace EventBus

open Framing MZmq Transition

namespace EventClient
variable {Target : Type} [DecidableEq Target]

/-- Registering leaves the sockets alone but for the subscriptions. -/
theorem exec_sockets (c : EventClient Target) (call : ClientCall Target) :
    (c.exec call).pubSocket = c.pubSocket ∧
      (c.exec call).subSocket.recv = c.subSocket.recv := by
  have hsockopt : ∀ o option topic (s : SubSocket),
      (zmqSetsockopt o option topic s).2.recv = s.recv := by
    intro o option topic s
    cases o <;> rfl
  obtain ⟨op, o⟩ := call
  cases op with
  | register type object =>
      show (registerObserver o type object c).2.pubSocket = _ ∧
        (registerObserver o type object c).2.subSocket.recv = _
      by_cases hfind : c.eventObjectMap.find type = none
      · rw [registerObserver_not_found hfind]
        exact ⟨rfl, hsockopt ..⟩
      · rw [registerObserver_found hfind]
        split <;> exact ⟨rfl, rfl⟩
  | unregister type object =>
      show (unregisterObserver o type object c).2.pubSocket = _ ∧
        (unregisterObserver o type object c).2.subSocket.recv = _
      cases hpair : c.eventObjectMap.entriesOf type object with
      | nil =>
          rw [unregisterObserver_nil hpair]
          exact ⟨rfl, rfl⟩
      | cons n rest =>
          rw [unregisterObserver_cons hpair]
          split
          · exact ⟨rfl, hsockopt ..⟩
          · exact ⟨rfl, rfl⟩

end EventClient

namespace Bus
variable {ι Target : Type} [DecidableEq ι]

/-! ## Between two steps -/

/-- A message as `publish_event` sends it. -/
def IsEvent (m : Message Bytes) : Prop :=
  m.first.length < 2 ^ 31 ∧ ∃ content, m.rest = [content] ∧ content.length < 2 ^ 31

def eventOf (m : Message Bytes) : EventType × EventContent := (m.first, m.rest.headD [])

/-- No message is half sent or half received. -/
def Quiet (c : EventClient Target) : Prop :=
  c.pubSocket.openParts = [] ∧ c.subSocket.recv = ⟨[], false⟩

structure WellFormed (s : Bus ι Target) : Prop where
  quiet : ∀ c, Quiet (s.client c)
  pub : ∀ p, ∀ m ∈ s.pubPipe p, IsEvent m
  sub : ∀ c, ∀ k ∈ s.subPipe c, IsEvent k.message

omit [DecidableEq ι] in
theorem wellFormed_initial : WellFormed (initial : Bus ι Target) where
  quiet := fun _ => ⟨rfl, rfl⟩
  pub := by
    intro p m hm
    cases hm
  sub := by
    intro c k hk
    cases hk

/-- The frames of a published event are shorter than `2 ^ 31` bytes. -/
def Short (a : Act ι Target) : Prop :=
  ∀ p type content kept, a = .publish p type content kept →
    type.length < 2 ^ 31 ∧ content.length < 2 ^ 31

/-! ## One step -/

section
variable {s t : Bus ι Target}

omit [DecidableEq ι] in
/-- A publish completes one message, the event. -/
theorem publish_eq (h : WellFormed s) (p : ι) (type : EventType) (content : EventContent) :
    Quiet (EventClient.publishEvent none none type content (s.client p)) ∧
      newMessages (s.client p).pubSocket
        (EventClient.publishEvent none none type content (s.client p)).pubSocket =
          [⟨type, [content]⟩] := by
  obtain ⟨hopen, hrecv⟩ := h.quiet p
  have hsent : (EventClient.publishEvent none none type content (s.client p)).pubSocket =
      ⟨[], (s.client p).pubSocket.messages ++ [⟨type, [content]⟩]⟩ := by
    show MZmq.publishEvent none none type content (s.client p).pubSocket = _
    rw [publishEvent_ok, hopen]
    rfl
  refine ⟨⟨?_, hrecv⟩, ?_⟩
  · rw [hsent]
  · rw [hsent, newMessages]
    simp

/-- `handle_event` on a well-formed bus dispatches the first message the client has a subscription
for, whole, and leaves nothing of it behind. -/
theorem handle_of_waiting (h : WellFormed s) {c : ι} {k : Packet ι} {ks : List (Packet ι)}
    (hwaiting : s.waiting c = k :: ks) :
    s.handle c =
      ({ s with
        client := Function.update s.client c { s.client c with revents := EventClient.ZMQ_POLLIN }
        subPipe := Function.update s.subPipe c ks },
      some ⟨k.src, ⟨(eventOf k.message).1, (eventOf k.message).2,
        (s.client c).dispatchTitle (eventOf k.message).1 (eventOf k.message).2⟩⟩) := by
  have hmem : k ∈ s.subPipe c := by
    have hk : k ∈ s.waiting c := hwaiting ▸ List.mem_cons_self
    exact (List.dropWhile_sublist _).subset hk
  obtain ⟨src, title, rest⟩ := k
  obtain ⟨htitle, content, rfl, hcontent⟩ := h.sub c _ hmem
  have hrecv := (h.quiet c).2
  have hready : ((s.client c).receiving (s.client c).revents
      ⟨(Message.mk title [content]).frames, false⟩).subSocket.recv =
        ⟨[⟨title, true⟩, ⟨content, false⟩], false⟩ := rfl
  unfold handle
  rw [hwaiting]
  simp only [hrecv, List.nil_append, EventClient.handleEvent_event hready htitle hcontent,
    Option.map_some]
  -- the receive has emptied the socket again
  have hclient : { s.client c with revents := EventClient.ZMQ_POLLIN } =
      { s.client c with
        revents := EventClient.ZMQ_POLLIN
        subSocket := { (s.client c).subSocket with recv := ⟨[], false⟩ } } := by
    rw [← hrecv]
  rw [hclient]
  rfl

/-- Without a message to wait for the poll times out. -/
theorem handle_of_not_waiting {c : ι} (hwaiting : s.waiting c = []) :
    s.handle c =
      ({ s with
        client := Function.update s.client c { s.client c with revents := 0 }
        subPipe := Function.update s.subPipe c [] }, none) := by
  unfold handle
  rw [hwaiting]
  simp only [EventClient.handleEvent_timeout]

/-- Whatever is waiting, `handle_event` writes the poll item and shortens the pipe of the client. -/
theorem handle_fst (h : WellFormed s) (c : ι) : ∃ revents ks, ks.Sublist (s.subPipe c) ∧
    (s.handle c).1 = { s with
      client := Function.update s.client c { s.client c with revents := revents }
      subPipe := Function.update s.subPipe c ks } := by
  cases hwaiting : s.waiting c with
  | nil => exact ⟨0, [], List.nil_sublist _, by rw [handle_of_not_waiting hwaiting]⟩
  | cons k ks =>
      have hks : ks.Sublist (s.waiting c) := hwaiting ▸ List.sublist_cons_self k ks
      refine ⟨EventClient.ZMQ_POLLIN, ks, hks.trans (List.dropWhile_sublist _), ?_⟩
      rw [handle_of_waiting h hwaiting]

theorem proxyEvent_cases {p : ι} {kept : ι → Bool} (hstep : s.proxyEvent p kept = some t) :
    ∃ m ms, s.pubPipe p = m :: ms ∧ t = { s with
      pubPipe := Function.update s.pubPipe p ms
      subPipe := fun c => s.subPipe c ++
        if prefixMatch (fun t => c ∈ s.xpubTable t) m.first && kept c then [⟨p, m⟩] else [] } := by
  unfold proxyEvent at hstep
  cases hpipe : s.pubPipe p with
  | nil =>
      rw [hpipe] at hstep
      cases hstep
  | cons m ms =>
      rw [hpipe] at hstep
      exact ⟨m, ms, rfl, (Option.some.inj hstep).symm⟩

/-- Nothing that has to do with events differs but the subscriptions. -/
structure SameEvents (s t : Bus ι Target) : Prop where
  pubPipe : t.pubPipe = s.pubPipe
  subPipe : t.subPipe = s.subPipe
  client : ∀ c, (t.client c).eventObjectMap = (s.client c).eventObjectMap ∧
    (t.client c).pubSocket = (s.client c).pubSocket ∧
    (t.client c).subSocket.recv = (s.client c).subSocket.recv

theorem xpubRead_same {c : ι} (hstep : s.xpubRead c = some t) : SameEvents s t := by
  unfold xpubRead at hstep
  cases hup : (s.client c).subSocket.upstream with
  | nil =>
      rw [hup] at hstep
      cases hstep
  | cons msg msgs =>
      rw [hup] at hstep
      have hclient : ∀ c', (t.client c').eventObjectMap = (s.client c').eventObjectMap ∧
          (t.client c').pubSocket = (s.client c').pubSocket ∧
          (t.client c').subSocket.recv = (s.client c').subSocket.recv := by
        intro c'
        cases msg <;> cases hstep <;> by_cases hc : c' = c <;> simp [hc]
      cases msg <;> cases hstep <;> exact ⟨rfl, rfl, hclient⟩

omit [DecidableEq ι] in
theorem proxySub_same (hstep : s.proxySub = some t) : SameEvents s t := by
  unfold proxySub at hstep
  split at hstep
  · cases hstep
  · cases hstep
    exact ⟨rfl, rfl, fun _ => ⟨rfl, rfl, rfl⟩⟩

theorem pubRead_same {p : ι} (hstep : s.pubRead p = some t) : SameEvents s t := by
  unfold pubRead at hstep
  split at hstep
  · cases hstep
  · cases hstep
    exact ⟨rfl, rfl, fun _ => ⟨rfl, rfl, rfl⟩⟩

omit [DecidableEq ι] in
theorem WellFormed.same (h : WellFormed s) (hsame : SameEvents s t) : WellFormed t where
  quiet := by
    intro c
    obtain ⟨-, hpub, hrecv⟩ := hsame.client c
    unfold Quiet
    rw [hpub, hrecv]
    exact h.quiet c
  pub := by
    rw [hsame.pubPipe]
    exact h.pub
  sub := by
    rw [hsame.subPipe]
    exact h.sub

/-- Another client in the place of one. -/
theorem WellFormed.quiet_update (h : WellFormed s) (c : ι) {cl : EventClient Target}
    (hcl : Quiet cl) : ∀ c', Quiet (Function.update s.client c cl c') := by
  apply (Function.forall_update_iff s.client (fun _ c => Quiet c)).mpr
  exact ⟨hcl, fun c' _ => h.quiet c'⟩

/-- Other messages in the pipe of one publisher. -/
theorem WellFormed.pub_update (h : WellFormed s) (p : ι) {ms : List (Message Bytes)}
    (hms : ∀ m ∈ ms, IsEvent m) : ∀ p', ∀ m ∈ Function.update s.pubPipe p ms p', IsEvent m := by
  apply (Function.forall_update_iff s.pubPipe (fun _ ms => ∀ m ∈ ms, IsEvent m)).mpr
  exact ⟨hms, fun p' _ => h.pub p'⟩

/-- Other messages in the pipe to one client. -/
theorem WellFormed.sub_update (h : WellFormed s) (c : ι) {ks : List (Packet ι)}
    (hks : ∀ k ∈ ks, IsEvent k.message) :
    ∀ c', ∀ k ∈ Function.update s.subPipe c ks c', IsEvent k.message := by
  apply (Function.forall_update_iff s.subPipe (fun _ ks => ∀ k ∈ ks, IsEvent k.message)).mpr
  exact ⟨hks, fun c' _ => h.sub c'⟩

variable [DecidableEq Target]

/-- **A step keeps the bus well formed**, if what it publishes is short enough. -/
theorem wellFormed_next {a : Act ι Target} (h : WellFormed s) (hstep : Step s a t)
    (hshort : Short a) : WellFormed t := by
  cases a with
  | call c call =>
      cases hstep
      refine ⟨h.quiet_update c ?_, h.pub, h.sub⟩
      obtain ⟨hpub, hrecv⟩ := EventClient.exec_sockets (s.client c) call
      unfold Quiet
      rw [hpub, hrecv]
      exact h.quiet c
  | publish p type content kept =>
      cases hstep
      obtain ⟨hquiet, hnew⟩ := publish_eq h p type content
      obtain ⟨htype, hcontent⟩ := hshort p type content kept rfl
      refine ⟨h.quiet_update p hquiet, h.pub_update p ?_, h.sub⟩
      intro m hm
      rcases List.mem_append.mp hm with hm | hm
      · exact h.pub p m hm
      · rw [hnew] at hm
        rw [List.mem_singleton.mp (List.mem_filter.mp hm).1]
        exact ⟨htype, content, rfl, hcontent⟩
  | handle c =>
      obtain ⟨revents, ks, hks, ht⟩ := handle_fst h c
      cases (Option.some.inj hstep).symm.trans ht
      exact ⟨h.quiet_update c (h.quiet c), h.pub,
        h.sub_update c fun k hk => h.sub c k (hks.subset hk)⟩
  | proxyEvent p kept =>
      obtain ⟨m, ms, hpipe, rfl⟩ := proxyEvent_cases hstep
      have hpub := h.pub p
      rw [hpipe] at hpub
      refine ⟨h.quiet, h.pub_update p fun m' hm' => hpub m' (List.mem_cons_of_mem m hm'), ?_⟩
      intro c k hk
      rcases List.mem_append.mp hk with hk | hk
      · exact h.sub c k hk
      · have hkm : k = ⟨p, m⟩ := by
          split at hk
          · exact List.mem_singleton.mp hk
          · cases hk
        rw [hkm]
        exact hpub m List.mem_cons_self
  | proxySub => exact h.same (proxySub_same hstep)
  | xpubRead c => exact h.same (xpubRead_same hstep)
  | pubRead p => exact h.same (pubRead_same hstep)

end

/-! ## One publisher and one client -/

/-- The events of one publisher among the messages in a pipe. -/
def eventsFrom (p : ι) (ks : List (Packet ι)) : List (EventType × EventContent) :=
  (ks.filter fun k => k.src = p).map fun k => eventOf k.message

theorem eventsFrom_append (p : ι) (ks ks' : List (Packet ι)) :
    eventsFrom p (ks ++ ks') = eventsFrom p ks ++ eventsFrom p ks' := by
  unfold eventsFrom
  rw [List.filter_append, List.map_append]

theorem eventsFrom_cons (p : ι) (k : Packet ι) (ks : List (Packet ι)) :
    eventsFrom p (k :: ks) =
      (if k.src = p then [eventOf k.message] else []) ++ eventsFrom p ks := by
  unfold eventsFrom
  by_cases hk : k.src = p <;> simp [hk]

/-- The bus between `p` and `c`, with what has been sent and delivered before. -/
def relay (p c : ι) (sent dispatched : List (EventType × EventContent)) (s : Bus ι Target) :
    Relay (EventType × EventContent) where
  sent := sent
  first := (s.pubPipe p).map eventOf
  second := eventsFrom p (s.subPipe c)
  delivered := dispatched

section
variable {s t : Bus ι Target} {p c : ι} {sent dispatched : List (EventType × EventContent)}

theorem relay_same (hpub : t.pubPipe p = s.pubPipe p) (hsub : t.subPipe c = s.subPipe c) :
    relay p c sent dispatched t = relay p c sent dispatched s := by
  unfold relay
  rw [hpub, hsub]

theorem relay_publish (h : WellFormed s) (q : ι) (type : EventType) (content : EventContent)
    (kept : Bool) :
    (relay p c sent dispatched s).Steps
      (relay p c (sent ++ (if q = p then some (type, content) else none).toList) dispatched
        (s.publish q type content kept)) := by
  by_cases hq : q = p
  · subst hq
    obtain ⟨-, hnew⟩ := publish_eq h q type content
    apply Relation.ReflTransGen.single
    have hstep := Relay.Step.send (relay q c sent dispatched s) (type, content)
      (prefixMatch (fun t => t ∈ s.pubTopics q) type && kept)
    have hfirst : ((s.publish q type content kept).pubPipe q).map eventOf =
        (s.pubPipe q).map eventOf ++
          if prefixMatch (fun t => t ∈ s.pubTopics q) type && kept then [(type, content)]
          else [] := by
      show (Function.update s.pubPipe q _ q).map eventOf = _
      rw [Function.update_self, hnew, List.map_append, List.filter_cons]
      split <;> rfl
    unfold relay at hstep ⊢
    rw [if_pos rfl, hfirst]
    exact hstep
  · rw [if_neg hq, Option.toList_none, List.append_nil]
    have hpub : (s.publish q type content kept).pubPipe p = s.pubPipe p :=
      Function.update_of_ne (Ne.symm hq) _ _
    rw [relay_same hpub rfl]

theorem relay_proxyEvent {q : ι} {kept : ι → Bool} (hstep : s.proxyEvent q kept = some t) :
    (relay p c sent dispatched s).Steps (relay p c sent dispatched t) := by
  obtain ⟨m, ms, hpipe, rfl⟩ := proxyEvent_cases hstep
  by_cases hq : q = p
  · subst hq
    apply Relation.ReflTransGen.single
    have hfirst : (relay q c sent dispatched s).first = eventOf m :: ms.map eventOf := by
      show (s.pubPipe q).map eventOf = _
      rw [hpipe, List.map_cons]
    have hforward := Relay.Step.forward
      (prefixMatch (fun t => c ∈ s.xpubTable t) m.first && kept c) hfirst
    have hentered : eventsFrom q (if prefixMatch (fun t => c ∈ s.xpubTable t) m.first && kept c
        then [⟨q, m⟩] else []) = if prefixMatch (fun t => c ∈ s.xpubTable t) m.first && kept c
        then [eventOf m] else [] := by
      split <;> simp [eventsFrom]
    unfold relay at hforward ⊢
    simp only [Function.update_self, eventsFrom_append, hentered]
    exact hforward
  · have hpub : Function.update s.pubPipe q ms p = s.pubPipe p :=
      Function.update_of_ne (Ne.symm hq) _ _
    have hother : eventsFrom p (if prefixMatch (fun t => c ∈ s.xpubTable t) m.first && kept c
        then [⟨q, m⟩] else []) = [] := by
      split <;> simp [eventsFrom, hq]
    unfold relay
    simp only [hpub, eventsFrom_append, hother, List.append_nil]
    exact Relation.ReflTransGen.refl

/-- What the SUB socket throws away is discarded, and the message dispatched is delivered if it is
from `p`. -/
theorem relay_handle (h : WellFormed s) :
    (relay p c sent dispatched s).Steps
      (relay p c sent (dispatched ++ ((s.handle c).2.bind fun d =>
        if d.src = p then some (d.dispatch.title, d.dispatch.content) else none).toList)
        (s.handle c).1) := by
  obtain ⟨skipped, hsplit⟩ : ∃ skipped, s.subPipe c = skipped ++ s.waiting c :=
    ⟨_, List.takeWhile_append_dropWhile.symm⟩
  have hsecond : (relay p c sent dispatched s).second =
      eventsFrom p skipped ++ eventsFrom p (s.waiting c) := by
    rw [← eventsFrom_append, ← hsplit]
    rfl
  cases hwaiting : s.waiting c with
  | nil =>
      rw [hwaiting] at hsecond
      have hdiscard := Relay.steps_discard hsecond
      rw [handle_of_not_waiting hwaiting]
      unfold relay at hdiscard ⊢
      simpa using hdiscard
  | cons k ks =>
      rw [hwaiting, eventsFrom_cons] at hsecond
      rw [handle_of_waiting h hwaiting]
      by_cases hk : k.src = p
      · rw [if_pos hk] at hsecond
        apply Relation.ReflTransGen.tail (Relay.steps_discard hsecond)
        have hdeliver := Relay.Step.deliver (r := { relay p c sent dispatched s with
          second := eventOf k.message :: eventsFrom p ks }) rfl
        unfold relay at hdeliver ⊢
        simpa [hk] using hdeliver
      · rw [if_neg hk, List.nil_append] at hsecond
        have hdiscard := Relay.steps_discard hsecond
        unfold relay at hdiscard ⊢
        simpa [hk] using hdiscard

/-- Steps that carry no event leave the relay as it is. -/
theorem relay_next_same [DecidableEq Target] {a : Act ι Target}
    (hpublished : published p ⟨s, a, t⟩ = none) (hdispatched : dispatchedFrom p c ⟨s, a, t⟩ = none)
    (hpub : t.pubPipe p = s.pubPipe p) (hsub : t.subPipe c = s.subPipe c) :
    (relay p c sent dispatched s).Steps
      (relay p c (sent ++ (published p ⟨s, a, t⟩).toList)
        (dispatched ++ (dispatchedFrom p c ⟨s, a, t⟩).toList) t) := by
  rw [hpublished, hdispatched, Option.toList_none, List.append_nil, List.append_nil,
    relay_same hpub hsub]

/-- **One step of the bus is some steps of the relay** between any publisher and any client. -/
theorem relay_next [DecidableEq Target] {a : Act ι Target} (h : WellFormed s)
    (hstep : Step s a t) :
    (relay p c sent dispatched s).Steps
      (relay p c (sent ++ (published p ⟨s, a, t⟩).toList)
        (dispatched ++ (dispatchedFrom p c ⟨s, a, t⟩).toList) t) := by
  cases a with
  | publish q type content kept =>
      cases hstep
      have hnone : dispatchedFrom p c ⟨s, .publish q type content kept,
          s.publish q type content kept⟩ = none := rfl
      rw [hnone, Option.toList_none, List.append_nil]
      exact relay_publish h q type content kept
  | handle c' =>
      have ht : (s.handle c').1 = t := Option.some.inj hstep
      by_cases hc : c' = c
      · subst hc
        have hnone : published p ⟨s, .handle c', t⟩ = none := rfl
        have hdispatched : dispatchedFrom p c' ⟨s, .handle c', t⟩ = (s.handle c').2.bind fun d =>
            if d.src = p then some (d.dispatch.title, d.dispatch.content) else none := by
          simp [dispatchedFrom, delivered]
        rw [hnone, Option.toList_none, List.append_nil, hdispatched, ← ht]
        exact relay_handle h
      · have hnone : dispatchedFrom p c ⟨s, .handle c', t⟩ = none := by
          simp [dispatchedFrom, delivered, hc]
        obtain ⟨revents, ks, -, hhandle⟩ := handle_fst h c'
        cases ht.symm.trans hhandle
        exact relay_next_same rfl hnone rfl (Function.update_of_ne (Ne.symm hc) _ _)
  | proxyEvent q kept =>
      have hpublished : published p ⟨s, .proxyEvent q kept, t⟩ = none := rfl
      have hdispatched : dispatchedFrom p c ⟨s, .proxyEvent q kept, t⟩ = none := rfl
      rw [hpublished, hdispatched, Option.toList_none, List.append_nil, List.append_nil]
      exact relay_proxyEvent hstep
  | call c' call =>
      cases hstep
      exact relay_next_same rfl rfl rfl rfl
  | proxySub =>
      have hsame := proxySub_same hstep
      exact relay_next_same rfl rfl (congrFun hsame.pubPipe p) (congrFun hsame.subPipe c)
  | xpubRead c' =>
      have hsame := xpubRead_same hstep
      exact relay_next_same rfl rfl (congrFun hsame.pubPipe p) (congrFun hsame.subPipe c)
  | pubRead q =>
      have hsame := pubRead_same hstep
      exact relay_next_same rfl rfl (congrFun hsame.pubPipe p) (congrFun hsame.subPipe c)

end

/-! ## The observers of a client -/

section
variable [DecidableEq Target] {s t : Bus ι Target}

omit [DecidableEq Target] in
/-- What a new client shares with the one it replaces is the same for every client. -/
theorem update_client {β : Type} (f : EventClient Target → β) {q c : ι} {cl : EventClient Target}
    (hcl : f cl = f (s.client q)) : f (Function.update s.client q cl c) = f (s.client c) := by
  by_cases hc : c = q
  · rw [hc, Function.update_self, hcl]
  · rw [Function.update_of_ne hc]

/-- Only a registration changes an observer map. -/
theorem eventObjectMap_next {a : Act ι Target} (h : WellFormed s) (hstep : Step s a t) {c : ι}
    (hop : operation c ⟨s, a, t⟩ = none) :
    (t.client c).eventObjectMap = (s.client c).eventObjectMap := by
  cases a with
  | call c' call =>
      cases hstep
      have hc : c ≠ c' := by
        intro hc
        simp [operation, hc] at hop
      show (Function.update s.client c' ((s.client c').exec call) c).eventObjectMap = _
      rw [Function.update_of_ne hc]
  | publish q type content kept =>
      cases hstep
      exact update_client EventClient.eventObjectMap rfl
  | handle c' =>
      obtain ⟨revents, ks, -, ht⟩ := handle_fst h c'
      cases (Option.some.inj hstep).symm.trans ht
      exact update_client EventClient.eventObjectMap rfl
  | proxyEvent q kept =>
      obtain ⟨m, ms, -, rfl⟩ := proxyEvent_cases hstep
      rfl
  | proxySub => exact ((proxySub_same hstep).client c).1
  | xpubRead c' => exact ((xpubRead_same hstep).client c).1
  | pubRead q => exact ((pubRead_same hstep).client c).1

theorem represents_next {a : Act ι Target} (h : WellFormed s) (hstep : Step s a t) {c : ι}
    {reg : List (EventType × Target)} (hreg : Registry.Represents (s.client c).eventObjectMap reg) :
    Registry.Represents (t.client c).eventObjectMap
      ((operation c ⟨s, a, t⟩).toList.foldl Registry.step reg) := by
  cases hop : operation c ⟨s, a, t⟩ with
  | none =>
      rw [eventObjectMap_next h hstep hop]
      exact hreg
  | some op =>
      cases a with
      | call c' call =>
          cases hstep
          by_cases hc : c' = c
          · subst hc
            have hcall : call.op = op := by simpa [operation] using hop
            rw [← hcall]
            show Registry.Represents
              (Function.update s.client c' ((s.client c').exec call) c').eventObjectMap _
            rw [Function.update_self]
            exact EventClient.represents_exec hreg call
          · simp [operation, hc] at hop
      | _ => cases hop

end

/-! ## Runs -/

section
variable [DecidableEq Target] {s t : Bus ι Target} {tr : List (Taken (Bus ι Target) (Act ι Target))}

theorem filterMap_cons_toList {α β : Type*} (f : α → Option β) (x : α) (xs : List α) :
    (x :: xs).filterMap f = (f x).toList ++ xs.filterMap f := by
  cases hf : f x <;> simp [hf]

theorem relay_run (h : Run Step s tr t) (hs : WellFormed s) (hshort : ∀ x ∈ tr, Short x.label)
    (p c : ι) (sent dispatched : List (EventType × EventContent)) :
    (relay p c sent dispatched s).Steps
      (relay p c (sent ++ tr.filterMap (published p))
        (dispatched ++ tr.filterMap (dispatchedFrom p c)) t) := by
  induction h generalizing sent dispatched with
  | nil =>
      rw [List.filterMap_nil, List.filterMap_nil, List.append_nil, List.append_nil]
  | @cons s a u tr t hstep _ ih =>
      obtain ⟨hhead, htail⟩ := List.forall_mem_cons.mp hshort
      rw [filterMap_cons_toList, filterMap_cons_toList, ← List.append_assoc, ← List.append_assoc]
      apply (relay_next hs hstep).trans
      exact ih (wellFormed_next hs hstep hhead) htail _ _

theorem represents_busRun (h : Run Step s tr t) (hs : WellFormed s)
    (hshort : ∀ x ∈ tr, Short x.label) {c : ι} {reg : List (EventType × Target)}
    (hreg : Registry.Represents (s.client c).eventObjectMap reg) :
    Registry.Represents (t.client c).eventObjectMap
      ((tr.filterMap (operation c)).foldl Registry.step reg) := by
  induction h generalizing reg with
  | nil => exact hreg
  | @cons s a u tr t hstep _ ih =>
      obtain ⟨hhead, htail⟩ := List.forall_mem_cons.mp hshort
      rw [filterMap_cons_toList, List.foldl_append]
      exact ih (wellFormed_next hs hstep hhead) htail (represents_next hs hstep hreg)

theorem wellFormed_run (h : Run Step s tr t) (hs : WellFormed s)
    (hshort : ∀ x ∈ tr, Short x.label) : WellFormed t :=
  ((h.restrict (P := fun x => Short x.label) hshort).invariant (I := WellFormed)
    (fun _ _ _ hstep hs => wellFormed_next hs hstep.1 hstep.2) hs).2

omit [DecidableEq Target] in
/-- What is delivered is dispatched to the observers of its title. -/
theorem calls_of_delivered {x : Taken (Bus ι Target) (Act ι Target)} (h : WellFormed x.pre) {c : ι}
    {reg : List (EventType × Target)}
    (hreg : Registry.Represents (x.pre.client c).eventObjectMap reg) {d : Delivery ι Target}
    (hd : delivered c x = some d) :
    d.dispatch.calls = Registry.owed reg d.dispatch.title d.dispatch.content := by
  obtain ⟨s, a, t⟩ := x
  cases a with
  | handle c' =>
      by_cases hc : c' = c
      · subst hc
        have hhandle : (s.handle c').2 = some d := by simpa [delivered] using hd
        cases hwaiting : s.waiting c' with
        | nil =>
            rw [handle_of_not_waiting hwaiting] at hhandle
            cases hhandle
        | cons k ks =>
            rw [handle_of_waiting h hwaiting] at hhandle
            cases hhandle
            exact EventClient.dispatchTitle_eq hreg _ _
      · simp [delivered, hc] at hd
  | _ => cases hd

/-- **Safety of the whole bus**, over every interleaving and whatever messages are lost: what a
client dispatches of a publisher's events is a subsequence of what that publisher has published, and
each event dispatched is given once to each observer registered at the client under exactly its
title at that moment, and to nobody else. -/
theorem dispatched_in_order_exactly_once (h : Run Step (initial : Bus ι Target) tr s)
    (hshort : ∀ x ∈ tr, Short x.label) :
    (∀ p c, (tr.filterMap (dispatchedFrom p c)).Sublist (tr.filterMap (published p))) ∧
    ∀ tr₁ x tr₂, tr = tr₁ ++ x :: tr₂ → ∀ c d, delivered c x = some d →
      d.dispatch.calls.Nodup ∧ ∀ call : Call Target, call ∈ d.dispatch.calls ↔
        (d.dispatch.title, call.target) ∈
            Registry.registrations (tr₁.filterMap (operation c)) ∧
          call.type = d.dispatch.title ∧ call.content = d.dispatch.content := by
  constructor
  · intro p c
    have hempty : (relay p c [] [] (initial : Bus ι Target)).InOrder := List.Sublist.refl []
    have hrun := relay_run h wellFormed_initial hshort p c [] []
    exact (hrun.inOrder hempty).sublist
  · intro tr₁ x tr₂ htr c d hd
    subst htr
    have hbefore := h.split.1
    have hshort₁ : ∀ y ∈ tr₁, Short y.label :=
      fun y hy => hshort y (List.mem_append_left _ hy)
    have hreg : Registry.Represents (x.pre.client c).eventObjectMap
        (Registry.registrations (tr₁.filterMap (operation c))) :=
      represents_busRun hbefore wellFormed_initial hshort₁ Registry.represents_empty
    rw [calls_of_delivered (wellFormed_run hbefore wellFormed_initial hshort₁) hreg hd]
    exact ⟨Registry.owed_nodup hreg.nodup _ _, fun call => Registry.mem_owed⟩

end

/-- A run in which the event of one client reaches the observer of another. -/
theorem dispatched_in_order_exactly_once_two_clients :
    ∃ (tr : List (Taken (Bus Bool Nat) (Act Bool Nat))) (s : Bus Bool Nat),
      Run Step initial tr s ∧ (∀ x ∈ tr, Short x.label) ∧
      tr.filterMap (dispatchedFrom true false) = [([1], [2])] ∧
      (∀ p c, (tr.filterMap (dispatchedFrom p c)).Sublist (tr.filterMap (published p))) ∧
      ∀ tr₁ x tr₂, tr = tr₁ ++ x :: tr₂ → ∀ c d, delivered c x = some d →
        d.dispatch.calls.Nodup ∧ ∀ call : Call Nat, call ∈ d.dispatch.calls ↔
          (d.dispatch.title, call.target) ∈
              Registry.registrations (tr₁.filterMap (operation c)) ∧
            call.type = d.dispatch.title ∧ call.content = d.dispatch.content := by
  have hdispatched : (attempt next (initial : Bus Bool Nat)
      [.call false ⟨.register [1] 7, none⟩, .xpubRead false, .proxySub, .pubRead true,
        .publish true [1] [2] true, .proxyEvent true fun _ => true, .handle false]).map
      (fun r => r.1.filterMap (dispatchedFrom true false)) = some [([1], [2])] := rfl
  obtain ⟨⟨tr, s⟩, hattempt, htr⟩ := Option.map_eq_some_iff.mp hdispatched
  obtain ⟨h, hlabels⟩ := run_attempt hattempt
  have hshort : ∀ x ∈ tr, Short x.label := by
    intro x hx
    have hlabel : x.label ∈ tr.map Taken.label := List.mem_map_of_mem hx
    rw [hlabels] at hlabel
    intro p type content kept heq
    rw [heq] at hlabel
    obtain ⟨-, rfl, rfl, -⟩ : p = true ∧ type = [1] ∧ content = [2] ∧ kept = true := by
      simpa using hlabel
    decide
  exact ⟨tr, s, h, hshort, htr, dispatched_in_order_exactly_once h hshort⟩

end Bus
end EventBus
