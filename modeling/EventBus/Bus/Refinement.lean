import EventBus.Bus.Basic
import EventBus.LibZmq.XPub
import EventBus.LibZmq.XSub

/-!
# The tables of the bus in the sockets

The bus speaks of reference counts, of a table of clients and of sets of topics. The sockets have
tries: a `trie_t` in every SUB socket and in XSUB, and an mtrie in XPUB and in every PUB socket.
`Tries` are all of them, with the subscription messages that are on their way from one socket to the
next, and `Tries.next` is what the library does in a step of the bus. Of the bus itself it needs to
know only which `zmq_setsockopt` a client calls.

Every run of the bus is a run of the tries beside it, in which they hold the tables of the bus, pass
on the same messages, and no assertion of the library fails (`tries_run`). What the bus filters by
`prefixMatch` the sockets filter by walking through these tries. As in the bus, the pipes always
have room for subscription messages.
-/

namespace EventBus

open MZmq Transition

/-! ## The socket call a client makes -/

namespace EventClient
variable {Target : Type} [DecidableEq Target]

/-- The `zmq_setsockopt` that a call makes, if it makes one. -/
def sockoptOf (op : ClientOp Target) (c : EventClient Target) : Option (SubOption × EventType) :=
  match op with
  | .register type _ =>
      if c.eventObjectMap.find type = none then some (.ZMQ_SUBSCRIBE, type) else none
  | .unregister type object =>
      (observerEntry type object (c.eventObjectMap.suffix c.eventObjectMap.begin)).bind fun n =>
        if (c.eventObjectMap.erase n.id).find type = none then some (.ZMQ_UNSUBSCRIBE, type)
        else none

theorem exec_subSocket_eq (call : ClientCall Target) (c : EventClient Target) :
    (c.exec call).subSocket = match c.sockoptOf call.op with
      | none => c.subSocket
      | some (option, type) => (zmqSetsockopt call.sockopt option type c.subSocket).2 := by
  obtain ⟨op, o⟩ := call
  cases op with
  | register type object =>
      show (registerObserver o type object c).2.subSocket = _
      unfold registerObserver sockoptOf
      dsimp only
      by_cases hfind : c.eventObjectMap.find type = none
      · rw [if_pos hfind, if_neg (not_not.mpr hfind)]
        split <;> rfl
      · rw [if_neg hfind, if_pos hfind]
        split <;> rfl
  | unregister type object =>
      show (unregisterObserver o type object c).2.subSocket = _
      unfold unregisterObserver sockoptOf
      dsimp only
      cases observerEntry type object (c.eventObjectMap.suffix c.eventObjectMap.begin) with
      | none => rfl
      | some n =>
          rw [Option.bind_some]
          dsimp only
          by_cases hfind : (c.eventObjectMap.erase n.id).find type = none
          · rw [if_pos hfind, if_pos hfind]
            split <;> rfl
          · rw [if_neg hfind, if_neg hfind]

end EventClient

/-! ## All tries of the bus -/

/-- A subscription message, on what a socket knows. -/
def Interest.take {ι : Type} [DecidableEq ι] (o : XPubOptions) (pipe : ι) (s : Interest ι) :
    SubMsg → Interest ι
  | .subscribe topic => s.subscribe o pipe topic
  | .unsubscribe topic => s.unsubscribe o pipe topic

theorem Interest.Step.eq_take {ι : Type} [DecidableEq ι] {o : XPubOptions} {pipe : ι} {msg : SubMsg}
    {s t : Interest ι} (h : Interest.Step o s (.read pipe msg.data) t) : t = s.take o pipe msg := by
  cases msg with
  | subscribe topic =>
      cases h with
      | subscribe => rfl
      | user _ hdata => exact absurd rfl (hdata topic).2
  | unsubscribe topic =>
      cases h with
      | unsubscribe => rfl
      | user _ hdata => exact absurd rfl (hdata topic).1

structure Tries (ι : Type) where
  sub : ι → Trie
  /-- Subscription messages from the SUB sockets to XPUB. -/
  upstream : ι → List Bytes
  xpub : XPub ι
  xsub : Trie
  /-- Subscription messages from XSUB to the PUB sockets. -/
  pubUp : ι → List Bytes
  /-- A PUB socket has one pipe, to XSUB. -/
  pub : ι → XPub Unit

/-- A socket with the options it is created with. -/
def XPubOptions.plain (type : SocketType) : XPubOptions := ⟨type, false, false⟩

namespace Tries
variable {ι Target : Type} [DecidableEq ι] [DecidableEq Target]

def fresh : Tries ι :=
  ⟨fun _ => .empty, fun _ => [], .fresh, .empty, fun _ => [], fun _ => .fresh⟩

/-- What the library does to the tries in a step of the bus. -/
def next (s : Bus ι Target) (i : Tries ι) : Act ι Target → Option (Tries ι)
  | .call c call =>
      match (s.client c).sockoptOf call.op with
      | none => some i
      | some (option, type) =>
          if call.sockopt = none then
            (XSub.xsend (option.msg type).data (i.sub c)).map fun r =>
              { i with
                sub := Function.update i.sub c r.1
                upstream := Function.update i.upstream c (i.upstream c ++ r.2) }
          else some i
  | .xpubRead c => match i.upstream c with
      | [] => none
      | data :: datas =>
          (i.xpub.next (.plain .ZMQ_XPUB) (.read c data)).map fun xpub =>
            { i with xpub, upstream := Function.update i.upstream c datas }
  -- what the proxy receives from XPUB it sends to XSUB, which sends it to all its pipes
  | .proxySub => match i.xpub.pendingData with
      | [] => none
      | data :: _ =>
          (i.xpub.next (.plain .ZMQ_XPUB) .recv).bind fun xpub =>
            (XSub.xsend data i.xsub).map fun r =>
              { i with xpub, xsub := r.1, pubUp := fun p => i.pubUp p ++ r.2 }
  | .pubRead p => match i.pubUp p with
      | [] => none
      | data :: datas =>
          ((i.pub p).next (.plain .ZMQ_PUB) (.read () data)).map fun pub =>
            { i with
              pub := Function.update i.pub p pub, pubUp := Function.update i.pubUp p datas }
  | .publish _ _ _ _ | .handle _ | .proxyEvent _ _ => some i

/-- A step of the bus, and of the tries beside it. -/
def Step (s : Bus ι Target × Tries ι) (a : Act ι Target) (t : Bus ι Target × Tries ι) : Prop :=
  Bus.Step s.1 a t.1 ∧ s.2.next s.1 a = some t.2

/-- The tries hold the tables of the bus, and the same messages are on their way. -/
structure Hold (s : Bus ι Target) (i : Tries ι) : Prop where
  sub : ∀ c, Trie.Sound (i.sub c) ∧ (i.sub c).refs = (s.client c).subSocket.refs ∧
    i.upstream c = (s.client c).subSocket.upstream.map SubMsg.data
  xsub : Trie.Sound i.xsub ∧ i.xsub.refs = s.xsubRefs
  xpub : Mtrie.Sound i.xpub.subscriptions ∧
    i.xpub.interest = ⟨s.xpubTable, s.xpubPending.map SubMsg.data⟩
  pub : ∀ p, Mtrie.Sound (i.pub p).subscriptions ∧
    (∀ topic, () ∈ (i.pub p).interest.table topic ↔ topic ∈ s.pubTopics p) ∧
    i.pubUp p = (s.pubUp p).map SubMsg.data

/-- No reference count is over `n`. -/
structure Counts (n : Nat) (s : Bus ι Target) : Prop where
  sub : ∀ c topic, (s.client c).subSocket.refs topic ≤ n
  xsub : ∀ topic, s.xsubRefs topic ≤ n

omit [DecidableEq Target] in
theorem hold_fresh : Hold (Bus.initial : Bus ι Target) (fresh : Tries ι) where
  sub := fun _ => ⟨Trie.sound_empty, funext Trie.refs_empty, rfl⟩
  xsub := ⟨Trie.sound_empty, funext Trie.refs_empty⟩
  xpub := ⟨Mtrie.sound_empty, XPub.interest_eq (s := ⟨_, []⟩) Mtrie.table_empty⟩
  pub := fun _ => ⟨Mtrie.sound_empty, fun topic => by
    show () ∈ Mtrie.table Mtrie.empty topic ↔ topic ∈ (∅ : Finset EventType)
    simp, rfl⟩

section
variable {s t : Bus ι Target} {i : Tries ι} {n : Nat}

omit [DecidableEq Target] in
/-- A client whose socket has changed, and its trie and its messages with it. -/
private theorem sub_update {trie : Trie} {datas : List Bytes} {cl : EventClient Target}
    (h : Hold s i) (c : ι) (hsound : Trie.Sound trie) (hrefs : trie.refs = cl.subSocket.refs)
    (hdatas : datas = cl.subSocket.upstream.map SubMsg.data) (c' : ι) :
    Trie.Sound (Function.update i.sub c trie c') ∧
      (Function.update i.sub c trie c').refs =
        (Function.update s.client c cl c').subSocket.refs ∧
      Function.update i.upstream c datas c' =
        (Function.update s.client c cl c').subSocket.upstream.map SubMsg.data := by
  by_cases hc : c' = c
  · subst hc
    rw [Function.update_self, Function.update_self, Function.update_self]
    exact ⟨hsound, hrefs, hdatas⟩
  · rw [Function.update_of_ne hc, Function.update_of_ne hc, Function.update_of_ne hc]
    exact h.sub c'

omit [DecidableEq ι] [DecidableEq Target] in
private theorem Counts.same (h : Counts n s)
    (hrefs : ∀ c, (t.client c).subSocket.refs = (s.client c).subSocket.refs)
    (hxsub : t.xsubRefs = s.xsubRefs) : Counts (n + 1) t :=
  ⟨fun c topic => by rw [hrefs]; exact Nat.le_succ_of_le (h.sub c topic),
    fun topic => by rw [hxsub]; exact Nat.le_succ_of_le (h.xsub topic)⟩

theorem hold_call (h : Hold s i) (hcounts : Counts n s) (hlt : n + 1 < 2 ^ 32) (c : ι)
    (call : EventClient.ClientCall Target) :
    let t := { s with client := Function.update s.client c ((s.client c).exec call) }
    ∃ j, next s i (.call c call) = some j ∧ Hold t j ∧ Counts (n + 1) t := by
  intro t
  have hsub := EventClient.exec_subSocket_eq call (s.client c)
  -- the socket of the client after the call, and what belongs to it
  have hclient : ∀ (trie : Trie) (datas : List Bytes), Trie.Sound trie →
      trie.refs = ((s.client c).exec call).subSocket.refs →
      datas = ((s.client c).exec call).subSocket.upstream.map SubMsg.data →
      (∀ topic, trie.refs topic ≤ n + 1) →
      Hold t { i with
        sub := Function.update i.sub c trie, upstream := Function.update i.upstream c datas } ∧
        Counts (n + 1) t := by
    intro trie datas hsound hrefs hdatas hle
    refine ⟨⟨sub_update h c hsound hrefs hdatas, h.xsub, h.xpub, h.pub⟩, fun c' topic => ?_,
      fun topic => Nat.le_succ_of_le (hcounts.xsub topic)⟩
    by_cases hc : c' = c
    · subst hc
      show (Function.update s.client c' _ c').subSocket.refs topic ≤ n + 1
      rw [Function.update_self, ← hrefs]
      exact hle topic
    · show (Function.update s.client c _ c').subSocket.refs topic ≤ n + 1
      rw [Function.update_of_ne hc]
      exact Nat.le_succ_of_le (hcounts.sub c' topic)
  obtain ⟨hsound, hrefs, hdatas⟩ := h.sub c
  have hsame : ((s.client c).exec call).subSocket = (s.client c).subSocket →
      Hold t i ∧ Counts (n + 1) t := by
    intro heq
    have := hclient (i.sub c) (i.upstream c) hsound (by rw [heq, hrefs]) (by rw [heq, hdatas])
      fun topic => by
        rw [hrefs]
        exact Nat.le_succ_of_le (hcounts.sub c topic)
    rwa [Function.update_eq_self, Function.update_eq_self] at this
  cases hsockopt : (s.client c).sockoptOf call.op with
  | none =>
      rw [hsockopt] at hsub
      exact ⟨i, by simp [next, hsockopt], hsame hsub⟩
  | some r =>
      obtain ⟨option, type⟩ := r
      rw [hsockopt] at hsub
      by_cases hok : call.sockopt = none
      · obtain ⟨trie, hsend, htrie, hrefs'⟩ := XSub.xsend_spec hsound (option.msg type) fun topic => by
          rw [hrefs]
          have := hcounts.sub c topic
          omega
        rw [hrefs] at hsend hrefs'
        let passed := (xsubSend (option.msg type) (s.client c).subSocket.refs).2
        have hnext : next s i (.call c call) = some { i with
            sub := Function.update i.sub c trie
            upstream := Function.update i.upstream c
              (i.upstream c ++ passed.map SubMsg.data) } := by
          simp [next, hsockopt, hok, hsend, passed]
        refine ⟨_, hnext, hclient trie _ htrie ?_ ?_ ?_⟩
        · rw [hsub, hrefs', hok]
          rfl
        · rw [hsub, hdatas, hok, ← List.map_append]
          rfl
        · intro topic
          rw [hrefs']
          exact Nat.le_trans (XSub.xsubSend_le _ _ _) (Nat.succ_le_succ (hcounts.sub c topic))
      · obtain ⟨errno, herrno⟩ := Option.ne_none_iff_exists'.mp hok
        refine ⟨i, by simp [next, hsockopt, herrno], hsame ?_⟩
        rw [hsub, herrno]
        rfl

theorem hold_xpubRead (h : Hold s i) (hcounts : Counts n s) {c : ι}
    (hstep : s.xpubRead c = some t) :
    ∃ j, next s i (.xpubRead c : Act ι Target) = some j ∧ Hold t j ∧ Counts (n + 1) t := by
  unfold Bus.xpubRead at hstep
  cases hup : (s.client c).subSocket.upstream with
  | nil =>
      rw [hup] at hstep
      cases hstep
  | cons msg msgs =>
      rw [hup] at hstep
      obtain ⟨hsound, hrefs, hdatas⟩ := h.sub c
      rw [hup, List.map_cons] at hdatas
      obtain ⟨xpub, hnext, hxpub, hinterest⟩ := XPub.next_spec (.plain .ZMQ_XPUB) h.xpub.1
        (.read c msg.data)
      have hinterest := hinterest.eq_take
      rw [h.xpub.2] at hinterest
      let datas := msgs.map SubMsg.data
      refine ⟨{ i with xpub, upstream := Function.update i.upstream c datas },
        by simp [next, hdatas, hnext, datas], ?_⟩
      let client : EventClient Target :=
        { s.client c with subSocket := { (s.client c).subSocket with upstream := msgs } }
      have hsub : ∀ c', Trie.Sound (i.sub c') ∧
          (i.sub c').refs = (Function.update s.client c client c').subSocket.refs ∧
          Function.update i.upstream c datas c' =
            (Function.update s.client c client c').subSocket.upstream.map SubMsg.data := by
        intro c'
        have hrefs : (i.sub c).refs = client.subSocket.refs := hrefs
        have hdatas : datas = client.subSocket.upstream.map SubMsg.data := rfl
        have := sub_update h c hsound hrefs hdatas c'
        rwa [Function.update_eq_self] at this
      have hrefs := fun c' => (hsub c').2.1.symm.trans (h.sub c').2.1
      cases msg with
      | subscribe topic =>
          cases hstep
          refine ⟨⟨hsub, h.xsub, ⟨hxpub, ?_⟩, h.pub⟩, hcounts.same hrefs rfl⟩
          rw [hinterest, Interest.take, Interest.subscribe]
          refine congrArg (Interest.mk _) ?_
          rw [List.map_append]
          refine congrArg (s.xpubPending.map SubMsg.data ++ ·) ?_
          by_cases hnone : s.xpubTable topic = ∅ <;> simp [hnone, XPubOptions.plain, SubMsg.data]
      | unsubscribe topic =>
          cases hstep
          refine ⟨⟨hsub, h.xsub, ⟨hxpub, ?_⟩, h.pub⟩, hcounts.same hrefs rfl⟩
          rw [hinterest, Interest.take, Interest.unsubscribe]
          refine congrArg (Interest.mk _) ?_
          rw [List.map_append]
          refine congrArg (s.xpubPending.map SubMsg.data ++ ·) ?_
          by_cases hmem : c ∈ s.xpubTable topic
          · by_cases hleft : (s.xpubTable topic).erase c = ∅ <;>
              simp [-Finset.card_erase_of_mem, hmem, hleft, XPubOptions.plain, SubMsg.data]
          · simp [hmem, XPubOptions.plain, SubMsg.data]

/-- The proxy takes the message out of XPUB and gives it to XSUB. -/
theorem hold_proxySub (h : Hold s i) (hcounts : Counts n s) (hlt : n + 1 < 2 ^ 32)
    (hstep : s.proxySub = some t) :
    ∃ j, next s i (.proxySub : Act ι Target) = some j ∧ Hold t j ∧ Counts (n + 1) t := by
  unfold Bus.proxySub at hstep
  cases hpending : s.xpubPending with
  | nil =>
      rw [hpending] at hstep
      cases hstep
  | cons msg msgs =>
      rw [hpending] at hstep
      cases hstep
      obtain ⟨htable, hdata⟩ := Interest.mk.inj h.xpub.2
      rw [hpending, List.map_cons] at hdata
      obtain ⟨hsound, hrefs⟩ := h.xsub
      obtain ⟨trie, hsend, htrie, hrefs'⟩ := XSub.xsend_spec hsound msg fun topic => by
        rw [hrefs]
        have := hcounts.xsub topic
        omega
      rw [hrefs] at hsend hrefs'
      let passed := (xsubSend msg s.xsubRefs).2
      refine ⟨{ i with
          xpub := { i.xpub with pendingData := msgs.map SubMsg.data }
          xsub := trie
          pubUp := fun p => i.pubUp p ++ passed.map SubMsg.data },
        by simp [next, hdata, XPub.next, XPub.xrecv, XPubOptions.plain, hsend, passed],
        ⟨h.sub, ⟨htrie, hrefs'⟩, ⟨h.xpub.1, ?_⟩, fun p => ?_⟩,
        fun c topic => Nat.le_succ_of_le (hcounts.sub c topic), fun topic => ?_⟩
      · show Interest.mk (Mtrie.table i.xpub.subscriptions) _ = _
        rw [htable]
      · obtain ⟨hpub, htopics, hup⟩ := h.pub p
        refine ⟨hpub, htopics, ?_⟩
        rw [List.map_append, ← hup]
      · exact Nat.le_trans (XSub.xsubSend_le _ _ _) (Nat.succ_le_succ (hcounts.xsub topic))

theorem hold_pubRead (h : Hold s i) (hcounts : Counts n s) {p : ι} (hstep : s.pubRead p = some t) :
    ∃ j, next s i (.pubRead p : Act ι Target) = some j ∧ Hold t j ∧ Counts (n + 1) t := by
  unfold Bus.pubRead at hstep
  cases hup : s.pubUp p with
  | nil =>
      rw [hup] at hstep
      cases hstep
  | cons msg msgs =>
      rw [hup] at hstep
      cases hstep
      obtain ⟨hpub, hbefore, hdatas⟩ := h.pub p
      rw [hup, List.map_cons] at hdatas
      obtain ⟨pub, hnext, hsound, hinterest⟩ := XPub.next_spec (.plain .ZMQ_PUB) hpub
        (.read () msg.data)
      have hinterest := hinterest.eq_take
      refine ⟨{ i with
          pub := Function.update i.pub p pub
          pubUp := Function.update i.pubUp p (msgs.map SubMsg.data) },
        by simp [next, hdatas, hnext], ⟨h.sub, h.xsub, h.xpub, fun p' => ?_⟩,
        hcounts.same (fun _ => rfl) rfl⟩
      dsimp only
      by_cases hp : p' = p
      · subst hp
        simp only [Function.update_self, and_true]
        refine ⟨hsound, fun topic => ?_⟩
        rw [hinterest]
        cases msg with
        | subscribe topic' =>
            by_cases ht : topic = topic' <;>
              simp [Interest.take, Interest.subscribe, ht, hbefore]
        | unsubscribe topic' =>
            by_cases ht : topic = topic' <;>
              simp [Interest.take, Interest.unsubscribe, ht, hbefore]
      · simp only [Function.update_of_ne hp]
        exact h.pub p'

omit [DecidableEq Target] in
/-- A step that has nothing to do with subscriptions. -/
private theorem hold_same (h : Hold s i)
    (hsub : ∀ c, (t.client c).subSocket.refs = (s.client c).subSocket.refs ∧
      (t.client c).subSocket.upstream = (s.client c).subSocket.upstream)
    (hxsub : t.xsubRefs = s.xsubRefs) (htable : t.xpubTable = s.xpubTable)
    (hpending : t.xpubPending = s.xpubPending) (hpub : t.pubTopics = s.pubTopics)
    (hup : t.pubUp = s.pubUp) : Hold t i :=
  ⟨fun c => by rw [(hsub c).1, (hsub c).2]; exact h.sub c, by rw [hxsub]; exact h.xsub,
    by rw [htable, hpending]; exact h.xpub, by rw [hpub, hup]; exact h.pub⟩

omit [DecidableEq ι] [DecidableEq Target] in
private theorem handleEvent_subSocket (poll : EventClient.Poll) (o₁ o₂ : Outcome)
    (c : EventClient Target) :
    (EventClient.handleEvent poll o₁ o₂ c).1.subSocket.refs = c.subSocket.refs ∧
      (EventClient.handleEvent poll o₁ o₂ c).1.subSocket.upstream = c.subSocket.upstream := by
  unfold EventClient.handleEvent
  dsimp only
  split <;> exact ⟨rfl, rfl⟩

omit [DecidableEq Target] in
/-- `handle_event` leaves the subscriptions of a SUB socket alone. -/
private theorem handle_subSocket (s : Bus ι Target) (c c' : ι) :
    ((s.handle c).1.client c').subSocket.refs = (s.client c').subSocket.refs ∧
      ((s.handle c).1.client c').subSocket.upstream = (s.client c').subSocket.upstream := by
  unfold Bus.handle
  split
  all_goals
    dsimp only
    by_cases hc : c' = c
    · subst hc
      rw [Function.update_self]
      exact handleEvent_subSocket _ _ _ _
    · rw [Function.update_of_ne hc]
      exact ⟨rfl, rfl⟩

/-- **One step**: the library does to the tries what the bus does to its tables. -/
theorem hold_next {a : Act ι Target} (h : Hold s i) (hcounts : Counts n s) (hlt : n + 1 < 2 ^ 32)
    (hstep : Bus.Step s a t) : ∃ j, next s i a = some j ∧ Hold t j ∧ Counts (n + 1) t := by
  cases a with
  | call c call =>
      cases hstep
      exact hold_call h hcounts hlt c call
  | publish p type content kept =>
      cases hstep
      have hsub : ∀ c, ((s.publish p type content kept).client c).subSocket =
          (s.client c).subSocket := by
        intro c
        by_cases hc : c = p
        · subst hc
          show (Function.update s.client c _ c).subSocket = _
          rw [Function.update_self]
          rfl
        · show (Function.update s.client p _ c).subSocket = _
          rw [Function.update_of_ne hc]
      exact ⟨i, rfl, hold_same h (fun c => by rw [hsub]; exact ⟨rfl, rfl⟩) rfl rfl rfl rfl rfl,
        hcounts.same (fun c => by rw [hsub]) rfl⟩
  | handle c =>
      cases hstep
      have hsame : (s.handle c).1.xsubRefs = s.xsubRefs ∧ (s.handle c).1.xpubTable = s.xpubTable ∧
          (s.handle c).1.xpubPending = s.xpubPending ∧
          (s.handle c).1.pubTopics = s.pubTopics ∧ (s.handle c).1.pubUp = s.pubUp := by
        unfold Bus.handle
        split <;> exact ⟨rfl, rfl, rfl, rfl, rfl⟩
      obtain ⟨hxsub, htable, hpending, hpub, hup⟩ := hsame
      exact ⟨i, rfl, hold_same h (handle_subSocket s c) hxsub htable hpending hpub hup,
        hcounts.same (fun c' => (handle_subSocket s c c').1) hxsub⟩
  | proxyEvent p kept =>
      have hstep : s.proxyEvent p kept = some t := hstep
      unfold Bus.proxyEvent at hstep
      split at hstep
      · cases hstep
      · cases hstep
        exact ⟨i, rfl, hold_same h (fun _ => ⟨rfl, rfl⟩) rfl rfl rfl rfl rfl,
          hcounts.same (fun _ => rfl) rfl⟩
  | proxySub => exact hold_proxySub h hcounts hlt hstep
  | xpubRead c => exact hold_xpubRead h hcounts hstep
  | pubRead p => exact hold_pubRead h hcounts hstep

end

/-! ## Runs -/

/-- The sockets filter by their tries as the bus filters by its tables, they count the same
references, and the messages they have passed on and that have not been read are the same. -/
structure Decides (s : Bus ι Target) (i : Tries ι) : Prop where
  /-- A PUB socket marks its pipe. -/
  pub : ∀ p title, (i.pub p).marked title =
    some (if prefixMatch (fun topic => topic ∈ s.pubTopics p) title then {()} else ∅)
  /-- XPUB marks the clients a message is for. -/
  xpub : ∀ title, ∃ pipes, i.xpub.marked title = some pipes ∧
    ∀ c, c ∈ pipes ↔ prefixMatch (fun topic => c ∈ s.xpubTable topic) title
  /-- A SUB socket lets a message through. -/
  sub : ∀ c title, (i.sub c).check title =
    some (prefixMatch (fun topic => 0 < (s.client c).subSocket.refs topic) title)
  subRefs : ∀ c, (i.sub c).refs = (s.client c).subSocket.refs
  xsubRefs : i.xsub.refs = s.xsubRefs
  /-- From the SUB sockets to XPUB. -/
  upstream : ∀ c, i.upstream c = (s.client c).subSocket.upstream.map SubMsg.data
  /-- From XPUB to the proxy. -/
  pending : i.xpub.pendingData = s.xpubPending.map SubMsg.data
  /-- From XSUB to the PUB sockets. -/
  pubUp : ∀ p, i.pubUp p = (s.pubUp p).map SubMsg.data

omit [DecidableEq Target] in
theorem Hold.decides {s : Bus ι Target} {i : Tries ι} (h : Hold s i) : Decides s i where
  pub p title := by
    obtain ⟨hsound, htopics, -⟩ := h.pub p
    obtain ⟨pipes, hmarked, hmem⟩ := XPub.marked_spec hsound title
    rw [hmarked]
    refine congrArg some (Finset.ext fun u => ?_)
    rw [hmem]
    simp only [htopics]
    split <;> simp [*]
  xpub title := by
    obtain ⟨pipes, hmarked, hmem⟩ := XPub.marked_spec h.xpub.1 title
    rw [h.xpub.2] at hmem
    exact ⟨pipes, hmarked, hmem⟩
  sub c title := by
    obtain ⟨hsound, hrefs, -⟩ := h.sub c
    rw [Trie.check_eq hsound, hrefs]
    rfl
  subRefs c := (h.sub c).2.1
  xsubRefs := h.xsub.2
  upstream c := (h.sub c).2.2
  pending := congrArg Interest.pending h.xpub.2
  pubUp p := (h.pub p).2.2

variable {u : Bus ι Target} {tr : List (Taken (Bus ι Target) (Act ι Target))}

/-- The step of the bus in a step of both. -/
def onBus (x : Taken (Bus ι Target × Tries ι) (Act ι Target)) :
    Taken (Bus ι Target) (Act ι Target) :=
  ⟨x.pre.1, x.label, x.post.1⟩

/-- **The tries hold the tables of the bus in every run**, as long as there are fewer steps than a
reference count can tell: no assertion of the library fails in any of them, and at every point the
sockets let through, and send where, exactly what the bus does, and have passed on the same
subscription messages. -/
theorem tries_run (h : Run Bus.Step Bus.initial tr u) (hlt : tr.length < 2 ^ 32) :
    ∃ tr' j, Run Step (Bus.initial, fresh) tr' (u, j) ∧ tr'.map onBus = tr ∧
      (∀ x ∈ tr', Decides x.pre.1 x.pre.2) ∧ Decides u j := by
  have hfrom : ∀ (s : Bus ι Target) (i : Tries ι) (n : Nat), Run Bus.Step s tr u → Hold s i →
      Counts n s → n + tr.length < 2 ^ 32 →
      ∃ tr' j, Run Step (s, i) tr' (u, j) ∧ tr'.map onBus = tr ∧
        (∀ x ∈ tr', Decides x.pre.1 x.pre.2) ∧ Decides u j := by
    clear h hlt
    intro s i n h
    induction h generalizing i n with
    | nil => exact fun hhold _ _ => ⟨[], i, .nil, rfl, by simp, hhold.decides⟩
    | @cons s a t tr u hst _ ih =>
        intro hhold hcounts hlt
        rw [List.length_cons] at hlt
        obtain ⟨j, hnext, hhold', hcounts'⟩ := hold_next hhold hcounts (by omega) hst
        obtain ⟨tr', k, hrun, hmap, hdecides, hend⟩ := ih j (n + 1) hhold' hcounts' (by omega)
        refine ⟨⟨(s, i), a, (t, j)⟩ :: tr', k, .cons ⟨hst, hnext⟩ hrun, ?_, ?_, hend⟩
        · rw [List.map_cons, hmap]
          rfl
        · exact List.forall_mem_cons.mpr ⟨hhold.decides, hdecides⟩
  exact hfrom Bus.initial fresh 0 h hold_fresh ⟨fun _ _ => Nat.le_refl 0, fun _ => Nat.le_refl 0⟩
    (by omega)

omit [DecidableEq ι] [DecidableEq Target] in
/-- A run in which one client subscribes, the publisher hears of it, and the client gives it up. -/
theorem tries_run_two_clients :
    ∃ (tr : List (Taken (Bus Bool Nat) (Act Bool Nat))) (u : Bus Bool Nat),
      Run Bus.Step Bus.initial tr u ∧ tr.length = 6 ∧ [1] ∈ u.pubTopics true ∧
      ∃ tr' j, Run Step (Bus.initial, fresh) tr' (u, j) ∧ tr'.map onBus = tr ∧
        (∀ x ∈ tr', Decides x.pre.1 x.pre.2) ∧ Decides u j := by
  have hrun : (attempt Bus.next (Bus.initial : Bus Bool Nat)
      [.call false ⟨.register [1] 7, none⟩, .xpubRead false, .proxySub, .pubRead true,
        .call false ⟨.unregister [1] 7, none⟩, .xpubRead false]).map
      (fun r => (r.1.length, decide ([1] ∈ r.2.pubTopics true))) = some (6, true) := rfl
  obtain ⟨⟨tr, u⟩, hattempt, htr⟩ := Option.map_eq_some_iff.mp hrun
  obtain ⟨hlen, hmem⟩ := Prod.mk.inj htr
  have hlen : tr.length = 6 := hlen
  obtain ⟨h, -⟩ := run_attempt hattempt
  exact ⟨tr, u, h, hlen, of_decide_eq_true hmem, tries_run h (by omega)⟩

end Tries
end EventBus
