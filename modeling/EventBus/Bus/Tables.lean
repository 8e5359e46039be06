import EventBus.Bus.Safety
import EventBus.Client.Subscriptions
import EventBus.Transition.Lag

/-!
# The subscription tables

Whether a client has an observer of a type is known in four places: by its SUB socket, by XPUB, by
XSUB and by every PUB socket. Each is a copy of the one before, and lags behind it by the
subscription messages in between. As long as every `zmq_setsockopt` goes through, no message on the
way is a repetition, so a table is right about a type as soon as no message about it is left.

```
  observers ─ SUB ── upstream ──▶ XPUB ── xpubPending ──▶ XSUB ── pubUp ──▶ PUB
```

XPUB and XSUB only pass on the first subscription and the last unsubscription of all clients. So
once the subscription of a client has got through, nothing about the type is passed on until that
client gives it up, whatever the other clients do.
-/

namespace EventBus

open MZmq Transition

/-! ## Subscription messages -/

namespace SubMsg

def topic : SubMsg → EventType
  | .subscribe topic => topic
  | .unsubscribe topic => topic

/-- Does the message subscribe? -/
def on : SubMsg → Bool
  | .subscribe _ => true
  | .unsubscribe _ => false

end SubMsg

/-- What the messages say about one topic. -/
def changesOf (t : EventType) (msgs : List SubMsg) : List Bool :=
  (msgs.filter fun msg => msg.topic = t).map SubMsg.on

theorem changesOf_cons (t : EventType) (msg : SubMsg) (msgs : List SubMsg) :
    changesOf t (msg :: msgs) =
      if msg.topic = t then msg.on :: changesOf t msgs else changesOf t msgs := by
  by_cases ht : msg.topic = t <;> simp [changesOf, ht]

theorem changesOf_concat (t : EventType) (msg : SubMsg) (msgs : List SubMsg) :
    changesOf t (msgs ++ [msg]) =
      if msg.topic = t then changesOf t msgs ++ [msg.on] else changesOf t msgs := by
  by_cases ht : msg.topic = t <;> simp [changesOf, ht]

theorem changesOf_eq_nil {t : EventType} {msgs : List SubMsg} :
    changesOf t msgs = [] ↔ ∀ msg ∈ msgs, msg.topic ≠ t := by
  simp [changesOf]

/-- The next message about a topic is news to its reader. -/
theorem on_ne_copy {msg : SubMsg} {msgs : List SubMsg} {copy source : Bool}
    (h : (Lag.mk copy (changesOf msg.topic (msg :: msgs)) source).Faithful) : msg.on ≠ copy := by
  have hqueue : changesOf msg.topic (msg :: msgs) = msg.on :: changesOf msg.topic msgs := by
    rw [changesOf_cons, if_pos rfl]
  exact h.ne_copy hqueue

/-- The reader takes a message over. -/
theorem steps_take {t : EventType} {msg : SubMsg} {msgs : List SubMsg} {copy copy' source : Bool}
    (hcopy : copy' = if msg.topic = t then msg.on else copy) :
    Lag.Steps ⟨copy, changesOf t (msg :: msgs), source⟩ ⟨copy', changesOf t msgs, source⟩ := by
  rw [hcopy, changesOf_cons]
  by_cases ht : msg.topic = t
  · rw [if_pos ht, if_pos ht]
    apply Relation.ReflGen.single
    exact Lag.Step.take (l := ⟨copy, msg.on :: changesOf t msgs, source⟩) rfl
  · rw [if_neg ht, if_neg ht]

/-- The writer sends a message that is news. -/
theorem steps_change {t : EventType} {msg : SubMsg} {msgs : List SubMsg}
    {copy source source' : Bool} (hnews : msg.topic = t → msg.on ≠ source)
    (hsource : source' = if msg.topic = t then msg.on else source) :
    Lag.Steps ⟨copy, changesOf t msgs, source⟩ ⟨copy, changesOf t (msgs ++ [msg]), source'⟩ := by
  rw [hsource, changesOf_concat]
  by_cases ht : msg.topic = t
  · rw [if_pos ht, if_pos ht]
    apply Relation.ReflGen.single
    exact Lag.Step.change ⟨copy, changesOf t msgs, source⟩ (hnews ht)
  · rw [if_neg ht, if_neg ht]

/-- A socket that counts at most one reference passes on every message that is news, and nothing
else changes than that count. -/
theorem xsubSend_of_ne {msg : SubMsg} {refs : EventType → Nat} (hle : refs msg.topic ≤ 1)
    (hne : msg.on ≠ decide (0 < refs msg.topic)) :
    xsubSend msg refs = (Function.update refs msg.topic msg.on.toNat, [msg]) := by
  cases msg with
  | subscribe topic =>
      have hzero : refs topic = 0 := by
        apply Nat.eq_zero_of_not_pos
        intro hpos
        exact hne (decide_eq_true hpos).symm
      simp [xsubSend, SubMsg.on, SubMsg.topic, hzero]
  | unsubscribe topic =>
      have hone : refs topic = 1 := by
        apply Nat.le_antisymm hle
        by_contra hzero
        exact hne (decide_eq_false hzero).symm
      simp [xsubSend, SubMsg.on, SubMsg.topic, hone]

theorem decide_update_refs (refs : EventType → Nat) (msg : SubMsg) (t : EventType) :
    decide (0 < Function.update refs msg.topic msg.on.toNat t) =
      if msg.topic = t then msg.on else decide (0 < refs t) := by
  by_cases ht : msg.topic = t
  · rw [if_pos ht, ← ht, Function.update_self]
    cases msg.on <;> rfl
  · rw [if_neg ht, Function.update_of_ne (Ne.symm ht)]

namespace EventClient
variable {Target : Type} [DecidableEq Target]

/-- A call leaves the SUB socket alone, or sends one message that is news upstream. -/
theorem exec_subSocket {c : EventClient Target} {reg : List (EventType × Target)}
    (h : InStep c reg) (op : ClientOp Target) :
    (c.exec ⟨op, none⟩).subSocket = c.subSocket ∨
      ∃ msg : SubMsg, msg.on ≠ decide (0 < c.subSocket.refs msg.topic) ∧
        (c.exec ⟨op, none⟩).subSocket = { c.subSocket with
          refs := Function.update c.subSocket.refs msg.topic msg.on.toNat
          upstream := c.subSocket.upstream ++ [msg] } := by
  -- one socket call with news
  have hnews : ∀ (option : SubOption) (type : EventType),
      (option.msg type).on ≠ decide (0 < c.subSocket.refs (option.msg type).topic) →
        (zmqSetsockopt none option type c.subSocket).2 = { c.subSocket with
          refs := Function.update c.subSocket.refs (option.msg type).topic (option.msg type).on.toNat
          upstream := c.subSocket.upstream ++ [option.msg type] } := by
    intro option type hne
    unfold zmqSetsockopt
    rw [xsubSend_of_ne (h.refs_le _) hne]
  cases op with
  | register type object =>
      show (registerObserver none type object c).2.subSocket = _ ∨ ∃ msg : SubMsg, _ ∧
        (registerObserver none type object c).2.subSocket = _
      by_cases hmem : (type, object) ∈ reg
      · rw [registerObserver_again h.represents hmem]
        exact Or.inl rfl
      · by_cases hobs : Registry.observers reg type = []
        · rw [registerObserver_first h.represents hobs]
          have hzero : c.subSocket.refs type = 0 := by rw [h.refs type, if_pos hobs]
          have hne : (SubMsg.subscribe type).on ≠ decide (0 < c.subSocket.refs type) := by
            simp [SubMsg.on, hzero]
          exact Or.inr ⟨.subscribe type, hne, hnews .ZMQ_SUBSCRIBE type hne⟩
        · rw [registerObserver_further h.represents hmem hobs]
          exact Or.inl rfl
  | unregister type object =>
      show (unregisterObserver none type object c).2.subSocket = _ ∨ ∃ msg : SubMsg, _ ∧
        (unregisterObserver none type object c).2.subSocket = _
      by_cases hmem : (type, object) ∈ reg
      · obtain ⟨n, -, -, -, hcall⟩ := unregisterObserver_present h.represents hmem
        rw [hcall]
        by_cases hlast : Registry.observers (reg.erase (type, object)) type = []
        · rw [if_pos hlast]
          have hone : c.subSocket.refs type = 1 := by
            rw [h.refs type, if_neg (List.ne_nil_of_mem (Registry.mem_observers.mpr hmem))]
          have hne : (SubMsg.unsubscribe type).on ≠ decide (0 < c.subSocket.refs type) := by
            simp [SubMsg.on, hone]
          exact Or.inr ⟨.unsubscribe type, hne, hnews .ZMQ_UNSUBSCRIBE type hne⟩
        · rw [if_neg hlast]
          exact Or.inl rfl
      · rw [unregisterObserver_absent h.represents hmem]
        exact Or.inl rfl

end EventClient

namespace Bus
variable {ι Target : Type} [DecidableEq ι]

/-! ## The three copies -/

/-- XPUB's table of one client, as a copy of what the SUB socket has references to. -/
def subLag (c : ι) (t : EventType) (s : Bus ι Target) : Lag Bool where
  copy := decide (c ∈ s.xpubTable t)
  queue := changesOf t (s.client c).subSocket.upstream
  source := decide (0 < (s.client c).subSocket.refs t)

/-- XSUB's references, as a copy of what XPUB has any client under. -/
def xpubLag (t : EventType) (s : Bus ι Target) : Lag Bool where
  copy := decide (0 < s.xsubRefs t)
  queue := changesOf t s.xpubPending
  source := decide (s.xpubTable t).Nonempty

/-- The topics of one PUB socket, as a copy of what XSUB has references to. -/
def pubLag (p : ι) (t : EventType) (s : Bus ι Target) : Lag Bool where
  copy := decide (t ∈ s.pubTopics p)
  queue := changesOf t (s.pubUp p)
  source := decide (0 < s.xsubRefs t)

structure Tables (s : Bus ι Target) : Prop where
  inStep : ∀ c, ∃ reg, EventClient.InStep (s.client c) reg
  xsubRefs : ∀ t, s.xsubRefs t ≤ 1
  sub : ∀ c t, (subLag c t s).Faithful
  xpub : ∀ t, (xpubLag t s).Faithful
  pub : ∀ p t, (pubLag p t s).Faithful

omit [DecidableEq ι] in
theorem faithful_nil (b : Bool) : (Lag.mk b [] b).Faithful :=
  ⟨List.isChain_singleton b, rfl⟩

theorem tables_initial : Tables (initial : Bus ι Target) where
  inStep := fun _ => ⟨[], Registry.represents_empty, fun _ => rfl⟩
  xsubRefs := fun _ => Nat.zero_le 1
  sub := fun _ _ => faithful_nil false
  xpub := fun _ => faithful_nil false
  pub := fun _ _ => faithful_nil false

/-- No message is lost in the step, and its `zmq_setsockopt` goes through. -/
def Lossless : Act ι Target → Prop
  | .call _ call => call.sockopt = none
  | .publish _ _ _ kept => kept = true
  | .proxyEvent _ kept => ∀ c, kept c = true
  | _ => True

/-! ## One step -/

/-- What a step of the bus does to each copy. -/
structure LagSteps (s t : Bus ι Target) : Prop where
  sub : ∀ c topic, Lag.Steps (subLag c topic s) (subLag c topic t)
  xpub : ∀ topic, Lag.Steps (xpubLag topic s) (xpubLag topic t)
  pub : ∀ p topic, Lag.Steps (pubLag p topic s) (pubLag p topic t)

section
variable {s t : Bus ι Target}

/-- XPUB enters or removes the client. It passes the message on if the topic has become or ceased to
be one that some client wants, and not otherwise. -/
theorem xpubRead_cases (h : Tables s) {c : ι} (hstep : s.xpubRead c = some t) :
    ∃ msg msgs left passed, (s.client c).subSocket.upstream = msg :: msgs ∧
      t = { s with
        client := Function.update s.client c
          { s.client c with subSocket := { (s.client c).subSocket with upstream := msgs } }
        xpubTable := Function.update s.xpubTable msg.topic left
        xpubPending := s.xpubPending ++ passed } ∧
      (∀ c', c' ∈ left ↔ if c' = c then msg.on = true else c' ∈ s.xpubTable msg.topic) ∧
      (passed = [] ∧ (left.Nonempty ↔ (s.xpubTable msg.topic).Nonempty) ∨
        passed = [msg] ∧ (left.Nonempty ↔ msg.on = true) ∧
          ((s.xpubTable msg.topic).Nonempty ↔ msg.on = false)) := by
  unfold xpubRead at hstep
  cases hup : (s.client c).subSocket.upstream with
  | nil =>
      rw [hup] at hstep
      cases hstep
  | cons msg msgs =>
      rw [hup] at hstep
      have hnews : msg.on ≠ decide (c ∈ s.xpubTable msg.topic) := by
        have hfaithful := h.sub c msg.topic
        unfold subLag at hfaithful
        rw [hup] at hfaithful
        exact on_ne_copy hfaithful
      cases msg with
      | subscribe topic =>
          cases hstep
          refine ⟨_, msgs, insert c (s.xpubTable topic), _, rfl, rfl, ?_, ?_⟩
          · intro c'
            by_cases hc : c' = c <;> simp [hc, SubMsg.on, SubMsg.topic]
          · by_cases hnone : s.xpubTable topic = ∅
            · right
              simp [hnone, SubMsg.on, SubMsg.topic]
            · left
              simp [hnone, SubMsg.topic, Finset.nonempty_iff_ne_empty]
      | unsubscribe topic =>
          cases hstep
          -- a client unsubscribes only from what XPUB has it under
          have hmem : c ∈ s.xpubTable topic := by
            by_contra hno
            exact hnews (decide_eq_false hno).symm
          have hsome : (s.xpubTable topic).Nonempty := ⟨c, hmem⟩
          refine ⟨_, msgs, (s.xpubTable topic).erase c, _, rfl, rfl, ?_, ?_⟩
          · intro c'
            by_cases hc : c' = c <;> simp [hc, SubMsg.on, SubMsg.topic]
          · by_cases hnone : (s.xpubTable topic).erase c = ∅
            · right
              simp [hnone, hsome, SubMsg.on, SubMsg.topic]
            · left
              have hleft : ((s.xpubTable topic).erase c).Nonempty :=
                Finset.nonempty_iff_ne_empty.mpr hnone
              simp only [SubMsg.topic, Finset.card_eq_zero, hmem, hnone, not_true_eq_false,
                or_self, if_false, hleft, hsome, true_and]

theorem proxySub_cases (h : Tables s) (hstep : s.proxySub = some t) :
    ∃ msg msgs, s.xpubPending = msg :: msgs ∧
      msg.on ≠ decide (0 < s.xsubRefs msg.topic) ∧
      t = { s with
        xpubPending := msgs
        xsubRefs := Function.update s.xsubRefs msg.topic msg.on.toNat
        pubUp := fun p => s.pubUp p ++ [msg] } := by
  unfold proxySub at hstep
  cases hpending : s.xpubPending with
  | nil =>
      rw [hpending] at hstep
      cases hstep
  | cons msg msgs =>
      rw [hpending] at hstep
      have hne : msg.on ≠ decide (0 < s.xsubRefs msg.topic) := by
        have hfaithful := h.xpub msg.topic
        unfold xpubLag at hfaithful
        rw [hpending] at hfaithful
        exact on_ne_copy hfaithful
      cases hstep
      refine ⟨msg, msgs, rfl, hne, ?_⟩
      rw [xsubSend_of_ne (h.xsubRefs msg.topic) hne]

theorem pubRead_cases {p : ι} (hstep : s.pubRead p = some t) :
    ∃ msg msgs topics, s.pubUp p = msg :: msgs ∧
      t = { s with
        pubUp := Function.update s.pubUp p msgs
        pubTopics := Function.update s.pubTopics p topics } ∧
      ∀ topic, topic ∈ topics ↔
        if msg.topic = topic then msg.on = true else topic ∈ s.pubTopics p := by
  unfold pubRead at hstep
  cases hup : s.pubUp p with
  | nil =>
      rw [hup] at hstep
      cases hstep
  | cons msg msgs =>
      rw [hup] at hstep
      cases hstep
      refine ⟨msg, msgs, _, rfl, rfl, ?_⟩
      intro topic
      cases msg with
      | subscribe topic' => grind [SubMsg.on, SubMsg.topic]
      | unsubscribe topic' => grind [SubMsg.on, SubMsg.topic]

theorem lagSteps_xpubRead (h : Tables s) {c : ι} (hstep : s.xpubRead c = some t) :
    LagSteps s t := by
  obtain ⟨msg, msgs, left, passed, hup, rfl, hleft, hpassed⟩ := xpubRead_cases h hstep
  refine ⟨fun c' topic => ?_, fun topic => ?_, fun _ _ => Relation.ReflGen.refl⟩
  · have htable : c' ∈ Function.update s.xpubTable msg.topic left topic ↔
        if c' = c ∧ msg.topic = topic then msg.on = true else c' ∈ s.xpubTable topic := by
      by_cases ht : topic = msg.topic
      · rw [ht, Function.update_self, hleft]
        simp
      · rw [Function.update_of_ne ht, if_neg]
        exact fun hct => ht hct.2.symm
    by_cases hc : c' = c
    · subst hc
      unfold subLag
      simp only [Function.update_self, hup]
      apply steps_take
      simp only [htable, true_and]
      split <;> simp
    · unfold subLag
      simp only [htable, hc, false_and, if_false, Function.update_of_ne hc]
      exact Relation.ReflGen.refl
  · unfold xpubLag
    by_cases ht : msg.topic = topic
    · subst ht
      simp only [Function.update_self]
      obtain ⟨rfl, hsame⟩ | ⟨rfl, hafter, hbefore⟩ := hpassed
      · rw [List.append_nil, decide_eq_decide.mpr hsame]
      · apply steps_change
        · intro _ hon
          grind
        · simp [hafter]
    · simp only [Function.update_of_ne (Ne.symm ht)]
      obtain ⟨rfl, -⟩ | ⟨rfl, -⟩ := hpassed
      · rw [List.append_nil]
      · apply steps_change
        · exact fun heq => absurd heq ht
        · rw [if_neg ht]

theorem lagSteps_proxySub (h : Tables s) (hstep : s.proxySub = some t) : LagSteps s t := by
  obtain ⟨msg, msgs, hpending, hne, rfl⟩ := proxySub_cases h hstep
  refine ⟨fun _ _ => Relation.ReflGen.refl, fun topic => ?_, fun p topic => ?_⟩
  · unfold xpubLag
    rw [hpending]
    exact steps_take (decide_update_refs s.xsubRefs msg topic)
  · apply steps_change
    · rintro rfl
      exact hne
    · exact decide_update_refs s.xsubRefs msg topic

theorem lagSteps_pubRead {p : ι} (hstep : s.pubRead p = some t) : LagSteps s t := by
  obtain ⟨msg, msgs, topics, hup, rfl, htopics⟩ := pubRead_cases hstep
  refine ⟨fun _ _ => Relation.ReflGen.refl, fun _ => Relation.ReflGen.refl, fun p' topic => ?_⟩
  unfold pubLag
  by_cases hp : p' = p
  · subst hp
    simp only [Function.update_self, hup]
    apply steps_take
    simp only [htopics]
    split <;> simp
  · simp only [Function.update_of_ne hp]
    exact Relation.ReflGen.refl

theorem lagSteps_call [DecidableEq Target] (h : Tables s) (c : ι)
    (op : EventClient.ClientOp Target) :
    LagSteps s { s with client := Function.update s.client c ((s.client c).exec ⟨op, none⟩) } := by
  refine ⟨fun c' topic => ?_, fun _ => Relation.ReflGen.refl, fun _ _ => Relation.ReflGen.refl⟩
  unfold subLag
  by_cases hc : c' = c
  · subst hc
    obtain ⟨reg, hreg⟩ := h.inStep c'
    simp only [Function.update_self]
    obtain hsame | ⟨msg, hne, hsub⟩ := EventClient.exec_subSocket hreg op
    · rw [hsame]
    · rw [hsub]
      apply steps_change
      · rintro rfl
        exact hne
      · exact decide_update_refs _ msg topic
  · simp only [Function.update_of_ne hc]
    exact Relation.ReflGen.refl

/-- Nothing that has to do with subscriptions differs. -/
structure SameTables (s t : Bus ι Target) : Prop where
  client : ∀ c, (t.client c).eventObjectMap = (s.client c).eventObjectMap ∧
    (t.client c).subSocket = (s.client c).subSocket
  xpubTable : t.xpubTable = s.xpubTable
  xpubPending : t.xpubPending = s.xpubPending
  xsubRefs : t.xsubRefs = s.xsubRefs
  pubUp : t.pubUp = s.pubUp
  pubTopics : t.pubTopics = s.pubTopics

theorem sameTables_publish (s : Bus ι Target) (p : ι) (type : EventType) (content : EventContent)
    (kept : Bool) : SameTables s (s.publish p type content kept) :=
  ⟨fun _ => ⟨update_client EventClient.eventObjectMap rfl, update_client EventClient.subSocket rfl⟩,
    rfl, rfl, rfl, rfl, rfl⟩

theorem sameTables_handle (hwf : WellFormed s) (c : ι) : SameTables s (s.handle c).1 := by
  obtain ⟨revents, ks, -, hhandle⟩ := handle_fst hwf c
  rw [hhandle]
  exact ⟨fun _ => ⟨update_client EventClient.eventObjectMap rfl,
    update_client EventClient.subSocket rfl⟩, rfl, rfl, rfl, rfl, rfl⟩

theorem sameTables_proxyEvent {p : ι} {kept : ι → Bool} (hstep : s.proxyEvent p kept = some t) :
    SameTables s t := by
  obtain ⟨m, ms, -, rfl⟩ := proxyEvent_cases hstep
  exact ⟨fun _ => ⟨rfl, rfl⟩, rfl, rfl, rfl, rfl, rfl⟩

theorem SameTables.lagSteps (hsame : SameTables s t) : LagSteps s t := by
  refine ⟨fun c topic => ?_, fun topic => ?_, fun p topic => ?_⟩
  · unfold subLag
    rw [(hsame.client c).2, hsame.xpubTable]
  · unfold xpubLag
    rw [hsame.xsubRefs, hsame.xpubPending, hsame.xpubTable]
  · unfold pubLag
    rw [hsame.pubTopics, hsame.pubUp, hsame.xsubRefs]

omit [DecidableEq ι] in
/-- A client with the same map and the same references is in step with the same registrations. -/
theorem inStep_same {c : ι} (h : ∃ reg, EventClient.InStep (s.client c) reg)
    (hmap : (t.client c).eventObjectMap = (s.client c).eventObjectMap)
    (hrefs : (t.client c).subSocket.refs = (s.client c).subSocket.refs) :
    ∃ reg, EventClient.InStep (t.client c) reg := by
  obtain ⟨reg, hrep, hreg⟩ := h
  exact ⟨reg, hmap ▸ hrep, hrefs ▸ hreg⟩

variable [DecidableEq Target]

/-- **A step of the bus takes every copy one step at most.** -/
theorem lagSteps_next {a : Act ι Target} (hwf : WellFormed s) (h : Tables s) (hstep : Step s a t)
    (hlossless : Lossless a) : LagSteps s t := by
  cases a with
  | call c call =>
      obtain ⟨op, o⟩ := call
      cases hlossless
      cases hstep
      exact lagSteps_call h c op
  | publish p type content kept =>
      cases hstep
      exact (sameTables_publish s p type content kept).lagSteps
  | handle c =>
      cases hstep
      exact (sameTables_handle hwf c).lagSteps
  | proxyEvent p kept => exact (sameTables_proxyEvent hstep).lagSteps
  | proxySub => exact lagSteps_proxySub h hstep
  | xpubRead c => exact lagSteps_xpubRead h hstep
  | pubRead p => exact lagSteps_pubRead hstep

theorem inStep_next {a : Act ι Target} (hwf : WellFormed s) (h : Tables s) (hstep : Step s a t)
    (hlossless : Lossless a) (c : ι) : ∃ reg, EventClient.InStep (t.client c) reg := by
  have hsame : SameTables s t → ∃ reg, EventClient.InStep (t.client c) reg := fun hsame =>
    inStep_same (h.inStep c) (hsame.client c).1 (congrArg SubSocket.refs (hsame.client c).2)
  cases a with
  | call c' call =>
      obtain ⟨op, o⟩ := call
      cases hlossless
      cases hstep
      obtain ⟨reg, hreg⟩ := h.inStep c
      by_cases hc : c = c'
      · subst hc
        refine ⟨Registry.step reg op, ?_⟩
        show EventClient.InStep (Function.update s.client c _ c) _
        rw [Function.update_self]
        exact EventClient.inStep_exec hreg op
      · refine ⟨reg, ?_⟩
        show EventClient.InStep (Function.update s.client c' _ c) _
        rw [Function.update_of_ne hc]
        exact hreg
  | publish p type content kept =>
      cases hstep
      exact hsame (sameTables_publish s p type content kept)
  | handle c' =>
      cases hstep
      exact hsame (sameTables_handle hwf c')
  | proxyEvent p kept => exact hsame (sameTables_proxyEvent hstep)
  | xpubRead c' =>
      obtain ⟨msg, msgs, left, passed, -, rfl, -⟩ := xpubRead_cases h hstep
      exact inStep_same (h.inStep c) (update_client EventClient.eventObjectMap rfl)
        (update_client (fun cl => cl.subSocket.refs) rfl)
  | proxySub =>
      obtain ⟨msg, msgs, -, -, rfl⟩ := proxySub_cases h hstep
      exact h.inStep c
  | pubRead p =>
      obtain ⟨msg, msgs, topics, -, rfl, -⟩ := pubRead_cases hstep
      exact h.inStep c

theorem xsubRefs_next {a : Act ι Target} (hwf : WellFormed s) (h : Tables s) (hstep : Step s a t)
    (topic : EventType) : t.xsubRefs topic ≤ 1 := by
  cases a with
  | proxySub =>
      obtain ⟨msg, msgs, -, -, rfl⟩ := proxySub_cases h hstep
      show Function.update s.xsubRefs msg.topic msg.on.toNat topic ≤ 1
      by_cases ht : topic = msg.topic
      · rw [ht, Function.update_self]
        exact Bool.toNat_le msg.on
      · rw [Function.update_of_ne ht]
        exact h.xsubRefs topic
  | handle c =>
      cases hstep
      rw [(sameTables_handle hwf c).xsubRefs]
      exact h.xsubRefs topic
  | proxyEvent p kept =>
      rw [(sameTables_proxyEvent hstep).xsubRefs]
      exact h.xsubRefs topic
  | xpubRead c =>
      obtain ⟨msg, msgs, left, passed, -, rfl, -⟩ := xpubRead_cases h hstep
      exact h.xsubRefs topic
  | pubRead p =>
      obtain ⟨msg, msgs, topics, -, rfl, -⟩ := pubRead_cases hstep
      exact h.xsubRefs topic
  | call c call =>
      cases hstep
      exact h.xsubRefs topic
  | publish p type content kept =>
      cases hstep
      exact h.xsubRefs topic

theorem tables_next {a : Act ι Target} (hwf : WellFormed s) (h : Tables s) (hstep : Step s a t)
    (hlossless : Lossless a) : Tables t := by
  have hlags := lagSteps_next hwf h hstep hlossless
  exact {
    inStep := inStep_next hwf h hstep hlossless
    xsubRefs := xsubRefs_next hwf h hstep
    sub := fun c topic => (hlags.sub c topic).faithful (h.sub c topic)
    xpub := fun topic => (hlags.xpub topic).faithful (h.xpub topic)
    pub := fun p topic => (hlags.pub p topic).faithful (h.pub p topic) }

end

/-! ## A subscription that has got through -/

/-- The client has an observer of the type. -/
def Observes (s : Bus ι Target) (c : ι) (t : EventType) : Prop :=
  ∃ o, (t, o) ∈ (s.client c).eventObjectMap.entries

/-- The subscription of the client has reached the publisher: the client has an observer of the
type, and nothing about the type is on its way from the one to the other any more. -/
structure Reached (s : Bus ι Target) (p c : ι) (t : EventType) : Prop where
  observes : Observes s c t
  upstream : ∀ msg ∈ (s.client c).subSocket.upstream, msg.topic ≠ t
  xpubPending : ∀ msg ∈ s.xpubPending, msg.topic ≠ t
  pubUp : ∀ msg ∈ s.pubUp p, msg.topic ≠ t

section
variable {s u : Bus ι Target} {p c : ι} {t : EventType}

theorem refs_pos (h : Tables s) (hobs : Observes s c t) : 0 < (s.client c).subSocket.refs t := by
  obtain ⟨reg, hreg⟩ := h.inStep c
  obtain ⟨o, ho⟩ := hobs
  exact hreg.refs_pos ho

/-- XPUB and the publisher have the subscription in their tables. -/
theorem Reached.tables (hr : Reached s p c t) (h : Tables s) :
    c ∈ s.xpubTable t ∧ t ∈ s.pubTopics p := by
  have hxpub : c ∈ s.xpubTable t := by
    have hcopy := (h.sub c t).copy_eq (changesOf_eq_nil.mpr hr.upstream)
    exact (decide_eq_decide.mp hcopy).mpr (refs_pos h hr.observes)
  have hxsub : 0 < s.xsubRefs t := by
    have hcopy := (h.xpub t).copy_eq (changesOf_eq_nil.mpr hr.xpubPending)
    exact (decide_eq_decide.mp hcopy).mpr ⟨c, hxpub⟩
  have hpub : t ∈ s.pubTopics p := by
    have hcopy := (h.pub p t).copy_eq (changesOf_eq_nil.mpr hr.pubUp)
    exact (decide_eq_decide.mp hcopy).mpr hxsub
  exact ⟨hxpub, hpub⟩

variable [DecidableEq Target]

/-- **What has reached the publisher stays there**, whatever the other clients do, as long as the
client has an observer of the type. -/
theorem Reached.next {a : Act ι Target} (hr : Reached s p c t) (hwf : WellFormed s) (h : Tables s)
    (hstep : Step s a u) (hlossless : Lossless a) (hobs : Observes u c t) : Reached u p c t := by
  obtain ⟨hxpub, -⟩ := hr.tables h
  have hlags := lagSteps_next hwf h hstep hlossless
  have hsub : subLag c t u = subLag c t s := by
    apply (hlags.sub c t).eq_of_source_eq (changesOf_eq_nil.mpr hr.upstream)
    apply decide_eq_decide.mpr
    exact iff_of_true (refs_pos (tables_next hwf h hstep hlossless) hobs) (refs_pos h hr.observes)
  have hstill : c ∈ u.xpubTable t := (decide_eq_decide.mp (congrArg Lag.copy hsub)).mpr hxpub
  have hxpubLag : xpubLag t u = xpubLag t s := by
    apply (hlags.xpub t).eq_of_source_eq (changesOf_eq_nil.mpr hr.xpubPending)
    exact decide_eq_decide.mpr (iff_of_true ⟨c, hstill⟩ ⟨c, hxpub⟩)
  have hpubLag : pubLag p t u = pubLag p t s := by
    apply (hlags.pub p t).eq_of_source_eq (changesOf_eq_nil.mpr hr.pubUp)
    exact congrArg Lag.copy hxpubLag
  refine ⟨hobs, ?_, ?_, ?_⟩
  · have hqueue : changesOf t (u.client c).subSocket.upstream = _ := congrArg Lag.queue hsub
    rw [← changesOf_eq_nil, hqueue]
    exact changesOf_eq_nil.mpr hr.upstream
  · have hqueue : changesOf t u.xpubPending = _ := congrArg Lag.queue hxpubLag
    rw [← changesOf_eq_nil, hqueue]
    exact changesOf_eq_nil.mpr hr.xpubPending
  · have hqueue : changesOf t (u.pubUp p) = _ := congrArg Lag.queue hpubLag
    rw [← changesOf_eq_nil, hqueue]
    exact changesOf_eq_nil.mpr hr.pubUp

/-! ## Runs -/

variable {tr : List (Taken (Bus ι Target) (Act ι Target))}

theorem tables_run (h : Run Step s tr u) (hwf : WellFormed s) (htab : Tables s)
    (hsteps : ∀ x ∈ tr, Short x.label ∧ Lossless x.label) : WellFormed u ∧ Tables u := by
  apply ((h.restrict hsteps).invariant (I := fun s => WellFormed s ∧ Tables s) _ ⟨hwf, htab⟩).2
  rintro s a u ⟨hstep, hshort, hlossless⟩ ⟨hwf, htab⟩
  exact ⟨wellFormed_next hwf hstep hshort, tables_next hwf htab hstep hlossless⟩

/-- As long as the client has an observer, its subscription stays with the publisher. -/
theorem reached_run (h : Run Step s tr u) (hwf : WellFormed s) (htab : Tables s)
    (hr : Reached s p c t) (hsteps : ∀ x ∈ tr, Short x.label ∧ Lossless x.label)
    (hobs : ∀ x ∈ tr, Observes x.post c t) :
    (∀ x ∈ tr, WellFormed x.pre ∧ Tables x.pre ∧ Reached x.pre p c t) ∧ Reached u p c t := by
  have hboth : ∀ x ∈ tr, (Short x.label ∧ Lossless x.label) ∧ Observes x.post c t :=
    fun x hx => ⟨hsteps x hx, hobs x hx⟩
  have hinv := (h.restrict hboth).invariant
    (I := fun s => WellFormed s ∧ Tables s ∧ Reached s p c t) ?_ ⟨hwf, htab, hr⟩
  · exact ⟨fun x hx => (hinv.1 x hx).1, hinv.2.2.2⟩
  · rintro s a u ⟨hstep, ⟨hshort, hlossless⟩, hobs⟩ ⟨hwf, htab, hr⟩
    exact ⟨wellFormed_next hwf hstep hshort, tables_next hwf htab hstep hlossless,
      hr.next hwf htab hstep hlossless hobs⟩

end
end Bus
end EventBus
