import EventBus.Bus.Basic
import EventBus.LibZmq.Mtrie

/-!
# `xpub_t`: subscriptions

An XPUB or PUB socket reads subscription messages from its pipes and keeps them in its mtrie. An
XPUB socket also hands them to its user where they are news: the first subscription to a topic and
the last unsubscription. A pipe that terminates takes all its subscriptions with it.

The options are those a socket is made with, but for `ZMQ_XPUB_VERBOSE` and `ZMQ_XPUB_VERBOSER`: the
socket is not in manual mode, and the matching is not inverted.

`Interest` is what the socket knows, without the tree: the pipes under each topic, and what the user
has not received yet. Every run of the socket is a run on `Interest`, and the pipes a message is
marked for are those with a topic for it (`xpub_run`).
-/

namespace EventBus

open MZmq Table Transition

attribute [local instance] neZero_byte

inductive SocketType
  | ZMQ_PUB | ZMQ_XPUB
  deriving DecidableEq, Repr

/-- The type of the socket, and what `ZMQ_XPUB_VERBOSE` and `ZMQ_XPUB_VERBOSER` set. -/
structure XPubOptions where
  type : SocketType
  verboseSubs : Bool
  verboseUnsubs : Bool

structure XPub (ι : Type) where
  subscriptions : Mtrie ι
  pendingData : List Bytes

/-- What happens to the socket. -/
inductive XPubAct (ι : Type)
  /-- `xread_activated` reads a message of the pipe. -/
  | read (pipe : ι) (data : Bytes)
  | terminated (pipe : ι)
  /-- The user calls `xrecv`. -/
  | recv

namespace XPub
variable {ι : Type} [DecidableEq ι]

def fresh : XPub ι := ⟨.empty, []⟩

/-- The loop body of `xread_activated`. -/
def xreadActivated (o : XPubOptions) (pipe : ι) (data : Bytes) (s : XPub ι) : Option (XPub ι) :=
  match data with
  | [] => some { s with pendingData := s.pendingData ++ [data] }
  | c :: topic =>
      if c = 0 then
        (s.subscriptions.rm topic pipe).map fun r =>
          let notify := r.1 ≠ .values_remain ∨ o.verboseUnsubs
          ⟨r.2, s.pendingData ++ if o.type = .ZMQ_XPUB ∧ notify then [data] else []⟩
      else if c = 1 then
        (s.subscriptions.add topic pipe).map fun r =>
          let notify := r.1 ∨ o.verboseSubs
          ⟨r.2, s.pendingData ++ if o.type = .ZMQ_XPUB ∧ notify then [data] else []⟩
      -- a user message from an XSUB socket
      else some { s with pendingData := s.pendingData ++ [data] }

/-- `xpipe_terminated`, with `send_unsubscription` for the topics the mtrie reports. -/
def xpipeTerminated (o : XPubOptions) (pipe : ι) (s : XPub ι) : Option (XPub ι) :=
  (s.subscriptions.rmAll pipe !o.verboseUnsubs).map fun r =>
    ⟨r.2, s.pendingData ++ if o.type ≠ .ZMQ_PUB then r.1.map (0 :: ·) else []⟩

/-- `xrecv`: the first pending message goes to the user, if there is one. A PUB socket has an `xrecv`
of its own, which fails. -/
def xrecv (o : XPubOptions) (s : XPub ι) : XPub ι :=
  match o.type with
  | .ZMQ_PUB => s
  | .ZMQ_XPUB => { s with pendingData := s.pendingData.tail }

def next (o : XPubOptions) (s : XPub ι) : XPubAct ι → Option (XPub ι)
  | .read pipe data => s.xreadActivated o pipe data
  | .terminated pipe => s.xpipeTerminated o pipe
  | .recv => some (s.xrecv o)

/-- The pipes `xsend` marks as matching for the first part of a message. -/
def marked (data : Bytes) (s : XPub ι) : Option (Finset ι) :=
  (s.subscriptions.matchPipes data).map fun sets => sets.foldr (· ∪ ·) ∅

end XPub

/-! ## Without the tree -/

/-- The pipes that asked for each topic, and the messages the user has yet to receive. -/
structure Interest (ι : Type) where
  table : EventType → Finset ι
  pending : List Bytes

namespace Interest
variable {ι : Type} [DecidableEq ι]

def subscribe (o : XPubOptions) (pipe : ι) (topic : EventType) (s : Interest ι) : Interest ι where
  table := Function.update s.table topic (insert pipe (s.table topic))
  pending := s.pending ++
    if o.type = .ZMQ_XPUB ∧ (s.table topic = ∅ ∨ o.verboseSubs) then [1 :: topic] else []

/-- An unsubscription is passed on if it was the last one, and also if there was none. -/
def unsubscribe (o : XPubOptions) (pipe : ι) (topic : EventType) (s : Interest ι) : Interest ι where
  table := Function.update s.table topic ((s.table topic).erase pipe)
  pending := s.pending ++
    if o.type = .ZMQ_XPUB ∧ (pipe ∉ s.table topic ∨ (s.table topic).erase pipe = ∅ ∨
      o.verboseUnsubs) then [0 :: topic] else []

/-- The topics somebody is told of when a pipe goes. -/
def Lost (o : XPubOptions) (pipe : ι) (s : Interest ι) (topic : EventType) : Prop :=
  pipe ∈ s.table topic ∧ ((s.table topic).erase pipe = ∅ ∨ o.verboseUnsubs)

/-- A pipe goes; the user is told of these topics. -/
def terminate (o : XPubOptions) (pipe : ι) (topics : List EventType) (s : Interest ι) :
    Interest ι where
  table := fun topic => (s.table topic).erase pipe
  pending := s.pending ++ if o.type ≠ .ZMQ_PUB then topics.map (0 :: ·) else []

/-- The steps of the socket on what it knows. -/
inductive Step (o : XPubOptions) : Interest ι → XPubAct ι → Interest ι → Prop
  | subscribe (s pipe topic) : Step o s (.read pipe (1 :: topic)) (s.subscribe o pipe topic)
  | unsubscribe (s pipe topic) : Step o s (.read pipe (0 :: topic)) (s.unsubscribe o pipe topic)
  | user {s : Interest ι} (pipe : ι) {data : Bytes}
      (h : ∀ topic, data ≠ 0 :: topic ∧ data ≠ 1 :: topic) :
      Step o s (.read pipe data) { s with pending := s.pending ++ [data] }
  /-- The topics that nobody is left for are passed on in order. -/
  | terminated {s : Interest ι} (pipe : ι) {topics : List EventType}
      (h : PrefixTree.Listed topics (s.Lost o pipe)) :
      Step o s (.terminated pipe) (s.terminate o pipe topics)
  | recv {s : Interest ι} (h : o.type = .ZMQ_XPUB) :
      Step o s .recv { s with pending := s.pending.tail }
  | recvPub {s : Interest ι} (h : o.type = .ZMQ_PUB) : Step o s .recv s

end Interest

namespace XPub
variable {ι : Type} [DecidableEq ι]

omit [DecidableEq ι] in
/-- What the socket knows. -/
def interest (s : XPub ι) : Interest ι := ⟨s.subscriptions.table, s.pendingData⟩

omit [DecidableEq ι] in
theorem interest_eq {t : Mtrie ι} {s : Interest ι} (h : ∀ topic, t.table topic = s.table topic) :
    interest ⟨t, s.pending⟩ = s :=
  congrArg (Interest.mk · s.pending) (funext h)

/-- Reading a subscription message does not fail, and it is a step on what the socket knows. -/
theorem xreadActivated_spec (o : XPubOptions) {s : XPub ι} (h : Mtrie.Sound s.subscriptions)
    (pipe : ι) (data : Bytes) : ∃ t, s.xreadActivated o pipe data = some t ∧
      Mtrie.Sound t.subscriptions ∧ Interest.Step o s.interest (.read pipe data) t.interest := by
  have huser : (∀ topic, data ≠ 0 :: topic ∧ data ≠ 1 :: topic) →
      Interest.Step o s.interest (.read pipe data)
        (interest { s with pendingData := s.pendingData ++ [data] }) :=
    fun hdata => .user pipe hdata
  cases data with
  | nil => exact ⟨_, rfl, h, huser (by simp)⟩
  | cons c topic =>
      by_cases hzero : c = 0
      · subst hzero
        obtain ⟨t, hrm, hsound, htable⟩ := Mtrie.rm_spec h topic pipe
        refine ⟨⟨t, (s.interest.unsubscribe o pipe topic).pending⟩, ?_, hsound, ?_⟩
        · rw [xreadActivated, if_pos rfl, hrm, Option.map_some]
          refine congrArg (fun passed => some (XPub.mk t (s.pendingData ++ passed))) ?_
          refine if_congr (and_congr_right fun _ => ?_) rfl rfl
          show _ ↔ pipe ∉ s.subscriptions.table topic ∨
            (s.subscriptions.table topic).erase pipe = ∅ ∨ o.verboseUnsubs
          by_cases hmem : pipe ∈ s.subscriptions.table topic
          · by_cases hleft : (s.subscriptions.table topic).erase pipe = ∅ <;> simp [hmem, hleft]
          · simp [hmem]
        · rw [interest_eq fun k => ?_]
          · exact .unsubscribe s.interest pipe topic
          · simp only [htable, Interest.unsubscribe, Function.update_apply, interest]
      · by_cases hone : c = 1
        · subst hone
          obtain ⟨t, hadd, hsound, htable⟩ := Mtrie.add_spec h topic pipe
          refine ⟨⟨t, (s.interest.subscribe o pipe topic).pending⟩, ?_, hsound, ?_⟩
          · rw [xreadActivated, if_neg hzero, if_pos rfl, hadd, Option.map_some]
            refine congrArg (fun passed => some (XPub.mk t (s.pendingData ++ passed))) ?_
            refine if_congr (and_congr_right fun _ => ?_) rfl rfl
            simp [interest]
          · rw [interest_eq fun k => ?_]
            · exact .subscribe s.interest pipe topic
            · simp only [htable, Interest.subscribe, Function.update_apply, interest]
        · refine ⟨{ s with pendingData := s.pendingData ++ [c :: topic] }, ?_, h, huser ?_⟩
          · simp only [xreadActivated, if_neg hzero, if_neg hone]
          · simp [hzero, hone]

theorem next_spec (o : XPubOptions) {s : XPub ι} (h : Mtrie.Sound s.subscriptions)
    (a : XPubAct ι) : ∃ t, s.next o a = some t ∧ Mtrie.Sound t.subscriptions ∧
      Interest.Step o s.interest a t.interest := by
  cases a with
  | read pipe data => exact xreadActivated_spec o h pipe data
  | terminated pipe =>
      obtain ⟨topics, t, hrm, hsound, htable, hlisted⟩ := Mtrie.rmAll_spec h pipe !o.verboseUnsubs
      refine ⟨⟨t, (s.interest.terminate o pipe topics).pending⟩, ?_, hsound, ?_⟩
      · rw [next, xpipeTerminated, hrm]
        rfl
      · rw [interest_eq htable]
        refine .terminated pipe (hlisted.congr fun topic => ?_)
        unfold Interest.Lost
        show _ ∧ _ ↔ _ ∈ s.subscriptions.table topic ∧ (_ = ∅ ∨ _)
        cases o.verboseUnsubs <;> simp [interest]
  | recv =>
      cases htype : o.type with
      | ZMQ_PUB => exact ⟨s, by rw [next, xrecv, htype], h, .recvPub htype⟩
      | ZMQ_XPUB =>
          exact ⟨{ s with pendingData := s.pendingData.tail }, by rw [next, xrecv, htype], h,
            .recv htype⟩

/-- The pipes a message is marked for are those that have asked for a prefix of it. -/
theorem marked_spec {s : XPub ι} (h : Mtrie.Sound s.subscriptions) (data : Bytes) :
    ∃ pipes, s.marked data = some pipes ∧
      ∀ pipe, pipe ∈ pipes ↔ prefixMatch (fun topic => pipe ∈ s.interest.table topic) data := by
  refine ⟨_, by rw [marked, Mtrie.matchPipes_eq h.tree, Option.map_some], fun pipe => ?_⟩
  have hunion : ∀ sets : List (Finset ι), pipe ∈ sets.foldr (· ∪ ·) ∅ ↔ ∃ set ∈ sets, pipe ∈ set := by
    intro sets
    induction sets with
    | nil => simp
    | cons set sets ih => simp [ih]
  rw [hunion]
  simp only [prefixMatch, List.any_eq_true, decide_eq_true_eq, List.mem_filterMap]
  constructor
  · rintro ⟨set, ⟨topic, htopic, hlookup⟩, hmem⟩
    refine ⟨topic, htopic, ?_⟩
    show pipe ∈ Mtrie.table s.subscriptions topic
    rwa [Mtrie.table, hlookup]
  · rintro ⟨topic, htopic, hmem⟩
    refine ⟨Mtrie.table s.subscriptions topic, ⟨topic, htopic, ?_⟩, hmem⟩
    have hne : Mtrie.table s.subscriptions topic ≠ ∅ := Finset.ne_empty_of_mem hmem
    rw [Mtrie.lookup_eq h, if_neg hne]

/-- **The mtrie is a table of pipes.** Whatever an XPUB or PUB socket reads from its pipes, whichever
of them terminate and whether it is verbose or not, no assertion fails; each step does to the table
and to the pending messages what it should, and a message is marked for exactly the pipes with a
topic that is a prefix of it. -/
theorem xpub_run (o : XPubOptions) (acts : List (XPubAct ι)) :
    ∃ tr u, attempt (next o) fresh acts = some (tr, u) ∧
      (∀ x ∈ tr, Interest.Step o x.pre.interest x.label x.post.interest) ∧
      ∀ data, ∃ pipes, u.marked data = some pipes ∧
        ∀ pipe, pipe ∈ pipes ↔ prefixMatch (fun topic => pipe ∈ u.interest.table topic) data := by
  have hfrom : ∀ s : XPub ι, Mtrie.Sound s.subscriptions →
      ∃ tr u, attempt (next o) s acts = some (tr, u) ∧
        (∀ x ∈ tr, Interest.Step o x.pre.interest x.label x.post.interest) ∧
        Mtrie.Sound u.subscriptions := by
    induction acts with
    | nil => exact fun s h => ⟨[], s, rfl, by simp, h⟩
    | cons a acts ih =>
        intro s h
        obtain ⟨t, hnext, hsound, hstep⟩ := next_spec o h a
        obtain ⟨tr, u, hrest, hsteps, hu⟩ := ih t hsound
        refine ⟨⟨s, a, t⟩ :: tr, u, by simp [attempt, hnext, hrest], ?_, hu⟩
        exact List.forall_mem_cons.mpr ⟨hstep, hsteps⟩
  obtain ⟨tr, u, hrun, hsteps, hu⟩ := hfrom fresh Mtrie.sound_empty
  exact ⟨tr, u, hrun, hsteps, marked_spec hu⟩

end XPub
end EventBus
