import EventBus.Target.Basic
import EventBus.Client.Reentrant

/-!
# Unsubscribing over the life of a target

`unsubscribe` goes to the client the target has now, `subscribe` went to the client it had then. In
between `set_client` may have put another client in its place, and `unregister_observer` reports
success where it finds nothing. This file says when `unsubscribe` nevertheless undoes `subscribe`:
`set_client` must not leave anything behind.
-/

namespace EventBus

open MZmq Transition

/-- One target while it lives: the clients there are, and the entries of their maps that were made
through the target, each with its client. -/
structure Life (Target : Type) where
  target : EventTarget
  clients : Clients Target
  created : List (ClientRef × Nat)

/-- A call made through the target, or a call anybody else makes on one of the clients. -/
inductive LifeOp (Target : Type)
  | subscribe (type : EventType) (object : Target) (sockopt : Outcome)
  | unsubscribe (type : EventType) (object : Target) (sockopt : Outcome)
  | setClient (client : ClientRef)
  | other (client : ClientRef) (call : EventClient.ClientCall Target)

namespace EventClient
variable {Target : Type} [DecidableEq Target]

theorem fresh_le_exec (c : EventClient Target) (call : ClientCall Target) :
    c.eventObjectMap.fresh ≤ (c.exec call).eventObjectMap.fresh := by
  rcases exec_cases c call with ⟨hmap, -⟩ | ⟨k, v, -, hmap⟩ | ⟨k, v, e, rest, -, -, hmap⟩
  · rw [hmap]
  · rw [hmap]
    exact Nat.le_succ _
  · rw [hmap]
    exact Nat.le_refl _

/-- As long as the socket does not refuse, `unregister_observer` returns true. -/
theorem unregisterObserver_true (type : EventType) (object : Target) (c : EventClient Target) :
    (unregisterObserver none type object c).1 = true := by
  cases hpair : c.eventObjectMap.entriesOf type object with
  | nil => rw [unregisterObserver_nil hpair]
  | cons n rest =>
      rw [unregisterObserver_cons hpair]
      split <;> rfl

end EventClient

namespace Life
variable {Target : Type} [DecidableEq Target]

open Registry

/-- The entry by which a client's map has grown, if it has. -/
def added (k : ClientRef) (c c' : EventClient Target) : List (ClientRef × Nat) :=
  if c'.eventObjectMap.fresh = c.eventObjectMap.fresh then [] else [(k, c.eventObjectMap.fresh)]

def next (s : Life Target) : LifeOp Target → Life Target
  | .subscribe type object o =>
      let clients := (s.target.subscribe o type object s.clients).2
      { s with
        clients := clients
        created := s.created ++ (match s.target.client with
          | none => []
          | some k => added k (s.clients k) (clients k)) }
  | .unsubscribe type object o =>
      { s with clients := (s.target.unsubscribe o type object s.clients).2 }
  | .setClient client => { s with target := s.target.setClient client }
  | .other client call =>
      { s with clients := Function.update s.clients client ((s.clients client).exec call) }

/-- The target just constructed, with clients that have a history of their own. -/
def initial (id : ThreadId) (center : ClientCenter)
    (histories : ClientRef → List (EventClient.ClientCall Target)) : Life Target :=
  ⟨.construct id center, fun k => EventClient.run (histories k), []⟩

/-- The map of client `k` has the entry `n`, which was made through the target. -/
def Holds (s : Life Target) (k : ClientRef) (n : Node EventType Target) : Prop :=
  n ∈ (s.clients k).eventObjectMap.nodes ∧ (k, n.id) ∈ s.created

/-- What a destructor does that unsubscribes some pairs. -/
def unsubscribeAll (s : Life Target) (calls : List ((EventType × Target) × Outcome)) :
    Life Target :=
  calls.foldl (fun s call => s.next (.unsubscribe call.1.1 call.1.2 call.2)) s

/-! ## The property and its condition -/

/-- Here unsubscribing undoes subscribing. -/
structure Undoes (s : Life Target) : Prop where
  /-- After `unsubscribe(type, object)` returns true no client holds a pair (type, object) that was
  made through the target. -/
  undone : ∀ type object o, (s.target.unsubscribe o type object s.clients).1 = true →
    ∀ k n, (s.next (.unsubscribe type object o)).Holds k n → (n.key, n.val) ≠ (type, object)
  /-- After a destructor that unsubscribes every pair no client holds anything of the target. -/
  forgotten : ∀ calls, (∀ k n, s.Holds k n → (n.key, n.val) ∈ calls.map Prod.fst) →
    ∀ k n, ¬ (s.unsubscribeAll calls).Holds k n

/-- If the step is a `set_client`, only the new client holds anything of the target. -/
def LeavesNothing (x : Taken (Life Target) (LifeOp Target)) : Prop :=
  ∀ client, x.label = .setClient client → ∀ k n, x.pre.Holds k n → k = client

/-! ## One step -/

/-- What holds as long as `set_client` leaves nothing behind: only the client the target has now
holds anything of it. -/
structure Tidy (s : Life Target) : Prop where
  here : ∀ k n, s.Holds k n → s.target.client = some k
  numbered : ∀ k i, (k, i) ∈ s.created → i < (s.clients k).eventObjectMap.fresh
  represents : ∀ k, ∃ reg, Represents (s.clients k).eventObjectMap reg

section
variable {s : Life Target} {k : ClientRef} {n : Node EventType Target}

theorem next_subscribe_none (h : s.target.client = none) (type : EventType) (object : Target)
    (o : Outcome) : s.next (.subscribe type object o) = s := by
  obtain ⟨⟨client⟩, clients, created⟩ := s
  cases h
  simp [next, EventTarget.subscribe]

theorem next_unsubscribe_none (h : s.target.client = none) (type : EventType) (object : Target)
    (o : Outcome) : s.next (.unsubscribe type object o) = s := by
  obtain ⟨⟨client⟩, clients, created⟩ := s
  cases h
  rfl

/-- A call on client `k` that is noted with the entries `more` it made through the target. -/
def callOn (s : Life Target) (k : ClientRef) (call : EventClient.ClientCall Target)
    (more : List (ClientRef × Nat)) : Life Target :=
  { s with
    clients := Function.update s.clients k ((s.clients k).exec call)
    created := s.created ++ more }

theorem clients_callOn_self (call : EventClient.ClientCall Target)
    (more : List (ClientRef × Nat)) :
    (s.callOn k call more).clients k = (s.clients k).exec call := Function.update_self ..

theorem clients_callOn_of_ne {k' : ClientRef} (h : k' ≠ k) (call : EventClient.ClientCall Target)
    (more : List (ClientRef × Nat)) : (s.callOn k call more).clients k' = s.clients k' :=
  Function.update_of_ne h ..

theorem created_callOn_nil (call : EventClient.ClientCall Target) :
    (s.callOn k call []).created = s.created := List.append_nil _

theorem next_subscribe_some (h : s.target.client = some k) (type : EventType) (object : Target)
    (o : Outcome) : s.next (.subscribe type object o) =
      s.callOn k ⟨.register type object, o⟩
        (added k (s.clients k) ((s.clients k).exec ⟨.register type object, o⟩)) := by
  obtain ⟨⟨client⟩, clients, created⟩ := s
  cases h
  simp [next, callOn, EventTarget.subscribe, EventClient.exec]

theorem next_unsubscribe_some (h : s.target.client = some k) (type : EventType) (object : Target)
    (o : Outcome) :
    s.next (.unsubscribe type object o) = s.callOn k ⟨.unregister type object, o⟩ [] := by
  obtain ⟨⟨client⟩, clients, created⟩ := s
  cases h
  simp [next, callOn, EventTarget.unsubscribe, EventClient.exec]

theorem next_other (s : Life Target) (k : ClientRef) (call : EventClient.ClientCall Target) :
    s.next (.other k call) = s.callOn k call [] := by
  simp [next, callOn]

/-- What a call leaves in a map of what was made through the target was there before: the number of
a new entry was not in use. -/
theorem Tidy.holds_of_exec (h : s.Tidy) {call : EventClient.ClientCall Target}
    (hn : n ∈ ((s.clients k).exec call).eventObjectMap.nodes) (hold : (k, n.id) ∈ s.created) :
    s.Holds k n := by
  rcases EventClient.mem_nodes_exec hn with hn | ⟨hid, -⟩
  · exact ⟨hn, hold⟩
  · exact absurd hid (Nat.ne_of_lt (h.numbered _ _ hold))

/-- A call keeps the invariant, if what it makes through the target it makes in the map of the
target's client. -/
theorem Tidy.callOn (h : s.Tidy) (call : EventClient.ClientCall Target)
    {more : List (ClientRef × Nat)}
    (hmore : ∀ p ∈ more, s.target.client = some k ∧ p = (k, (s.clients k).eventObjectMap.fresh) ∧
      ((s.clients k).exec call).eventObjectMap.fresh ≠ (s.clients k).eventObjectMap.fresh) :
    (s.callOn k call more).Tidy where
  here := by
    rintro k' n ⟨hn, hcreated⟩
    rcases List.mem_append.mp hcreated with hold | hnew
    · apply h.here k' n
      by_cases hk : k' = k
      · subst hk
        rw [clients_callOn_self] at hn
        exact h.holds_of_exec hn hold
      · rw [clients_callOn_of_ne hk] at hn
        exact ⟨hn, hold⟩
    · obtain ⟨hclient, hp, -⟩ := hmore _ hnew
      rw [(Prod.mk.inj hp).1]
      exact hclient
  numbered := by
    intro k' i hcreated
    by_cases hk : k' = k
    · subst hk
      rw [clients_callOn_self]
      have hle := EventClient.fresh_le_exec (s.clients k') call
      rcases List.mem_append.mp hcreated with hold | hnew
      · exact Nat.lt_of_lt_of_le (h.numbered _ _ hold) hle
      · obtain ⟨-, hp, hgrown⟩ := hmore _ hnew
        rw [(Prod.mk.inj hp).2]
        omega
    · rw [clients_callOn_of_ne hk]
      rcases List.mem_append.mp hcreated with hold | hnew
      · exact h.numbered _ _ hold
      · exact absurd (Prod.mk.inj (hmore _ hnew).2.1).1 hk
  represents := by
    intro k'
    by_cases hk : k' = k
    · subst hk
      obtain ⟨reg, hreg⟩ := h.represents k'
      rw [clients_callOn_self]
      exact ⟨_, EventClient.represents_exec hreg call⟩
    · rw [clients_callOn_of_ne hk]
      exact h.represents k'

theorem Tidy.callOn_nil (h : s.Tidy) (k : ClientRef) (call : EventClient.ClientCall Target) :
    (s.callOn k call []).Tidy := by
  apply h.callOn
  intro p hp
  cases hp

/-- A step keeps the invariant unless it is a `set_client` that leaves something behind. -/
theorem Tidy.next {op : LifeOp Target} (h : s.Tidy) (hleaves : LeavesNothing ⟨s, op, s.next op⟩) :
    (s.next op).Tidy := by
  cases op with
  | subscribe type object o =>
      cases hclient : s.target.client with
      | none => rwa [next_subscribe_none hclient]
      | some k =>
          rw [next_subscribe_some hclient]
          apply h.callOn
          intro p hp
          unfold added at hp
          split at hp
          · cases hp
          · next hgrown => exact ⟨hclient, List.mem_singleton.mp hp, hgrown⟩
  | unsubscribe type object o =>
      cases hclient : s.target.client with
      | none => rwa [next_unsubscribe_none hclient]
      | some k =>
          rw [next_unsubscribe_some hclient]
          exact h.callOn_nil k _
  | setClient client =>
      refine ⟨fun k n hholds => ?_, h.numbered, h.represents⟩
      rw [hleaves client rfl k n hholds]
      rfl
  | other client call =>
      rw [next_other]
      exact h.callOn_nil client call

/-- What a client still holds after an `unsubscribe` is something else, and was there before. -/
theorem Tidy.holds_unsubscribe (h : s.Tidy) {type : EventType} {object : Target} {o : Outcome}
    (hholds : (s.next (.unsubscribe type object o)).Holds k n) :
    s.Holds k n ∧ (n.key, n.val) ≠ (type, object) := by
  cases hclient : s.target.client with
  | none =>
      -- without a client there is nothing
      rw [next_unsubscribe_none hclient] at hholds
      cases hclient.symm.trans (h.here k n hholds)
  | some k₀ =>
      rw [next_unsubscribe_some hclient] at hholds
      have hk : k₀ = k :=
        Option.some.inj (hclient.symm.trans ((h.callOn_nil k₀ _).here k n hholds))
      subst hk
      obtain ⟨hn, hcreated⟩ := hholds
      rw [clients_callOn_self] at hn
      have hold : (k₀, n.id) ∈ s.created := by rwa [created_callOn_nil] at hcreated
      constructor
      · exact h.holds_of_exec hn hold
      · obtain ⟨reg, hreg⟩ := h.represents k₀
        have hmem := (EventClient.represents_exec hreg ⟨.unregister type object, o⟩).mem_iff.mp
          ⟨n, hn, rfl, rfl⟩
        rw [step_unregister, hreg.nodup.mem_erase_iff] at hmem
        exact hmem.1

theorem Tidy.holds_unsubscribeAll {calls : List ((EventType × Target) × Outcome)} (h : s.Tidy)
    (hholds : (s.unsubscribeAll calls).Holds k n) :
    s.Holds k n ∧ (n.key, n.val) ∉ calls.map Prod.fst := by
  induction calls generalizing s with
  | nil => exact ⟨hholds, by simp⟩
  | cons call calls ih =>
      have hnext : (s.next (.unsubscribe call.1.1 call.1.2 call.2)).Tidy :=
        h.next (by intro client hop; cases hop)
      obtain ⟨hrest, hother⟩ := ih hnext hholds
      obtain ⟨hs, hne⟩ := h.holds_unsubscribe hrest
      refine ⟨hs, fun hmem => ?_⟩
      rcases List.mem_cons.mp hmem with heq | hmem
      · exact hne heq
      · exact hother hmem

theorem Tidy.undoes (h : s.Tidy) : s.Undoes where
  undone := by
    intro type object o _ k n hholds
    exact (h.holds_unsubscribe hholds).2
  forgotten := by
    intro calls hall k n hholds
    obtain ⟨hs, hnot⟩ := h.holds_unsubscribeAll hholds
    exact hnot (hall k n hs)

/-- What `set_client` leaves behind with another client stays there. -/
theorem not_undoes_of_left {client : ClientRef} (hholds : s.Holds k n) (hne : k ≠ client) :
    ¬ (s.next (.setClient client)).Undoes := by
  intro hundoes
  have hclient : (s.next (.setClient client)).target.client = some client := rfl
  apply hundoes.undone n.key n.val none _ k n _ rfl
  · exact EventClient.unregisterObserver_true n.key n.val (s.clients client)
  · rw [next_unsubscribe_some hclient]
    refine ⟨?_, List.mem_append_left _ hholds.2⟩
    rw [clients_callOn_of_ne hne]
    exact hholds.1

end

/-! ## Runs -/

theorem tidy_initial (id : ThreadId) (center : ClientCenter)
    (histories : ClientRef → List (EventClient.ClientCall Target)) :
    (initial id center histories).Tidy where
  here := by
    rintro k n ⟨-, hcreated⟩
    cases hcreated
  numbered := by
    intro k i hcreated
    cases hcreated
  represents := by
    intro k
    exact ⟨_, EventClient.represents_run (histories k)⟩

/-- **When unsubscribing undoes subscribing**: over the whole life of a target, wherever it was
constructed and whatever others do with the clients, each `unsubscribe` that returns true leaves no
client with a pair made through the target, and a destructor that unsubscribes every pair leaves
nothing at all, exactly if every `set_client` finds nothing of the target with any client but the
new one. -/
theorem undoes_run_iff (id : ThreadId) (center : ClientCenter)
    (histories : ClientRef → List (EventClient.ClientCall Target)) (ops : List (LifeOp Target)) :
    (∀ x ∈ trace next (initial id center histories) ops, x.pre.Undoes ∧ x.post.Undoes) ↔
      ∀ x ∈ trace next (initial id center histories) ops, LeavesNothing x := by
  apply Run.forall_iff (I := Tidy) _ _ (run_trace next (initial id center histories) ops)
    (tidy_initial id center histories)
  · intro s op t ht hs
    subst ht
    constructor
    · rintro ⟨-, hpost⟩ client hop k n hholds
      by_contra hne
      subst hop
      exact not_undoes_of_left hholds hne hpost
    · intro hleaves
      exact ⟨hs.undoes, (hs.next hleaves).undoes⟩
  · intro s op t ht hs hleaves
    subst ht
    exact hs.next hleaves

/-- Constructed on thread 1, whose client is client 0, a target subscribes and then gets client 1:
`unsubscribe` returns true and client 0 keeps the pair. -/
theorem not_undoes_after_setClient :
    ¬ ∀ x ∈ trace next
        (initial 1 (ClientCenter.registerClient 1 0 .fresh).2 (fun _ => []))
        [.subscribe [1] 7 none, .setClient 1], x.pre.Undoes ∧ x.post.Undoes := by
  intro h
  have hundone := (h _ (List.mem_cons_of_mem _ List.mem_cons_self)).2.undone [1] 7 none (by decide)
    0 ⟨0, [1], 7⟩ ⟨by decide, by decide⟩
  exact hundone rfl

end Life
end EventBus
