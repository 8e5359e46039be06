import EventBus.Target.Basic

/-!
# Targets without a client

A target constructed before its thread has a client keeps a null pointer until somebody calls
`set_client`. `subscribe` and `unsubscribe` test the pointer and return false; `publish_event` and
`publish_loc_event` use it. Whether it is null when they do depends on the order in which clients
and targets were constructed, and can be read off that order.
-/

namespace EventBus

open MZmq Transition

/-- A target object, told apart from every other target ever constructed. -/
abbrev TargetRef := Nat

/-- What has been constructed: the center, the clients (`built` of them), and the targets. -/
structure Objects where
  center : ClientCenter
  clients : Clients TargetRef
  built : Nat
  targets : List EventTarget

/-- `MThread::_thread_run` constructs a client on the new thread and then calls `set_client`. -/
inductive ObjectOp
  | constructClient (id : ThreadId)
  | constructTarget (id : ThreadId)
  | constructMThread (id : ThreadId)
  | setClient (target : TargetRef) (client : ClientRef)
  | subscribe (target : TargetRef) (type : EventType) (object : TargetRef) (sockopt : Outcome)
  | unsubscribe (target : TargetRef) (type : EventType) (object : TargetRef) (sockopt : Outcome)
  | publishEvent (target : TargetRef) (type : EventType) (content : EventContent)
      (first second : Outcome)
  | publishLocEvent (target : TargetRef) (type : EventType) (content : EventContent)

namespace ObjectOp

/-- The target one of the four entry points is called on. -/
def callee : ObjectOp → Option TargetRef
  | .subscribe target _ _ _ => some target
  | .unsubscribe target _ _ _ => some target
  | .publishEvent target _ _ _ _ => some target
  | .publishLocEvent target _ _ => some target
  | _ => none

/-- The target that publishes. -/
def publisher : ObjectOp → Option TargetRef
  | .publishEvent target _ _ _ _ => some target
  | .publishLocEvent target _ _ => some target
  | _ => none

theorem callee_of_publisher {op : ObjectOp} {target : TargetRef}
    (h : op.publisher = some target) : op.callee = some target := by
  cases op <;> first | exact h | cases h

end ObjectOp

/-- How a call ends: it uses a null pointer, or it returns, with a `bool` if it returns one, and after
some calls of handlers. (The two publishing calls are declared to return an `int` and do not.) -/
inductive Ended
  | nullPointer
  | returned (value : Option Bool) (calls : List (Call TargetRef)) (s : Objects)

namespace Objects

/-- Nothing has been constructed. -/
def initial : Objects := ⟨.fresh, fun _ => .fresh, 0, []⟩

/-- One operation, where it is possible: `set_client` and the entry points need a target that has
been constructed, and `set_client` a client. -/
def exec (s : Objects) : ObjectOp → Option Ended
  | .constructClient id =>
      some (.returned none [] { s with
        center := (s.center.registerClient id s.built).2
        clients := Function.update s.clients s.built .fresh
        built := s.built + 1 })
  | .constructTarget id =>
      some (.returned none [] { s with targets := s.targets ++ [.construct id s.center] })
  | .constructMThread id =>
      -- the base constructor runs on the thread that constructs, not on the one to come
      some (.returned none [] { s with targets := s.targets ++ [.construct id s.center] })
  | .setClient target client =>
      if client < s.built then
        s.targets[target]?.map fun t =>
          .returned none [] { s with targets := s.targets.set target (t.setClient client) }
      else none
  | .subscribe target type object o =>
      s.targets[target]?.map fun t =>
        let r := t.subscribe o type object s.clients
        .returned (some r.1) [] { s with clients := r.2 }
  | .unsubscribe target type object o =>
      s.targets[target]?.map fun t =>
        let r := t.unsubscribe o type object s.clients
        .returned (some r.1) [] { s with clients := r.2 }
  | .publishEvent target type content o₁ o₂ =>
      s.targets[target]?.map fun t =>
        match t.publishEvent o₁ o₂ type content s.clients with
        | none => .nullPointer
        | some clients => .returned none [] { s with clients := clients }
  | .publishLocEvent target type content =>
      s.targets[target]?.map fun t =>
        match t.publishLocEvent type content s.clients with
        | none => .nullPointer
        | some calls => .returned none calls s

/-- What follows the use of a null pointer is not specified; here nothing does. -/
def Step (s : Objects) (op : ObjectOp) (u : Objects) : Prop :=
  (∃ value calls, s.exec op = some (.returned value calls u)) ∨ (s.exec op = some .nullPointer ∧ u = s)

/-! ## The property and its condition -/

/-- No null pointer is used, and a call on a target without a client changes nothing and reports
failure. -/
structure Safe (x : Taken Objects ObjectOp) : Prop where
  notNull : x.pre.exec x.label ≠ some .nullPointer
  failed : ∀ target, x.label.callee = some target → x.pre.targets[target]? = some ⟨none⟩ →
    x.pre.exec x.label = some (.returned (some false) [] x.pre)

end Objects

/-- What the operations so far say: on which threads a client has been constructed, and which
targets have been given one, by their constructor or by `set_client`. -/
structure Given where
  threads : List ThreadId
  targets : List Bool
  deriving DecidableEq, Repr

namespace Given

def initial : Given := ⟨[], []⟩

def next (g : Given) : ObjectOp → Given
  | .constructClient id => { g with threads := id :: g.threads }
  | .constructTarget id => { g with targets := g.targets ++ [decide (id ∈ g.threads)] }
  | .constructMThread id => { g with targets := g.targets ++ [decide (id ∈ g.threads)] }
  | .setClient target _ => { g with targets := g.targets.set target true }
  | _ => g

/-- Every target that publishes has been given a client before. -/
def ForPublishers : Given → List ObjectOp → Prop
  | _, [] => True
  | g, op :: ops =>
      (∀ target, op.publisher = some target → g.targets[target]? = some true) ∧
        (g.next op).ForPublishers ops

end Given

/-! ## One operation -/

namespace Objects
variable {s u : Objects} {op : ObjectOp}

/-- How one of the four entry points ends, by the pointer of its target. -/
structure Ends (s : Objects) (op : ObjectOp) (t : EventTarget) (e : Ended) : Prop where
  null : t.client = none →
    e = if op.publisher = none then .returned (some false) [] s else .nullPointer
  notNull : t.client ≠ none → e ≠ .nullPointer
  keeps : ∀ value calls u, e = .returned value calls u →
    u.center = s.center ∧ u.targets = s.targets

theorem exec_callee {target : TargetRef} (hcallee : op.callee = some target) {e : Ended}
    (hexec : s.exec op = some e) : ∃ t, s.targets[target]? = some t ∧ s.Ends op t e := by
  obtain ⟨center, clients, built, targets⟩ := s
  cases op with
  | constructClient id => cases hcallee
  | constructTarget id => cases hcallee
  | constructMThread id => cases hcallee
  | setClient target client => cases hcallee
  | subscribe target type object o =>
      cases hcallee
      obtain ⟨⟨client⟩, ht, rfl⟩ := Option.map_eq_some_iff.mp hexec
      refine ⟨⟨client⟩, ht, ?_⟩
      cases client <;> constructor <;> grind [EventTarget.subscribe, ObjectOp.publisher]
  | unsubscribe target type object o =>
      cases hcallee
      obtain ⟨⟨client⟩, ht, rfl⟩ := Option.map_eq_some_iff.mp hexec
      refine ⟨⟨client⟩, ht, ?_⟩
      cases client <;> constructor <;> grind [EventTarget.unsubscribe, ObjectOp.publisher]
  | publishEvent target type content o₁ o₂ =>
      cases hcallee
      obtain ⟨⟨client⟩, ht, rfl⟩ := Option.map_eq_some_iff.mp hexec
      refine ⟨⟨client⟩, ht, ?_⟩
      cases client <;> constructor <;> grind [EventTarget.publishEvent, ObjectOp.publisher]
  | publishLocEvent target type content =>
      cases hcallee
      obtain ⟨⟨client⟩, ht, rfl⟩ := Option.map_eq_some_iff.mp hexec
      refine ⟨⟨client⟩, ht, ?_⟩
      cases client <;> constructor <;> grind [EventTarget.publishLocEvent, ObjectOp.publisher]

/-- Only the entry points use the pointer. -/
theorem exec_ne_nullPointer (h : op.callee = none) : s.exec op ≠ some .nullPointer := by
  cases op with
  | constructClient id => simp [exec]
  | constructTarget id => simp [exec]
  | constructMThread id => simp [exec]
  | setClient target client => simp [exec]
  | subscribe => cases h
  | unsubscribe => cases h
  | publishEvent => cases h
  | publishLocEvent => cases h

theorem Step.returns (hstep : s.Step op u) (h : op.callee = none) :
    ∃ value calls, s.exec op = some (.returned value calls u) := by
  rcases hstep with hreturned | ⟨hnull, -⟩
  · exact hreturned
  · exact absurd hnull (exec_ne_nullPointer h)

end Objects

namespace Given

/-! ## The pointers are where they are expected -/

/-- The pointers there are agree with what the operations say. -/
structure Tracks (g : Given) (s : Objects) : Prop where
  threads : ∀ id, id ∈ g.threads ↔ s.center.findClient id ≠ none
  targets : g.targets = s.targets.map (fun t => t.client.isSome)

section
variable {g : Given} {s u : Objects} {op : ObjectOp}

theorem next_of_callee {target : TargetRef} (h : op.callee = some target) : g.next op = g := by
  cases op <;> first | rfl | cases h

theorem Tracks.construct (h : g.Tracks s) (id : ThreadId) :
    Tracks { g with targets := g.targets ++ [decide (id ∈ g.threads)] }
      { s with targets := s.targets ++ [.construct id s.center] } where
  threads := h.threads
  targets := by
    have hgiven : decide (id ∈ g.threads) = (s.center.findClient id).isSome := by
      rw [Bool.eq_iff_iff, decide_eq_true_eq, h.threads, Option.isSome_iff_ne_none]
    show g.targets ++ [_] = _
    rw [List.map_append, h.targets, hgiven]
    rfl

theorem Tracks.next (h : g.Tracks s) (hstep : s.Step op u) : (g.next op).Tracks u := by
  cases hcallee : op.callee with
  | some target =>
      rw [next_of_callee hcallee]
      rcases hstep with ⟨value, calls, hexec⟩ | ⟨-, rfl⟩
      · obtain ⟨t, -, hends⟩ := Objects.exec_callee hcallee hexec
        obtain ⟨hcenter, htargets⟩ := hends.keeps value calls u rfl
        exact ⟨by rw [hcenter]; exact h.threads, by rw [htargets]; exact h.targets⟩
      · exact h
  | none =>
      obtain ⟨value, calls, hexec⟩ := hstep.returns hcallee
      cases op with
      | constructClient id =>
          cases hexec
          refine ⟨fun id' => ?_, h.targets⟩
          rw [ClientCenter.findClient_registerClient_ne_none, ← h.threads]
          show id' ∈ id :: g.threads ↔ _
          rw [List.mem_cons, or_comm, eq_comm]
      | constructTarget id =>
          cases hexec
          exact h.construct id
      | constructMThread id =>
          cases hexec
          exact h.construct id
      | setClient target client =>
          obtain ⟨-, hexec⟩ := Option.ite_none_right_eq_some.mp hexec
          obtain ⟨t, -, hret⟩ := Option.map_eq_some_iff.mp hexec
          cases hret
          refine ⟨h.threads, ?_⟩
          show g.targets.set target true = _
          rw [h.targets, List.map_set]
          rfl
      | subscribe => cases hcallee
      | unsubscribe => cases hcallee
      | publishEvent => cases hcallee
      | publishLocEvent => cases hcallee

/-- A target that is there has a client exactly if it has been given one. -/
theorem Tracks.client_ne_none (h : g.Tracks s) {target : TargetRef} {t : EventTarget}
    (ht : s.targets[target]? = some t) :
    g.targets[target]? = some true ↔ t.client ≠ none := by
  rw [h.targets, List.getElem?_map, ht, Option.map_some, Option.some.injEq,
    Option.isSome_iff_ne_none]

/-- A step is safe exactly if the target that publishes, if there is one, has been given a
client. -/
theorem Tracks.safe_iff (h : g.Tracks s) (hstep : s.Step op u) :
    Objects.Safe ⟨s, op, u⟩ ↔
      ∀ target, op.publisher = some target → g.targets[target]? = some true := by
  cases hcallee : op.callee with
  | none =>
      refine iff_of_true ⟨Objects.exec_ne_nullPointer hcallee, ?_⟩ ?_
      · intro target hcalled
        cases hcallee.symm.trans hcalled
      · intro target hpublisher
        cases hcallee.symm.trans (ObjectOp.callee_of_publisher hpublisher)
  | some target =>
      obtain ⟨e, hexec⟩ : ∃ e, s.exec op = some e := by
        rcases hstep with ⟨value, calls, hexec⟩ | ⟨hexec, -⟩ <;> exact ⟨_, hexec⟩
      obtain ⟨t, ht, hends⟩ := Objects.exec_callee hcallee hexec
      have hsafe : Objects.Safe ⟨s, op, u⟩ ↔
          e ≠ .nullPointer ∧ (t.client = none → e = .returned (some false) [] s) := by
        constructor
        · rintro ⟨hnull, hfailed⟩
          refine ⟨fun he => hnull (he ▸ hexec), fun hnone => ?_⟩
          obtain ⟨client⟩ := t
          cases hnone
          exact Option.some.inj (hexec.symm.trans (hfailed target hcallee ht))
        · rintro ⟨hnull, hfailed⟩
          refine ⟨fun he => hnull (Option.some.inj (hexec.symm.trans he)),
            fun target' hcalled hnone => ?_⟩
          cases hcallee.symm.trans hcalled
          cases ht.symm.trans hnone
          exact hexec.trans (congrArg some (hfailed rfl))
      rw [hsafe]
      cases hpublisher : op.publisher with
      | none =>
          -- the pointer is tested
          have hfailed : t.client = none → e = .returned (some false) [] s := by
            intro hnone
            rw [hends.null hnone, if_pos hpublisher]
          refine iff_of_true ⟨?_, hfailed⟩ (by simp)
          intro he
          by_cases hnone : t.client = none
          · cases he.symm.trans (hfailed hnone)
          · exact hends.notNull hnone he
      | some target' =>
          -- the pointer is used
          cases hcallee.symm.trans (ObjectOp.callee_of_publisher hpublisher)
          simp only [Option.some.injEq, forall_eq', h.client_ne_none ht]
          constructor
          · rintro ⟨hnull, -⟩ hnone
            apply hnull
            rw [hends.null hnone, if_neg (by simp [hpublisher])]
          · intro hclient
            exact ⟨hends.notNull hclient, fun hnone => absurd hnone hclient⟩

end

/-! ## Runs -/

theorem tracks_initial : initial.Tracks .initial where
  threads := by
    intro id
    exact iff_of_false (by intro h; cases h) (by intro h; exact h rfl)
  targets := rfl

theorem safe_run_iff_of_tracks {g : Given} {s u : Objects} {tr : List (Taken Objects ObjectOp)}
    (h : Run Objects.Step s tr u) (htracks : g.Tracks s) :
    (∀ x ∈ tr, Objects.Safe x) ↔ g.ForPublishers (tr.map Taken.label) := by
  induction h generalizing g with
  | nil => simp [ForPublishers]
  | @cons s op t tr u hstep _ ih =>
      rw [List.forall_mem_cons, htracks.safe_iff hstep, ih (htracks.next hstep)]
      rfl

end Given

namespace Objects

/-- **When no target uses a missing client**: in every run of constructions, `set_client` calls and
calls of the four entry points, no null pointer is used, and every call on a target without a client
changes nothing and reports failure, exactly if each target that publishes has been given a client
before, by its constructor or by `set_client`. -/
theorem noMissingClient_run_iff {tr : List (Taken Objects ObjectOp)} {s : Objects}
    (h : Run Step initial tr s) :
    (∀ x ∈ tr, Safe x) ↔ Given.initial.ForPublishers (tr.map Taken.label) :=
  Given.safe_run_iff_of_tracks h Given.tracks_initial

/-- A target that subscribes before its thread has a client, gets one, and publishes. -/
theorem noMissingClient_run_iff_given_later :
    ∃ tr s, tr.map Taken.label = [.constructTarget 1, .subscribe 0 [1] 0 none, .constructClient 1,
        .setClient 0 0, .publishEvent 0 [1] [2] none none] ∧
      Run Step initial tr s ∧
      ((∀ x ∈ tr, Safe x) ↔ Given.initial.ForPublishers (tr.map Taken.label)) := by
  have hrun : Run Step initial _ _ :=
    .cons (i := ObjectOp.constructTarget 1) (Or.inl ⟨_, _, rfl⟩)
      (.cons (i := ObjectOp.subscribe 0 [1] 0 none) (Or.inl ⟨_, _, rfl⟩)
        (.cons (i := ObjectOp.constructClient 1) (Or.inl ⟨_, _, rfl⟩)
          (.cons (i := ObjectOp.setClient 0 0) (Or.inl ⟨_, _, rfl⟩)
            (.cons (i := ObjectOp.publishEvent 0 [1] [2] none none) (Or.inl ⟨_, _, rfl⟩) .nil))))
  exact ⟨_, _, rfl, hrun, noMissingClient_run_iff hrun⟩

/-- A target constructed on a thread without a client publishes through a null pointer. -/
theorem missing_client_publishes :
    ¬ ∀ tr s, Run Step initial tr s → ∀ x ∈ tr, Safe x := by
  intro h
  have hrun : Run Step initial _ _ :=
    .cons (i := ObjectOp.constructTarget 1) (Or.inl ⟨_, _, rfl⟩)
      (.cons (i := ObjectOp.publishEvent 0 [1] [2] none none) (Or.inr ⟨rfl, rfl⟩) .nil)
  exact (h _ _ hrun _ (List.mem_cons_of_mem _ List.mem_cons_self)).notNull rfl

end Objects
end EventBus
