import EventBus.Center.Basic

/-!
# `MThread::this_id` and the registry

`init` creates a thread, detaches it and then asks for its id. The thread constructs its client
meanwhile, and the client enters itself in the center under the id of the thread. Whoever reads
`this_id` expects to find that client under it.

But a `std::thread` that has been detached no longer stands for the thread it has created: `get_id`
gives the id that denotes no thread. The registry is right, and `this_id` is not. (`EventBus::begin`
takes its `this_id` in the same order.)
-/

namespace EventBus

open Transition

/-- `thread::id()`, which is the id of no thread. -/
def noThread : ThreadId := 0

/-- What there is to a `std::thread` besides the thread it has started. -/
structure StdThread where
  id : ThreadId
  deriving DecidableEq, Repr

namespace StdThread

def detach (_ : StdThread) : StdThread := ⟨noThread⟩

def getId (t : StdThread) : ThreadId := t.id

end StdThread

/-- Where the creating thread stands in `init`, named after what it does next. -/
inductive InitPlace
  /-- `_self_thread = new thread(_thread_run, this)` -/
  | create
  /-- `_self_thread->detach()` -/
  | detach
  /-- `this_id = _self_thread->get_id()` -/
  | getId
  | returned
  deriving DecidableEq, Repr

/-- An `MThread`, by its identity, together with the thread that runs its `_thread_run`. -/
structure MThreadIdentity where
  place : InitPlace
  /-- `_self_thread`, `none` for the null pointer. -/
  selfThread : Option StdThread
  thisId : ThreadId
  /-- The id of the thread that was created. -/
  thread : Option ThreadId
  /-- The client that thread has constructed. -/
  client : Option ClientRef
  /-- The thread has returned from `_thread_run`. -/
  finished : Bool
  deriving DecidableEq, Repr

namespace MThreadIdentity

/-- After `MThread::MThread`. -/
def fresh : MThreadIdentity := ⟨.create, none, noThread, none, none, false⟩

/-! ## The steps of `init`

`new` gives no null pointer, so the test of `_self_thread` is not one of them. -/

def create (id : ThreadId) (o : MThreadIdentity) : Option MThreadIdentity :=
  match o.place with
  | .create => some { o with place := .detach, selfThread := some ⟨id⟩, thread := some id }
  | _ => none

def detach (o : MThreadIdentity) : Option MThreadIdentity :=
  match o.place with
  | .detach => o.selfThread.map fun t => { o with place := .getId, selfThread := some t.detach }
  | _ => none

def getId (o : MThreadIdentity) : Option MThreadIdentity :=
  match o.place with
  | .getId => o.selfThread.map fun t => { o with place := .returned, thisId := t.getId }
  | _ => none

theorem create_spec {id : ThreadId} {o o' : MThreadIdentity} (h : o.create id = some o') :
    o.place = .create ∧
      o' = { o with place := .detach, selfThread := some ⟨id⟩, thread := some id } := by
  unfold create at h
  split at h
  · next hplace =>
      cases h
      exact ⟨hplace, rfl⟩
  · cases h

theorem detach_spec {o o' : MThreadIdentity} (h : o.detach = some o') :
    o.place = .detach ∧ o' = { o with place := .getId, selfThread := some ⟨noThread⟩ } := by
  unfold detach at h
  split at h
  · next hplace =>
      obtain ⟨t, -, rfl⟩ := Option.map_eq_some_iff.mp h
      exact ⟨hplace, rfl⟩
  · cases h

theorem getId_spec {o o' : MThreadIdentity} (h : o.getId = some o') :
    ∃ t, o.place = .getId ∧ o.selfThread = some t ∧
      o' = { o with place := .returned, thisId := t.id } := by
  unfold getId at h
  split at h
  · next hplace =>
      obtain ⟨t, ht, rfl⟩ := Option.map_eq_some_iff.mp h
      exact ⟨t, hplace, ht, rfl⟩
  · cases h

/-- `init` has returned, and the new thread has constructed its client. -/
def Ready (o : MThreadIdentity) : Prop := o.place = .returned ∧ o.client ≠ none

/-- `init` has returned, and the new thread has not. -/
def Running (o : MThreadIdentity) : Prop := o.place = .returned ∧ o.finished = false

end MThreadIdentity

/-- The program as far as identities go. -/
structure Identities where
  center : ClientCenter
  /-- How many clients have been constructed. -/
  clients : Nat
  /-- The ids given to threads so far. -/
  given : List ThreadId
  /-- The threads among them that no `MThread` has created. -/
  others : List ThreadId
  mthreads : List MThreadIdentity

namespace Identities

inductive Action
  /-- A thread starts that no `MThread` creates. -/
  | startOther (id : ThreadId)
  /-- It constructs a client. -/
  | constructOther (id : ThreadId)
  /-- Some thread constructs an `MThread`. -/
  | newMThread
  | create (m : Nat) (id : ThreadId)
  | detach (m : Nat)
  | getId (m : Nat)
  /-- The thread of the `MThread` constructs its client. -/
  | construct (m : Nat)
  /-- The thread of the `MThread` returns. -/
  | finish (m : Nat)
  deriving DecidableEq, Repr

def initial : Identities := ⟨.fresh, 0, [], [], []⟩

/-- One action, where it is possible. An id is given to one thread only, and `noThread` to none. -/
def next (s : Identities) : Action → Option Identities
  | .startOther id =>
      if id = noThread ∨ id ∈ s.given then none
      else some { s with given := id :: s.given, others := id :: s.others }
  | .constructOther id =>
      if id ∈ s.others then
        some { s with
          center := (s.center.registerClient id s.clients).2
          clients := s.clients + 1 }
      else none
  | .newMThread => some { s with mthreads := s.mthreads ++ [.fresh] }
  | .create m id =>
      if id = noThread ∨ id ∈ s.given then none
      else s.mthreads[m]?.bind fun o => (o.create id).map fun o' =>
        { s with given := id :: s.given, mthreads := s.mthreads.set m o' }
  | .detach m =>
      s.mthreads[m]?.bind fun o => o.detach.map fun o' =>
        { s with mthreads := s.mthreads.set m o' }
  | .getId m =>
      s.mthreads[m]?.bind fun o => o.getId.map fun o' =>
        { s with mthreads := s.mthreads.set m o' }
  | .construct m =>
      s.mthreads[m]?.bind fun o =>
        match o.thread, o.client with
        | some id, none =>
            -- `EventClient::EventClient` registers itself and drops the result
            some { s with
              center := (s.center.registerClient id s.clients).2
              clients := s.clients + 1
              mthreads := s.mthreads.set m { o with client := some s.clients } }
        | _, _ => none
  | .finish m =>
      s.mthreads[m]?.bind fun o =>
        match o.client with
        | some _ => some { s with mthreads := s.mthreads.set m { o with finished := true } }
        | none => none

def Step (s : Identities) (a : Action) (t : Identities) : Prop := s.next a = some t

/-! ## The property -/

/-- Under its `this_id` an `MThread` is found in the center, and no other running one has it. -/
structure Agrees (s : Identities) : Prop where
  found : ∀ o ∈ s.mthreads, o.place = .returned → ∀ client, o.client = some client →
    s.center.findClient o.thisId = some client
  distinct : ∀ (i j : Nat) o o', s.mthreads[i]? = some o → s.mthreads[j]? = some o' → i ≠ j →
    o.Running → o'.Running → o.thisId ≠ o'.thisId

/-- No `MThread` has come so far that there is something to find, and no two have come so far that
there is something to tell apart. -/
def TooEarly (s : Identities) : Prop :=
  (∀ o ∈ s.mthreads, ¬ o.Ready) ∧
    ∀ (i j : Nat) o o', s.mthreads[i]? = some o → s.mthreads[j]? = some o' →
      o.Running → o'.Running → i = j

/-! ## What holds in every state -/

structure Inv (s : Identities) : Prop where
  /-- Nobody gets to know the id of a thread that has been detached. -/
  unnamed : ∀ (i : Nat) o, s.mthreads[i]? = some o →
    o.thisId = noThread ∧ (o.place = .getId → o.selfThread = some ⟨noThread⟩)
  waiting : ∀ (i : Nat) o, s.mthreads[i]? = some o → o.place = .create →
    o.thread = none ∧ o.client = none
  real : noThread ∉ s.given
  other : ∀ id ∈ s.others, id ∈ s.given
  thread : ∀ (i : Nat) o id, s.mthreads[i]? = some o → o.thread = some id →
    id ∈ s.given ∧ id ∉ s.others
  apart : ∀ (i j : Nat) o o' id, s.mthreads[i]? = some o → s.mthreads[j]? = some o' →
    o.thread = some id → o'.thread = some id → i = j
  entered : ∀ id, s.center.findClient id ≠ none → id ∈ s.given
  /-- What the center has under the id of the thread is what the thread has constructed. -/
  registered : ∀ (i : Nat) o id, s.mthreads[i]? = some o → o.thread = some id →
    s.center.findClient id = o.client

theorem inv_initial : Inv initial where
  unnamed i o h := by cases h
  waiting i o h := by cases h
  real h := by cases h
  other id h := by cases h
  thread i o id h := by cases h
  apart i j o o' id h := by cases h
  entered id h := absurd rfl h
  registered i o id h := by cases h

section
variable {s : Identities} {m : Nat} {o o' : MThreadIdentity}

theorem getElem?_set_cases {mthreads : List MThreadIdentity} {i : Nat} {p : MThreadIdentity}
    (h : (mthreads.set m o')[i]? = some p) :
    (i = m ∧ p = o') ∨ (i ≠ m ∧ mthreads[i]? = some p) := by
  grind

theorem getElem?_concat_cases {mthreads : List MThreadIdentity} {i : Nat} {p : MThreadIdentity}
    (h : (mthreads ++ [o'])[i]? = some p) : mthreads[i]? = some p ∨ p = o' := by
  grind

/-- What is known of every `MThread` stays known if it is known of the one that changes. -/
theorem forall_set {P : MThreadIdentity → Prop}
    (h : ∀ (i : Nat) p, s.mthreads[i]? = some p → P p) (hP : P o') :
    ∀ (i : Nat) p, (s.mthreads.set m o')[i]? = some p → P p := by
  intro i p hp
  obtain ⟨-, rfl⟩ | ⟨-, hp⟩ := getElem?_set_cases hp
  · exact hP
  · exact h i p hp

theorem forall_concat {P : MThreadIdentity → Prop}
    (h : ∀ (i : Nat) p, s.mthreads[i]? = some p → P p) (hP : P o') :
    ∀ (i : Nat) p, (s.mthreads ++ [o'])[i]? = some p → P p := by
  intro i p hp
  obtain hp | rfl := getElem?_concat_cases hp
  · exact h i p hp
  · exact hP

/-- The `MThread`s with a thread had it before, in `s`. -/
def ThreadsFrom (s : Identities) (mthreads : List MThreadIdentity) : Prop :=
  ∀ (i : Nat) p id, mthreads[i]? = some p → p.thread = some id →
    ∃ q, s.mthreads[i]? = some q ∧ q.thread = some id

theorem threadsFrom_set (hm : s.mthreads[m]? = some o) (hthread : o'.thread = o.thread) :
    ThreadsFrom s (s.mthreads.set m o') := by
  intro i p id hp hid
  obtain ⟨rfl, rfl⟩ | ⟨-, hp⟩ := getElem?_set_cases hp
  · exact ⟨o, hm, hthread.symm.trans hid⟩
  · exact ⟨p, hp, hid⟩

theorem threadsFrom_fresh : ThreadsFrom s (s.mthreads ++ [.fresh]) := by
  intro i p id hp hid
  obtain hp | rfl := getElem?_concat_cases hp
  · exact ⟨p, hp, hid⟩
  · cases hid

section
variable {mthreads : List MThreadIdentity}

theorem Inv.thread_from (h : Inv s) (hfrom : ThreadsFrom s mthreads) :
    ∀ (i : Nat) p id, mthreads[i]? = some p → p.thread = some id →
      id ∈ s.given ∧ id ∉ s.others := by
  intro i p id hp hid
  obtain ⟨q, hq, hid⟩ := hfrom i p id hp hid
  exact h.thread i q id hq hid

theorem Inv.apart_from (h : Inv s) (hfrom : ThreadsFrom s mthreads) :
    ∀ (i j : Nat) p p' id, mthreads[i]? = some p → mthreads[j]? = some p' →
      p.thread = some id → p'.thread = some id → i = j := by
  intro i j p p' id hp hp' hid hid'
  obtain ⟨q, hq, hid⟩ := hfrom i p id hp hid
  obtain ⟨q', hq', hid'⟩ := hfrom j p' id hp' hid'
  exact h.apart i j q q' id hq hq' hid hid'

end

/-- A step that leaves the thread and the client of the `MThread` as they are. -/
theorem inv_set (h : Inv s) (hm : s.mthreads[m]? = some o) (hthread : o'.thread = o.thread)
    (hclient : o'.client = o.client) (hplace : o'.place = .create → o.place = .create)
    (hunnamed : o'.thisId = noThread ∧ (o'.place = .getId → o'.selfThread = some ⟨noThread⟩)) :
    Inv { s with mthreads := s.mthreads.set m o' } := by
  have hfrom := threadsFrom_set hm hthread
  constructor
  case unnamed => exact forall_set h.unnamed hunnamed
  case waiting =>
    apply forall_set h.waiting
    intro hcreate
    rw [hthread, hclient]
    exact h.waiting m o hm (hplace hcreate)
  case real => exact h.real
  case other => exact h.other
  case thread => exact h.thread_from hfrom
  case apart => exact h.apart_from hfrom
  case entered => exact h.entered
  case registered =>
    intro i p id hp hid
    obtain ⟨rfl, rfl⟩ | ⟨-, hp⟩ := getElem?_set_cases hp
    · rw [hclient]
      exact h.registered i o id hm (hthread.symm.trans hid)
    · exact h.registered i p id hp hid

theorem inv_newMThread (h : Inv s) : Inv { s with mthreads := s.mthreads ++ [.fresh] } := by
  constructor
  case unnamed => exact forall_concat h.unnamed ⟨rfl, fun hplace => by cases hplace⟩
  case waiting => exact forall_concat h.waiting fun _ => ⟨rfl, rfl⟩
  case real => exact h.real
  case other => exact h.other
  case thread => exact h.thread_from threadsFrom_fresh
  case apart => exact h.apart_from threadsFrom_fresh
  case entered => exact h.entered
  case registered =>
    intro i p id hp hid
    obtain hp | rfl := getElem?_concat_cases hp
    · exact h.registered i p id hp hid
    · cases hid

theorem inv_startOther {id : ThreadId} (h : Inv s) (hid : id ≠ noThread) (hnew : id ∉ s.given) :
    Inv { s with given := id :: s.given, others := id :: s.others } := by
  constructor
  case unnamed => exact h.unnamed
  case waiting => exact h.waiting
  case real => exact List.not_mem_cons_of_ne_of_not_mem hid.symm h.real
  case other =>
    intro id' hid'
    obtain rfl | hid' := List.mem_cons.mp hid'
    · exact List.mem_cons_self
    · exact List.mem_cons_of_mem _ (h.other id' hid')
  case thread =>
    intro i p id' hp hid'
    obtain ⟨hgiven, hother⟩ := h.thread i p id' hp hid'
    have hne : id' ≠ id := fun heq => hnew (heq ▸ hgiven)
    exact ⟨List.mem_cons_of_mem _ hgiven, List.not_mem_cons_of_ne_of_not_mem hne hother⟩
  case apart => exact h.apart
  case entered => exact fun id' hfound => List.mem_cons_of_mem _ (h.entered id' hfound)
  case registered => exact h.registered

/-- A client of another thread is no client of an `MThread`. -/
theorem inv_constructOther {id : ThreadId} (h : Inv s) (hid : id ∈ s.others) :
    Inv { s with
      center := (s.center.registerClient id s.clients).2, clients := s.clients + 1 } := by
  constructor
  case unnamed => exact h.unnamed
  case waiting => exact h.waiting
  case real => exact h.real
  case other => exact h.other
  case thread => exact h.thread
  case apart => exact h.apart
  case entered =>
    intro id' hfound
    obtain hfound | rfl := (ClientCenter.findClient_registerClient_ne_none _ id').mp hfound
    · exact h.entered id' hfound
    · exact h.other id hid
  case registered =>
    intro i p id' hp hid'
    have hne : id ≠ id' := fun heq => (h.thread i p id' hp hid').2 (heq ▸ hid)
    show (s.center.registerClient id s.clients).2.findClient id' = p.client
    rw [ClientCenter.findClient_registerClient_other _ hne]
    exact h.registered i p id' hp hid'

/-- The id of a new thread is one the center has not seen. -/
theorem inv_create {id : ThreadId} (h : Inv s) (hid : id ≠ noThread) (hnew : id ∉ s.given)
    (hm : s.mthreads[m]? = some o) (hcreate : o.place = .create) :
    Inv { s with
      given := id :: s.given
      mthreads := s.mthreads.set m
        { o with place := .detach, selfThread := some ⟨id⟩, thread := some id } } := by
  have hother : ∀ (i : Nat) p, s.mthreads[i]? = some p → p.thread ≠ some id :=
    fun i p hp heq => hnew (h.thread i p id hp heq).1
  constructor
  case unnamed =>
    exact forall_set h.unnamed ⟨(h.unnamed m o hm).1, fun hplace => by cases hplace⟩
  case waiting => exact forall_set h.waiting fun hplace => by cases hplace
  case real => exact List.not_mem_cons_of_ne_of_not_mem hid.symm h.real
  case other => exact fun id' hid' => List.mem_cons_of_mem _ (h.other id' hid')
  case thread =>
    intro i p id' hp hid'
    obtain ⟨rfl, rfl⟩ | ⟨-, hp⟩ := getElem?_set_cases hp
    · cases hid'
      exact ⟨List.mem_cons_self, fun hmem => hnew (h.other id hmem)⟩
    · obtain ⟨hgiven, hnot⟩ := h.thread i p id' hp hid'
      exact ⟨List.mem_cons_of_mem _ hgiven, hnot⟩
  case apart =>
    intro i j p p' id' hp hp' hid' hid''
    obtain ⟨rfl, rfl⟩ | ⟨-, hq⟩ := getElem?_set_cases hp
    · obtain ⟨rfl, -⟩ | ⟨-, hq'⟩ := getElem?_set_cases hp'
      · rfl
      · cases hid'
        exact absurd hid'' (hother j p' hq')
    · obtain ⟨rfl, rfl⟩ | ⟨-, hq'⟩ := getElem?_set_cases hp'
      · cases hid''
        exact absurd hid' (hother i p hq)
      · exact h.apart i j p p' id' hq hq' hid' hid''
  case entered => exact fun id' hfound => List.mem_cons_of_mem _ (h.entered id' hfound)
  case registered =>
    intro i p id' hp hid'
    obtain ⟨rfl, rfl⟩ | ⟨-, hp⟩ := getElem?_set_cases hp
    · cases hid'
      show s.center.findClient id = o.client
      rw [(h.waiting i o hm hcreate).2]
      by_contra hfound
      exact hnew (h.entered id hfound)
    · exact h.registered i p id' hp hid'

/-- The client is entered under the id of its own thread, for nobody else has that id. -/
theorem inv_construct {id : ThreadId} (h : Inv s) (hm : s.mthreads[m]? = some o)
    (hthread : o.thread = some id) (hclient : o.client = none) :
    Inv { s with
      center := (s.center.registerClient id s.clients).2
      clients := s.clients + 1
      mthreads := s.mthreads.set m { o with client := some s.clients } } := by
  constructor
  case unnamed => exact forall_set h.unnamed (h.unnamed m o hm)
  case waiting =>
    apply forall_set h.waiting
    intro hplace
    cases hthread.symm.trans (h.waiting m o hm hplace).1
  case real => exact h.real
  case other => exact h.other
  case thread => exact h.thread_from (threadsFrom_set hm rfl)
  case apart => exact h.apart_from (threadsFrom_set hm rfl)
  case entered =>
    intro id' hfound
    obtain hfound | rfl := (ClientCenter.findClient_registerClient_ne_none _ id').mp hfound
    · exact h.entered id' hfound
    · exact (h.thread m o id hm hthread).1
  case registered =>
    intro i p id' hp hid'
    show (s.center.registerClient id s.clients).2.findClient id' = p.client
    obtain ⟨rfl, rfl⟩ | ⟨hne, hp⟩ := getElem?_set_cases hp
    · cases hthread.symm.trans hid'
      exact ClientCenter.findClient_registerClient_self _
        ((h.registered i o id hm hthread).trans hclient)
    · have hid : id ≠ id' := fun heq => hne (h.apart i m p o id' hp hm hid' (heq ▸ hthread))
      rw [ClientCenter.findClient_registerClient_other _ hid]
      exact h.registered i p id' hp hid'

theorem inv_step {t : Identities} {a : Action} (h : Inv s) (hstep : Step s a t) : Inv t := by
  unfold Step next at hstep
  cases a with
  | startOther id =>
      simp only [Option.ite_none_left_eq_some, not_or] at hstep
      obtain ⟨⟨hid, hnew⟩, heq⟩ := hstep
      cases heq
      exact inv_startOther h hid hnew
  | constructOther id =>
      simp only [Option.ite_none_right_eq_some] at hstep
      obtain ⟨hid, heq⟩ := hstep
      cases heq
      exact inv_constructOther h hid
  | newMThread =>
      cases hstep
      exact inv_newMThread h
  | create m id =>
      simp only [Option.ite_none_left_eq_some, not_or] at hstep
      obtain ⟨⟨hid, hnew⟩, hstep⟩ := hstep
      obtain ⟨o, hm, hstep⟩ := Option.bind_eq_some_iff.mp hstep
      obtain ⟨o', hcreate, rfl⟩ := Option.map_eq_some_iff.mp hstep
      obtain ⟨hplace, rfl⟩ := MThreadIdentity.create_spec hcreate
      exact inv_create h hid hnew hm hplace
  | detach m =>
      obtain ⟨o, hm, hstep⟩ := Option.bind_eq_some_iff.mp hstep
      obtain ⟨o', hdetach, rfl⟩ := Option.map_eq_some_iff.mp hstep
      obtain ⟨-, rfl⟩ := MThreadIdentity.detach_spec hdetach
      exact inv_set h hm rfl rfl (fun hplace => by cases hplace)
        ⟨(h.unnamed m o hm).1, fun _ => rfl⟩
  | getId m =>
      obtain ⟨o, hm, hstep⟩ := Option.bind_eq_some_iff.mp hstep
      obtain ⟨o', hgetId, rfl⟩ := Option.map_eq_some_iff.mp hstep
      obtain ⟨t, hplace, ht, rfl⟩ := MThreadIdentity.getId_spec hgetId
      -- the `std::thread` has been detached by now
      have hnone := ((h.unnamed m o hm).2 hplace).symm.trans ht
      cases hnone
      exact inv_set h hm rfl rfl (fun hplace => by cases hplace)
        ⟨rfl, fun hplace => by cases hplace⟩
  | construct m =>
      obtain ⟨o, hm, hstep⟩ := Option.bind_eq_some_iff.mp hstep
      split at hstep
      · next id hthread hclient =>
          cases hstep
          exact inv_construct h hm hthread hclient
      · cases hstep
  | finish m =>
      obtain ⟨o, hm, hstep⟩ := Option.bind_eq_some_iff.mp hstep
      split at hstep
      · cases hstep
        exact inv_set h hm rfl rfl (fun hplace => hplace) (h.unnamed m o hm)
      · cases hstep

/-- The center knows nobody under the id of no thread. -/
theorem findClient_noThread (h : Inv s) : s.center.findClient noThread = none := by
  by_contra hfound
  exact h.real (h.entered noThread hfound)

theorem thisId_eq (h : Inv s) (ho : o ∈ s.mthreads) : o.thisId = noThread := by
  obtain ⟨i, hi⟩ := List.getElem?_of_mem ho
  exact (h.unnamed i o hi).1

theorem found_iff (h : Inv s) :
    (∀ o ∈ s.mthreads, o.place = .returned → ∀ client, o.client = some client →
      s.center.findClient o.thisId = some client) ↔ ∀ o ∈ s.mthreads, ¬ o.Ready := by
  constructor
  · intro hfound o ho hready
    obtain ⟨hplace, hclient⟩ := hready
    obtain ⟨client, hclient⟩ := Option.ne_none_iff_exists'.mp hclient
    have hsome := hfound o ho hplace client hclient
    rw [thisId_eq h ho, findClient_noThread h] at hsome
    cases hsome
  · intro hnone o ho hplace client hclient
    have hready : o.Ready := ⟨hplace, by simp [hclient]⟩
    exact absurd hready (hnone o ho)

theorem distinct_iff (h : Inv s) :
    (∀ (i j : Nat) o o', s.mthreads[i]? = some o → s.mthreads[j]? = some o' → i ≠ j →
      o.Running → o'.Running → o.thisId ≠ o'.thisId) ↔
    ∀ (i j : Nat) o o', s.mthreads[i]? = some o → s.mthreads[j]? = some o' →
      o.Running → o'.Running → i = j := by
  constructor
  · intro hdistinct i j o o' hi hj hrun hrun'
    by_contra hne
    apply hdistinct i j o o' hi hj hne hrun hrun'
    rw [(h.unnamed i o hi).1, (h.unnamed j o' hj).1]
  · intro honly i j o o' hi hj hne hrun hrun'
    exact absurd (honly i j o o' hi hj hrun hrun') hne

theorem agrees_iff (h : Inv s) : Agrees s ↔ TooEarly s := by
  constructor
  · intro hagrees
    exact ⟨(found_iff h).mp hagrees.found, (distinct_iff h).mp hagrees.distinct⟩
  · intro hearly
    exact ⟨(found_iff h).mpr hearly.1, (distinct_iff h).mpr hearly.2⟩

end

/-! ## Runs -/

theorem inv_run {tr : List (Taken Identities Action)} {s : Identities} (h : Run Step initial tr s) :
    (∀ x ∈ tr, Inv x.pre ∧ Inv x.post) ∧ Inv s :=
  h.invariant (I := Inv) (fun _ _ _ hstep hs => inv_step hs hstep) inv_initial

/-- **The registry is right**: under the id of its thread the client of every `MThread` is found as
soon as it has been constructed, and the threads of different `MThread`s have different ids. -/
theorem registered_run {tr : List (Taken Identities Action)} {s : Identities}
    (h : Run Step initial tr s) :
    (∀ (i : Nat) o id, s.mthreads[i]? = some o → o.thread = some id →
      s.center.findClient id = o.client) ∧
    ∀ (i j : Nat) o o' id, s.mthreads[i]? = some o → s.mthreads[j]? = some o' →
      o.thread = some id → o'.thread = some id → i = j :=
  ⟨(inv_run h).2.registered, (inv_run h).2.apart⟩

/-- **`this_id` is not**: in every run, a state agrees with the registry exactly if it is too early
for `this_id` to say anything. -/
theorem agrees_run_iff {tr : List (Taken Identities Action)} {s : Identities}
    (h : Run Step initial tr s) : ∀ x ∈ tr, Agrees x.post ↔ TooEarly x.post :=
  fun x hx => agrees_iff ((inv_run h).1 x hx).2

/-- While `init` has not returned it is too early. -/
theorem agrees_run_iff_detached :
    ∃ tr s, tr.map Taken.label = [.newMThread, .create 0 1, .construct 0, .detach 0] ∧
      Run Step initial tr s ∧ ∀ x ∈ tr, Agrees x.post ↔ TooEarly x.post := by
  have h : Run Step initial _ _ :=
    .cons (i := Action.newMThread) rfl (.cons (i := Action.create 0 1) rfl
      (.cons (i := Action.construct 0) rfl (.cons (i := Action.detach 0) rfl .nil)))
  exact ⟨_, _, rfl, h, agrees_run_iff h⟩

/-- One `MThread`, whose `init` returns before its thread constructs its client: nobody finds it. -/
theorem not_agrees_init :
    ¬ ∀ tr s, Run Step initial tr s → Agrees s := by
  intro h
  have hrun : Run Step initial _ _ :=
    .cons (i := Action.newMThread) rfl (.cons (i := Action.create 0 1) rfl
      (.cons (i := Action.detach 0) rfl (.cons (i := Action.getId 0) rfl
        (.cons (i := Action.construct 0) rfl .nil))))
  have hfound := (h _ _ hrun).found _ List.mem_cons_self rfl 0 rfl
  cases hfound

end Identities
end EventBus
