import EventBus.Client.Basic
import Mathlib.Data.List.Count
import Mathlib.Data.List.Induction

/-!
# What the observer map stands for

A client is there to remember who observes what, and in which order they came: a list of pairs
without repetitions, in order of registration. `Represents m reg` connects the multimap to that
list: under each type the map holds the observers of the list, in the order of the list. Every call
of `register_observer` and `unregister_observer` keeps the two together, whatever becomes of its
`zmq_setsockopt`, so each result about histories is a fact about lists of pairs.
-/

namespace EventBus

open MZmq

namespace Registry
variable {Target : Type} [DecidableEq Target]

/-! ## The abstract registry -/

/-- One call, on the list of registrations. -/
def step (reg : List (EventType × Target)) : EventClient.ClientOp Target →
    List (EventType × Target)
  | .register type object => if (type, object) ∈ reg then reg else reg ++ [(type, object)]
  | .unregister type object => reg.erase (type, object)

theorem step_register (reg : List (EventType × Target)) (type : EventType) (object : Target) :
    step reg (.register type object) =
      if (type, object) ∈ reg then reg else reg ++ [(type, object)] := rfl

theorem step_unregister (reg : List (EventType × Target)) (type : EventType) (object : Target) :
    step reg (.unregister type object) = reg.erase (type, object) := rfl

/-- The pairs registered after a history, in order of registration. -/
def registrations (ops : List (EventClient.ClientOp Target)) : List (EventType × Target) :=
  ops.foldl step []

theorem registrations_concat (ops : List (EventClient.ClientOp Target))
    (op : EventClient.ClientOp Target) :
    registrations (ops ++ [op]) = step (registrations ops) op := by
  simp [registrations]

/-- The observers of a type, in order of registration. -/
def observers (reg : List (EventType × Target)) (type : EventType) : List Target :=
  (reg.filter (fun p => p.1 = type)).map Prod.snd

omit [DecidableEq Target] in
theorem mem_observers {reg : List (EventType × Target)} {type : EventType} {object : Target} :
    object ∈ observers reg type ↔ (type, object) ∈ reg := by
  simp [observers]

omit [DecidableEq Target] in
theorem observers_nodup {reg : List (EventType × Target)} (h : reg.Nodup) (type : EventType) :
    (observers reg type).Nodup := by
  refine (h.filter _).map_on ?_
  rintro ⟨t, x⟩ hx ⟨t', x'⟩ hx' rfl
  simp only [List.mem_filter, decide_eq_true_eq] at hx hx'
  rw [hx.2, hx'.2]

/-! ## Representation -/

/-- The map holds exactly the registered pairs, each type's observers in order of registration. -/
structure Represents (m : Multimap EventType Target) (reg : List (EventType × Target)) : Prop where
  nodup : reg.Nodup
  under : ∀ type, (m.under type).map Node.val = observers reg type

section
variable {m : Multimap EventType Target} {reg : List (EventType × Target)}

omit [DecidableEq Target] in
theorem represents_empty : Represents (Multimap.empty : Multimap EventType Target) [] :=
  ⟨.nil, fun _ => rfl⟩

omit [DecidableEq Target] in
theorem Represents.mem_iff (h : Represents m reg) {type : EventType} {object : Target} :
    (∃ n ∈ m.nodes, n.key = type ∧ n.val = object) ↔ (type, object) ∈ reg := by
  rw [← mem_observers, ← h.under type, List.mem_map]
  constructor
  · rintro ⟨n, hn, hk, hv⟩
    exact ⟨n, Multimap.mem_under.mpr ⟨hn, hk⟩, hv⟩
  · rintro ⟨n, hn, hv⟩
    obtain ⟨hn, hk⟩ := Multimap.mem_under.mp hn
    exact ⟨n, hn, hk, hv⟩

omit [DecidableEq Target] in
theorem Represents.mem_entries (h : Represents m reg) {type : EventType} {object : Target} :
    (type, object) ∈ m.entries ↔ (type, object) ∈ reg := by
  rw [Multimap.mem_entries, h.mem_iff]

omit [DecidableEq Target] in
/-- No entry has the type exactly if no observer is registered under it. -/
theorem Represents.under_eq_nil (h : Represents m reg) {type : EventType} :
    m.under type = [] ↔ observers reg type = [] := by
  rw [← h.under type, List.map_eq_nil_iff]

omit [DecidableEq Target] in
/-- A registered pair has exactly one entry. -/
theorem Represents.eq_of_pair_eq (h : Represents m reg) {a b : Node EventType Target}
    (ha : a ∈ m.nodes) (hb : b ∈ m.nodes) (hkey : a.key = b.key) (hval : a.val = b.val) :
    a = b := by
  have hnd : ((m.under b.key).map Node.val).Nodup := h.under b.key ▸ observers_nodup h.nodup b.key
  exact List.inj_on_of_nodup_map hnd (Multimap.mem_under.mpr ⟨ha, hkey⟩)
    (Multimap.mem_under.mpr ⟨hb, rfl⟩) hval

omit [DecidableEq Target] in
/-- Inserting a pair that is not there registers it as the latest. -/
theorem Represents.insert (h : Represents m reg) {type : EventType} {object : Target}
    (hnot : (type, object) ∉ reg) : Represents (m.insert type object) (reg ++ [(type, object)]) where
  nodup := List.nodup_append.mpr ⟨h.nodup, List.nodup_singleton _, by
    intro p hp q hq heq
    rw [List.mem_singleton.mp hq] at heq
    exact hnot (heq ▸ hp)⟩
  under := by
    intro type'
    by_cases htype : type = type'
    · subst htype
      rw [Multimap.under_insert_self, List.map_append, h.under]
      simp [observers]
    · rw [Multimap.under_insert_of_ne m object htype, h.under]
      simp [observers, htype]

/-- Erasing an entry unregisters its pair. -/
theorem Represents.erase (h : Represents m reg) {n : Node EventType Target} (hn : n ∈ m.nodes) :
    Represents (m.erase n.id) (reg.erase (n.key, n.val)) where
  nodup := h.nodup.erase _
  under := by
    intro type
    -- within the range of one key, the node to erase is told apart by its value as well
    have hids : ∀ a ∈ m.under type, a.id ≠ n.id ↔ (type, a.val) ≠ (n.key, n.val) := by
      intro a ha
      obtain ⟨ha, hkey⟩ := Multimap.mem_under.mp ha
      rw [not_iff_not]
      constructor
      · intro hid
        rw [← hkey, m.eq_of_id_eq ha hn hid]
      · intro hpair
        obtain ⟨htype, hval⟩ := Prod.mk.inj hpair
        rw [h.eq_of_pair_eq ha hn (hkey.trans htype) hval]
    calc ((m.erase n.id).under type).map Node.val
        = ((m.under type).filter (fun a => (type, a.val) ≠ (n.key, n.val))).map Node.val := by
          rw [Multimap.under_erase]
          congr 1
          refine List.filter_congr fun a ha => ?_
          rw [decide_eq_decide]
          exact hids a ha
      _ = ((m.under type).map Node.val).filter (fun x => (type, x) ≠ (n.key, n.val)) := by
          rw [List.filter_map]
          rfl
      _ = observers (reg.erase (n.key, n.val)) type := by
          rw [h.under, h.nodup.erase_eq_filter, observers, observers, List.filter_map,
            List.filter_filter, List.filter_filter]
          congr 1
          refine List.filter_congr fun p _ => ?_
          rw [Bool.eq_iff_iff]
          simp only [Function.comp_apply, Bool.and_eq_true, decide_eq_true_eq, bne_iff_ne]
          grind

end
end Registry

/-! ## The calls of the client -/

namespace EventClient
variable {Target : Type} [DecidableEq Target]

open Registry

theorem alreadyObserved_iff {type : EventType} {object : Target}
    {ns : List (Node EventType Target)} :
    alreadyObserved type object ns = true ↔ ∃ n ∈ ns, n.key = type ∧ n.val = object := by
  induction ns with
  | nil => simp [alreadyObserved]
  | cons n ns ih =>
      rw [alreadyObserved, List.exists_mem_cons_iff]
      by_cases h : type = n.key ∧ n.val = object
      · simp [h.1, h.2]
      · rw [if_neg h, ih]
        grind

theorem observerEntry_eq_head (m : Multimap EventType Target) (type : EventType)
    (object : Target) :
    observerEntry type object m.nodes = (m.entriesOf type object).head? := by
  unfold Multimap.entriesOf
  induction m.nodes with
  | nil => rfl
  | cons n ns ih =>
      rw [observerEntry, List.filter_cons, ih]
      by_cases h : n.key = type ∧ n.val = object
      · simp [h.1, h.2]
      · simp only [h, eq_comm (a := type), if_false, decide_false, Bool.false_eq_true]

section
variable {c : EventClient Target} {o : Outcome} {type : EventType} {object : Target}

/-! What each call does, for any map. -/

theorem registerObserver_found (hfind : c.eventObjectMap.find type ≠ none) :
    registerObserver o type object c =
      (true, if alreadyObserved type object
          (c.eventObjectMap.suffix (c.eventObjectMap.find type)) then c
        else { c with eventObjectMap := c.eventObjectMap.insert type object }) := by
  rw [registerObserver, if_pos hfind]
  split <;> rfl

theorem registerObserver_not_found (hfind : c.eventObjectMap.find type = none) :
    registerObserver o type object c = (o.isNone, { c with
      eventObjectMap := c.eventObjectMap.insert type object
      subSocket := (zmqSetsockopt o .ZMQ_SUBSCRIBE type c.subSocket).2 }) := by
  cases o <;> simp [registerObserver, hfind, zmqSetsockopt]

theorem unregisterObserver_nil (hpair : c.eventObjectMap.entriesOf type object = []) :
    unregisterObserver o type object c = (true, c) := by
  rw [unregisterObserver, Multimap.suffix_begin, observerEntry_eq_head, hpair]
  rfl

theorem unregisterObserver_cons {n : Node EventType Target} {rest : List (Node EventType Target)}
    (hpair : c.eventObjectMap.entriesOf type object = n :: rest) :
    unregisterObserver o type object c =
      if (c.eventObjectMap.erase n.id).find type = none then
        (o.isNone, { c with
          eventObjectMap := c.eventObjectMap.erase n.id
          subSocket := (zmqSetsockopt o .ZMQ_UNSUBSCRIBE type c.subSocket).2 })
      else (true, { c with eventObjectMap := c.eventObjectMap.erase n.id }) := by
  rw [unregisterObserver, Multimap.suffix_begin, observerEntry_eq_head, hpair]
  by_cases hlast : (c.eventObjectMap.erase n.id).find type = none
  · rw [if_pos hlast]
    cases o <;> simp [hlast, zmqSetsockopt]
  · simp [hlast]

end

/-! What it does to a map that represents a list of registrations. -/

section
variable {c : EventClient Target} {reg : List (EventType × Target)} {o : Outcome}
  {type : EventType} {object : Target}

/-- The duplicate scan starts at `find(type)`, and still sees every entry of the type. -/
theorem alreadyObserved_suffix_find (h : Represents c.eventObjectMap reg) :
    alreadyObserved type object (c.eventObjectMap.suffix (c.eventObjectMap.find type)) = true ↔
      (type, object) ∈ reg := by
  rw [alreadyObserved_iff, ← h.mem_iff, Multimap.suffix_find]
  split
  · next hnil =>
      -- nothing is scanned, and there is nothing of the type to see
      refine iff_of_false (by simp) ?_
      rintro ⟨n, hn, hkey, -⟩
      have : n ∈ c.eventObjectMap.under type := Multimap.mem_under.mpr ⟨hn, hkey⟩
      rw [hnil] at this
      cases this
  · constructor
    · rintro ⟨n, hn, hkey, hval⟩
      refine ⟨n, ?_, hkey, hval⟩
      rcases List.mem_append.mp hn with hn | hn
      · exact (Multimap.mem_under.mp hn).1
      · exact (Multimap.mem_above.mp hn).1
    · rintro ⟨n, hn, hkey, hval⟩
      exact ⟨n, List.mem_append_left _ (Multimap.mem_under.mpr ⟨hn, hkey⟩), hkey, hval⟩

/-- Registering a pair again changes nothing. -/
theorem registerObserver_again (h : Represents c.eventObjectMap reg) (hmem : (type, object) ∈ reg) :
    registerObserver o type object c = (true, c) := by
  have hfind : c.eventObjectMap.find type ≠ none := by
    rw [Ne, Multimap.find_eq_none, h.under_eq_nil]
    exact List.ne_nil_of_mem (mem_observers.mpr hmem)
  rw [registerObserver_found hfind, if_pos ((alreadyObserved_suffix_find h).mpr hmem)]

/-- A further observer of a type that has one enters the map and leaves the socket alone. -/
theorem registerObserver_further (h : Represents c.eventObjectMap reg)
    (hmem : (type, object) ∉ reg) (hobs : observers reg type ≠ []) :
    registerObserver o type object c =
      (true, { c with eventObjectMap := c.eventObjectMap.insert type object }) := by
  have hfind : c.eventObjectMap.find type ≠ none := by
    rwa [Ne, Multimap.find_eq_none, h.under_eq_nil]
  rw [registerObserver_found hfind, if_neg (mt (alreadyObserved_suffix_find h).mp hmem)]

/-- The first observer of a type enters the map, and the socket is asked to subscribe. -/
theorem registerObserver_first (h : Represents c.eventObjectMap reg)
    (hobs : observers reg type = []) :
    registerObserver o type object c = (o.isNone, { c with
      eventObjectMap := c.eventObjectMap.insert type object
      subSocket := (zmqSetsockopt o .ZMQ_SUBSCRIBE type c.subSocket).2 }) := by
  apply registerObserver_not_found
  rwa [Multimap.find_eq_none, h.under_eq_nil]

/-- Unregistering a pair that is not there changes nothing. -/
theorem unregisterObserver_absent (h : Represents c.eventObjectMap reg)
    (hmem : (type, object) ∉ reg) : unregisterObserver o type object c = (true, c) := by
  apply unregisterObserver_nil
  rw [List.eq_nil_iff_forall_not_mem]
  intro n hn
  exact hmem (h.mem_iff.mp ⟨n, Multimap.mem_entriesOf.mp hn⟩)

/-- Unregistering a pair that is there erases its entry; the socket is asked to unsubscribe if that
was the last entry of the type. -/
theorem unregisterObserver_present (h : Represents c.eventObjectMap reg)
    (hmem : (type, object) ∈ reg) :
    ∃ n ∈ c.eventObjectMap.nodes, n.key = type ∧ n.val = object ∧ ∀ o,
      unregisterObserver o type object c =
        if observers (reg.erase (type, object)) type = [] then
          (o.isNone, { c with
            eventObjectMap := c.eventObjectMap.erase n.id
            subSocket := (zmqSetsockopt o .ZMQ_UNSUBSCRIBE type c.subSocket).2 })
        else (true, { c with eventObjectMap := c.eventObjectMap.erase n.id }) := by
  cases hpair : c.eventObjectMap.entriesOf type object with
  | nil =>
      obtain ⟨n, hn⟩ := h.mem_iff.mpr hmem
      have hentry := Multimap.mem_entriesOf.mpr hn
      rw [hpair] at hentry
      cases hentry
  | cons n rest =>
      obtain ⟨hn, hkey, hval⟩ := Multimap.mem_entriesOf.mp (hpair ▸ List.mem_cons_self)
      have herase := h.erase hn
      rw [hkey, hval] at herase
      refine ⟨n, hn, hkey, hval, fun o => ?_⟩
      rw [unregisterObserver_cons hpair]
      simp only [Multimap.find_eq_none, herase.under_eq_nil]

end

/-- **One call of the client is one step of the registry**, whatever its `zmq_setsockopt` does. -/
theorem represents_exec {c : EventClient Target} {reg : List (EventType × Target)}
    (h : Represents c.eventObjectMap reg) (call : ClientCall Target) :
    Represents (c.exec call).eventObjectMap (Registry.step reg call.op) := by
  obtain ⟨op, o⟩ := call
  cases op with
  | register type object =>
      show Represents (registerObserver o type object c).2.eventObjectMap
        (if (type, object) ∈ reg then reg else reg ++ [(type, object)])
      by_cases hmem : (type, object) ∈ reg
      · rw [if_pos hmem, registerObserver_again h hmem]
        exact h
      · rw [if_neg hmem]
        by_cases hobs : observers reg type = []
        · rw [registerObserver_first h hobs]
          exact h.insert hmem
        · rw [registerObserver_further h hmem hobs]
          exact h.insert hmem
  | unregister type object =>
      show Represents (unregisterObserver o type object c).2.eventObjectMap
        (reg.erase (type, object))
      by_cases hmem : (type, object) ∈ reg
      · obtain ⟨n, hn, rfl, rfl, hcall⟩ := unregisterObserver_present h hmem
        rw [hcall]
        split <;> exact h.erase hn
      · rw [unregisterObserver_absent h hmem, List.erase_of_not_mem hmem]
        exact h

/-- After any history the map represents the registrations of that history. -/
theorem represents_run (calls : List (ClientCall Target)) :
    Represents (run calls).eventObjectMap (registrations (calls.map ClientCall.op)) := by
  induction calls using List.reverseRecOn with
  | nil => exact represents_empty
  | append_singleton calls call ih =>
      have hrun : run (calls ++ [call]) = (run calls).exec call := by simp [run]
      rw [hrun, List.map_append, List.map_singleton, registrations_concat]
      exact represents_exec ih call

end EventClient
end EventBus
