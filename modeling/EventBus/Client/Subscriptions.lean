import EventBus.Client.Registry

/-!
# The map and the subscriptions stay in step

As long as every `zmq_setsockopt` succeeds, a history of `register_observer` and
`unregister_observer` calls can be forgotten up to the last operation on each pair: the map holds
the pair once if that was a `register_observer`, and not at all otherwise. The SUB socket holds one
reference to each type that has a pair, and none to any other type. Whether one type is a prefix of
another plays no part in this.
-/

namespace EventBus

open MZmq

namespace Registry
variable {Target : Type} [DecidableEq Target]

/-! ## Membership is decided by the last operation -/

/-- The last operation on the pair, if there is one, is a `register_observer`. -/
def lastIsRegister (ops : List (EventClient.ClientOp Target)) (p : EventType × Target) : Bool :=
  match ops.reverse.find? (fun op => op = .register p.1 p.2 ∨ op = .unregister p.1 p.2) with
  | some (.register _ _) => true
  | some (.unregister _ _) => false
  | none => false

theorem lastIsRegister_concat (ops : List (EventClient.ClientOp Target))
    (op : EventClient.ClientOp Target) (p : EventType × Target) :
    lastIsRegister (ops ++ [op]) p =
      if op = .register p.1 p.2 then true
      else if op = .unregister p.1 p.2 then false
      else lastIsRegister ops p := by
  unfold lastIsRegister
  rw [List.reverse_append, List.reverse_singleton, List.singleton_append, List.find?_cons]
  by_cases hreg : op = .register p.1 p.2
  · simp [hreg]
  · by_cases hun : op = .unregister p.1 p.2
    · simp [hun]
    · simp [hreg, hun]

theorem registrations_nodup (ops : List (EventClient.ClientOp Target)) :
    (registrations ops).Nodup := by
  induction ops using List.reverseRecOn with
  | nil => exact .nil
  | append_singleton ops op ih =>
      rw [registrations_concat]
      cases op with
      | unregister type object => exact ih.erase _
      | register type object =>
          rw [step_register]
          split
          · exact ih
          · next hnot =>
              rw [← List.concat_eq_append]
              exact ih.concat hnot

theorem mem_registrations (ops : List (EventClient.ClientOp Target)) (p : EventType × Target) :
    p ∈ registrations ops ↔ lastIsRegister ops p = true := by
  induction ops using List.reverseRecOn with
  | nil => simp [registrations, lastIsRegister]
  | append_singleton ops op ih =>
      obtain ⟨t, x⟩ := p
      rw [registrations_concat, lastIsRegister_concat]
      cases op with
      | register type object =>
          by_cases hp : type = t ∧ object = x
          · obtain ⟨rfl, rfl⟩ := hp
            rw [step_register, if_pos rfl]
            split
            · next hmem => exact iff_of_true hmem rfl
            · simp
          · have hne : (t, x) ≠ (type, object) := by grind
            have hstep : (t, x) ∈ step (registrations ops) (.register type object) ↔
                (t, x) ∈ registrations ops := by
              rw [step_register]
              split
              · rfl
              · simp [hne]
            rw [hstep, ih]
            simp [hp]
      | unregister type object =>
          rw [step_unregister, (registrations_nodup ops).mem_erase_iff, ih]
          by_cases hp : type = t ∧ object = x
          · obtain ⟨rfl, rfl⟩ := hp
            simp
          · have hne : (t, x) ≠ (type, object) := by grind
            simp [hp, hne]

/-! ## How one call changes the observers of a type -/

omit [DecidableEq Target] in
theorem observers_concat (reg : List (EventType × Target)) (type t : EventType) (object : Target) :
    observers (reg ++ [(type, object)]) t =
      if type = t then observers reg t ++ [object] else observers reg t := by
  by_cases h : type = t <;> simp [observers, h]

theorem observers_erase_of_ne {reg : List (EventType × Target)} (hreg : reg.Nodup)
    {type t : EventType} (object : Target) (h : type ≠ t) :
    observers (reg.erase (type, object)) t = observers reg t := by
  unfold observers
  rw [hreg.erase_eq_filter, List.filter_filter]
  congr 1
  apply List.filter_congr
  intro p _
  rw [Bool.eq_iff_iff]
  simp only [Bool.and_eq_true, decide_eq_true_eq, bne_iff_ne]
  grind

end Registry

namespace Multimap
variable {κ α : Type} [LinearOrder κ] [BEq κ] [LawfulBEq κ] [BEq α] [LawfulBEq α]

theorem count_entries (m : Multimap κ α) (k : κ) (v : α) :
    m.entries.count (k, v) = ((m.under k).map Node.val).count v := by
  unfold entries under
  induction m.nodes with
  | nil => rfl
  | cons n ns ih =>
      rw [List.map_cons, List.filter_cons, List.count_cons, ih]
      by_cases hkey : n.key = k
      · have hpair : ((n.key, n.val) == (k, v)) = (n.val == v) := by
          rw [hkey, Bool.eq_iff_iff]
          simp
        rw [hpair, decide_eq_true hkey, if_pos rfl, List.map_cons, List.count_cons]
      · have hpair : ((n.key, n.val) == (k, v)) = false := by
          simp [hkey]
        rw [hpair, decide_eq_false hkey]
        rfl

end Multimap

namespace EventClient
variable {Target : Type} [DecidableEq Target]

open Registry

/-! ## The invariant -/

/-- The map represents the registrations, and each type with an observer has one reference. -/
structure InStep (c : EventClient Target) (reg : List (EventType × Target)) : Prop where
  represents : Represents c.eventObjectMap reg
  refs : ∀ t, c.subSocket.refs t = if observers reg t = [] then 0 else 1

section
variable {c : EventClient Target} {reg : List (EventType × Target)}

omit [DecidableEq Target] in
theorem InStep.refs_le (h : InStep c reg) (t : EventType) : c.subSocket.refs t ≤ 1 := by
  rw [h.refs t]
  split <;> decide

omit [DecidableEq Target] in
/-- The socket has a reference to every type with an observer. -/
theorem InStep.refs_pos (h : InStep c reg) {t : EventType} {object : Target}
    (hmem : (t, object) ∈ c.eventObjectMap.entries) : 0 < c.subSocket.refs t := by
  rw [h.represents.mem_entries, ← mem_observers] at hmem
  rw [h.refs t, if_neg (List.ne_nil_of_mem hmem)]
  exact Nat.one_pos

end

theorem inStep_register {c : EventClient Target} {reg : List (EventType × Target)}
    (h : InStep c reg) (type : EventType) (object : Target) :
    InStep (c.exec ⟨.register type object, none⟩) (Registry.step reg (.register type object)) where
  represents := represents_exec h.represents _
  refs := by
    intro t
    show (registerObserver none type object c).2.subSocket.refs t =
      if observers (if (type, object) ∈ reg then reg else reg ++ [(type, object)]) t = [] then 0
      else 1
    by_cases hmem : (type, object) ∈ reg
    · rw [if_pos hmem, registerObserver_again h.represents hmem]
      exact h.refs t
    · rw [if_neg hmem, observers_concat]
      by_cases hobs : observers reg type = []
      · -- the first observer takes the reference
        rw [registerObserver_first h.represents hobs]
        show Function.update c.subSocket.refs type (c.subSocket.refs type + 1) t = _
        rw [h.refs type, if_pos hobs]
        by_cases ht : type = t
        · subst ht
          simp
        · rw [Function.update_of_ne (Ne.symm ht), if_neg ht, h.refs t]
      · rw [registerObserver_further h.represents hmem hobs]
        show c.subSocket.refs t = _
        rw [h.refs t]
        by_cases ht : type = t
        · subst ht
          simp [hobs]
        · rw [if_neg ht]

theorem inStep_unregister {c : EventClient Target} {reg : List (EventType × Target)}
    (h : InStep c reg) (type : EventType) (object : Target) :
    InStep (c.exec ⟨.unregister type object, none⟩)
      (Registry.step reg (.unregister type object)) where
  represents := represents_exec h.represents _
  refs := by
    intro t
    show (unregisterObserver none type object c).2.subSocket.refs t =
      if observers (reg.erase (type, object)) t = [] then 0 else 1
    by_cases hmem : (type, object) ∈ reg
    · have hobs : observers reg type ≠ [] := List.ne_nil_of_mem (mem_observers.mpr hmem)
      obtain ⟨n, -, -, -, hcall⟩ := unregisterObserver_present h.represents hmem
      rw [hcall]
      by_cases hlast : observers (reg.erase (type, object)) type = []
      · -- the last observer gives the reference back
        rw [if_pos hlast]
        show Function.update c.subSocket.refs type (c.subSocket.refs type - 1) t = _
        rw [h.refs type, if_neg hobs]
        by_cases ht : type = t
        · subst ht
          simp [hlast]
        · rw [Function.update_of_ne (Ne.symm ht), h.refs t,
            observers_erase_of_ne h.represents.nodup object ht]
      · rw [if_neg hlast]
        show c.subSocket.refs t = _
        rw [h.refs t]
        by_cases ht : type = t
        · subst ht
          rw [if_neg hobs, if_neg hlast]
        · rw [observers_erase_of_ne h.represents.nodup object ht]
    · rw [unregisterObserver_absent h.represents hmem, List.erase_of_not_mem hmem]
      exact h.refs t

theorem inStep_exec {c : EventClient Target} {reg : List (EventType × Target)} (h : InStep c reg)
    (op : ClientOp Target) : InStep (c.exec ⟨op, none⟩) (Registry.step reg op) := by
  cases op with
  | register type object => exact inStep_register h type object
  | unregister type object => exact inStep_unregister h type object

/-- The client after a history in which every `zmq_setsockopt` succeeds. -/
def runOps (ops : List (ClientOp Target)) : EventClient Target :=
  run (ops.map fun op => ⟨op, none⟩)

theorem inStep_runOps (ops : List (ClientOp Target)) : InStep (runOps ops) (registrations ops) := by
  induction ops using List.reverseRecOn with
  | nil => exact ⟨represents_empty, fun _ => rfl⟩
  | append_singleton ops op ih =>
      have hrun : runOps (ops ++ [op]) = (runOps ops).exec ⟨op, none⟩ := by simp [runOps, run]
      rw [hrun, registrations_concat]
      exact inStep_exec ih op

/-! ## The client as a set of pairs -/

/-- **The client refines a set of pairs**: after every history whose `zmq_setsockopt` calls succeed,
the map holds a pair once if the last operation on it was a register and not at all otherwise, and
the socket holds one reference to a type that has a pair and none to a type that has no pair. -/
theorem runOps_refines_pairs (ops : List (ClientOp Target)) :
    (∀ t x, (runOps ops).eventObjectMap.entries.count (t, x) =
      if lastIsRegister ops (t, x) then 1 else 0) ∧
    ∀ t, ((∃ x, (t, x) ∈ (runOps ops).eventObjectMap.entries) →
        (runOps ops).subSocket.refs t = 1) ∧
      ((¬ ∃ x, (t, x) ∈ (runOps ops).eventObjectMap.entries) →
        (runOps ops).subSocket.refs t = 0) := by
  have h := inStep_runOps ops
  have hentries : ∀ t x, (t, x) ∈ (runOps ops).eventObjectMap.entries ↔
      x ∈ observers (registrations ops) t := by
    intro t x
    rw [h.represents.mem_entries, mem_observers]
  have hsome : ∀ t, (∃ x, (t, x) ∈ (runOps ops).eventObjectMap.entries) ↔
      observers (registrations ops) t ≠ [] := by
    intro t
    simp only [hentries]
    exact ⟨fun ⟨x, hx⟩ => List.ne_nil_of_mem hx, List.exists_mem_of_ne_nil _⟩
  refine ⟨fun t x => ?_, fun t => ⟨fun hpair => ?_, fun hnone => ?_⟩⟩
  · have hnodup := observers_nodup (registrations_nodup ops) t
    rw [Multimap.count_entries, h.represents.under t, hnodup.count]
    simp only [mem_observers, mem_registrations]
  · rw [h.refs t, if_neg ((hsome t).mp hpair)]
  · rw [h.refs t, if_pos (not_not.mp (mt (hsome t).mpr hnone))]

end EventClient
end EventBus
