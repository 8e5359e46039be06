import EventBus.Client.Subscriptions
import EventBus.Transition.Run

/-!
# Calls that fail

`register_observer` and `unregister_observer` change the map first and the socket second. When the
socket refuses, they report the failure but leave the map changed, and a second registration of a
pair reports success although it adds nothing. This file says in which runs neither can be seen: no
pair is registered twice in a row, and the socket never refuses.
-/

namespace EventBus

open MZmq Transition

namespace EventClient
variable {Target : Type} [DecidableEq Target]

open Registry

/-! ## The property and its condition -/

/-- What a call returns. -/
def result (c : EventClient Target) (call : ClientCall Target) : Bool :=
  match call.op with
  | .register type object => (registerObserver call.sockopt type object c).1
  | .unregister type object => (unregisterObserver call.sockopt type object c).1

/-- The same observers and the same subscriptions. -/
def SameState (c c' : EventClient Target) : Prop :=
  c'.eventObjectMap = c.eventObjectMap ∧ c'.subSocket.refs = c.subSocket.refs

/-- The result of a call tells what happened. -/
structure TellsTruth (x : Taken (EventClient Target) (ClientCall Target)) : Prop where
  /-- `register_observer` returns true exactly if it has added the pair and the type is subscribed. -/
  added : ∀ type object, x.label.op = .register type object →
    (x.pre.result x.label = true ↔ (type, object) ∉ x.pre.eventObjectMap.entries ∧
      (type, object) ∈ x.post.eventObjectMap.entries ∧ 0 < x.post.subSocket.refs type)
  /-- A call that returns false has changed nothing. -/
  failed : x.pre.result x.label = false → SameState x.pre x.post
  /-- A call that returned false can be made again, with the result it would have had at first. -/
  retried : x.pre.result x.label = false → ∀ o,
    x.post.result ⟨x.label.op, o⟩ = x.pre.result ⟨x.label.op, o⟩ ∧
      SameState (x.pre.exec ⟨x.label.op, o⟩) (x.post.exec ⟨x.label.op, o⟩)
  /-- Every type with an observer is subscribed. -/
  subscribed : ∀ type object, (type, object) ∈ x.post.eventObjectMap.entries →
    0 < x.post.subSocket.refs type

/-- The call sets a socket option: it registers the first observer of a type, or unregisters the
last one. -/
def SetsSockopt (c : EventClient Target) : ClientOp Target → Prop
  | .register type _ => ∀ x, (type, x) ∉ c.eventObjectMap.entries
  | .unregister type object => (type, object) ∈ c.eventObjectMap.entries ∧
      ∀ x, (type, x) ∈ c.eventObjectMap.entries → x = object

/-- The call registers no pair that is already there, and the socket option it may set is accepted. -/
def Smooth (x : Taken (EventClient Target) (ClientCall Target)) : Prop :=
  (∀ type object, x.label.op = .register type object →
    (type, object) ∉ x.pre.eventObjectMap.entries) ∧
  (SetsSockopt x.pre x.label.op → x.label.sockopt = none)

/-! ## One call -/

section
variable {c : EventClient Target} {reg : List (EventType × Target)} {type : EventType}
  {object : Target} {o : Outcome}

omit [DecidableEq Target] in
theorem setsSockopt_register (h : Represents c.eventObjectMap reg) :
    SetsSockopt c (.register type object) ↔ observers reg type = [] := by
  rw [SetsSockopt, List.eq_nil_iff_forall_not_mem]
  simp only [h.mem_entries, mem_observers]

theorem setsSockopt_unregister (h : Represents c.eventObjectMap reg)
    (hmem : (type, object) ∈ reg) :
    SetsSockopt c (.unregister type object) ↔ observers (reg.erase (type, object)) type = [] := by
  rw [SetsSockopt, List.eq_nil_iff_forall_not_mem]
  simp only [h.mem_entries, mem_observers, h.nodup.mem_erase_iff]
  grind

/-- What a smooth call returns, and that it is as good as one the socket accepts. -/
theorem exec_of_smooth {t : EventClient Target} {call : ClientCall Target}
    (h : Represents c.eventObjectMap reg) (hsmooth : Smooth ⟨c, call, t⟩) :
    c.result call = true ∧ c.exec call = c.exec ⟨call.op, none⟩ := by
  obtain ⟨op, o⟩ := call
  obtain ⟨hnew, hok⟩ := hsmooth
  cases op with
  | register type object =>
      have hmem : (type, object) ∉ reg := by
        rw [← h.mem_entries]
        exact hnew type object rfl
      show (registerObserver o type object c).1 = true ∧ (registerObserver o type object c).2 =
        (registerObserver none type object c).2
      by_cases hobs : observers reg type = []
      · have ho : o = none := hok ((setsSockopt_register h).mpr hobs)
        rw [ho, registerObserver_first h hobs]
        exact ⟨rfl, rfl⟩
      · rw [registerObserver_further h hmem hobs, registerObserver_further h hmem hobs]
        exact ⟨rfl, rfl⟩
  | unregister type object =>
      show (unregisterObserver o type object c).1 = true ∧ (unregisterObserver o type object c).2 =
        (unregisterObserver none type object c).2
      by_cases hmem : (type, object) ∈ reg
      · obtain ⟨n, -, -, -, hcall⟩ := unregisterObserver_present h hmem
        by_cases hlast : observers (reg.erase (type, object)) type = []
        · have ho : o = none := hok ((setsSockopt_unregister h hmem).mpr hlast)
          rw [ho, hcall, if_pos hlast]
          exact ⟨rfl, rfl⟩
        · rw [hcall, hcall, if_neg hlast, if_neg hlast]
          exact ⟨rfl, rfl⟩
      · rw [unregisterObserver_absent h hmem, unregisterObserver_absent h hmem]
        exact ⟨rfl, rfl⟩

theorem inStep_of_smooth {call : ClientCall Target} (h : InStep c reg)
    (hsmooth : Smooth ⟨c, call, c.exec call⟩) :
    InStep (c.exec call) (Registry.step reg call.op) := by
  rw [(exec_of_smooth h.represents hsmooth).2]
  exact inStep_exec h call.op

/-- A smooth call tells the truth. -/
theorem tellsTruth_of_smooth {call : ClientCall Target} (h : InStep c reg)
    (hsmooth : Smooth ⟨c, call, c.exec call⟩) : TellsTruth ⟨c, call, c.exec call⟩ := by
  have hpost := inStep_of_smooth h hsmooth
  have hresult := (exec_of_smooth h.represents hsmooth).1
  have hsubscribed : ∀ type object, (type, object) ∈ (c.exec call).eventObjectMap.entries →
      0 < (c.exec call).subSocket.refs type := fun _ _ hmem => hpost.refs_pos hmem
  have hfalse : c.result call ≠ false := by simp [hresult]
  refine ⟨fun type object hop => ?_, fun h => absurd h hfalse, fun h => absurd h hfalse,
    hsubscribed⟩
  have hnew := hsmooth.1 type object hop
  have hadded : (type, object) ∈ (c.exec call).eventObjectMap.entries := by
    rw [hpost.represents.mem_entries, hop, step_register]
    rw [h.represents.mem_entries] at hnew
    simp [hnew]
  exact iff_of_true hresult ⟨hnew, hadded, hsubscribed type object hadded⟩

/-- A call that tells the truth is smooth. -/
theorem smooth_of_tellsTruth {call : ClientCall Target} (h : Represents c.eventObjectMap reg)
    (htruth : TellsTruth ⟨c, call, c.exec call⟩) : Smooth ⟨c, call, c.exec call⟩ := by
  obtain ⟨op, o⟩ := call
  have hnew : ∀ type object, op = .register type object →
      (type, object) ∉ c.eventObjectMap.entries := by
    rintro type object rfl hmem
    -- the second registration returns true and adds nothing
    have hagain : (registerObserver o type object c).1 = true := by
      rw [registerObserver_again h (h.mem_entries.mp hmem)]
    exact ((htruth.added type object rfl).mp hagain).1 hmem
  refine ⟨hnew, fun hsets => ?_⟩
  cases o with
  | none => rfl
  | some e =>
      -- the socket refuses after the map has been changed
      exfalso
      cases op with
      | register type object =>
          have hobs := (setsSockopt_register h).mp hsets
          have hfalse : (registerObserver (some e) type object c).1 = false := by
            rw [registerObserver_first h hobs]
            rfl
          have hmap : (registerObserver (some e) type object c).2.eventObjectMap =
              c.eventObjectMap.insert type object := by
            rw [registerObserver_first h hobs]
          have hsame := hmap.symm.trans (htruth.failed hfalse).1
          exact c.eventObjectMap.insert_ne_self type object hsame
      | unregister type object =>
          have hmem := h.mem_entries.mp hsets.1
          have hlast := (setsSockopt_unregister h hmem).mp hsets
          obtain ⟨n, hn, -, -, hcall⟩ := unregisterObserver_present h hmem
          have hfalse : (unregisterObserver (some e) type object c).1 = false := by
            rw [hcall, if_pos hlast]
            rfl
          have hmap : (unregisterObserver (some e) type object c).2.eventObjectMap =
              c.eventObjectMap.erase n.id := by
            rw [hcall, if_pos hlast]
          have hsame := hmap.symm.trans (htruth.failed hfalse).1
          exact Multimap.erase_ne_self hn hsame

end

/-! ## Runs -/

/-- **When results tell what happened**: in every run of calls, whatever becomes of each
`zmq_setsockopt`, every call tells the truth exactly if no call registers a pair that is already
there and the socket accepts every option it is given. -/
theorem tellsTruth_run_iff (calls : List (ClientCall Target)) :
    (∀ x ∈ trace exec fresh calls, TellsTruth x) ↔ ∀ x ∈ trace exec fresh calls, Smooth x := by
  refine Run.forall_iff (I := fun c => ∃ reg, InStep c reg) ?_ ?_ (run_trace exec fresh calls)
    ⟨[], represents_empty, fun _ => rfl⟩
  · rintro c call t rfl ⟨reg, h⟩
    exact ⟨smooth_of_tellsTruth h.represents, tellsTruth_of_smooth h⟩
  · rintro c call t rfl ⟨reg, h⟩ hsmooth
    exact ⟨_, inStep_of_smooth h hsmooth⟩

/-- A refused subscription leaves the pair in the map, a second observer then joins a type that is
not subscribed, a repeated registration returns true, and a refused unsubscription leaves the pair
out of the map. -/
theorem not_tellsTruth_refused :
    (¬ ∀ x ∈ trace exec fresh [⟨.register [1] 0, some .EINTR⟩], TellsTruth x) ∧
    (¬ ∀ x ∈ trace exec fresh [⟨.register [1] 0, some .EINTR⟩, ⟨.register [1] 1, none⟩],
      ∀ object, (([1], object) : EventType × Nat) ∈ x.post.eventObjectMap.entries →
        0 < x.post.subSocket.refs [1]) ∧
    (¬ ∀ x ∈ trace exec fresh [⟨.register [1] 0, none⟩, ⟨.register [1] 0, none⟩], TellsTruth x) ∧
    ¬ ∀ x ∈ trace exec fresh [⟨.register [1] 0, none⟩, ⟨.unregister [1] 0, some .EINTR⟩],
      TellsTruth x := by
  refine ⟨fun h => ?_, fun h => ?_, fun h => ?_, fun h => ?_⟩
  · have hsubscribed := (h _ List.mem_cons_self).subscribed [1] 0
    revert hsubscribed
    decide
  · have hsubscribed := h _ (List.mem_cons_of_mem _ List.mem_cons_self) 1
    revert hsubscribed
    decide
  · have hadded := (h _ (List.mem_cons_of_mem _ List.mem_cons_self)).added [1] 0 rfl
    revert hadded
    decide
  · have hfailed := (h _ (List.mem_cons_of_mem _ List.mem_cons_self)).failed (by decide)
    have hnodes := congrArg (fun m => m.nodes.length) hfailed.1
    revert hnodes
    decide

end EventClient
end EventBus
