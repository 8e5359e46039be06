import EventBus.Target.Basic

/-!
# What `publish_loc_event` tells its caller

An observer's `event_handle` returns `NONE_HANDLE` for an event it does not handle, and any other
number otherwise. According to its comment `EventTarget::publish_loc_event` passes this on:
`NONE_HANDLE` if the event was not handled. But `EventClient::publish_loc_event`, which makes the
calls, drops their results and returns nothing, and `EventTarget::publish_loc_event` runs off its
end without a `return`. Its caller finds what happens to be left where the result is expected.
-/

namespace EventBus

/-- The 32 bits of the `int` that stands for "not handled". -/
def NONE_HANDLE : BitVec 32 := 0xA5A5A5EF#32

namespace EventTarget
variable {Target : Type}

/-- `EventTarget::event_handle`, which observers override. -/
def eventHandle (_type : EventType) (_content : EventContent) : BitVec 32 := NONE_HANDLE

/-- What `handled`, the `event_handle` of the observers, returns to the loop, call by call. -/
def results (handled : Nat → Call Target → BitVec 32) (calls : List (Call Target)) :
    List (BitVec 32) := calls.mapIdx handled

/-- `publish_loc_event` as its caller sees it: the calls it makes, and the value of the call itself.
There is no `return`, so that value is `leftover`, whatever the calls return. -/
def publishLocEventValue (leftover : BitVec 32) (type : EventType) (content : EventContent)
    (t : EventTarget) (clients : Clients Target) : Option (List (Call Target) × BitVec 32) :=
  (t.publishLocEvent type content clients).map fun calls => (calls, leftover)

/-! ## What the value is meant to say -/

/-- The value is `NONE_HANDLE` exactly if no observer handled the event, and otherwise the result of
one that did. -/
def Reports (results : List (BitVec 32)) (value : BitVec 32) : Prop :=
  (value = NONE_HANDLE ↔ ∀ r ∈ results, r = NONE_HANDLE) ∧
    (value ≠ NONE_HANDLE → value ∈ results)

/-- Some value always reports: the first result that is not `NONE_HANDLE`, if there is one. -/
theorem exists_reports (results : List (BitVec 32)) : ∃ value, Reports results value := by
  cases hfind : results.find? (fun r => r ≠ NONE_HANDLE) with
  | none =>
      refine ⟨NONE_HANDLE, iff_of_true rfl ?_, fun hne => absurd rfl hne⟩
      simpa using hfind
  | some r =>
      have hmem := List.mem_of_find?_eq_some hfind
      have hne : r ≠ NONE_HANDLE := by simpa using List.find?_some hfind
      exact ⟨r, iff_of_false hne fun hall => hne (hall r hmem), fun _ => hmem⟩

/-- No results leave the value open altogether. -/
theorem exists_not_reports (results : List (BitVec 32)) : ∃ value, ¬ Reports results value := by
  by_cases hall : ∀ r ∈ results, r = NONE_HANDLE
  · refine ⟨0, fun hreports => ?_⟩
    have hvalue := hreports.1.mpr hall
    cases hvalue
  · exact ⟨NONE_HANDLE, fun hreports => hall (hreports.1.mp rfl)⟩

/-- Where nobody overrides `event_handle`, or nobody is called, there is one right value. -/
theorem reports_eventHandle (calls : List (Call Target)) (value : BitVec 32) :
    Reports (results (fun _ call => eventHandle call.type call.content) calls) value ↔
      value = NONE_HANDLE := by
  have hall : ∀ r ∈ results (fun _ call => eventHandle call.type call.content) calls,
      r = NONE_HANDLE := by
    intro r hr
    obtain ⟨i, hi, rfl⟩ := List.mem_mapIdx.mp hr
    rfl
  constructor
  · exact fun hreports => hreports.1.mpr hall
  · exact fun hvalue => ⟨iff_of_true hvalue hall, fun hne => absurd hvalue hne⟩

/-! ## What the value says -/

/-- **The value never reports**: whatever the client holds, whatever is published, and whatever the
observers return, the value the caller finds may be a wrong one. -/
theorem not_reports_publishLocEvent (k : ClientRef) (clients : Clients Target) (type : EventType)
    (content : EventContent) (handled : Nat → Call Target → BitVec 32) :
    ¬ ∀ leftover calls value,
      publishLocEventValue leftover type content ⟨some k⟩ clients = some (calls, value) →
        Reports (results handled calls) value := by
  intro h
  let calls := EventClient.publishLocEvent type content (clients k)
  obtain ⟨value, hnot⟩ := exists_not_reports (results handled calls)
  exact hnot (h value calls value rfl)

/-- The only observer of `[1]` handles the event and returns 0. What is left is `NONE_HANDLE`, and
the caller takes the event for one that nobody has handled. -/
theorem not_reports_handled :
    ¬ ∀ leftover calls value,
      publishLocEventValue leftover [1] [7] ⟨some 0⟩
          (fun _ => EventClient.run [⟨.register [1] 0, none⟩]) = some (calls, value) →
        Reports (results (fun _ _ => 0) calls) value := by
  intro h
  have hreports := h NONE_HANDLE [⟨0, [1], [7]⟩] NONE_HANDLE rfl
  have hzero := hreports.1.mp rfl 0 (List.mem_singleton.mpr rfl)
  cases hzero

end EventTarget
end EventBus
