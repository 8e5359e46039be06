import EventBus.Client.Basic
import EventBus.Center.Basic

/-!
# `EventTarget`

A target passes every call on to a client. Which one is settled twice: the constructor looks up the
client of its own thread, and `set_client` (which `MThread::_thread_run` calls for the client of the
new thread) puts another one in its place. A target constructed on a thread without a client has
none.
-/

namespace EventBus

open MZmq

/-- `client` is `_client`, with `none` for the null pointer. -/
structure EventTarget where
  client : Option ClientRef
  deriving DecidableEq, Repr

/-- The clients there are, by reference. -/
abbrev Clients (Target : Type) := ClientRef → EventClient Target

namespace EventTarget
variable {Target : Type}

/-- `EventTarget::EventTarget` on the thread `id`. -/
def construct (id : ThreadId) (center : ClientCenter) : EventTarget := ⟨center.findClient id⟩

def setClient (client : ClientRef) (_ : EventTarget) : EventTarget := ⟨some client⟩

section Observers
variable [DecidableEq Target]

def subscribe (o : Outcome) (type : EventType) (object : Target) (t : EventTarget)
    (clients : Clients Target) : Bool × Clients Target :=
  match t.client with
  | none => (false, clients)
  | some k =>
      let r := EventClient.registerObserver o type object (clients k)
      (r.1, Function.update clients k r.2)

def unsubscribe (o : Outcome) (type : EventType) (object : Target) (t : EventTarget)
    (clients : Clients Target) : Bool × Clients Target :=
  match t.client with
  | none => (false, clients)
  | some k =>
      let r := EventClient.unregisterObserver o type object (clients k)
      (r.1, Function.update clients k r.2)

end Observers

/-- The pointer is used without a test: the result is `none` if it is null. -/
def publishEvent (o₁ o₂ : Outcome) (type : EventType) (content : EventContent) (t : EventTarget)
    (clients : Clients Target) : Option (Clients Target) :=
  t.client.map fun k =>
    Function.update clients k (EventClient.publishEvent o₁ o₂ type content (clients k))

/-- The pointer is used without a test: the result is `none` if it is null. -/
def publishLocEvent (type : EventType) (content : EventContent) (t : EventTarget)
    (clients : Clients Target) : Option (List (Call Target)) :=
  t.client.map fun k => EventClient.publishLocEvent type content (clients k)

end EventTarget
end EventBus
