import EventBus.MZmq.Send
import EventBus.MZmq.Recv
import EventBus.Multimap.Iterator
import Mathlib.Data.List.Lex
import Mathlib.Logic.Function.Basic
import Mathlib.Order.Fin.Basic

/-!
# `EventClient`

The per-thread client: the map from event types to observers, the SUB socket with its subscriptions,
the PUB socket, and the poll item. The functions below follow `EventClient.cpp` statement by
statement; handlers are recorded as the calls made to them and do not change the map here
(`Client/Reentrant` is about handlers that do).
-/

namespace EventBus

open Framing MZmq

/-- `std::string`, compared byte by byte, a proper prefix being smaller. -/
abbrev EventType := Bytes

abbrev EventContent := Bytes

/-! ## The SUB socket -/

/-- What a SUB socket tells the other side about its subscriptions. -/
inductive SubMsg
  | subscribe (topic : EventType)
  | unsubscribe (topic : EventType)
  deriving DecidableEq, Repr

/-- A SUB socket: the reference count of every subscription, the subscription messages it has sent
upstream, and what is waiting to be received. -/
structure SubSocket where
  refs : EventType → Nat
  upstream : List SubMsg
  recv : RecvSocket

inductive SubOption
  | ZMQ_SUBSCRIBE | ZMQ_UNSUBSCRIBE
  deriving DecidableEq, Repr

/-- `xsub_t::xsend` of a subscription message: the new reference counts, and the message if it is
passed on. Every subscription is; an unsubscription is when it takes the last reference. -/
def xsubSend (msg : SubMsg) (refs : EventType → Nat) : (EventType → Nat) × List SubMsg :=
  match msg with
  | .subscribe topic => (Function.update refs topic (refs topic + 1), [msg])
  | .unsubscribe topic =>
      (Function.update refs topic (refs topic - 1), if refs topic = 1 then [msg] else [])

/-- The message `sub_t::xsetsockopt` makes of an option. -/
def SubOption.msg : SubOption → EventType → SubMsg
  | .ZMQ_SUBSCRIBE, topic => .subscribe topic
  | .ZMQ_UNSUBSCRIBE, topic => .unsubscribe topic

/-- `zmq_setsockopt(s, option, topic)`. -/
def zmqSetsockopt (o : Outcome) (option : SubOption) (topic : EventType) (s : SubSocket) :
    Int × SubSocket :=
  match o with
  | some _ => (-1, s)
  | none =>
      let r := xsubSend (option.msg topic) s.refs
      (0, { s with refs := r.1, upstream := s.upstream ++ r.2 })

/-! ## The client -/

structure EventClient (Target : Type) where
  eventObjectMap : Multimap EventType Target
  subSocket : SubSocket
  pubSocket : SendSocket
  /-- `sub_items.revents` -/
  revents : BitVec 16

/-- One `event_handle(type, content)` call on an observer. -/
structure Call (Target : Type) where
  target : Target
  type : EventType
  content : EventContent
  deriving DecidableEq, Repr

namespace EventClient
variable {Target : Type}

/-- The client after its constructor. -/
def fresh : EventClient Target where
  eventObjectMap := .empty
  subSocket := ⟨fun _ => 0, [], ⟨[], false⟩⟩
  pubSocket := .fresh
  revents := 0

/-! ## Registering and unregistering -/

section Observers
variable [DecidableEq Target]

/-- The loop of `register_observer` over the entries from `find(type)` on: is the object already
there under the type? -/
def alreadyObserved (type : EventType) (object : Target) : List (Node EventType Target) → Bool
  | [] => false
  | n :: ns => if type = n.key ∧ n.val = object then true else alreadyObserved type object ns

def registerObserver (o : Outcome) (type : EventType) (object : Target) (c : EventClient Target) :
    Bool × EventClient Target :=
  let it := c.eventObjectMap.find type
  if it ≠ none then
    if alreadyObserved type object (c.eventObjectMap.suffix it) then (true, c)
    else (true, { c with eventObjectMap := c.eventObjectMap.insert type object })
  else
    let c₁ := { c with eventObjectMap := c.eventObjectMap.insert type object }
    let r := zmqSetsockopt o .ZMQ_SUBSCRIBE type c₁.subSocket
    if r.1 ≠ 0 then (false, { c₁ with subSocket := r.2 })
    else (true, { c₁ with subSocket := r.2 })

/-- The loop of `unregister_observer`: the first entry of the object under the type. -/
def observerEntry (type : EventType) (object : Target) :
    List (Node EventType Target) → Option (Node EventType Target)
  | [] => none
  | n :: ns => if type = n.key ∧ n.val = object then some n else observerEntry type object ns

def unregisterObserver (o : Outcome) (type : EventType) (object : Target)
    (c : EventClient Target) : Bool × EventClient Target :=
  match observerEntry type object (c.eventObjectMap.suffix c.eventObjectMap.begin) with
  | none => (true, c)
  | some n =>
      let c₁ := { c with eventObjectMap := c.eventObjectMap.erase n.id }
      if c₁.eventObjectMap.find type = none then
        let r := zmqSetsockopt o .ZMQ_UNSUBSCRIBE type c₁.subSocket
        if r.1 ≠ 0 then (false, { c₁ with subSocket := r.2 })
        else (true, { c₁ with subSocket := r.2 })
      else (true, c₁)

end Observers

/-! ## Publishing -/

def publishEvent (o₁ o₂ : Outcome) (type : EventType) (content : EventContent)
    (c : EventClient Target) : EventClient Target :=
  { c with pubSocket := MZmq.publishEvent o₁ o₂ type content c.pubSocket }

/-- The body of the dispatch loops, for each entry visited. -/
def dispatch (type : EventType) (content : EventContent) (ns : List (Node EventType Target)) :
    List (Call Target) :=
  ns.map fun n => ⟨n.val, type, content⟩

/-- The loop runs from `find(type)` to `end()`. -/
def publishLocEvent (type : EventType) (content : EventContent) (c : EventClient Target) :
    List (Call Target) :=
  dispatch type content (c.eventObjectMap.suffix (c.eventObjectMap.find type))

/-! ## Handling an event -/

/-- How `zmq_poll` returns: with the socket readable, after the timeout, or with `-1` before
`revents` has been written. -/
inductive Poll
  | ready | timeout | interrupted
  deriving DecidableEq, Repr

def ZMQ_POLLIN : BitVec 16 := 1

/-- `sub_items.revents` after `zmq_poll`. -/
def zmqPoll (poll : Poll) (revents : BitVec 16) : BitVec 16 :=
  match poll with
  | .ready => ZMQ_POLLIN
  | .timeout => 0
  | .interrupted => revents

/-- One execution of the dispatch loop of `handle_event`. -/
structure Dispatch (Target : Type) where
  title : EventType
  content : EventContent
  calls : List (Call Target)

/-- The loop of `handle_event` for a title and a content: over `equal_range(title)`. -/
def dispatchTitle (title : EventType) (content : EventContent) (c : EventClient Target) :
    List (Call Target) :=
  let search := c.eventObjectMap.equalRange title
  dispatch title content (c.eventObjectMap.range search.1 search.2)

def handleEvent (poll : Poll) (o₁ o₂ : Outcome) (c : EventClient Target) :
    EventClient Target × Option (Dispatch Target) :=
  let revents := zmqPoll poll c.revents
  if revents &&& ZMQ_POLLIN ≠ 0 then
    let r := recvEventEntity o₁ o₂ c.subSocket.recv
    ({ c with revents := revents, subSocket := { c.subSocket with recv := r.socket } },
      some ⟨r.title, r.content, c.dispatchTitle r.title r.content⟩)
  else ({ c with revents := revents }, none)

/-! ## Runs of registrations -/

inductive ClientOp (Target : Type)
  | register (type : EventType) (object : Target)
  | unregister (type : EventType) (object : Target)
  deriving DecidableEq, Repr

/-- A call, and the outcome of the `zmq_setsockopt` it may make. -/
structure ClientCall (Target : Type) where
  op : ClientOp Target
  sockopt : Outcome

section Observers
variable [DecidableEq Target]

def exec (c : EventClient Target) (call : ClientCall Target) : EventClient Target :=
  match call.op with
  | .register type object => (registerObserver call.sockopt type object c).2
  | .unregister type object => (unregisterObserver call.sockopt type object c).2

/-- The client after a history of calls. -/
def run (calls : List (ClientCall Target)) : EventClient Target := calls.foldl exec fresh

end Observers

end EventClient
end EventBus
