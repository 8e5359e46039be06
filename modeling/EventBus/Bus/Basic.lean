import EventBus.Client.Dispatch
import EventBus.Transition.Run
import Mathlib.Data.Finset.Card

/-!
# The whole bus

Every client has a PUB socket connected to the XSUB socket of the proxy, and a SUB socket connected
to its XPUB socket. `EventBus::run` is `zmq_proxy(xsub, xpub, NULL)`: it carries events from XSUB to
XPUB and subscription messages from XPUB to XSUB.

```
  publish_event ─ PUB ── pubPipe ──▶ XSUB ─ proxy ─ XPUB ── subPipe ──▶ SUB ─ handle_event
                      ◀── pubUp ──                       ◀─ upstream ──
```

A step of the bus is a call of one client or one thing the library does on its own. Pipes are FIFO
and carry whole messages. Each socket filters by its own table, and every table lags behind the
registrations by whatever is still in the pipes. A pipe that is full loses the message it should
take; the labels say which events are lost. Subscription messages are never lost here: the pipes are
taken to have room for them, and so `call`, `xpubRead` and `proxySub` have nothing to say of it.
-/

namespace EventBus

open Framing MZmq Transition

/-- A topic of the table is a prefix of the title. -/
def prefixMatch (topic : EventType → Bool) (title : EventType) : Bool := title.inits.any topic

/-- A message in a pipe to a SUB socket. No step looks at where it came from. -/
structure Packet (ι : Type) where
  src : ι
  message : Message Bytes

structure Bus (ι Target : Type) where
  client : ι → EventClient Target
  /-- The topics each PUB socket has been asked for. -/
  pubTopics : ι → Finset EventType
  pubPipe : ι → List (Message Bytes)
  pubUp : ι → List SubMsg
  xsubRefs : EventType → Nat
  /-- The clients XPUB has under each topic. -/
  xpubTable : EventType → Finset ι
  /-- Subscription messages XPUB has for the proxy. -/
  xpubPending : List SubMsg
  subPipe : ι → List (Packet ι)

/-- What one call of `handle_event` took from the bus and what it dispatched. -/
structure Delivery (ι Target : Type) where
  src : ι
  dispatch : EventClient.Dispatch Target

/-- The steps of the bus. -/
inductive Act (ι Target : Type)
  /-- `register_observer` or `unregister_observer` on a client. -/
  | call (c : ι) (call : EventClient.ClientCall Target)
  /-- `publish_event`; the message is lost where `kept` is false. -/
  | publish (p : ι) (type : EventType) (content : EventContent) (kept : Bool)
  | handle (c : ι)
  /-- The proxy carries the next event of one publisher; it is lost on the pipes `kept` excludes. -/
  | proxyEvent (p : ι) (kept : ι → Bool)
  /-- The proxy carries the next subscription message. -/
  | proxySub
  /-- XPUB reads the next subscription message of one client. -/
  | xpubRead (c : ι)
  /-- A PUB socket reads its next subscription message. -/
  | pubRead (p : ι)

namespace Bus
variable {ι Target : Type} [DecidableEq ι]

/-- Every client has been constructed, and nothing else has happened. -/
def initial : Bus ι Target where
  client := fun _ => .fresh
  pubTopics := fun _ => ∅
  pubPipe := fun _ => []
  pubUp := fun _ => []
  xsubRefs := fun _ => 0
  xpubTable := fun _ => ∅
  xpubPending := []
  subPipe := fun _ => []

/-! ## Events -/

/-- The messages a PUB socket has completed beyond those it had completed before. -/
def newMessages (before after : SendSocket) : List (Message Bytes) :=
  after.messages.drop before.messages.length

def publish (p : ι) (type : EventType) (content : EventContent) (kept : Bool) (s : Bus ι Target) :
    Bus ι Target :=
  let c := EventClient.publishEvent none none type content (s.client p)
  -- the PUB socket filters on the first frame
  let out := (newMessages (s.client p).pubSocket c.pubSocket).filter
    fun m => prefixMatch (fun t => t ∈ s.pubTopics p) m.first && kept
  { s with
    client := Function.update s.client p c
    pubPipe := Function.update s.pubPipe p (s.pubPipe p ++ out) }

/-- XPUB sends a message once to every pipe that has a topic for it. -/
def proxyEvent (p : ι) (kept : ι → Bool) (s : Bus ι Target) : Option (Bus ι Target) :=
  match s.pubPipe p with
  | [] => none
  | m :: ms => some { s with
      pubPipe := Function.update s.pubPipe p ms
      subPipe := fun c => s.subPipe c ++
        if prefixMatch (fun t => c ∈ s.xpubTable t) m.first && kept c then [⟨p, m⟩] else [] }

/-- The messages waiting for a SUB socket, from the first one it has a subscription for. -/
def waiting (c : ι) (s : Bus ι Target) : List (Packet ι) :=
  (s.subPipe c).dropWhile fun k =>
    !prefixMatch (fun t => 0 < (s.client c).subSocket.refs t) k.message.first

/-- `handle_event` on a client. The SUB socket throws away what it has no subscription for; if a
message is left the poll returns with the socket readable, else after the timeout. -/
def handle (c : ι) (s : Bus ι Target) :
    Bus ι Target × Option (Delivery ι Target) :=
  match s.waiting c with
  | [] =>
      let r := EventClient.handleEvent .timeout none none (s.client c)
      ({ s with
        client := Function.update s.client c r.1
        subPipe := Function.update s.subPipe c [] }, none)
  | k :: ks =>
      let recv := (s.client c).subSocket.recv
      let ready := (s.client c).receiving (s.client c).revents
        { recv with frames := recv.frames ++ k.message.frames }
      let r := EventClient.handleEvent .ready none none ready
      ({ s with
        client := Function.update s.client c r.1
        subPipe := Function.update s.subPipe c ks }, r.2.map fun d => ⟨k.src, d⟩)

/-! ## Subscription messages -/

/-- XPUB enters or removes the pipe under the topic. The proxy is told if the topic was not in the
table before, or has no pipe left. -/
def xpubRead (c : ι) (s : Bus ι Target) : Option (Bus ι Target) :=
  match (s.client c).subSocket.upstream with
  | [] => none
  | msg :: msgs =>
      let cl := { s.client c with subSocket := { (s.client c).subSocket with upstream := msgs } }
      let s := { s with client := Function.update s.client c cl }
      match msg with
      | .subscribe topic => some { s with
          xpubTable := Function.update s.xpubTable topic (insert c (s.xpubTable topic))
          xpubPending := s.xpubPending ++ if (s.xpubTable topic).card = 0 then [msg] else [] }
      | .unsubscribe topic =>
          let left := (s.xpubTable topic).erase c
          some { s with
            xpubTable := Function.update s.xpubTable topic left
            xpubPending := s.xpubPending ++
              if c ∉ s.xpubTable topic ∨ left.card = 0 then [msg] else [] }

/-- XSUB passes the message on to every PUB socket, or keeps it to itself. -/
def proxySub (s : Bus ι Target) : Option (Bus ι Target) :=
  match s.xpubPending with
  | [] => none
  | msg :: msgs =>
      let r := xsubSend msg s.xsubRefs
      some { s with
        xpubPending := msgs
        xsubRefs := r.1
        pubUp := fun p => s.pubUp p ++ r.2 }

def pubRead (p : ι) (s : Bus ι Target) : Option (Bus ι Target) :=
  match s.pubUp p with
  | [] => none
  | msg :: msgs =>
      let topics := match msg with
        | .subscribe topic => insert topic (s.pubTopics p)
        | .unsubscribe topic => (s.pubTopics p).erase topic
      some { s with
        pubUp := Function.update s.pubUp p msgs
        pubTopics := Function.update s.pubTopics p topics }

/-! ## Steps -/

variable [DecidableEq Target]

/-- One step, where it is possible. -/
def next (s : Bus ι Target) : Act ι Target → Option (Bus ι Target)
  | .call c call => some { s with client := Function.update s.client c ((s.client c).exec call) }
  | .publish p type content kept => some (s.publish p type content kept)
  | .handle c => some (s.handle c).1
  | .proxyEvent p kept => s.proxyEvent p kept
  | .proxySub => s.proxySub
  | .xpubRead c => s.xpubRead c
  | .pubRead p => s.pubRead p

def Step (s : Bus ι Target) (a : Act ι Target) (t : Bus ι Target) : Prop := s.next a = some t

/-! ## What happens in a run -/

/-- The event a step publishes at `p`. -/
def published (p : ι) (x : Taken (Bus ι Target) (Act ι Target)) :
    Option (EventType × EventContent) :=
  match x.label with
  | .publish q type content _ => if q = p then some (type, content) else none
  | _ => none

/-- What a step delivers at `c`. -/
def delivered (c : ι) (x : Taken (Bus ι Target) (Act ι Target)) : Option (Delivery ι Target) :=
  match x.label with
  | .handle c' => if c' = c then (x.pre.handle c).2 else none
  | _ => none

/-- The event from `p` a step dispatches at `c`. -/
def dispatchedFrom (p c : ι) (x : Taken (Bus ι Target) (Act ι Target)) :
    Option (EventType × EventContent) :=
  (delivered c x).bind fun d =>
    if d.src = p then some (d.dispatch.title, d.dispatch.content) else none

/-- The registration a step makes at `c`. -/
def operation (c : ι) (x : Taken (Bus ι Target) (Act ι Target)) :
    Option (EventClient.ClientOp Target) :=
  match x.label with
  | .call c' call => if c' = c then some call.op else none
  | _ => none

end Bus
end EventBus
