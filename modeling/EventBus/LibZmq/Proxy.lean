import EventBus.LibZmq.Publisher
import EventBus.LibZmq.Subscriber

/-!
# The proxy

`zmq::proxy` between an XSUB and an XPUB socket, in the direction from the publishers to the
subscribers. When the poll has found something at the frontend, `forward` carries a whole message:
it receives one frame after the other and sends each to the backend, with `ZMQ_SNDMORE` if the frame
says that there is more to come. So frames reach the backend as they came from the frontend, and it
is always possible to send, because an XPUB socket drops what it cannot send.

Both sockets are the thread's own, with the pipes of `Subscriber` and `Publisher`, and the threads at
the other ends of all these pipes come in between any two steps. `proxy_run` follows the messages
from one side to the other.
-/

namespace EventBus.LibZmq

open Framing Transition

/-- Where the thread is: it polls, or it is in the loop of `forward`. -/
inductive ProxyPlace (α : Type)
  | polls
  /-- `from_->recv (&msg_, 0)`. -/
  | receives
  /-- `to_->send (&msg_, more ? ZMQ_SNDMORE : 0)`. -/
  | sends (msg : Frame α)

structure Proxy (ι κ α : Type) where
  frontend : Subscriber ι α
  backend : Publisher κ α
  place : ProxyPlace α

inductive ProxyAct (ι κ α : Type)
  | frontend (a : SubscriberAct ι α)
  /-- Other than sending. -/
  | backend (a : PublisherAct κ α)
  /-- `frontend_in` is set, and `forward` is called. -/
  | forward
  | send (marked : List κ)

namespace Proxy
variable {ι κ α : Type} [DecidableEq ι] [DecidableEq κ]

def new (accepts : α → Bool) (hwms : ι → Bool → Nat) (hwms' : κ → Bool → Nat) : Proxy ι κ α :=
  ⟨.new accepts hwms, .new hwms', .polls⟩

/-- Whether the thread is where it can take the step: it polls for input between two messages only,
and while it has a frame in its hands it receives no other. -/
def mayAct (t : Proxy ι κ α) : ProxyAct ι κ α → Bool
  | .frontend (.call polls) => match t.place with
      | .polls => polls
      | .receives => !polls
      | .sends _ => false
  | .frontend (.filter _) => match t.place with
      | .polls => true
      | .receives | .sends _ => false
  | .frontend _ => true
  | .backend (.xsend _ _) => false
  | .backend _ => true
  | .forward => match t.place with
      | .polls => decide (t.frontend.place = .idle) && t.frontend.message.isSome
      | .receives | .sends _ => false
  | .send _ => match t.place with
      | .sends _ => true
      | .polls | .receives => false

def next (t : Proxy ι κ α) (a : ProxyAct ι κ α) : Option (Proxy ι κ α) :=
  if !t.mayAct a then none
  else match a with
    | .frontend a => (t.frontend.next a).map fun r =>
        { t with frontend := r.2, place := r.1.received.elim t.place .sends }
    | .backend a => (t.backend.next a).map fun backend => { t with backend }
    | .forward => some { t with place := .receives }
    | .send marked => match t.place with
        | .sends msg => (t.backend.next (.xsend msg marked)).map fun backend =>
            { t with backend, place := if msg.more then .receives else .polls }
        | .polls | .receives => none

/-- Whether a step may be taken, and there is something to do in it. -/
def ready (t : Proxy ι κ α) (a : ProxyAct ι κ α) : Bool :=
  t.mayAct a && match a with
    | .frontend a => t.frontend.ready a
    | .backend a => t.backend.ready a
    | .forward => true
    | .send marked => match t.place with
        | .sends msg => t.backend.ready (.xsend msg marked)
        | .polls | .receives => false

def Step (t : Proxy ι κ α) (a : ProxyAct ι κ α) (t' : Proxy ι κ α) : Prop := t.next a = some t'

/-! ## The two sides of a run -/

/-- The step of the frontend in a step. -/
def onFrontend (x : Taken (Proxy ι κ α) (ProxyAct ι κ α)) :
    Option (Taken (Subscriber ι α) (SubscriberAct ι α)) :=
  match x.label with
  | .frontend a => some ⟨x.pre.frontend, a, x.post.frontend⟩
  | _ => none

def onBackend (x : Taken (Proxy ι κ α) (ProxyAct ι κ α)) :
    Option (Taken (Publisher κ α) (PublisherAct κ α)) :=
  match x.label with
  | .backend a => some ⟨x.pre.backend, a, x.post.backend⟩
  | .send marked => match x.pre.place with
      | .sends msg => some ⟨x.pre.backend, .xsend msg marked, x.post.backend⟩
      | .polls | .receives => none
  | _ => none

end Proxy

end EventBus.LibZmq
