import EventBus.LibZmq.Dist
import EventBus.LibZmq.Pipes
import Mathlib.Data.Finset.Basic

/-!
# A publishing socket and its pipes

`Publisher` is an XPUB socket with all its pipes. Its own thread attaches pipes, handles commands,
reads subscriptions, terminates pipes and sends; the threads at the other ends of the pipes take
steps of theirs in between. What `dist_t` believes of a pipe is kept up to date by what the end of
the pipe tells the socket while a command is handled.

A step is not possible where the code would read a place outside an array, fail an assertion or use
something that has been freed. The options are those a socket is made with: it loses what a full
pipe does not take (`ZMQ_XPUB_NODROP` would have it fail instead), it has no welcome message for a
new pipe, which is not subscribed to everything either, and it does not invert the matching. The
pipes are those of `PipePair`. `publisher_run` says that this does not happen, and what comes out
at the other end of every pipe: a subscriber gets a message if it was marked for the first frame
and had room for it then, and it gets all of it or nothing.
-/

namespace EventBus.LibZmq

open Framing Transition Table
open Table.IndexedArray (Below)

/-- The part of `dist_t::write` that is about the pipe: whether it has taken the frame. -/
def PipePair.deliver {α : Type} (f : Frame α) (p : PipePair α) : Option (Bool × PipePair α) :=
  (p.next true (.write f)).bind fun r => match r.1 with
    | .wrote _ =>
        if f.more then some (true, r.2) else (r.2.next true .flush).map fun r => (true, r.2)
    | _ => some (false, r.2)

structure Publisher (ι α : Type) where
  dist : Dist ι
  /-- `xpub_t` keeps the flag beside the distributor. -/
  more : Bool
  /-- The socket has the ends `true`. -/
  pipes : ι → PipePair α

inductive PublisherAct (ι α : Type)
  | attach (pipe : ι)
  /-- A step at the other end of a pipe. -/
  | peer (pipe : ι) (a : PipeAct α)
  /-- A step of the socket at its own end, other than sending. -/
  | own (pipe : ι) (a : PipeAct α)
  /-- `marked` are the pipes that the subscriptions mark as matching, in the order in which they do
  it. -/
  | xsend (f : Frame α) (marked : List ι)

/-- What the socket does to its end of a pipe besides sending. -/
def PipeAct.notSending {α : Type} : PipeAct α → Bool
  | .write _ | .rollback | .flush => false
  | _ => true

namespace Publisher
variable {ι α : Type} [DecidableEq ι]

def new (hwms : ι → Bool → Nat) : Publisher ι α := ⟨.new, false, fun pipe => .new (hwms pipe)⟩

/-- What `dist_t` is told when the end of a pipe handles its next command. -/
def notify (pipe : ι) (t : Publisher ι α) : Option (Dist ι) :=
  match (t.pipes pipe).event true with
  | some .write_activated => t.dist.activated pipe
  | some .pipe_terminated => t.dist.pipeTerminated pipe
  | some .read_activated | none => some t.dist

/-- `dist_t::write`. -/
def write (f : Frame α) (pipe : ι) (t : Publisher ι α) : Option (Bool × Publisher ι α) :=
  ((t.pipes pipe).deliver f).bind fun r =>
    let t := { t with pipes := Function.update t.pipes pipe r.2 }
    if r.1 then some (true, t)
    else (t.dist.refused pipe).map fun dist => (false, { t with dist })

/-- The loop of `dist_t::distribute`, in at most so many rounds. After a write that failed another
pipe is at the same place. -/
def distribute (f : Frame α) : Nat → Nat → Publisher ι α → Option (Publisher ι α)
  | 0, _, _ => none
  | rounds + 1, i, t =>
      if i < t.dist.matching then
        t.dist.pipes.items[i]?.bind fun pipe =>
          (t.write f pipe).bind fun r => distribute f rounds (if r.1 then i + 1 else i) r.2
      else some t

def sendToMatching (f : Frame α) (t : Publisher ι α) : Option (Publisher ι α) :=
  (if t.dist.matching = 0 then some t else distribute f (t.dist.matching + 1) 0 t).map fun t =>
    { t with dist := t.dist.sent f.more }

def mark : List ι → Dist ι → Option (Dist ι)
  | [], d => some d
  | pipe :: pipes, d => (d.matchPipe pipe).bind (mark pipes)

def xsend (f : Frame α) (marked : List ι) (t : Publisher ι α) : Option (Publisher ι α) :=
  (if t.more then some t.dist else mark marked t.dist).bind fun dist =>
    (sendToMatching f { t with dist }).map fun t =>
      { t with dist := if f.more then t.dist else t.dist.unmatch, more := f.more }

/-- Whether the threads are where they can take the step: the socket has one thread, and it uses only
the pipes that have been attached to it. -/
def mayAct (t : Publisher ι α) : PublisherAct ι α → Bool
  | .attach pipe => Pipes.mayAttach t.dist.pipes.items pipe t.pipes
  | .peer _ _ => true
  | .own pipe a => Pipes.mayOwn t.dist.pipes.items pipe a t.pipes && a.notSending
  | .xsend _ marked =>
      !Pipes.busy t.dist.pipes.items t.pipes &&
        (t.more || marked.all fun pipe => decide (pipe ∈ t.dist.pipes.items))

def next (t : Publisher ι α) (a : PublisherAct ι α) : Option (Publisher ι α) :=
  if !t.mayAct a then none
  else match a with
    | .attach pipe => (t.dist.attach pipe).map fun dist => { t with dist }
    | .peer pipe a => (Pipes.next false pipe a t.pipes).map fun r => { t with pipes := r.2 }
    | .own pipe .processCommand => (t.notify pipe).bind fun dist =>
        (Pipes.next true pipe .processCommand t.pipes).map fun r => { t with dist, pipes := r.2 }
    | .own pipe a => (Pipes.next true pipe a t.pipes).map fun r => { t with pipes := r.2 }
    | .xsend f marked => t.xsend f marked

/-- Whether a step may be taken, and there is something to do in it. -/
def ready (t : Publisher ι α) (a : PublisherAct ι α) : Bool :=
  t.mayAct a && match a with
    | .peer pipe a => Pipes.ready false pipe a t.pipes
    | .own pipe a => Pipes.ready true pipe a t.pipes
    | _ => true

def Step (t : Publisher ι α) (a : PublisherAct ι α) (t' : Publisher ι α) : Prop :=
  t.next a = some t'

end Publisher

/-! ## What a subscriber is meant to get -/

/-- The messages sent to a pipe, and the parts of the one that is being sent to it now. -/
structure Reception (α : Type) where
  parts : Option (List α)
  messages : List (Message α)

namespace Reception
variable {ι α : Type} [DecidableEq ι]

/-- A frame is sent to the pipe. -/
def take (f : Frame α) (r : Reception α) : Reception α :=
  if f.more then { r with parts := some (r.parts.getD [] ++ [f.data]) }
  else ⟨none, r.messages ++ [Message.close (r.parts.getD []) f.data]⟩

/-- The rest of the message is not sent to the pipe. -/
def drop (r : Reception α) : Reception α := { r with parts := none }

/-- Whether the pipe takes part in a message is settled when the message begins. -/
def start (marked room : Bool) (r : Reception α) : Reception α :=
  { r with parts := if marked && room then some [] else none }

theorem isSome_start (marked room : Bool) (r : Reception α) :
    (r.start marked room).parts.isSome = (marked && room) := by
  cases marked <;> cases room <;> rfl

theorem getD_of_not {r : Reception α} (h : ¬ r.parts.isSome = true) : r.parts.getD [] = [] := by
  rw [Option.not_isSome_iff_eq_none.mp h]
  rfl

theorem getD_start (marked room : Bool) (r : Reception α) :
    (r.start marked room).parts.getD [] = [] := by
  cases marked <;> cases room <;> rfl

/-- A pipe takes part in a message if it is marked for it and has room, and as long as its end is
active. -/
def after (pipe : ι) (r : Reception α) (x : Taken (Publisher ι α) (PublisherAct ι α)) :
    Reception α :=
  match x.label with
  | .xsend f marked =>
      let own := (x.pre.pipes pipe).ends true
      let r := if x.pre.more then r else r.start (pipe ∈ marked) own.checkHwm
      if r.parts.isSome && own.state = .active then r.take f else r.drop
  | _ => r

end Reception

namespace Publisher
variable {ι α : Type} [DecidableEq ι]

/-- What has been sent to a pipe in a run. -/
def sentTo (pipe : ι) (tr : List (Taken (Publisher ι α) (PublisherAct ι α))) : Reception α :=
  tr.foldl (Reception.after pipe) ⟨none, []⟩

/-- What has been read at the other end of a pipe in a run. -/
def readAt (pipe : ι) (tr : List (Taken (Publisher ι α) (PublisherAct ι α))) : List (Frame α) :=
  tr.flatMap fun x => match x.label with
    | .peer pipe' a => (Pipes.peerTransfer pipe pipe' a x.pre.pipes).frames
    | _ => []

end Publisher
end EventBus.LibZmq
