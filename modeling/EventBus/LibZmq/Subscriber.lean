import EventBus.LibZmq.Fq
import EventBus.LibZmq.Pipes

/-!
# A subscribing socket and its pipes

`Subscriber` is an XSUB or SUB socket that receives, with all its pipes. `xrecv` and `xhas_in` fetch
one frame after the other from `fq_t` until there is one that passes the filter, or none at all; the
threads at the other ends of the pipes may come in between two frames.

A step is not possible where the code would read a place outside an array, fail an assertion or use
something that has been freed. The pipes are those of `PipePair`: they do not conflate, and none is
hiccuped. In `fq_t::recvpipe` and in the loops that pop the rest of a message,
the assertions say that a message which has begun to arrive is there as a whole.
-/

namespace EventBus.LibZmq

open Framing Transition Table

/-- A frame that has been fetched, whether its data match a subscription, and whether it is for the
user. -/
structure Fetched (ι α : Type) where
  pipe : ι
  frame : Frame α
  accepted : Bool
  passed : Bool

/-- Where the thread is in `xrecv`, or in `xhas_in` if it `polls`. -/
inductive XSubPlace
  | idle
  | loops (polls : Bool)
  /-- The rest of a message that does not match is popped. -/
  | pops (polls : Bool)
  deriving DecidableEq

structure Subscriber (ι α : Type) where
  fq : Fq ι
  /-- The user is in the middle of a message. -/
  more : Bool
  /-- What `xhas_in` has fetched for the next `xrecv`: `message` if `has_message`. -/
  message : Option (Frame α)
  place : XSubPlace
  /-- `!options.filter || match (msg_)`. -/
  accepts : α → Bool
  /-- The socket has the ends `true`. -/
  pipes : ι → PipePair α

inductive SubscriberAct (ι α : Type)
  | attach (pipe : ι)
  /-- A step at the other end of a pipe. -/
  | peer (pipe : ι) (a : PipeAct α)
  /-- A step of the socket at its own end, other than reading. -/
  | own (pipe : ι) (a : PipeAct α)
  /-- The subscriptions change. -/
  | filter (accepts : α → Bool)
  /-- `xrecv` is called, or `xhas_in` if it `polls`. -/
  | call (polls : Bool)
  /-- The call that is under way fetches a frame. -/
  | fetch

/-- What comes of a step: a frame that is fetched, and a frame that the user gets. -/
structure Outcome (ι α : Type) where
  fetched : Option (Fetched ι α)
  received : Option (Frame α)

namespace Subscriber
variable {ι α : Type} [DecidableEq ι]

def new (accepts : α → Bool) (hwms : ι → Bool → Nat) : Subscriber ι α :=
  ⟨.new, false, none, .idle, accepts, fun pipe => .new (hwms pipe)⟩

/-- What `fq_t` is told when the end of a pipe handles its next command. -/
def notify (pipe : ι) (t : Subscriber ι α) : Option (Fq ι) :=
  match (t.pipes pipe).event true with
  | some .read_activated => t.fq.activated pipe
  | some .pipe_terminated => t.fq.pipeTerminated pipe
  | some .write_activated | none => some t.fq

/-- The loop of `fq_t::recvpipe`, in at most so many rounds. -/
def recvpipe : Nat → Subscriber ι α → Option (Option (ι × Frame α) × Subscriber ι α)
  | 0, _ => none
  | rounds + 1, t =>
      if 0 < t.fq.active then
        t.fq.pipes.items[t.fq.current]?.bind fun pipe =>
          (Pipes.next true pipe .read t.pipes).bind fun r =>
            let t := { t with pipes := r.2 }
            match r.1 with
            | .got f => some (some (pipe, f), { t with fq := t.fq.fetched f.more })
            | _ =>
                if t.fq.more then none
                else (t.fq.deactivate t.fq.current).bind fun fq => recvpipe rounds { t with fq }
      else some (none, t)

def recv (t : Subscriber ι α) : Option (Option (ι × Frame α) × Subscriber ι α) :=
  recvpipe (t.fq.active + 1) t

/-- The beginning of `xrecv` and of `xhas_in`. -/
def call (polls : Bool) (t : Subscriber ι α) : Outcome ι α × Subscriber ι α :=
  if polls then
    if t.more || t.message.isSome then (⟨none, none⟩, t)
    else (⟨none, none⟩, { t with place := .loops polls })
  else match t.message with
    | some f => (⟨none, some f⟩, { t with message := none, more := f.more })
    | none => (⟨none, none⟩, { t with place := .loops polls })

/-- One round of the loops of `xrecv` and of `xhas_in`. -/
def fetch (t : Subscriber ι α) : Option (Outcome ι α × Subscriber ι α) :=
  match t.place with
  | .idle => none
  | .loops polls => t.recv.map fun r => match r.1 with
      | none => (⟨none, none⟩, { r.2 with place := .idle })
      | some (pipe, f) =>
          let accepted := r.2.accepts f.data
          if !polls && r.2.more || accepted then
            if polls then
              (⟨some ⟨pipe, f, accepted, true⟩, none⟩,
                { r.2 with message := some f, place := .idle })
            else
              (⟨some ⟨pipe, f, accepted, true⟩, some f⟩, { r.2 with more := f.more, place := .idle })
          else
            (⟨some ⟨pipe, f, accepted, false⟩, none⟩,
              { r.2 with place := if f.more then .pops polls else .loops polls })
  | .pops polls => t.recv.bind fun r => match r.1 with
      | none => none
      | some (pipe, f) => some (⟨some ⟨pipe, f, r.2.accepts f.data, false⟩, none⟩,
          { r.2 with place := if f.more then .pops polls else .loops polls })

/-- Whether the threads are where they can take the step: between two calls of the user, the thread
of the socket is in none of its loops. -/
def mayAct (t : Subscriber ι α) : SubscriberAct ι α → Bool
  | .attach pipe =>
      decide (t.place = .idle) && Pipes.mayAttach t.fq.pipes.items pipe t.pipes
  | .peer _ _ => true
  | .own pipe a =>
      decide (t.place = .idle) && (Pipes.mayOwn t.fq.pipes.items pipe a t.pipes && a.notReading)
  | .filter _ | .call _ => decide (t.place = .idle) && !Pipes.busy t.fq.pipes.items t.pipes
  | .fetch => !decide (t.place = .idle) && !Pipes.busy t.fq.pipes.items t.pipes

def next (t : Subscriber ι α) (a : SubscriberAct ι α) :
    Option (Outcome ι α × Subscriber ι α) :=
  if !t.mayAct a then none
  else
    let quiet (t : Subscriber ι α) : Outcome ι α × Subscriber ι α := (⟨none, none⟩, t)
    match a with
    | .attach pipe => (t.fq.attach pipe).map fun fq => quiet { t with fq }
    | .peer pipe a =>
        (Pipes.next false pipe a t.pipes).map fun r => quiet { t with pipes := r.2 }
    | .own pipe .processCommand => (t.notify pipe).bind fun fq =>
        (Pipes.next true pipe .processCommand t.pipes).map fun r =>
          quiet { t with fq, pipes := r.2 }
    | .own pipe a => (Pipes.next true pipe a t.pipes).map fun r => quiet { t with pipes := r.2 }
    | .filter accepts => some (quiet { t with accepts })
    | .call polls => some (t.call polls)
    | .fetch => t.fetch

/-- Whether a step may be taken, and there is something to do in it. -/
def ready (t : Subscriber ι α) (a : SubscriberAct ι α) : Bool :=
  t.mayAct a && match a with
    | .peer pipe a => Pipes.ready false pipe a t.pipes
    | .own pipe a => Pipes.ready true pipe a t.pipes
    | _ => true

def Step (t : Subscriber ι α) (a : SubscriberAct ι α) (t' : Subscriber ι α) : Prop :=
  (t.next a).map Prod.snd = some t'

/-! ## What comes of a run -/

def outcome (x : Taken (Subscriber ι α) (SubscriberAct ι α)) : Outcome ι α :=
  ((x.pre.next x.label).map Prod.fst).getD ⟨none, none⟩

/-- The frames that have been fetched. -/
def fetched (tr : List (Taken (Subscriber ι α) (SubscriberAct ι α))) : List (Fetched ι α) :=
  tr.filterMap fun x => (outcome x).fetched

/-- The frames that the user has got. -/
def received (tr : List (Taken (Subscriber ι α) (SubscriberAct ι α))) : List (Frame α) :=
  tr.filterMap fun x => (outcome x).received

/-- What has been written at the other end of a pipe. -/
def writtenAt (pipe : ι) (tr : List (Taken (Subscriber ι α) (SubscriberAct ι α))) : Written α :=
  (tr.map fun x => match x.label with
    | .peer pipe' a => Pipes.peerTransfer pipe pipe' a x.pre.pipes
    | _ => .none).foldl Written.after ⟨[], []⟩

def fetchedFrom (pipe : ι) (es : List (Fetched ι α)) : List (Frame α) :=
  (es.filter fun e => e.pipe = pipe).map Fetched.frame

/-- In the middle of a message, the socket does not give up the pipe it comes from, and it does not
put another pipe in its place. -/
def Undisturbed (x : Taken (Subscriber ι α) (SubscriberAct ι α)) : Prop :=
  x.pre.fq.more = true → match x.label with
    | .own pipe (.terminate _) => x.pre.fq.pipes.items[x.pre.fq.current]? ≠ some pipe
    | .own pipe .processCommand =>
        ((x.pre.pipes pipe).mail true).head? = some .pipe_term_ack → ¬ x.pre.fq.Misplaces pipe
    | _ => True

/-- The frames of one message, which are from one pipe; and the filter looks at the first of them
only. -/
def OneMessage (es : List (Fetched ι α)) : Prop :=
  ∃ pipe passed, (∀ e ∈ es, e.pipe = pipe ∧ e.passed = passed) ∧
    (∀ e ∈ es.head?, e.accepted = passed) ∧ ∃ m : Message α, es.map Fetched.frame = m.frames

/-- The first frames of such a message. -/
def Begun (pipe : ι) (passed : Bool) (es : List (Fetched ι α)) : Prop :=
  es ≠ [] ∧ (∀ e ∈ es, e.pipe = pipe ∧ e.passed = passed ∧ e.frame.more = true) ∧
    ∀ e ∈ es.head?, e.accepted = passed

/-- Whole messages, and the one that has begun if there is one. -/
def Collected (begun : Option (ι × Bool)) (es : List (Fetched ι α)) : Prop :=
  ∃ (groups : List (List (Fetched ι α))) (rest : List (Fetched ι α)),
    es = groups.flatten ++ rest ∧ (∀ g ∈ groups, OneMessage g) ∧ match begun with
    | none => rest = []
    | some (pipe, passed) => Begun pipe passed rest

end Subscriber
end EventBus.LibZmq
