import EventBus.LibZmq.PipeOwner
import Mathlib.Logic.Function.Basic

/-!
# The pipes of a socket

A socket has the ends `true` of a family of pipes, and the ends `false` belong to threads of their
own. Whatever kind of socket it is, a step is taken at one end of one pipe and leaves the other
pipes alone; while an end handles a command it may tell the socket something (`PipeEvent`); and the
thread of the socket, once it has begun to terminate a pipe, does nothing else before it has
finished. `Publisher` and `Subscriber` add what they keep of the pipes in lists of their own.
-/

namespace EventBus.LibZmq

open Framing Transition

/-- The calls of `i_pipe_events`, but for `hiccuped`. -/
inductive PipeEvent
  | read_activated
  | write_activated
  | pipe_terminated
  deriving DecidableEq, Repr

/-- What the end at side `s` tells its socket while it handles its next command. -/
def PipePair.event {α : Type} (s : Bool) (p : PipePair α) : Option PipeEvent :=
  let own := p.ends s
  match p.mail s with
  | .activate_read :: _ =>
      if !own.inActive && own.state.reads then some .read_activated else none
  | .activate_write _ :: _ =>
      if !own.outActive && own.state = .active then some .write_activated else none
  | .pipe_term_ack :: _ => some .pipe_terminated
  | .pipe_term :: _ | [] => none

namespace Pipes
variable {ι α : Type} [DecidableEq ι]

/-- A step at one of the ends of a pipe. -/
def next (s : Bool) (pipe : ι) (a : PipeAct α) (pipes : ι → PipePair α) :
    Option (Transfer α × (ι → PipePair α)) :=
  ((pipes pipe).next s a).map fun r => (r.1, Function.update pipes pipe r.2)

/-- Whether a step may be taken at one of the ends, and there is something to do in it. -/
def ready (s : Bool) (pipe : ι) (a : PipeAct α) (pipes : ι → PipePair α) : Bool :=
  ((pipes pipe).reach s).ready a

/-- The thread is in the middle of terminating one of the pipes it has. -/
def busy (attached : List ι) (pipes : ι → PipePair α) : Bool :=
  attached.any fun pipe => ((pipes pipe).ends true).closing

/-- A pipe is attached only once, and not when it is gone. -/
def mayAttach (attached : List ι) (pipe : ι) (pipes : ι → PipePair α) : Bool :=
  !busy attached pipes && !decide (pipe ∈ attached) && !((pipes pipe).ends true).freed

/-- Whether the thread of the socket may take a step at its own end of a pipe. -/
def mayOwn (attached : List ι) (pipe : ι) (a : PipeAct α) (pipes : ι → PipePair α) : Bool :=
  decide (pipe ∈ attached) && match a with
    | .finishTerminate => true
    | _ => !busy attached pipes

/-- What a step at the other end of `pipe'` takes out of `pipe` or puts into it. -/
def peerTransfer (pipe pipe' : ι) (a : PipeAct α) (pipes : ι → PipePair α) : Transfer α :=
  if pipe' = pipe then (((pipes pipe).next false a).map Prod.fst).getD .none else .none

variable {pipes : ι → PipePair α} {pipe : ι} {s : Bool} {a : PipeAct α} {e : Transfer α}
  {p : PipePair α} {attached : List ι}

theorem next_eq (h : (pipes pipe).next s a = some (e, p)) :
    next s pipe a pipes = some (e, Function.update pipes pipe p) := by
  rw [next, h]
  rfl

/-- Nobody takes a step that is not ready. -/
theorem ready_of_next {r : Transfer α × (ι → PipePair α)} (h : next s pipe a pipes = some r) :
    ready s pipe a pipes = true := by
  obtain ⟨r, hr, -⟩ := Option.map_eq_some_iff.mp h
  cases hready : ready s pipe a pipes with
  | true => rfl
  | false =>
      rw [PipePair.next, Pipe.next_of_not_ready hready] at hr
      cases hr

omit [DecidableEq ι] in
theorem closing_of_not_busy (h : busy attached pipes = false) (hmem : pipe ∈ attached) :
    ((pipes pipe).ends true).closing = false := by
  rw [busy, List.any_eq_false] at h
  simpa using h pipe hmem

theorem peerTransfer_self (h : (pipes pipe).next false a = some (e, p)) :
    peerTransfer pipe pipe a pipes = e := by
  rw [peerTransfer, if_pos rfl, h]
  rfl

theorem peerTransfer_of_ne {pipe' : ι} (h : pipe' ≠ pipe) :
    peerTransfer pipe pipe' a pipes = .none := if_neg h

end Pipes
end EventBus.LibZmq
