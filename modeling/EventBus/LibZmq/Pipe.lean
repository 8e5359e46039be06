import EventBus.Framing.Basic
import EventBus.LibZmq.YPipe

/-!
# Pipes

`PipeEnd` is `pipe_t`, one of the two ends of a pipe, and `PipePair` is what `pipepair` makes: two
ends, a queue in each direction, and the commands under way to each end. The threads of the ends
take turns in any order (`PipePair.next`): they read, write, flush, ask for termination, and handle
the commands that have come in.

A step is not possible at all where the code would fail an assertion, use a queue or a pipe that
has been freed, or read past the end of a queue.

These are pipes whose watermarks stay what they are when the pipe is made: neither `set_hwms` nor
`pipe_hwm` changes them later. There is no `hiccup`, which a session sends when it connects again;
the pipes do not conflate, so a queue is a `ypipe_t`; and no frame carries a credential or a routing
id, which `read` and the counters would pass over.
-/

namespace EventBus.LibZmq

open Framing

inductive PipeState
  | active
  | delimiter_received
  | waiting_for_delimiter
  | term_ack_sent
  | term_req_sent1
  | term_req_sent2
  deriving DecidableEq, Repr

/-- Whether an end may be read from. -/
def PipeState.reads : PipeState → Bool
  | .active | .waiting_for_delimiter => true
  | _ => false

/-- What goes through a queue of a pipe. -/
inductive Msg (α : Type)
  | frame (frame : Frame α)
  | delimiter
  deriving DecidableEq

def Msg.more {α : Type} : Msg α → Bool
  | .frame f => f.more
  | .delimiter => false

/-- What one end of a pipe sends to the mailbox of the other one. -/
inductive Command
  | activate_read
  | activate_write (msgs_read : Nat)
  | pipe_term
  | pipe_term_ack
  deriving DecidableEq, Repr

/-- The fields of `pipe_t` that change in a step, and the two watermarks. -/
structure PipeEnd where
  inActive : Bool
  outActive : Bool
  /-- High watermark of the outbound queue; `0` is none. -/
  hwm : Nat
  /-- Low watermark of the inbound queue. -/
  lwm : Nat
  msgsRead : Nat
  msgsWritten : Nat
  peersMsgsRead : Nat
  state : PipeState
  delay : Bool
  /-- Whether `outpipe` is not `NULL`. -/
  outpipe : Bool
  /-- The thread is in `terminate` and has come past its case distinction. -/
  closing : Bool
  /-- The end has deallocated itself and its inbound queue. -/
  freed : Bool
  deriving DecidableEq, Repr

/-- `compute_lwm`. The source counts in `int`, and the watermarks are taken to be below `INT_MAX`. -/
def computeLwm (hwm : Nat) : Nat := (hwm + 1) / 2

def PipeEnd.new (inhwm outhwm : Nat) : PipeEnd where
  inActive := true
  outActive := true
  hwm := outhwm
  lwm := computeLwm inhwm
  msgsRead := 0
  msgsWritten := 0
  peersMsgsRead := 0
  state := .active
  delay := true
  outpipe := true
  closing := false
  freed := false

/-- `check_hwm`: whether there is room for a message, as far as this end knows. -/
def PipeEnd.checkHwm (e : PipeEnd) : Bool :=
  !decide (0 < e.hwm ∧ e.hwm ≤ e.msgsWritten - e.peersMsgsRead)

/-- What one end of a pipe can reach. -/
structure Pipe (α : Type) where
  own : PipeEnd
  inpipe : YPipe (Msg α)
  /-- The queue `outpipe` points to if it is not `NULL`. -/
  outpipe : YPipe (Msg α)
  /-- Whether the peer and the queue at `outpipe`, which is the peer's, are still there. -/
  peer : Bool
  /-- The commands under way to this end. -/
  inbox : List Command
  /-- The commands under way to the peer. -/
  outbox : List Command

namespace YPipe
variable {α : Type}

/-- The loop of `pipe_t::rollback`, in at most so many rounds. -/
def rollback : Nat → YPipe (Msg α) → Option (YPipe (Msg α))
  | 0, _ => none
  | rounds + 1, q => q.unwrite.bind fun r => match r.1 with
      | none => some r.2
      | some msg => if msg.more then rollback rounds r.2 else none

/-- The loop of `pipe_t::process_pipe_term_ack`. -/
def drain : Nat → YPipe (Msg α) → Option (YPipe (Msg α))
  | 0, _ => none
  | rounds + 1, q => q.read.bind fun r => match r.1 with
      | none => some r.2
      | some _ => drain rounds r.2

end YPipe

namespace Pipe
variable {α : Type}

def send (command : Command) (v : Pipe α) : Option (Pipe α) :=
  if v.peer then some { v with outbox := v.outbox ++ [command] } else none

/-- A delimiter is the last thing that comes. If the peer has asked already, it is acknowledged. -/
def processDelimiter (v : Pipe α) : Option (Pipe α) :=
  if v.own.state = .active then
    some { v with own := { v.own with state := .delimiter_received } }
  else if v.own.state = .waiting_for_delimiter then
    (send .pipe_term_ack { v with own := { v.own with outpipe := false } }).map fun v =>
      { v with own := { v.own with state := .term_ack_sent } }
  else none

/-- `check_read`. A delimiter that is next is taken out, because the user must not see it. -/
def checkRead (v : Pipe α) : Option (Bool × Pipe α) :=
  if !v.own.inActive || !v.own.state.reads then some (false, v)
  else
    match v.inpipe.checkRead with
    | (false, q) => some (false, { v with own := { v.own with inActive := false }, inpipe := q })
    | (true, q) => q.probe.bind fun r => match r.1 with
        | .frame _ => some (true, { v with inpipe := r.2 })
        | .delimiter => r.2.read.bind fun r =>
            if r.1.isSome then (processDelimiter { v with inpipe := r.2 }).map fun v => (false, v)
            else none

/-- `read`. The peer hears of it when another `lwm` messages have been read. -/
def read (v : Pipe α) : Option (Option (Frame α) × Pipe α) :=
  if !v.own.inActive || !v.own.state.reads then some (none, v)
  else v.inpipe.read.bind fun r => match r.1 with
    | none => some (none, { v with own := { v.own with inActive := false }, inpipe := r.2 })
    | some .delimiter => (processDelimiter { v with inpipe := r.2 }).map fun v => (none, v)
    | some (.frame f) =>
        let msgsRead := if f.more then v.own.msgsRead else v.own.msgsRead + 1
        let v := { v with own := { v.own with msgsRead }, inpipe := r.2 }
        if 0 < v.own.lwm ∧ msgsRead % v.own.lwm = 0 then
          (send (.activate_write msgsRead) v).map fun v => (some f, v)
        else some (some f, v)

/-- `check_write`. An end that finds the pipe full is stopped until the peer has read on. -/
def checkWrite (v : Pipe α) : Bool × Pipe α :=
  if !v.own.outActive || v.own.state ≠ .active then (false, v)
  else if v.own.checkHwm then (true, v)
  else (false, { v with own := { v.own with outActive := false } })

/-- What `outpipe->…` does. -/
def onOutpipe {β : Type} (f : YPipe (Msg α) → Option (β × YPipe (Msg α))) (v : Pipe α) :
    Option (β × Pipe α) :=
  if v.own.outpipe && v.peer then (f v.outpipe).map fun r => (r.1, { v with outpipe := r.2 })
  else none

/-- `write`: whether the frame has been taken. Only the last frame of a message is counted. -/
def write (f : Frame α) (v : Pipe α) : Option (Bool × Pipe α) :=
  match v.checkWrite with
  | (false, v) => some (false, v)
  | (true, v) => (onOutpipe (fun q => some ((), q.write (.frame f) f.more)) v).map fun r =>
      let msgsWritten := if f.more then r.2.own.msgsWritten else r.2.own.msgsWritten + 1
      (true, { r.2 with own := { r.2.own with msgsWritten } })

def rollback (v : Pipe α) : Option (Pipe α) :=
  if v.own.outpipe then
    (onOutpipe (fun q => (q.rollback (q.items.length + 1)).map fun q => ((), q)) v).map Prod.snd
  else some v

/-- `flush`. If the reader has gone to sleep it is told that there is something to read. -/
def flush (v : Pipe α) : Option (Pipe α) :=
  if v.own.state = .term_ack_sent || !v.own.outpipe then some v
  else (onOutpipe (fun q => some q.flush) v).bind fun r =>
    if r.1 then some r.2 else send .activate_read r.2

def setNodelay (v : Pipe α) : Pipe α := { v with own := { v.own with delay := false } }

/-- `terminate` up to the end of its case distinction. What it does to the queue it does later,
and the peer may come in between. -/
def terminate (delay : Bool) (v : Pipe α) : Option (Pipe α) :=
  let v := { v with own := { v.own with delay } }
  let goOn (v : Pipe α) := { v with own := { v.own with closing := true } }
  match v.own.state with
  | .term_req_sent1 | .term_req_sent2 | .term_ack_sent => some v
  | .active | .delimiter_received => (send .pipe_term v).map fun v =>
      goOn { v with own := { v.own with state := .term_req_sent1 } }
  | .waiting_for_delimiter =>
      if delay then some (goOn v)
      else (rollback v).bind fun v =>
        (send .pipe_term_ack { v with own := { v.own with outpipe := false } }).map fun v =>
          goOn { v with own := { v.own with state := .term_ack_sent } }

/-- The rest of `terminate`. -/
def finishTerminate (v : Pipe α) : Option (Pipe α) :=
  let v := { v with own := { v.own with outActive := false, closing := false } }
  if v.own.outpipe then
    (rollback v).bind fun v =>
      (onOutpipe (fun q => some ((), q.write .delimiter false)) v).bind fun r => flush r.2
  else some v

/-- `process_activate_read`, but for the call of `sink->read_activated` (`PipePair.event`). -/
def processActivateRead (v : Pipe α) : Pipe α :=
  if !v.own.inActive && v.own.state.reads then
    { v with own := { v.own with inActive := true } }
  else v

/-- `process_activate_write`, but for the call of `sink->write_activated`. -/
def processActivateWrite (msgsRead : Nat) (v : Pipe α) : Pipe α :=
  let v := { v with own := { v.own with peersMsgsRead := msgsRead } }
  if !v.own.outActive && v.own.state = .active then
    { v with own := { v.own with outActive := true } }
  else v

/-- The peer asks for the end of the pipe. With `delay` what it has written is read first. -/
def processPipeTerm (v : Pipe α) : Option (Pipe α) :=
  let ack (state : PipeState) :=
    send .pipe_term_ack { v with own := { v.own with state, outpipe := false } }
  match v.own.state with
  | .active =>
      if v.own.delay then some { v with own := { v.own with state := .waiting_for_delimiter } }
      else ack .term_ack_sent
  | .delimiter_received => ack .term_ack_sent
  | .term_req_sent1 => ack .term_req_sent2
  | _ => none

/-- The peer will not use the pipe any more, and this end frees itself and its inbound queue. -/
def processPipeTermAck (v : Pipe α) : Option (Pipe α) :=
  let free (v : Pipe α) : Option (Pipe α) :=
    (v.inpipe.drain (v.inpipe.items.length + 1)).map fun inpipe =>
      { v with own := { v.own with freed := true }, inpipe }
  match v.own.state with
  | .term_req_sent1 =>
      (send .pipe_term_ack { v with own := { v.own with outpipe := false } }).bind free
  | .term_ack_sent | .term_req_sent2 => free v
  | _ => none

/-- Take the next command out of the mailbox and handle it. -/
def processCommand (v : Pipe α) : Option (Pipe α) :=
  match v.inbox with
  | [] => none
  | command :: inbox =>
      let v := { v with inbox }
      match command with
      | .activate_read => some v.processActivateRead
      | .activate_write msgsRead => some (v.processActivateWrite msgsRead)
      | .pipe_term => v.processPipeTerm
      | .pipe_term_ack => v.processPipeTermAck

end Pipe

/-! ## The two ends -/

/-- Everything about one direction or one end is a function of the side, and `!s` is the side
across. -/
structure PipePair (α : Type) where
  ends : Bool → PipeEnd
  /-- The inbound queue of a side. -/
  inpipe : Bool → YPipe (Msg α)
  /-- The commands under way to a side. -/
  mail : Bool → List Command

/-- What the thread of an end can do with it. -/
inductive PipeAct (α : Type)
  | checkRead
  | read
  | write (f : Frame α)
  | rollback
  | flush
  | setNodelay
  | terminate (delay : Bool)
  | finishTerminate
  | processCommand

/-- What the thread of an end may do: once it is in `terminate` it has to finish it, and a pipe
that is gone is not used any more. -/
def PipeEnd.mayAct {α : Type} (e : PipeEnd) : PipeAct α → Bool
  | .finishTerminate => !e.freed && e.closing
  | _ => !e.freed && !e.closing

namespace PipePair
variable {α : Type}

/-- `pipepair`: `hwms s` is for the messages side `s` writes. -/
def new (hwms : Bool → Nat) : PipePair α :=
  ⟨fun s => .new (hwms !s) (hwms s), fun _ => .fresh, fun _ => []⟩

/-- What the thread of side `s` has to do with. -/
def reach (s : Bool) (p : PipePair α) : Pipe α where
  own := p.ends s
  inpipe := p.inpipe s
  outpipe := p.inpipe !s
  peer := !(p.ends !s).freed
  inbox := p.mail s
  outbox := p.mail !s

/-- What it has left, put back. -/
def put (s : Bool) (v : Pipe α) (p : PipePair α) : PipePair α where
  ends b := if b = s then v.own else p.ends b
  inpipe b := if b = s then v.inpipe else v.outpipe
  mail b := if b = s then v.inbox else v.outbox

end PipePair

/-- What a step takes out of a pipe or puts into it. -/
inductive Transfer (α : Type)
  | none
  | got (f : Frame α)
  | wrote (f : Frame α)
  /-- What is there of an unfinished message is dropped. -/
  | dropped

namespace Pipe
variable {α : Type}

/-- A step of the thread of an end. -/
def next (v : Pipe α) (a : PipeAct α) : Option (Transfer α × Pipe α) :=
  if !v.own.mayAct a then none
  else match a with
    | .checkRead => v.checkRead.map fun r => (.none, r.2)
    | .read => v.read.map fun r => (r.1.elim .none .got, r.2)
    | .write f => (v.write f).map fun r => (if r.1 then .wrote f else .none, r.2)
    | .rollback => v.rollback.map fun v => (.dropped, v)
    | .flush => v.flush.map fun v => (.none, v)
    | .setNodelay => some (.none, v.setNodelay)
    | .terminate delay => (v.terminate delay).map fun v => (.none, v)
    | .finishTerminate => v.finishTerminate.map fun v => (.dropped, v)
    | .processCommand => v.processCommand.map fun v => (.none, v)

end Pipe

/-- A step of the thread of side `s`. -/
def PipePair.next {α : Type} (p : PipePair α) (s : Bool) (a : PipeAct α) :
    Option (Transfer α × PipePair α) :=
  ((p.reach s).next a).map fun r => (r.1, p.put s r.2)

end EventBus.LibZmq
