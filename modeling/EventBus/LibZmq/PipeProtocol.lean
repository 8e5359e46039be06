import EventBus.LibZmq.Pipe
import EventBus.Transition.Handshake

/-!
# The protocol of a pipe

What the threads of the two ends of a pipe can do to each other, with queues instead of pointers:
`PipeMove` lists every way a step of a thread can go. `Pipe.next_spec` is the one place where the
code of `pipe_t` is looked at; it says that every step is one of these moves, as long as the end
keeps to what `Pipe.Sound` says of it.
-/

namespace EventBus.LibZmq

open Framing Transition

/-! ## What an end has said and heard -/

namespace PipeState

/-- The end has sent `pipe_term`. -/
def asked : PipeState → Bool
  | term_req_sent1 | term_req_sent2 => true
  | _ => false

/-- The end has handled the `pipe_term` of its peer. -/
def heard : PipeState → Bool
  | waiting_for_delimiter | term_ack_sent | term_req_sent2 => true
  | _ => false

/-- The end has sent `pipe_term_ack` and waits for the one of its peer. -/
def acked : PipeState → Bool
  | term_ack_sent | term_req_sent2 => true
  | _ => false

end PipeState

/-- The end has sent `pipe_term_ack`. A freed end has, whatever its state. -/
def PipeEnd.acked (e : PipeEnd) : Bool := e.state.acked || e.freed

/-- An end that reads has not sent its acknowledgement: it is the last thing it does with the pipe.
-/
theorem PipeEnd.acked_of_reads {e : PipeEnd} (hreads : e.state.reads = true)
    (hfreed : e.freed = false) : e.acked = false := by
  cases hstate : e.state <;> simp_all [PipeEnd.acked, PipeState.acked, PipeState.reads]

/-- The end as a party to closing the pipe. -/
def PipeEnd.party (e : PipeEnd) : Handshake.Party :=
  ⟨e.state.asked, e.state.heard, e.acked, e.freed⟩

/-- Only the two commands of the termination matter to closing the pipe. -/
def Command.signal : Command → Handshake.Signal
  | pipe_term => .ask
  | pipe_term_ack => .ack
  | activate_read | activate_write _ => .other

/-! ## Moves -/

/-- What one end of a pipe has to do with. -/
structure PipeLocal (α : Type) where
  own : PipeEnd
  inq : Fifo (Msg α)
  outq : Fifo (Msg α)
  inbox : List Command
  outbox : List Command

namespace Fifo
variable {α : Type}

/-- An unfinished message is taken back. -/
def dropRest (q : Fifo α) : Fifo α := { q with rest := [] }

/-- The command a flush has to be followed by. -/
def wake (q : Fifo α) : List Command :=
  if q.complete.isEmpty || !q.asleep then [] else [.activate_read]

end Fifo

/-- The command that follows a read after which so many messages have been read. -/
def PipeEnd.announce (e : PipeEnd) (msgsRead : Nat) : List Command :=
  if 0 < e.lwm ∧ msgsRead % e.lwm = 0 then [.activate_write msgsRead] else []

/-- Messages are counted by their last frames. -/
def countLast {α : Type} (f : Frame α) (n : Nat) : Nat := if f.more then n else n + 1

namespace PipeLocal
variable {α : Type}

/-- A frame has been read, and the peer is told of it if it is time. -/
def afterGot (f : Frame α) (l : PipeLocal α) : PipeLocal α :=
  let msgsRead := countLast f l.own.msgsRead
  { l with
    own := { l.own with msgsRead }, inq := l.inq.read
    outbox := l.outbox ++ l.own.announce msgsRead }

/-- A frame has been written. It stays with the writer until the next flush. -/
def afterWrote (f : Frame α) (l : PipeLocal α) : PipeLocal α :=
  { l with
    own := { l.own with msgsWritten := countLast f l.own.msgsWritten }
    outq := l.outq.write (.frame f) f.more }

/-- The end has sent its acknowledgement and goes to `state`. -/
def ack (state : PipeState) (l : PipeLocal α) : PipeLocal α :=
  { l with
    own := { l.own with state, outpipe := false }, outbox := l.outbox ++ [.pipe_term_ack] }

/-- Finished messages go to the reader, who is woken up if it sleeps. -/
def flush (l : PipeLocal α) : PipeLocal α :=
  { l with outq := l.outq.flush, outbox := l.outbox ++ l.outq.wake }

end PipeLocal

open PipeLocal in
/-- Everything the thread of an end can do in a step. -/
inductive PipeMove {α : Type} : PipeLocal α → Transfer α → PipeLocal α → Prop
  /-- Nothing changes. An end that is not active has nothing to take back. -/
  | idle (l : PipeLocal α) (e : Transfer α)
      (he : e = .none ∨ e = .dropped ∧ l.own.state ≠ .active) :
      PipeMove l e l
  /-- `set_nodelay`, or `terminate` where the end of the pipe has been asked for already. -/
  | setDelay (l : PipeLocal α) (delay : Bool) :
      PipeMove l .none { l with own := { l.own with delay } }
  /-- `check_read` and `read` find nothing. -/
  | sleep (l : PipeLocal α) (hready : l.inq.ready = []) :
      PipeMove l .none
        { l with own := { l.own with inActive := false }, inq := l.inq.checkRead }
  /-- `read` brings a frame. -/
  | got (l : PipeLocal α) {f : Frame α} {msgs : List (Msg α)} (hin : l.own.inActive = true)
      (hreads : l.own.state.reads = true) (hfreed : l.own.freed = false)
      (hready : l.inq.ready = .frame f :: msgs) :
      PipeMove l (.got f) (l.afterGot f)
  /-- The delimiter comes before the peer's `pipe_term`. -/
  | delimiter (l : PipeLocal α) {msgs : List (Msg α)} (hstate : l.own.state = .active)
      (hready : l.inq.ready = .delimiter :: msgs) :
      PipeMove l .none
        { l with own := { l.own with state := .delimiter_received }, inq := l.inq.read }
  /-- The delimiter comes after it, and the end acknowledges. -/
  | lastDelimiter (l : PipeLocal α) {msgs : List (Msg α)}
      (hstate : l.own.state = .waiting_for_delimiter) (hfreed : l.own.freed = false)
      (hready : l.inq.ready = .delimiter :: msgs) :
      PipeMove l .none (ack .term_ack_sent { l with inq := l.inq.read })
  /-- `check_write` finds the pipe full. -/
  | full (l : PipeLocal α) (hstate : l.own.state = .active) (hfull : l.own.checkHwm = false) :
      PipeMove l .none { l with own := { l.own with outActive := false } }
  /-- `write` takes a frame. -/
  | wrote (l : PipeLocal α) (f : Frame α) (hstate : l.own.state = .active)
      (hfreed : l.own.freed = false) (hroom : l.own.checkHwm = true) :
      PipeMove l (.wrote f) (l.afterWrote f)
  | rollback (l : PipeLocal α) : PipeMove l .dropped { l with outq := l.outq.dropRest }
  | flush (l : PipeLocal α) (hacked : l.own.acked = false) : PipeMove l .none l.flush
  /-- `terminate` before the peer's `pipe_term` has come. -/
  | ask (l : PipeLocal α) (delay : Bool)
      (hstate : l.own.state = .active ∨ l.own.state = .delimiter_received)
      (hfreed : l.own.freed = false) :
      PipeMove l .none
        { l with
          own := { l.own with delay, state := .term_req_sent1, closing := true }
          outbox := l.outbox ++ [.pipe_term] }
  /-- `terminate` without delay: the messages that are still to be read are given up. -/
  | stopWaiting (l : PipeLocal α) (hstate : l.own.state = .waiting_for_delimiter)
      (hfreed : l.own.freed = false) :
      PipeMove l .none
        (ack .term_ack_sent
          { l with own := { l.own with delay := false, closing := true }, outq := l.outq.dropRest })
  /-- `terminate` with delay: they are read first. -/
  | goOnWaiting (l : PipeLocal α) (hstate : l.own.state = .waiting_for_delimiter) :
      PipeMove l .none { l with own := { l.own with delay := true, closing := true } }
  /-- The rest of `terminate` when the peer has come in between and `outpipe` is `NULL`. -/
  | finishNull (l : PipeLocal α) (hacked : l.own.acked = true) (hfreed : l.own.freed = false) :
      PipeMove l .dropped { l with own := { l.own with outActive := false, closing := false } }
  /-- The rest of `terminate`: an unfinished message is taken back, and the delimiter is written
  and flushed. -/
  | finish (l : PipeLocal α) (hacked : l.own.acked = false) (hstate : l.own.state ≠ .active) :
      PipeMove l .dropped
        (PipeLocal.flush
          { l with
            own := { l.own with outActive := false, closing := false }
            outq := l.outq.dropRest.write .delimiter false })
  /-- The peer has flushed something. The end may have stopped reading for good since. -/
  | activateRead (l : PipeLocal α) {inbox : List Command}
      (hinbox : l.inbox = .activate_read :: inbox) :
      PipeMove l .none
        { l with
          own := { l.own with inActive := l.own.inActive || l.own.state.reads }
          inbox }
  /-- The peer has read on. -/
  | activateWrite (l : PipeLocal α) {n : Nat} {inbox : List Command}
      (hinbox : l.inbox = .activate_write n :: inbox) :
      PipeMove l .none
        { l with
          own := { l.own with
            peersMsgsRead := n, outActive := l.own.outActive || l.own.state = .active }
          inbox }
  /-- `pipe_term` with delay: what the peer has written is read up to its delimiter. -/
  | termWait (l : PipeLocal α) {inbox : List Command} (hinbox : l.inbox = .pipe_term :: inbox)
      (hstate : l.own.state = .active) :
      PipeMove l .none
        { l with own := { l.own with state := .waiting_for_delimiter }, inbox }
  /-- `pipe_term` where there is nothing left to read, or no reason to read it. -/
  | termAck (l : PipeLocal α) {inbox : List Command} (hinbox : l.inbox = .pipe_term :: inbox)
      (hstate : l.own.state = .active ∨ l.own.state = .delimiter_received)
      (hfreed : l.own.freed = false) :
      PipeMove l .none (ack .term_ack_sent { l with inbox })
  /-- `pipe_term` where both ends have asked. -/
  | termBoth (l : PipeLocal α) {inbox : List Command} (hinbox : l.inbox = .pipe_term :: inbox)
      (hstate : l.own.state = .term_req_sent1) (hfreed : l.own.freed = false) :
      PipeMove l .none (ack .term_req_sent2 { l with inbox })
  /-- `pipe_term_ack` from a peer that has not asked: it has to get one as well. -/
  | ackFree (l : PipeLocal α) {inbox : List Command}
      (hinbox : l.inbox = .pipe_term_ack :: inbox) (hstate : l.own.state = .term_req_sent1)
      (hfreed : l.own.freed = false) {inq : Fifo (Msg α)} (hrest : inq.rest = l.inq.rest) :
      PipeMove l .none
        { l with
          own := { l.own with outpipe := false, freed := true }, inq, inbox
          outbox := l.outbox ++ [.pipe_term_ack] }
  /-- `pipe_term_ack` when it has been acknowledged on this side. -/
  | free (l : PipeLocal α) {inbox : List Command}
      (hinbox : l.inbox = .pipe_term_ack :: inbox) (hacked : l.own.state.acked = true)
      {inq : Fifo (Msg α)} (hrest : inq.rest = l.inq.rest) :
      PipeMove l .none { l with own := { l.own with freed := true }, inq, inbox }

/-! ## The code keeps to them -/

namespace YPipe
variable {α : Type} {q : YPipe (Msg α)}

/-- The loop of `rollback` ends, because an unfinished message has no last frame in the queue. -/
theorem Sound.rollback_spec (h : Sound q) (hrest : ∀ msg ∈ q.fifo.rest, msg.more = true)
    {rounds : Nat} (hrounds : q.fifo.rest.length < rounds) :
    ∃ q', q.rollback rounds = some q' ∧ Sound q' ∧ q'.fifo = q.fifo.dropRest := by
  -- on the rounds; each takes one element off the unfinished part
  induction rounds generalizing q with
  | zero => exact absurd hrounds (Nat.not_lt_zero _)
  | succ rounds ih =>
      obtain ⟨q₁, hunwrite, hsound, hfifo⟩ := h.unwrite_spec
      cases hlast : q.fifo.rest.getLast? with
      | none =>
          have hnil : q.fifo.rest = [] := List.getLast?_eq_none_iff.mp hlast
          refine ⟨q₁, by simp [rollback, hunwrite, hlast], hsound, ?_⟩
          rw [hfifo, hnil]
          rfl
      | some msg =>
          have hmem := List.mem_of_getLast? hlast
          have hlt : q₁.fifo.rest.length < rounds := by
            have := List.length_pos_of_mem hmem
            rw [hfifo]
            simp only [List.length_dropLast]
            omega
          have hrest₁ : ∀ msg ∈ q₁.fifo.rest, msg.more = true := by
            rw [hfifo]
            exact fun m hm => hrest m (List.dropLast_subset _ hm)
          obtain ⟨q', hrollback, hsound', hfifo'⟩ := ih hsound hrest₁ hlt
          refine ⟨q', by simp [rollback, hunwrite, hlast, hrest msg hmem, hrollback], hsound', ?_⟩
          rw [hfifo', hfifo]
          rfl

/-- The loop of `process_pipe_term_ack` ends when nothing is ready any more. -/
theorem Sound.drain_spec (h : Sound q) {rounds : Nat} (hrounds : q.fifo.ready.length < rounds) :
    ∃ q', q.drain rounds = some q' ∧ Sound q' ∧ q'.fifo.rest = q.fifo.rest := by
  induction rounds generalizing q with
  | zero => exact absurd hrounds (Nat.not_lt_zero _)
  | succ rounds ih =>
      obtain ⟨q₁, hread, hsound, hfifo⟩ := h.read_spec
      -- A round takes one item out, until there is none.
      cases hready : q.fifo.ready with
      | nil => exact ⟨q₁, by simp [drain, hread, hready], hsound, by rw [hfifo]; rfl⟩
      | cons msg msgs =>
          have hlt : q₁.fifo.ready.length < rounds := by
            rw [hready, List.length_cons] at hrounds
            rw [hfifo, Fifo.read, hready]
            exact Nat.lt_of_succ_lt_succ hrounds
          obtain ⟨q', hdrain, hsound', hrest⟩ := ih hsound hlt
          exact ⟨q', by simp [drain, hread, hready, hdrain], hsound', by rw [hrest, hfifo]; rfl⟩

/-- The rounds the two loops are given are enough. -/
theorem Sound.length_le (h : Sound q) :
    q.fifo.ready.length ≤ q.items.length ∧ q.fifo.rest.length ≤ q.items.length := by
  rw [← h.all_eq]
  simp only [Fifo.all, List.length_append]
  omega

end YPipe

namespace Pipe
variable {α : Type}

/-- What an end keeps to. -/
structure Sound (v : Pipe α) : Prop where
  inpipe : v.inpipe.Sound
  outpipe : v.outpipe.Sound
  /-- Only unfinished messages can be taken back. -/
  rest : ∀ msg ∈ v.outpipe.fifo.rest, msg.more = true
  /-- The peer stays until it has been sent the acknowledgement. -/
  alive : v.own.acked = false → v.peer = true
  null : v.own.outpipe = !v.own.acked
  closing : v.own.closing = true → v.own.state ≠ .active

/-- The pointers into the queues are forgotten. -/
def toLocal (v : Pipe α) : PipeLocal α :=
  ⟨v.own, v.inpipe.fifo, v.outpipe.fifo, v.inbox, v.outbox⟩

/-- A step of an end, seen from outside. -/
structure Moves (v : Pipe α) (e : Transfer α) (v' : Pipe α) : Prop where
  sound : Sound v'
  peer : v'.peer = v.peer
  move : PipeMove v.toLocal e v'.toLocal

variable {v : Pipe α}

/-- Until the acknowledgement has been sent, `outpipe` may be used. -/
theorem Sound.onOutpipe_eq {β : Type} (h : Sound v) (hacked : v.own.acked = false)
    (f : YPipe (Msg α) → Option (β × YPipe (Msg α))) :
    v.onOutpipe f = (f v.outpipe).map fun r => (r.1, { v with outpipe := r.2 }) := by
  have hnull := h.null
  rw [hacked] at hnull
  simp [onOutpipe, hnull, h.alive hacked]

/-- Taking back the message that has been begun. -/
theorem Sound.rollback_spec (h : Sound v) (hacked : v.own.acked = false) :
    ∃ q, v.rollback = some { v with outpipe := q } ∧ q.Sound ∧
      q.fifo = v.outpipe.fifo.dropRest := by
  obtain ⟨q, hrollback, hsound, hfifo⟩ := h.outpipe.rollback_spec h.rest
    (Nat.lt_succ_of_le h.outpipe.length_le.2)
  have hnull := h.null
  rw [hacked] at hnull
  refine ⟨q, ?_, hsound, hfifo⟩
  rw [rollback, if_pos (by simpa using hnull), h.onOutpipe_eq hacked, hrollback]
  rfl

/-- After that it is `NULL`, and there is nothing to do. -/
theorem Sound.rollback_acked (h : Sound v) (hacked : v.own.acked = true) :
    v.rollback = some v := by
  have hnull := h.null
  rw [hacked] at hnull
  rw [rollback, if_neg (by simp [hnull])]

/-- A flush wakes the peer by a command exactly if the queue says that the reader sleeps. -/
theorem Sound.flush_spec (h : Sound v) (hacked : v.own.acked = false) :
    ∃ q, v.flush = some { v with outpipe := q, outbox := v.outbox ++ v.outpipe.fifo.wake } ∧
      q.Sound ∧ q.fifo = v.outpipe.fifo.flush := by
  obtain ⟨hresult, hsound, hfifo⟩ := h.outpipe.flush_spec
  have hnull := h.null
  rw [hacked] at hnull
  -- The guard of `flush` asks for the state as well.
  have hstate : v.own.state ≠ .term_ack_sent := by
    intro hstate
    simp [PipeEnd.acked, PipeState.acked, hstate] at hacked
  refine ⟨v.outpipe.flush.2, ?_, hsound, hfifo⟩
  rw [flush, if_neg (by simp [hstate, hnull]), h.onOutpipe_eq hacked, Fifo.wake, ← hresult]
  cases hok : v.outpipe.flush.1 <;> simp [hok, send, h.alive hacked]

/-- There is nothing to flush either. -/
theorem Sound.flush_acked (h : Sound v) (hacked : v.own.acked = true) : v.flush = some v := by
  have hnull := h.null
  rw [hacked] at hnull
  rw [flush, if_pos (by simp [hnull])]

/-- What sending the acknowledgement comes to. -/
def afterAck (state : PipeState) (v : Pipe α) : Pipe α :=
  { v with
    own := { v.own with state, outpipe := false }, outbox := v.outbox ++ [.pipe_term_ack] }

/-- With the acknowledgement the end gives up `outpipe` and with it the peer. -/
theorem Sound.afterAck (h : Sound v) (state : PipeState) (hstate : state.acked = true) :
    Sound (v.afterAck state) where
  inpipe := h.inpipe
  outpipe := h.outpipe
  rest := h.rest
  alive hacked := by simp [Pipe.afterAck, PipeEnd.acked, hstate] at hacked
  null := by simp [Pipe.afterAck, PipeEnd.acked, hstate]
  closing := by
    rintro - rfl
    cases hstate

/-- The end reads. -/
theorem Sound.withIn (h : Sound v) {q : YPipe (Msg α)} (hq : q.Sound) (inActive : Bool)
    (msgsRead : Nat) :
    Sound { v with own := { v.own with inActive, msgsRead }, inpipe := q } :=
  ⟨hq, h.outpipe, h.rest, h.alive, h.null, h.closing⟩

/-- The delimiter has been taken out of the queue, which is now `q`. -/
theorem Sound.delimiter_spec (h : Sound v) (hreads : v.own.state.reads = true)
    (hfreed : v.own.freed = false) {msgs : List (Msg α)}
    (hready : v.inpipe.fifo.ready = .delimiter :: msgs) {q : YPipe (Msg α)} (hq : q.Sound)
    (hfifo : q.fifo = v.inpipe.fifo.read) :
    ∃ v', processDelimiter { v with inpipe := q } = some v' ∧ Moves v .none v' := by
  have hacked := PipeEnd.acked_of_reads hreads hfreed
  cases hstate : v.own.state with
  | active =>
      -- The delimiter has overtaken the command, which will come.
      refine ⟨{ v with own := { v.own with state := .delimiter_received }, inpipe := q },
        by simp [processDelimiter, hstate], ⟨hq, h.outpipe, h.rest, fun _ => h.alive hacked, ?_,
          by simp⟩, rfl, ?_⟩
      · have := h.null
        simpa [PipeEnd.acked, PipeState.acked, hstate] using this
      · have hmove := PipeMove.delimiter v.toLocal hstate hready
        rwa [show v.toLocal.inq.read = q.fifo from hfifo.symm] at hmove
  | waiting_for_delimiter =>
      -- The command has come before, and this was what it waited for.
      have hsound : Sound { v with inpipe := q } :=
        ⟨hq, h.outpipe, h.rest, h.alive, h.null, h.closing⟩
      refine ⟨Pipe.afterAck .term_ack_sent { v with inpipe := q }, ?_, hsound.afterAck _ rfl, rfl, ?_⟩
      · simp [processDelimiter, hstate, send, h.alive hacked, Pipe.afterAck]
      · have hmove := PipeMove.lastDelimiter v.toLocal hstate hfreed hready
        rwa [show v.toLocal.inq.read = q.fifo from hfifo.symm] at hmove
  | _ => simp [hstate, PipeState.reads] at hreads

/-- A call that returns at once. -/
theorem Sound.moves_self (h : Sound v) : Moves v .none v := ⟨h, rfl, .idle _ _ (.inl rfl)⟩

/-- By the guard at the beginning, and by what is ready: nothing, a delimiter or a frame. -/
theorem Sound.read_spec (h : Sound v) (hfreed : v.own.freed = false) :
    ∃ r, v.read = some r ∧ Moves v (r.1.elim .none .got) r.2 := by
  by_cases hreads : v.own.inActive = true ∧ v.own.state.reads = true
  · have hguard : ¬ (!v.own.inActive || !v.own.state.reads) = true := by simp [hreads]
    obtain ⟨q, hread, hq, hfifo⟩ := h.inpipe.read_spec
    rw [read, if_neg hguard, hread, Option.bind_some]
    cases hready : v.inpipe.fifo.ready with
    | nil =>
        -- Nothing is ready.
        have hmove := PipeMove.sleep v.toLocal hready
        refine ⟨_, rfl, h.withIn hq false v.own.msgsRead, rfl, ?_⟩
        have hcheck : v.toLocal.inq.checkRead = q.fifo := by
          rw [hfifo]
          show _ = { v.inpipe.fifo.checkRead with ready := v.inpipe.fifo.ready.tail }
          rw [hready, List.tail_nil, ← hready]
          rfl
        rwa [hcheck] at hmove
    | cons msg msgs =>
        cases msg with
        | delimiter =>
            obtain ⟨v', hprocess, hmoves⟩ :=
              h.delimiter_spec hreads.2 hfreed hready hq hfifo
            exact ⟨(none, v'), by simp [hprocess], hmoves⟩
        | frame f =>
            -- A frame is counted if it is the last one of its message.
            have hmove := PipeMove.got v.toLocal hreads.1 hreads.2 hfreed hready
            have hpeer := h.alive (PipeEnd.acked_of_reads hreads.2 hfreed)
            have hsound := h.withIn hq v.own.inActive (countLast f v.own.msgsRead)
            rw [PipeLocal.afterGot, show v.toLocal.inq.read = q.fifo from hfifo.symm] at hmove
            -- whether this is the message after which the peer hears of it
            by_cases hlwm : 0 < v.own.lwm ∧ countLast f v.own.msgsRead % v.own.lwm = 0
            · have hannounce : v.toLocal.own.announce (countLast f v.toLocal.own.msgsRead) =
                  [.activate_write (countLast f v.own.msgsRead)] := if_pos hlwm
              rw [hannounce] at hmove
              refine ⟨(some f, { v with
                  own := { v.own with msgsRead := countLast f v.own.msgsRead }, inpipe := q
                  outbox := v.outbox ++ [.activate_write (countLast f v.own.msgsRead)] }), ?_,
                ⟨hsound.1, hsound.2, hsound.3, hsound.4, hsound.5, hsound.6⟩, rfl, hmove⟩
              exact (if_pos hlwm).trans (by simp [send, hpeer, countLast])
            · have hannounce : v.toLocal.own.announce (countLast f v.toLocal.own.msgsRead) = [] :=
                if_neg hlwm
              rw [hannounce, List.append_nil] at hmove
              refine ⟨_, if_neg hlwm, hsound, rfl, hmove⟩
  · have hguard : (!v.own.inActive || !v.own.state.reads) = true := by
      cases hin : v.own.inActive <;> simp_all
    exact ⟨(none, v), by rw [read, if_pos hguard], h.moves_self⟩

/-- As for `read`, but a frame is left where it is. -/
theorem Sound.checkRead_spec (h : Sound v) (hfreed : v.own.freed = false) :
    ∃ r, v.checkRead = some r ∧ Moves v .none r.2 := by
  by_cases hreads : v.own.inActive = true ∧ v.own.state.reads = true
  · have hguard : ¬ (!v.own.inActive || !v.own.state.reads) = true := by simp [hreads]
    obtain ⟨hresult, hq, hfifo⟩ := h.inpipe.checkRead_spec
    rw [checkRead, if_neg hguard]
    cases hcheck : v.inpipe.checkRead with
    | mk ok q =>
        rw [hcheck] at hresult hq hfifo
        dsimp only at hresult hq hfifo
        cases hready : v.inpipe.fifo.ready with
        | nil =>
            rw [hready] at hresult
            subst hresult
            have hmove := PipeMove.sleep v.toLocal hready
            refine ⟨_, rfl, h.withIn hq false v.own.msgsRead, rfl, ?_⟩
            rwa [show v.toLocal.inq.checkRead = q.fifo from hfifo.symm] at hmove
        | cons msg msgs =>
            rw [hready] at hresult
            subst hresult
            rw [h.inpipe.checkRead_eq (by simp [hready])] at hfifo
            have hready' : q.fifo.ready = msg :: msgs := by rw [hfifo, hready]
            -- `probe` looks at the first item and leaves the queue as it is.
            obtain ⟨q', hprobe, hq', hfifo'⟩ := hq.probe_spec hready'
            have hsame : q'.fifo = v.inpipe.fifo := hfifo'.trans hfifo
            have hsound : Sound { v with inpipe := q' } :=
              ⟨hq', h.outpipe, h.rest, h.alive, h.null, h.closing⟩
            have hlocal : Pipe.toLocal { v with inpipe := q' } = v.toLocal := by
              simp [toLocal, hsame]
            cases msg with
            | frame f =>
                refine ⟨(true, { v with inpipe := q' }), by simp [hprobe], hsound, rfl, ?_⟩
                rw [hlocal]
                exact .idle _ _ (.inl rfl)
            | delimiter =>
                obtain ⟨q₂, hread, hq₂, hfifo₂⟩ := hq'.read_spec
                rw [hsame, hready] at hread
                rw [hsame] at hfifo₂
                obtain ⟨v', hprocess, hmoves⟩ :=
                  h.delimiter_spec hreads.2 hfreed hready hq₂ hfifo₂
                exact ⟨(false, v'), by simp [hprobe, hread, hprocess], hmoves⟩
  · have hguard : (!v.own.inActive || !v.own.state.reads) = true := by
      cases hin : v.own.inActive <;> simp_all
    exact ⟨(false, v), by rw [checkRead, if_pos hguard], h.moves_self⟩

/-- A frame that is taken is the last of the unfinished ones, unless it finishes them. -/
theorem Sound.write_spec (h : Sound v) (hfreed : v.own.freed = false) (f : Frame α) :
    ∃ r, v.write f = some r ∧ Moves v (if r.1 then .wrote f else .none) r.2 := by
  by_cases hopen : v.own.outActive = true ∧ v.own.state = .active
  · have hguard : ¬ (!v.own.outActive || decide (v.own.state ≠ .active)) = true := by simp [hopen]
    cases hroom : v.own.checkHwm with
    | false =>
        -- No room: the end is stopped until the peer has read on.
        refine ⟨(false, { v with own := { v.own with outActive := false } }),
          by simp [write, checkWrite, hopen, hroom], ?_, rfl, .full v.toLocal hopen.2 hroom⟩
        exact ⟨h.inpipe, h.outpipe, h.rest, h.alive, h.null, h.closing⟩
    | true =>
        have hacked : v.own.acked = false :=
          PipeEnd.acked_of_reads (by simp [hopen.2, PipeState.reads]) hfreed
        obtain ⟨hq, hfifo⟩ := h.outpipe.write_spec (.frame f) f.more
        have hmove := PipeMove.wrote v.toLocal f hopen.2 hfreed hroom
        rw [PipeLocal.afterWrote,
          show v.toLocal.outq.write (.frame f) f.more = _ from hfifo.symm] at hmove
        refine ⟨(true, { v with
            own := { v.own with msgsWritten := countLast f v.own.msgsWritten }
            outpipe := v.outpipe.write (.frame f) f.more }), ?_,
          ⟨h.inpipe, hq, ?_, h.alive, h.null, h.closing⟩, rfl, hmove⟩
        · simp [write, checkWrite, hopen, hroom, h.onOutpipe_eq hacked, countLast]
        · show ∀ msg ∈ (v.outpipe.write (.frame f) f.more).fifo.rest, _
          rw [hfifo]
          -- what can be taken back stays unfinished: the last frame of a message leaves nothing
          -- behind
          intro msg hmsg
          cases hmore : f.more with
          | false => simp [Fifo.write, hmore] at hmsg
          | true =>
              have hmem : msg ∈ v.outpipe.fifo.rest ∨ msg = .frame f := by
                simpa [Fifo.write, hmore] using hmsg
              rcases hmem with hmem | rfl
              · exact h.rest msg hmem
              · exact hmore
  · have hguard : (!v.own.outActive || decide (v.own.state ≠ .active)) = true := by
      cases hout : v.own.outActive <;> simp_all
    refine ⟨(false, v), ?_, h.moves_self⟩
    simp only [write, checkWrite, hguard, if_true]

/-- The end has changed the queue it writes to. -/
theorem Sound.withOut (h : Sound v) {q : YPipe (Msg α)} (hq : q.Sound)
    (hrest : ∀ msg ∈ q.fifo.rest, msg.more = true) (outbox : List Command) :
    Sound { v with outpipe := q, outbox } :=
  ⟨h.inpipe, hq, hrest, h.alive, h.null, h.closing⟩

/-- An end that has acknowledged is not active, so to take nothing back is all there is to do. -/
theorem Sound.rollback_moves (h : Sound v) (hfreed : v.own.freed = false) :
    ∃ v', v.rollback = some v' ∧ Moves v .dropped v' := by
  cases hacked : v.own.acked with
  | true =>
      refine ⟨v, h.rollback_acked hacked, h, rfl, .idle _ _ (.inr ⟨rfl, fun hstate => ?_⟩)⟩
      have hstate : v.own.state = .active := hstate
      simp [PipeEnd.acked, PipeState.acked, hstate, hfreed] at hacked
  | false =>
      obtain ⟨q, hrollback, hq, hfifo⟩ := h.rollback_spec hacked
      have hmove := PipeMove.rollback v.toLocal
      rw [show v.toLocal.outq.dropRest = q.fifo from hfifo.symm] at hmove
      exact ⟨_, hrollback, h.withOut hq (by simp [hfifo, Fifo.dropRest]) v.outbox, rfl, hmove⟩

/-- With `outpipe` or without it. -/
theorem Sound.flush_moves (h : Sound v) : ∃ v', v.flush = some v' ∧ Moves v .none v' := by
  cases hacked : v.own.acked with
  | true => exact ⟨v, h.flush_acked hacked, h.moves_self⟩
  | false =>
      obtain ⟨q, hflush, hq, hfifo⟩ := h.flush_spec hacked
      have hmove := PipeMove.flush v.toLocal hacked
      rw [PipeLocal.flush, show v.toLocal.outq.flush = q.fifo from hfifo.symm] at hmove
      refine ⟨_, hflush, h.withOut hq ?_ _, rfl, hmove⟩
      rw [hfifo]
      exact h.rest

/-- Nothing an end keeps to is about the delay. -/
theorem Sound.withDelay (h : Sound v) (delay : Bool) :
    Sound { v with own := { v.own with delay } } :=
  ⟨h.inpipe, h.outpipe, h.rest, h.alive, h.null, h.closing⟩

/-- With pending messages, but nobody to read them. -/
theorem terminate_waiting (hstate : v.own.state = .waiting_for_delimiter) :
    v.terminate false =
      (rollback { v with own := { v.own with delay := false } }).bind fun v =>
        (send .pipe_term_ack { v with own := { v.own with outpipe := false } }).map fun v =>
          { v with own := { v.own with state := .term_ack_sent, closing := true } } := by
  simp only [terminate, Bool.false_eq_true, if_false]
  split
  case h_6 => rfl
  all_goals
    rename_i heq
    exact absurd (hstate.symm.trans heq) (by simp)

/-- By the six states, of which three only keep the new `delay`. -/
theorem Sound.terminate_spec (h : Sound v) (hfreed : v.own.freed = false) (delay : Bool) :
    ∃ v', v.terminate delay = some v' ∧ Moves v .none v' := by
  have hdelay := h.withDelay delay
  -- from these states the end asks for the end of the pipe
  have hask : v.own.state = .active ∨ v.own.state = .delimiter_received →
      ∃ v', v.terminate delay = some v' ∧ Moves v .none v' := by
    intro hstate
    have hacked : v.own.acked = false := by
      rcases hstate with hstate | hstate <;>
        simp [PipeEnd.acked, PipeState.acked, hstate, hfreed]
    refine ⟨{ v with
      own := { v.own with delay, state := .term_req_sent1, closing := true }
      outbox := v.outbox ++ [.pipe_term] }, ?_,
      ⟨h.inpipe, h.outpipe, h.rest, fun _ => h.alive hacked, ?_, by simp⟩, rfl,
      .ask v.toLocal delay hstate hfreed⟩
    · rcases hstate with hstate | hstate <;>
        simp [terminate, hstate, send, h.alive hacked]
    · have := h.null
      rw [hacked] at this
      simpa [PipeEnd.acked, PipeState.acked, hfreed] using this
  -- and here it has been asked for already
  have hkeep : v.own.state = .term_req_sent1 ∨ v.own.state = .term_req_sent2 ∨
      v.own.state = .term_ack_sent → ∃ v', v.terminate delay = some v' ∧ Moves v .none v' := by
    intro hstate
    refine ⟨_, ?_, hdelay, rfl, .setDelay v.toLocal delay⟩
    rcases hstate with hstate | hstate | hstate <;> simp [terminate, hstate]
  cases hstate : v.own.state with
  | active => exact hask (.inl hstate)
  | delimiter_received => exact hask (.inr hstate)
  | term_req_sent1 => exact hkeep (.inl hstate)
  | term_req_sent2 => exact hkeep (.inr (.inl hstate))
  | term_ack_sent => exact hkeep (.inr (.inr hstate))
  | waiting_for_delimiter =>
      have hacked : v.own.acked = false := PipeEnd.acked_of_reads (by simp [hstate, PipeState.reads]) hfreed
      cases delay with
      | true =>
          refine ⟨{ v with own := { v.own with delay := true, closing := true } },
            by simp [terminate, hstate], ⟨h.inpipe, h.outpipe, h.rest, h.alive, h.null, ?_⟩, rfl,
            .goOnWaiting v.toLocal hstate⟩
          simp [hstate]
      | false =>
          -- What the peer has written is given up, and so is the message begun here.
          obtain ⟨q, hrollback, hq, hfifo⟩ := hdelay.rollback_spec hacked
          have hsound := (hdelay.withOut hq (by simp [hfifo, Fifo.dropRest]) v.outbox).afterAck
            .term_ack_sent rfl
          have hmove := PipeMove.stopWaiting v.toLocal hstate hfreed
          rw [show v.toLocal.outq.dropRest = q.fifo from hfifo.symm] at hmove
          refine ⟨{ v with
            own := { v.own with
              delay := false, closing := true, state := .term_ack_sent, outpipe := false }
            outpipe := q, outbox := v.outbox ++ [.pipe_term_ack] }, ?_,
            ⟨hsound.1, hsound.2, hsound.3, hsound.4, hsound.5, by simp⟩, rfl, hmove⟩
          rw [terminate_waiting hstate, hrollback, Option.bind_some, send, if_pos (h.alive hacked)]
          rfl

/-- `outpipe` may have become `NULL` since `terminate` was called. -/
theorem Sound.finishTerminate_spec (h : Sound v) (hfreed : v.own.freed = false)
    (hclosing : v.own.closing = true) :
    ∃ v', v.finishTerminate = some v' ∧ Moves v .dropped v' := by
  have hown : Sound { v with own := { v.own with outActive := false, closing := false } } :=
    ⟨h.inpipe, h.outpipe, h.rest, h.alive, h.null, by simp⟩
  -- By whether the end has acknowledged.
  have hnull := h.null
  cases hacked : v.own.acked with
  | true =>
      rw [hacked] at hnull
      exact ⟨_, if_neg (by simp [hnull]), hown, rfl, .finishNull v.toLocal hacked hfreed⟩
  | false =>
      rw [hacked] at hnull
      -- Roll back, write the delimiter, flush: three changes of the one queue.
      obtain ⟨q, hrollback, hq, hfifo⟩ := hown.rollback_spec hacked
      obtain ⟨hq', hfifo'⟩ := hq.write_spec .delimiter false
      have hsound := hown.withOut hq' (by rw [hfifo']; simp [Fifo.write]) v.outbox
      obtain ⟨q'', hflush, hq'', hfifo''⟩ := hsound.flush_spec hacked
      have hmove := PipeMove.finish v.toLocal hacked (h.closing hclosing)
      rw [PipeLocal.flush, show v.toLocal.outq.dropRest = q.fifo from hfifo.symm, ← hfifo'] at hmove
      rw [← hfifo''] at hmove
      refine ⟨_, ?_, hsound.withOut hq'' ?_ _, rfl, hmove⟩
      · rw [finishTerminate, if_pos (by simpa using hnull), hrollback, Option.bind_some]
        rw [(hown.withOut hq (by simp [hfifo, Fifo.dropRest]) v.outbox).onOutpipe_eq hacked]
        exact hflush
      · rw [hfifo'']
        exact hsound.rest

/-- The end takes a command from its mailbox. -/
theorem Sound.withInbox (h : Sound v) (inbox : List Command) : Sound { v with inbox } :=
  ⟨h.inpipe, h.outpipe, h.rest, h.alive, h.null, h.closing⟩

/-- `process_activate_read` does not fail. -/
theorem Sound.activateRead_spec (h : Sound v) {inbox : List Command}
    (hinbox : v.inbox = .activate_read :: inbox) :
    Moves v .none (Pipe.processActivateRead { v with inbox }) := by
  have hactive : Pipe.processActivateRead { v with inbox } = { v with
      own := { v.own with inActive := v.own.inActive || v.own.state.reads }, inbox } := by
    -- the code tests both flags and then sets the first one
    have hor : (v.own.inActive || v.own.state.reads) =
        if !v.own.inActive && v.own.state.reads then true else v.own.inActive := by
      cases v.own.inActive <;> cases v.own.state.reads <;> rfl
    rw [hor, processActivateRead]
    split <;> rfl
  rw [hactive]
  exact ⟨⟨h.inpipe, h.outpipe, h.rest, h.alive, h.null, h.closing⟩, rfl,
    .activateRead v.toLocal hinbox⟩

/-- Nor does `process_activate_write`. -/
theorem Sound.activateWrite_spec (h : Sound v) {n : Nat} {inbox : List Command}
    (hinbox : v.inbox = .activate_write n :: inbox) :
    Moves v .none (Pipe.processActivateWrite n { v with inbox }) := by
  have hactive : Pipe.processActivateWrite n { v with inbox } = { v with
      own := { v.own with
        peersMsgsRead := n, outActive := v.own.outActive || v.own.state = .active }
      inbox } := by
    cases hout : v.own.outActive <;> by_cases hstate : v.own.state = .active <;>
      simp [processActivateWrite, hout, hstate]
  rw [hactive]
  exact ⟨⟨h.inpipe, h.outpipe, h.rest, h.alive, h.null, h.closing⟩, rfl,
    .activateWrite v.toLocal hinbox⟩

/-- A second `pipe_term` would fail the assertion, so the end must not have had one. -/
theorem Sound.pipeTerm_spec (h : Sound v) (hfreed : v.own.freed = false) {inbox : List Command}
    (hinbox : v.inbox = .pipe_term :: inbox) (hheard : v.own.state.heard = false) :
    ∃ v', Pipe.processPipeTerm { v with inbox } = some v' ∧ Moves v .none v' := by
  have hsound := h.withInbox inbox
  have hack : ∀ {state : PipeState}, state.acked = true → v.own.acked = false →
      Pipe.send .pipe_term_ack { { v with inbox } with
        own := { v.own with state, outpipe := false } } =
        some (Pipe.afterAck state { v with inbox }) := by
    intro state _ hacked
    rw [send, if_pos (h.alive hacked)]
    rfl
  cases hstate : v.own.state with
  | active =>
      have hacked : v.own.acked = false :=
        PipeEnd.acked_of_reads (by simp [hstate, PipeState.reads]) hfreed
      -- An active end waits for the delimiter, or acknowledges at once.
      cases hdelay : v.own.delay with
      | true =>
          refine ⟨{ v with own := { v.own with state := .waiting_for_delimiter }, inbox },
            by simp [processPipeTerm, hstate, hdelay],
            ⟨h.inpipe, h.outpipe, h.rest, fun _ => h.alive hacked, ?_, by simp⟩, rfl,
            .termWait v.toLocal hinbox hstate⟩
          have := h.null
          simpa [PipeEnd.acked, PipeState.acked, hstate] using this
      | false =>
          refine ⟨_, ?_, hsound.afterAck .term_ack_sent rfl, rfl,
            .termAck v.toLocal hinbox (.inl hstate) hfreed⟩
          rw [← hack rfl hacked]
          simp [processPipeTerm, hstate, hdelay]
  | delimiter_received =>
      have hacked : v.own.acked = false := by simp [PipeEnd.acked, PipeState.acked, hstate, hfreed]
      refine ⟨_, ?_, hsound.afterAck .term_ack_sent rfl, rfl,
        .termAck v.toLocal hinbox (.inr hstate) hfreed⟩
      rw [← hack rfl hacked]
      simp [processPipeTerm, hstate]
  | term_req_sent1 =>
      -- Both ends have asked.
      have hacked : v.own.acked = false := by simp [PipeEnd.acked, PipeState.acked, hstate, hfreed]
      refine ⟨_, ?_, hsound.afterAck .term_req_sent2 rfl, rfl,
        .termBoth v.toLocal hinbox hstate hfreed⟩
      rw [← hack rfl hacked]
      simp [processPipeTerm, hstate]
  | _ => simp [hstate, PipeState.heard] at hheard

/-- The end frees itself. It has to answer first if it has not acknowledged yet. -/
theorem Sound.pipeTermAck_spec (h : Sound v) (hfreed : v.own.freed = false)
    {inbox : List Command} (hinbox : v.inbox = .pipe_term_ack :: inbox)
    (hasked : v.own.state.asked = true ∨ v.own.state.acked = true) :
    ∃ v', Pipe.processPipeTermAck { v with inbox } = some v' ∧ Moves v .none v' := by
  obtain ⟨q, hdrain, hq, hrest⟩ := h.inpipe.drain_spec (Nat.lt_succ_of_le h.inpipe.length_le.1)
  -- nothing is left to be sent
  have hfree : v.own.state.acked = true →
      ∃ v', Pipe.processPipeTermAck { v with inbox } = some v' ∧ Moves v .none v' := by
    intro hacked
    have hnull : v.own.outpipe = false := by
      rw [h.null, PipeEnd.acked, hacked]
      rfl
    refine ⟨{ v with own := { v.own with freed := true }, inpipe := q, inbox }, ?_,
      ⟨hq, h.outpipe, h.rest, by simp [PipeEnd.acked], by simp [PipeEnd.acked, hnull], h.closing⟩,
      rfl, .free v.toLocal hinbox hacked hrest⟩
    cases hstate : v.own.state with
    | term_ack_sent => simp [processPipeTermAck, hstate, hdrain]
    | term_req_sent2 => simp [processPipeTermAck, hstate, hdrain]
    | _ => simp [hstate, PipeState.acked] at hacked
  cases hstate : v.own.state with
  | term_req_sent1 =>
      have hacked : v.own.acked = false := by simp [PipeEnd.acked, PipeState.acked, hstate, hfreed]
      refine ⟨{ v with
        own := { v.own with outpipe := false, freed := true }, inpipe := q, inbox
        outbox := v.outbox ++ [.pipe_term_ack] }, ?_,
        ⟨hq, h.outpipe, h.rest, by simp [PipeEnd.acked], by simp [PipeEnd.acked], h.closing⟩,
        rfl, .ackFree v.toLocal hinbox hstate hfreed hrest⟩
      simp [processPipeTermAck, hstate, send, h.alive hacked, hdrain]
  | term_ack_sent => exact hfree (by simp [hstate, PipeState.acked])
  | term_req_sent2 => exact hfree (by simp [hstate, PipeState.acked])
  -- An end that has neither asked nor acknowledged is not answered.
  | _ => simp [hstate, PipeState.asked, PipeState.acked] at hasked

/-- What an end may rely on when it takes a command. -/
structure Expects (v : Pipe α) : Prop where
  term : ∀ inbox, v.inbox = .pipe_term :: inbox → v.own.state.heard = false
  termAck : ∀ inbox, v.inbox = .pipe_term_ack :: inbox →
    v.own.state.asked = true ∨ v.own.state.acked = true

/-- Whether the thread may take the step, and has something to do in it. -/
def ready (v : Pipe α) (a : PipeAct α) : Bool :=
  v.own.mayAct a && match a with
    | .processCommand => !v.inbox.isEmpty
    | _ => true

/-- **One step of an end** is possible, and it is a move of the protocol. -/
theorem Sound.next_spec (h : Sound v) (hexpects : Expects v) {a : PipeAct α}
    (hready : v.ready a = true) : ∃ r, v.next a = some r ∧ Moves v r.1 r.2 := by
  have hmay : v.own.mayAct a = true := (Bool.and_eq_true_iff.mp hready).1
  have hfreed : v.own.freed = false := by
    cases a <;> simp [PipeEnd.mayAct] at hmay <;> exact hmay.1
  have hguard : ¬ (!v.own.mayAct a) = true := by simp [hmay]
  unfold next
  rw [if_neg hguard]
  cases a with
  | checkRead =>
      obtain ⟨r, hcheck, hmoves⟩ := h.checkRead_spec hfreed
      exact ⟨(.none, r.2), by simp [hcheck], hmoves⟩
  | read =>
      obtain ⟨r, hread, hmoves⟩ := h.read_spec hfreed
      exact ⟨(r.1.elim .none .got, r.2), by simp [hread], hmoves⟩
  | write f =>
      obtain ⟨r, hwrite, hmoves⟩ := h.write_spec hfreed f
      exact ⟨(if r.1 then .wrote f else .none, r.2), by simp [hwrite], hmoves⟩
  | rollback =>
      obtain ⟨v', hrollback, hmoves⟩ := h.rollback_moves hfreed
      exact ⟨(.dropped, v'), by simp [hrollback], hmoves⟩
  | flush =>
      obtain ⟨v', hflush, hmoves⟩ := h.flush_moves
      exact ⟨(.none, v'), by simp [hflush], hmoves⟩
  | setNodelay => exact ⟨_, rfl, h.withDelay false, rfl, .setDelay v.toLocal false⟩
  | terminate delay =>
      obtain ⟨v', hterminate, hmoves⟩ := h.terminate_spec hfreed delay
      exact ⟨(.none, v'), by simp [hterminate], hmoves⟩
  | finishTerminate =>
      have hclosing : v.own.closing = true := by simpa [PipeEnd.mayAct, hfreed] using hmay
      obtain ⟨v', hfinish, hmoves⟩ := h.finishTerminate_spec hfreed hclosing
      exact ⟨(.dropped, v'), by simp [hfinish], hmoves⟩
  | processCommand =>
      cases hinbox : v.inbox with
      | nil => simp [ready, hinbox] at hready
      | cons command inbox =>
          -- By the command; what it may be now is what `Expects` says.
          have hcommand : ∃ v', v.processCommand = some v' ∧ Moves v .none v' := by
            rw [processCommand, hinbox]
            cases command with
            | activate_read => exact ⟨_, rfl, h.activateRead_spec hinbox⟩
            | activate_write n => exact ⟨_, rfl, h.activateWrite_spec hinbox⟩
            | pipe_term => exact h.pipeTerm_spec hfreed hinbox (hexpects.term _ hinbox)
            | pipe_term_ack =>
                exact h.pipeTermAck_spec hfreed hinbox (hexpects.termAck _ hinbox)
          obtain ⟨v', hprocess, hmoves⟩ := hcommand
          exact ⟨(.none, v'), by simp [hprocess], hmoves⟩

/-- The other way round: what is not ready is not possible. -/
theorem next_of_not_ready {a : PipeAct α} (hready : v.ready a = false) : v.next a = none := by
  cases hmay : v.own.mayAct a with
  | false =>
      unfold next
      rw [if_pos (by simp [hmay])]
  | true =>
      unfold next
      rw [if_neg (by simp [hmay])]
      cases a with
      | processCommand =>
          -- All that can be wrong with a command is that there is none.
          have hinbox : v.inbox = [] := by simpa [ready, hmay] using hready
          simp [processCommand, hinbox]
      | _ => simp [ready, hmay] at hready

end Pipe
end EventBus.LibZmq
