import EventBus.LibZmq.PipeProtocol

/-!
# Closing a pipe

The two ends of a pipe close it by the handshake of `Transition.Handshake`, whichever of them asks
for it and whatever else is under way. From this follows what the code relies on without a check:
the peer is there when a command is sent to it, a queue is there when it is used, and no assertion
of `pipe_t` fails (`closing_run`).

An end that still has messages to read when it is asked goes on until it finds the delimiter. So
that closing comes to an end the delimiter must be on its way (`Closes.delimiter`), and the reader
must not sleep while there is something for it (`Closes.awake`).
-/

namespace EventBus.LibZmq

open Framing Transition Handshake

variable {α : Type}

namespace PipeLocal

/-- The same, from the other end. -/
def across (peer : PipeEnd) (l : PipeLocal α) : PipeLocal α :=
  ⟨peer, l.outq, l.inq, l.outbox, l.inbox⟩

/-- What of an end belongs to the handshake. -/
def handshake (l : PipeLocal α) : Handshake.Local :=
  ⟨l.own.party, l.inbox.map Command.signal, l.outbox.map Command.signal⟩

end PipeLocal

section
variable {l l' : PipeLocal α} {e : Transfer α}

/-- Commands other than those of the handshake. -/
private theorem handshake_post {h : Handshake.Local} (hacked : h.own.acked = false)
    {signals : List Signal} (hsignals : signals = [] ∨ signals = [.other]) :
    Relation.ReflTransGen Handshake.Move h { h with outbox := h.outbox ++ signals } := by
  rcases hsignals with rfl | rfl
  · rw [List.append_nil]
  · exact .single (.post h hacked)

private theorem announce_signals (own : PipeEnd) (n : Nat) :
    (own.announce n).map Command.signal = [] ∨ (own.announce n).map Command.signal = [.other] := by
  unfold PipeEnd.announce
  split
  · exact .inr rfl
  · exact .inl rfl

private theorem wake_signals (q : Fifo (Msg α)) :
    q.wake.map Command.signal = [] ∨ q.wake.map Command.signal = [.other] := by
  unfold Fifo.wake
  split
  · exact .inl rfl
  · exact .inr rfl

/-- The acknowledgement of an end that has heard of the end of the pipe. -/
private theorem handshake_ack {state : PipeState} (hstate : state.acked = true)
    (hasked : state.asked = l.own.state.asked) (hheard : l.own.state.heard = true)
    (hacked : l.own.acked = false) :
    Handshake.Move l.handshake (l.ack state).handshake := by
  have hmove := Handshake.Move.ack l.handshake hheard hacked
  have hheard' : state.heard = true := by
    cases state <;> simp_all [PipeState.acked, PipeState.heard]
  simpa [PipeLocal.handshake, PipeLocal.ack, PipeEnd.party, PipeEnd.acked, hstate, hasked,
    hheard', hheard, Command.signal] using hmove

/-- An end that has not asked for the end of the pipe hears that the other one has. -/
private theorem handshake_hear {inbox : List Command} (hinbox : l.inbox = .pipe_term :: inbox)
    (hstate : l.own.state = .active ∨ l.own.state = .delimiter_received) :
    Handshake.Move l.handshake (PipeLocal.handshake
      { l with own := { l.own with state := .waiting_for_delimiter }, inbox }) := by
  have hmove := Handshake.Move.hear (l := l.handshake) (by rw [PipeLocal.handshake, hinbox]; rfl)
  rcases hstate with hstate | hstate <;>
    simpa [PipeLocal.handshake, PipeEnd.party, PipeEnd.acked, PipeState.asked, PipeState.heard,
      PipeState.acked, hstate] using hmove

/-- **A pipe is closed by a handshake.** -/
theorem PipeMove.handshake (h : PipeMove l e l') :
    Relation.ReflTransGen Handshake.Move l.handshake l'.handshake := by
  cases h with
  | idle | setDelay | sleep | full | wrote | rollback | goOnWaiting | finishNull => exact .refl
  -- Commands that the handshake does not know may be sent as long as the peer is there.
  | @got f msgs hin hreads hfreed hready =>
      have hpost := handshake_post (h := l.handshake) (PipeEnd.acked_of_reads hreads hfreed)
        (announce_signals l.own (countLast f l.own.msgsRead))
      rwa [PipeLocal.handshake, ← List.map_append] at hpost
  | flush hacked =>
      have hpost := handshake_post (h := l.handshake) hacked (wake_signals l.outq)
      rwa [PipeLocal.handshake, ← List.map_append] at hpost
  | finish hacked hstate =>
      have hpost := handshake_post (h := l.handshake) hacked
        (wake_signals (l.outq.dropRest.write .delimiter false))
      rwa [PipeLocal.handshake, ← List.map_append] at hpost
  -- The delimiter on its own is no part of the handshake.
  | delimiter hstate hready =>
      have hsame : l.own.party = PipeEnd.party { l.own with state := .delimiter_received } := by
        simp [PipeEnd.party, PipeEnd.acked, PipeState.asked, PipeState.heard, PipeState.acked, hstate]
      rw [PipeLocal.handshake, hsame]
      exact .refl
  | lastDelimiter hstate hfreed hready =>
      refine .single (handshake_ack (l := { l with inq := l.inq.read }) rfl ?_ ?_ ?_) <;>
        simp [PipeEnd.acked, PipeState.asked, PipeState.heard, PipeState.acked, hstate, hfreed]
  | ask delay hstate hfreed =>
      have hasked : l.own.state.asked = false := by
        rcases hstate with hstate | hstate <;> simp [PipeState.asked, hstate]
      have hacked : l.own.acked = false := by
        rcases hstate with hstate | hstate <;>
          simp [PipeEnd.acked, PipeState.acked, hstate, hfreed]
      have hmove := Handshake.Move.ask l.handshake hasked hacked
      refine .single ?_
      rcases hstate with hstate | hstate <;>
        simpa [PipeLocal.handshake, PipeEnd.party, PipeEnd.acked, PipeState.asked,
          PipeState.heard, PipeState.acked, Command.signal, hfreed, hstate] using hmove
  | stopWaiting hstate hfreed =>
      refine .single (handshake_ack (l := { l with
          own := { l.own with delay := false, closing := true }, outq := l.outq.dropRest })
        rfl ?_ ?_ ?_) <;>
        simp [PipeEnd.acked, PipeState.asked, PipeState.heard, PipeState.acked, hstate, hfreed]
  | activateRead hinbox | activateWrite hinbox =>
      refine .single ?_
      have hmove := Handshake.Move.take (l := l.handshake) (by rw [PipeLocal.handshake, hinbox]; rfl)
      exact hmove
  | termWait hinbox hstate => exact .single (handshake_hear hinbox (.inl hstate))
  -- Hearing of it and acknowledging in one step.
  | @termAck inbox hinbox hstate hfreed =>
      refine .tail (.single (handshake_hear hinbox hstate)) ?_
      exact handshake_ack
        (l := { l with own := { l.own with state := .waiting_for_delimiter }, inbox }) rfl rfl rfl
        (by simpa [PipeEnd.acked, PipeState.acked] using hfreed)
  | @termBoth inbox hinbox hstate hfreed =>
      have hhear := Handshake.Move.hear (l := l.handshake) (by rw [PipeLocal.handshake, hinbox]; rfl)
      have hack := Handshake.Move.ack
        (⟨{ l.own.party with heard := true }, inbox.map Command.signal,
          l.outbox.map Command.signal⟩ : Handshake.Local) rfl
        (by simp [PipeEnd.party, PipeEnd.acked, PipeState.acked, hstate, hfreed])
      refine .tail (.single hhear) ?_
      simpa [PipeLocal.handshake, PipeLocal.ack, PipeEnd.party, PipeEnd.acked, PipeState.asked,
        PipeState.heard, PipeState.acked, Command.signal, hstate] using hack
  -- Being answered before having answered: the end does both.
  | ackFree hinbox hstate hfreed hrest =>
      have hmove := Handshake.Move.free (l := l.handshake)
        (by rw [PipeLocal.handshake, hinbox]; rfl)
      refine .single ?_
      simpa [PipeLocal.handshake, PipeEnd.party, PipeEnd.acked, PipeState.acked, Command.signal,
        hstate, hfreed] using hmove
  | free hinbox hacked hrest =>
      have hmove := Handshake.Move.free (l := l.handshake)
        (by rw [PipeLocal.handshake, hinbox]; rfl)
      refine .single ?_
      simpa [PipeLocal.handshake, PipeEnd.party, PipeEnd.acked, hacked] using hmove

/-- What the reader has of an unfinished message is not up to it. -/
theorem PipeMove.inq_rest (h : PipeMove l e l') : l'.inq.rest = l.inq.rest := by
  cases h with
  | ackFree hinbox hstate hfreed hrest | free hinbox hacked hrest => exact hrest
  | _ => rfl

end

/-! ## Both ends -/

namespace PipePair

/-- A step of one of the two threads. -/
def Step (p : PipePair α) (a : Bool × PipeAct α) (p' : PipePair α) : Prop :=
  (p.next a.1 a.2).map Prod.snd = some p'

/-- What an end has to do with. -/
def side (s : Bool) (p : PipePair α) : PipeLocal α := (p.reach s).toLocal

/-- The two ends see the same things from the two sides. -/
theorem side_across (s : Bool) (p : PipePair α) :
    p.side (!s) = (p.side s).across (p.ends !s) := by
  cases s <;> rfl

/-- Each end keeps to its part, and between them the handshake holds. -/
structure Sound (p : PipePair α) : Prop where
  ends : ∀ s, (p.reach s).Sound
  between : ∀ s, Between (p.side s).handshake (p.ends !s).party

theorem sound_new (hwms : Bool → Nat) : Sound (new hwms : PipePair α) where
  ends _ := ⟨YPipe.sound_fresh, YPipe.sound_fresh, by simp [reach, new, YPipe.fifo, YPipe.fresh],
    fun _ => rfl, rfl, by simp [reach, new, PipeEnd.new]⟩
  between _ := between_fresh

variable {p p' : PipePair α} {s : Bool} {v : Pipe α} {e : Transfer α}

/-- What has been put back is what is reached next. -/
theorem reach_put (hpeer : v.peer = (p.reach s).peer) : (p.put s v).reach s = v := by
  obtain ⟨own, inpipe, outpipe, peer, inbox, outbox⟩ := v
  cases s <;> simpa [reach, put] using hpeer.symm

/-- The other end is not touched. -/
theorem ends_put (s : Bool) (v : Pipe α) (p : PipePair α) : (p.put s v).ends (!s) = p.ends !s := by
  cases s <;> rfl

/-- What is said of an end and of the one across is said of both. -/
theorem forall_side {P : Bool → Prop} (hs : P s) (hacross : P !s) (b : Bool) : P b := by
  cases s <;> cases b <;> assumption

/-- What the handshake says about the next command. -/
theorem Sound.expects (h : Sound p) (s : Bool) : (p.reach s).Expects where
  term inbox hinbox := by
    have hinto := (h.between s).into
    rw [show (p.side s).handshake.inbox = .ask :: inbox.map Command.signal from
      congrArg (List.map Command.signal) hinbox] at hinto
    exact hinto.heard_of_ask.2
  termAck inbox hinbox := by
    have hinto := (h.between s).into
    rw [show (p.side s).handshake.inbox = .ack :: inbox.map Command.signal from
      congrArg (List.map Command.signal) hinbox] at hinto
    have hfreed : (p.ends s).freed = false := hinto.alive
    have hacked : (p.ends s).state.asked = true ∨ (p.ends s).acked = true := hinto.acked_of_ack.2
    rwa [PipeEnd.acked, hfreed, Bool.or_false] at hacked

/-- **One step of one of the ends.** -/
theorem Sound.next (h : Sound p) {a : PipeAct α} (hready : (p.reach s).ready a = true) :
    ∃ e p', p.next s a = some (e, p') ∧ Sound p' ∧ PipeMove (p.side s) e (p'.side s) ∧
      p'.ends (!s) = p.ends !s := by
  obtain ⟨⟨e, v⟩, hnext, hmoves⟩ := (h.ends s).next_spec (h.expects s) hready
  have hreach : (p.put s v).reach s = v := reach_put hmoves.peer
  have hends := ends_put s v p
  have hmove : PipeMove (p.side s) e ((p.put s v).side s) := by
    rw [side, side, hreach]
    exact hmoves.move
  have hbetween : Between ((p.put s v).side s).handshake ((p.put s v).ends !s).party := by
    rw [hends]
    exact (h.between s).moves hmove.handshake
  refine ⟨e, p.put s v, by rw [PipePair.next, hnext]; rfl, ⟨?_, ?_⟩, hmove, hends⟩
  · refine forall_side (s := s) (by rw [hreach]; exact hmoves.sound) ?_
    -- the other end finds the same things changed
    have hother := h.ends !s
    have hin : ((p.put s v).reach !s).inpipe = v.outpipe := by cases s <;> rfl
    have hout : ((p.put s v).reach !s).outpipe = v.inpipe := by cases s <;> rfl
    have hown : ((p.put s v).reach !s).own = (p.reach !s).own := by cases s <;> rfl
    have hpeer : ((p.put s v).reach !s).peer = !v.own.freed := by cases s <;> rfl
    have hrest : v.inpipe.fifo.rest = (p.reach !s).outpipe.fifo.rest := by
      have := hmoves.move.inq_rest
      rw [Pipe.toLocal, Pipe.toLocal] at this
      rw [this]
      cases s <;> rfl
    refine ⟨hin ▸ hmoves.sound.outpipe, hout ▸ hmoves.sound.inpipe, ?_, ?_, ?_, ?_⟩
    · rw [hout, hrest]
      exact hother.rest
    · rw [hown, hpeer]
      intro hacked
      -- Had this end been freed, the other one would have acknowledged.
      have hfreed := hbetween.symm.out.not_freed (by rw [hends]; exact hacked)
      have hv : v.own.freed = false := by
        have : ((p.put s v).side s).handshake.own = v.own.party := by
          rw [side, hreach]
          rfl
        rw [this] at hfreed
        exact hfreed
      rw [hv]
      rfl
    · rw [hown]
      exact hother.null
    · rw [hown]
      exact hother.closing
  · refine forall_side hbetween ?_
    have hacross := side_across s (p.put s v)
    rw [Bool.not_not, hacross]
    have hown : ((p.put s v).ends s).party = ((p.put s v).side s).handshake.own := rfl
    rw [hown]
    exact hbetween.symm

/-- What holds along each of the two ways through a pipe: `W w r q fwd back` of the end that writes,
the end that reads, the queue, and the commands under way with it and against it. -/
def Both (W : PipeEnd → PipeEnd → Fifo (Msg α) → List Command → List Command → Prop)
    (l : PipeLocal α) (peer : PipeEnd) : Prop :=
  W l.own peer l.outq l.outbox l.inbox ∧ W peer l.own l.inq l.inbox l.outbox

variable {W : PipeEnd → PipeEnd → Fifo (Msg α) → List Command → List Command → Prop}

theorem Sound.step (h : Sound p) {a : Bool × PipeAct α} (hstep : Step p a p') :
    ∃ e, p.next a.1 a.2 = some (e, p') ∧ Sound p' ∧ PipeMove (p.side a.1) e (p'.side a.1) ∧
      p'.ends (!a.1) = p.ends !a.1 := by
  obtain ⟨⟨e, _⟩, hnext, rfl⟩ := Option.map_eq_some_iff.mp hstep
  -- A step that was taken was ready, and then it is the one known.
  cases hready : (p.reach a.1).ready a.2 with
  | false => simp [PipePair.next, Pipe.next_of_not_ready hready] at hnext
  | true =>
      obtain ⟨e', p₁, hnext', hrest⟩ := h.next hready
      obtain ⟨rfl, rfl⟩ := Prod.mk.inj (Option.some.inj (hnext.symm.trans hnext'))
      exact ⟨e, hnext, hrest⟩

/-- It is enough to look from one side. -/
theorem both_across (s : Bool) (h : Both W (p.side s) (p.ends !s)) (b : Bool) :
    Both W (p.side b) (p.ends !b) := by
  refine forall_side (P := fun b => Both W (p.side b) (p.ends !b)) h ?_ b
  show Both W (p.side !s) (p.ends !(!s))
  rw [side_across, Bool.not_not]
  exact ⟨h.2, h.1⟩

/-- **Along a run**, what every move keeps along both ways holds along both ways. -/
theorem run_both {tr : List (Taken (PipePair α) (Bool × PipeAct α))} {u : PipePair α}
    (hmove : ∀ (l : PipeLocal α) (e : Transfer α) (l' : PipeLocal α) (peer : PipeEnd),
      PipeMove l e l' → Between l.handshake peer.party → Both W l peer → Both W l' peer)
    (h : Run Step p tr u) (hp : Sound p) (hW : ∀ s, Both W (p.side s) (p.ends !s)) :
    Sound u ∧ ∀ s, Both W (u.side s) (u.ends !s) := by
  refine (h.invariant (I := fun p => Sound p ∧ ∀ s, Both W (p.side s) (p.ends !s)) ?_ ⟨hp, hW⟩).2
  rintro p ⟨s, a⟩ p' hstep ⟨hp, hW⟩
  obtain ⟨e, -, hp', hside, hends⟩ := hp.step hstep
  refine ⟨hp', both_across s ?_⟩
  rw [hends]
  exact hmove _ _ _ _ hside (hp.between s) (hW s)

end PipePair

/-! ## Coming to an end -/

/-- What the end that reads needs, to get to the end of the pipe. -/
structure Closes (w r : PipeEnd) (q : Fifo (Msg α)) (fwd : List Command) : Prop where
  /-- Who has asked for the end has sent a delimiter, and it is read last. -/
  delimiter : w.state.asked = true → w.closing = false → r.state.reads = true →
    Msg.delimiter ∈ q.ready
  /-- Who has found nothing is woken up by what comes. -/
  awake : r.state.reads = true → r.inActive = false →
    q.asleep = true ∨ Command.activate_read ∈ fwd

section
variable {w w' r r' : PipeEnd} {q q' : Fifo (Msg α)} {fwd fwd' : List Command}

/-- What an end does that writes: nothing that is ready may be lost, and the reader must not be left
asleep. -/
theorem Closes.sends (h : Closes w r q fwd)
    (hasked : w'.state.asked = true → w'.closing = false → r.state.reads = true →
      w.state.asked = true ∧ w.closing = false ∨ Msg.delimiter ∈ q'.ready)
    (hready : ∀ msg ∈ q.ready, msg ∈ q'.ready)
    (hasleep : q.asleep = true → q'.asleep = true ∨ Command.activate_read ∈ fwd')
    (hfwd : ∀ command ∈ fwd, command ∈ fwd') : Closes w' r q' fwd' where
  delimiter hw hclosing hr := by
    rcases hasked hw hclosing hr with ⟨hw, hclosing⟩ | hmem
    · exact hready _ (h.delimiter hw hclosing hr)
    · exact hmem
  awake hr hin := by
    rcases h.awake hr hin with hasleep' | hmem
    · exact hasleep hasleep'
    · exact .inr (hfwd _ hmem)

/-- What an end does that reads: it must not lose the delimiter, nor the command that wakes it. -/
theorem Closes.receives (h : Closes w r q fwd) (hreads : r'.state.reads = true →
      r.state.reads = true)
    (hready : r'.state.reads = true → Msg.delimiter ∈ q.ready → Msg.delimiter ∈ q'.ready)
    (hawake : r'.state.reads = true → r'.inActive = false →
      q'.asleep = true ∨ r.inActive = false ∧
        (q.asleep = true → q'.asleep = true) ∧
        (Command.activate_read ∈ fwd → Command.activate_read ∈ fwd')) : Closes w r' q' fwd' where
  delimiter hw hclosing hr := hready hr (h.delimiter hw hclosing (hreads hr))
  awake hr hin := by
    rcases hawake hr hin with hasleep | ⟨hin, hasleep, hfwd⟩
    · exact .inl hasleep
    · exact (h.awake (hreads hr) hin).imp hasleep hfwd

end

section
variable {l l' : PipeLocal α} {e : Transfer α} {peer : PipeEnd}

/-- Who asks for the end of the pipe does not read any more. -/
private theorem not_reads_of_heard (hbetween : Between l.handshake peer.party)
    (hheard : l.own.state.heard = true) : peer.state.reads = false := by
  have hpeer : peer.state.asked = true := hbetween.into.heard hheard
  cases hstate : peer.state <;> simp_all [PipeState.asked, PipeState.reads]

private theorem flush_ready (q : Fifo (Msg α)) : ∀ msg ∈ q.ready, msg ∈ q.flush.ready :=
  fun _ => List.mem_append_left _

/-- A flush leaves the reader asleep, or is followed by the command that wakes it up. -/
private theorem flush_asleep {q : Fifo (Msg α)} (commands : List Command)
    (hasleep : q.asleep = true) :
    q.flush.asleep = true ∨ Command.activate_read ∈ commands ++ q.wake := by
  cases hcomplete : q.complete <;> simp [Fifo.flush, Fifo.wake, hasleep, hcomplete]

/-- On the moves: a delimiter is on its way before the end is done with closing. -/
theorem PipeMove.closes_out (h : PipeMove l e l') (hbetween : Between l.handshake peer.party)
    (hcloses : Closes l.own peer l.outq l.outbox) : Closes l'.own peer l'.outq l'.outbox := by
  -- a move that leaves the queue as it is
  have hsame : ∀ (own : PipeEnd) (commands : List Command),
      (own.state.asked = true → own.closing = false → peer.state.reads = true →
        l.own.state.asked = true ∧ l.own.closing = false) →
      Closes own peer l.outq (l.outbox ++ commands) :=
    fun own commands hown => hcloses.sends (fun ha hc hr => .inl (hown ha hc hr)) (fun _ => id) .inl
      (fun _ => List.mem_append_left _)
  cases h with
  | idle | setDelay | sleep | full | activateRead | activateWrite =>
      exact ⟨hcloses.delimiter, hcloses.awake⟩
  | got => exact hsame _ _ fun ha hc _ => ⟨ha, hc⟩
  | delimiter hstate | termWait hinbox hstate =>
      exact hcloses.sends (fun ha => by simp [PipeState.asked] at ha) (fun _ => id) .inl
        (fun _ => id)
  | lastDelimiter | stopWaiting | termAck =>
      exact hcloses.sends (fun ha => by simp [PipeLocal.ack, PipeState.asked] at ha) (fun _ => id)
        .inl (fun _ => List.mem_append_left _)
  | wrote f =>
      refine hcloses.sends (fun ha hc hr => .inl ⟨ha, hc⟩) (fun msg hmsg => ?_) (fun ha => .inl ?_)
        (fun _ => id) <;> cases hmore : f.more <;>
        simpa [PipeLocal.afterWrote, Fifo.write, hmore]
  | rollback => exact hcloses.sends (fun ha hc _ => .inl ⟨ha, hc⟩) (fun _ => id) .inl fun _ => id
  | flush hacked =>
      exact hcloses.sends (fun ha hc _ => .inl ⟨ha, hc⟩) (flush_ready _) (flush_asleep _)
        fun _ => List.mem_append_left _
  | ask => exact hsame _ _ fun _ hc => by simp at hc
  | goOnWaiting => exact hcloses.sends (fun _ hc => by simp at hc) (fun _ => id) .inl fun _ => id
  | finishNull hacked hfreed =>
      refine hcloses.sends (fun ha _ hr => ?_) (fun _ => id) .inl fun _ => id
      -- It acknowledged meanwhile, so the peer has asked and does not read.
      have hheard : l.own.state.heard = true := by
        have hacked : l.own.state.acked = true := by simpa [PipeEnd.acked, hfreed] using hacked
        cases hstate : l.own.state <;> simp_all [PipeState.acked, PipeState.heard]
      rw [not_reads_of_heard hbetween hheard] at hr
      cases hr
  | finish hacked hstate =>
      -- Here the delimiter is written and flushed.
      have hdelimiter : Msg.delimiter ∈ (l.outq.dropRest.write .delimiter false).flush.ready := by
        simp [Fifo.flush, Fifo.write]
      refine hcloses.sends (fun _ _ _ => .inr hdelimiter) (fun msg hmsg => ?_)
        (fun hasleep => flush_asleep _ hasleep) fun _ => List.mem_append_left _
      exact flush_ready (l.outq.dropRest.write .delimiter false) msg hmsg
  | termBoth hinbox hstate hfreed =>
      exact hsame _ _ fun ha hc hr => ⟨by simp [hstate, PipeState.asked], hc⟩
  | ackFree => exact hsame _ _ fun ha hc _ => ⟨ha, hc⟩
  | free => exact hcloses.sends (fun ha hc _ => .inl ⟨ha, hc⟩) (fun _ => id) .inl fun _ => id

/-- And from the side of the reader: while it reads it is awake, or it will be. -/
theorem PipeMove.closes_in (h : PipeMove l e l')
    (hcloses : Closes peer l.own l.inq l.inbox) : Closes peer l'.own l'.inq l'.inbox := by
  -- a move to a state in which the end does not read any more
  have hdone : ∀ (own : PipeEnd) (q : Fifo (Msg α)) (inbox : List Command),
      own.state.reads = false → Closes peer own q inbox := by
    intro own q inbox hreads
    exact ⟨fun _ _ hr => by simp [hreads] at hr, fun hr => by simp [hreads] at hr⟩
  -- another command than the one to wake up
  have hpop : ∀ {command : Command} {inbox : List Command}, l.inbox = command :: inbox →
      command ≠ .activate_read → .activate_read ∈ l.inbox → .activate_read ∈ inbox := by
    intro command inbox hinbox hne hmem
    rw [hinbox, List.mem_cons] at hmem
    exact hmem.resolve_left hne.symm
  cases h with
  | idle | setDelay | full | wrote | rollback | flush | goOnWaiting | finishNull | finish =>
      exact ⟨hcloses.delimiter, hcloses.awake⟩
  -- It goes to sleep only where the queue knows of it.
  | sleep hready =>
      exact hcloses.receives id (fun _ => id)
        fun _ _ => .inl (by simp [Fifo.checkRead, hready])
  | got hin hreads hfreed hready =>
      refine hcloses.receives id (fun _ hmem => ?_) fun _ hin' => ?_
      · simpa [PipeLocal.afterGot, Fifo.read, hready] using hmem
      · rw [show l.own.inActive = false from hin'] at hin
        cases hin
  | delimiter | lastDelimiter | stopWaiting | termAck | termBoth => exact hdone _ _ _ rfl
  | ask delay hstate hfreed => exact hdone _ _ _ rfl
  | activateRead hinbox =>
      refine hcloses.receives id (fun _ => id) fun hreads hin => ?_
      rw [show l.own.state.reads = true from hreads, Bool.or_true] at hin
      cases hin
  | activateWrite hinbox =>
      exact hcloses.receives id (fun _ => id) fun _ hin => .inr ⟨hin, id, hpop hinbox (by simp)⟩
  | termWait hinbox hstate =>
      refine hcloses.receives (fun _ => by rw [hstate]; rfl) (fun _ => id) fun _ hin => ?_
      exact .inr ⟨hin, id, hpop hinbox (by simp)⟩
  | ackFree hinbox hstate => exact hdone _ _ _ (by simp [hstate, PipeState.reads])
  | free hinbox hacked =>
      refine hdone _ _ _ ?_
      show l.own.state.reads = false
      cases hstate : l.own.state <;> simp_all [PipeState.acked, PipeState.reads]

end

/-- Handling a delimiter leaves the queue. -/
theorem Pipe.processDelimiter_inpipe {v v' : Pipe α} (h : v.processDelimiter = some v') :
    v'.inpipe = v.inpipe := by
  unfold processDelimiter at h
  split at h
  · cases h
    rfl
  · split at h
    · obtain ⟨v₁, hsend, rfl⟩ := Option.map_eq_some_iff.mp h
      unfold send at hsend
      split at hsend
      · cases hsend
        rfl
      · cases hsend
    · cases h

/-- Reading where there is something to read takes it. -/
theorem Pipe.read_inpipe {v : Pipe α} {r : Option (Frame α) × Pipe α} (h : v.read = some r)
    (hin : v.own.inActive = true) (hreads : v.own.state.reads = true) :
    ∃ msg, v.inpipe.read = some (msg, r.2.inpipe) := by
  have hguard : ¬ (!v.own.inActive || !v.own.state.reads) = true := by simp [hin, hreads]
  rw [read, if_neg hguard] at h
  obtain ⟨⟨msg, q⟩, hread, h⟩ := Option.bind_eq_some_iff.mp h
  have hq : r.2.inpipe = q := by
    cases msg with
    | none =>
        cases h
        rfl
    | some msg =>
        cases msg with
        | delimiter =>
            obtain ⟨v', hprocess, rfl⟩ := Option.map_eq_some_iff.mp h
            exact processDelimiter_inpipe hprocess
        | frame f =>
            dsimp only at h
            -- Whether the peer is told or not, the queue is the same.
            generalize (if f.more = true then v.own.msgsRead else v.own.msgsRead + 1) = n at h
            split at h
            · obtain ⟨v', hsend, rfl⟩ := Option.map_eq_some_iff.mp h
              unfold send at hsend
              split at hsend
              · cases hsend
                rfl
              · cases hsend
            · cases h
              rfl
  exact ⟨msg, hq ▸ hread⟩

namespace PipePair
variable {u : PipePair α} {tr : List (Taken (PipePair α) (Bool × PipeAct α))}

/-- Nothing is under way, no thread is in the middle of something, and whoever tries to read gets
nothing. -/
def Settled (p : PipePair α) : Prop :=
  ∀ s, p.mail s = [] ∧ (p.ends s).closing = false ∧
    ∀ e p', p.next s .read = some (e, p') → p' = p

/-- An end that is awake and has something to read takes it out of the queue. -/
private theorem Sound.read_ne (h : Sound u) {s : Bool} (hfreed : (u.ends s).freed = false)
    (hclosing : (u.ends s).closing = false) (hin : (u.ends s).inActive = true)
    (hreads : (u.ends s).state.reads = true) (hne : (u.inpipe s).fifo.ready ≠ []) :
    ∃ e p', u.next s .read = some (e, p') ∧ p' ≠ u := by
  have hready : (u.reach s).ready .read = true := by
    simp [Pipe.ready, PipeEnd.mayAct, reach, hfreed, hclosing]
  obtain ⟨⟨e, v⟩, hnext, -⟩ := (h.ends s).next_spec (h.expects s) hready
  refine ⟨e, u.put s v, by rw [PipePair.next, hnext]; rfl, fun hput => ?_⟩
  have hread : ∃ r, (u.reach s).read = some r ∧ r.2 = v := by
    unfold Pipe.next at hnext
    split at hnext
    · cases hnext
    · obtain ⟨r, hread, hr⟩ := Option.map_eq_some_iff.mp hnext
      exact ⟨r, hread, congrArg Prod.snd hr⟩
  obtain ⟨r, hread, rfl⟩ := hread
  obtain ⟨msg, hread⟩ := Pipe.read_inpipe hread hin hreads
  obtain ⟨q, hread', -, hfifo⟩ := (h.ends s).inpipe.read_spec
  have hq : q = u.inpipe s := by
    have hsame : r.2.inpipe = u.inpipe s := by
      rw [← hput]
      cases s <;> rfl
    rw [← hsame]
    exact congrArg Prod.snd (Option.some.inj (hread'.symm.trans hread))
  -- the queue would be as long as before, with one item less
  have hlen := congrArg (fun q => q.ready.length) hfifo
  have hpos := List.length_pos_iff.mpr hne
  rw [hq] at hlen
  simp only [reach, Fifo.read, Fifo.checkRead, List.length_tail] at hlen
  omega

/-- In a settled state nobody waits for the delimiter: it would be there, and the reader awake. -/
theorem Settled.acked (h : Settled u) (hsound : Sound u)
    (hcloses : ∀ s, Both (fun w r q fwd _ => Closes w r q fwd) (u.side s) (u.ends !s)) (s : Bool)
    (hheard : (u.ends s).state.heard = true) : (u.ends s).acked = true := by
  by_contra hacked
  obtain ⟨hstate, hfreed⟩ := Bool.or_eq_false_iff.mp (Bool.eq_false_iff.mpr hacked)
  have hreads : (u.ends s).state.reads = true := by
    cases hs : (u.ends s).state <;>
      simp_all [PipeState.heard, PipeState.acked, PipeState.reads]
  have hasked : (u.ends !s).state.asked = true := (hsound.between s).into.heard hheard
  obtain ⟨hmail, hclosing, hstuck⟩ := h s
  have hcloses : Closes (u.ends !s) (u.ends s) (u.inpipe s).fifo (u.mail s) := (hcloses s).2
  have hmem : Msg.delimiter ∈ (u.inpipe s).fifo.ready :=
    hcloses.delimiter hasked (h !s).2.1 hreads
  have hne : (u.inpipe s).fifo.ready ≠ [] := List.ne_nil_of_mem hmem
  have hin : (u.ends s).inActive = true := by
    by_contra hin
    rcases hcloses.awake hreads (Bool.eq_false_iff.mpr hin) with hasleep | hwake
    · exact hne ((hsound.ends s).inpipe.ready_eq_nil hasleep)
    · rw [hmail] at hwake
      cases hwake
  -- so it could still read
  obtain ⟨e, p', hnext, hchanged⟩ := hsound.read_ne hfreed hclosing hin hreads hne
  exact hchanged (hstuck e p' hnext)

/-- What closing needs holds in every state of a run. -/
theorem closes_run {hwms : Bool → Nat} (h : Run Step (new hwms) tr u) :
    Sound u ∧ ∀ s, Both (fun w r q fwd _ => Closes w r q fwd) (u.side s) (u.ends !s) := by
  refine run_both (fun l e l' peer hmove hbetween hboth =>
    ⟨hmove.closes_out hbetween hboth.1, hmove.closes_in hboth.2⟩) h (sound_new hwms) ?_
  refine fun s => ⟨⟨?_, ?_⟩, ⟨?_, ?_⟩⟩ <;> simp [side, reach, Pipe.toLocal, new, PipeEnd.new,
    PipeState.asked]

/-- **Closing a pipe** whose watermarks stay as they are and that is not hiccuped, in every run of the
two threads. Nothing goes wrong: whatever a thread may do and has a reason to do is possible, so no
assertion fails, no queue and no pipe is used after it has been freed, and a freed pipe is sent
nothing. And when the threads have nothing left to do and one of the ends has asked for the end of
the pipe, both are gone. -/
theorem closing_run {hwms : Bool → Nat} (h : Run Step (new hwms) tr u) :
    (∀ s a, (u.next s a).isSome = (u.reach s).ready a) ∧
      (∀ s, (u.ends s).freed = true → u.mail s = [] ∧ (u.ends !s).outpipe = false) ∧
      (Settled u → ∀ s, (u.ends s).state.asked = true → ∀ b, (u.ends b).freed = true) := by
  obtain ⟨hsound, hcloses⟩ := closes_run h
  refine ⟨fun s a => ?_, fun s hfreed => ?_, fun hsettled s hasked b => ?_⟩
  · cases hready : (u.reach s).ready a with
    | false => rw [PipePair.next, Pipe.next_of_not_ready hready]; rfl
    | true =>
        obtain ⟨e, p', hnext, -⟩ := hsound.next hready
        rw [hnext, Option.isSome_some]
  · obtain ⟨hacked, hmail⟩ := (hsound.between s).into.freed hfreed
    refine ⟨List.map_eq_nil_iff.mp hmail, ?_⟩
    have hnull := (hsound.ends !s).null
    rw [show (u.reach !s).own.acked = true from hacked] at hnull
    exact hnull
  · have hfreed := (hsound.between s).freed (congrArg _ (hsettled s).1)
      (congrArg _ (hsettled !s).1) (hsettled.acked hsound hcloses s)
      (hsettled.acked hsound hcloses !s) (.inl hasked)
    exact forall_side (P := fun b => (u.ends b).freed = true) hfreed.1 hfreed.2 b

/-- One end writes a message and closes the pipe, and the other one reads the message first. -/
theorem closing_run_pending :
    ∃ (tr : List (Taken (PipePair Nat) (Bool × PipeAct Nat))) (u : PipePair Nat),
      Run Step (new fun _ => 1) tr u ∧ tr.length = 11 ∧ (u.ends true).freed = true ∧
      (∀ s a, (u.next s a).isSome = (u.reach s).ready a) ∧
      (∀ s, (u.ends s).freed = true → u.mail s = [] ∧ (u.ends !s).outpipe = false) ∧
      (Settled u → ∀ s, (u.ends s).state.asked = true → ∀ b, (u.ends b).freed = true) := by
  have hrun : (attempt (fun p a => (PipePair.next p a.1 a.2).map Prod.snd)
      (new fun _ => 1 : PipePair Nat)
      [(true, .read), (false, .write ⟨7, false⟩), (false, .terminate false),
        (false, .finishTerminate), (true, .processCommand), (true, .processCommand), (true, .read),
        (true, .read), (false, .processCommand), (false, .processCommand),
        (true, .processCommand)]).map
      (fun r => (r.1.length, (r.2.ends true).freed)) = some (11, true) := rfl
  obtain ⟨⟨tr, u⟩, hattempt, htr⟩ := Option.map_eq_some_iff.mp hrun
  obtain ⟨hlen, hfreed⟩ := Prod.mk.inj htr
  obtain ⟨h, -⟩ := run_attempt hattempt
  exact ⟨tr, u, h, hlen, hfreed, closing_run h⟩

end PipePair
end EventBus.LibZmq
