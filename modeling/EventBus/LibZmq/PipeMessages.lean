import EventBus.LibZmq.PipeTermination

/-!
# The messages in a pipe

A message goes through a pipe as a sequence of frames, written one at a time. What one end reads
are the frames of the messages the other end has finished, in order; what it can see at any time
ends with the end of a message. So an end that has read the first frame of a message finds the rest
of it without waiting (`messages_run`).
-/

namespace EventBus.LibZmq

open Framing Transition Handshake

variable {α : Type}

/-! ## Frames of whole messages -/

/-- The frames of a message, by its parts: all but the last one say that there is more. -/
theorem framesOf_append (a : α) (as : List α) (d : α) :
    framesOf a (as ++ [d]) = (a :: as).map (fun d => ⟨d, true⟩) ++ [⟨d, false⟩] := by
  induction as generalizing a with
  | nil => rfl
  | cons b as ih =>
      rw [List.cons_append, framesOf, ih]
      rfl

/-- The message that a part closes. -/
theorem close_frames (parts : List α) (d : α) :
    (Message.close parts d).frames = parts.map (fun d => ⟨d, true⟩) ++ [⟨d, false⟩] := by
  cases parts with
  | nil => rfl
  | cons a as => exact framesOf_append a as d

/-- A message ends with a frame that says so. -/
theorem getLast_frames (m : Message α) : ∃ fs d, m.frames = fs ++ [⟨d, false⟩] := by
  obtain ⟨a, as⟩ := m
  rcases List.eq_nil_or_concat as with rfl | ⟨as, d, rfl⟩
  · exact ⟨[], a, rfl⟩
  · exact ⟨_, d, by rw [List.concat_eq_append]; exact framesOf_append a as d⟩

/-- Whole messages end with the end of a message. -/
theorem more_of_getLast_wire {ms : List (Message α)} {f : Frame α}
    (h : (wire ms).getLast? = some f) : f.more = false := by
  -- The last frame is that of the last message.
  rcases List.eq_nil_or_concat ms with rfl | ⟨ms, m, rfl⟩
  · cases h
  · obtain ⟨fs, d, hm⟩ := getLast_frames m
    rw [List.concat_eq_append, wire_append, wire_cons, wire_nil, List.append_nil, hm,
      ← List.append_assoc, List.getLast?_concat] at h
    cases h
    rfl

/-! ## What is written and read -/

/-- The messages an end has finished, and the parts of the one it has begun. -/
structure Written (α : Type) where
  openParts : List α
  messages : List (Message α)

/-- A frame opens a message or goes on with it, and the last one finishes it. -/
def Written.after (s : Written α) : Transfer α → Written α
  | .wrote f =>
      if f.more then { s with openParts := s.openParts ++ [f.data] }
      else ⟨[], s.messages ++ [Message.close s.openParts f.data]⟩
  | .dropped => { s with openParts := [] }
  | .none | .got _ => s

def Transfer.frames : Transfer α → List (Frame α)
  | .got f => [f]
  | .none | .wrote _ | .dropped => []

def Msg.frame? : Msg α → Option (Frame α)
  | .frame f => some f
  | .delimiter => none

/-- The frames in a queue, without the delimiter. -/
def frames (msgs : List (Msg α)) : List (Frame α) := msgs.filterMap Msg.frame?

/-- Nothing comes after a delimiter but another one. -/
def DelimitersLast (msgs : List (Msg α)) : Prop :=
  msgs.Pairwise fun a b => a = .delimiter → b = .delimiter

/-- From an end that has written `sent` to an end that has got `got`. -/
structure Carries (sent : Written α) (got : List (Frame α)) (w r : PipeEnd) (q : Fifo (Msg α)) :
    Prop where
  ready : r.freed = false → ∃ k ≤ sent.messages.length,
    got ++ frames q.ready = wire (sent.messages.take k)
  complete : r.freed = false → got ++ frames (q.ready ++ q.complete) = wire sent.messages
  rest : w.state = .active → q.rest = sent.openParts.map fun d => .frame ⟨d, true⟩
  last : r.freed = false → DelimitersLast (q.ready ++ q.complete)
  none : r.freed = false → w.state = .active → Msg.delimiter ∉ q.ready ++ q.complete

theorem frames_append (msgs msgs' : List (Msg α)) :
    frames (msgs ++ msgs') = frames msgs ++ frames msgs' := List.filterMap_append

theorem frames_map (fs : List (Frame α)) : frames (fs.map Msg.frame) = fs := by
  induction fs with
  | nil => rfl
  | cons f fs ih => exact congrArg (f :: ·) ih

/-- Where there is still a frame, a frame comes first. -/
theorem DelimitersLast.head {msgs : List (Msg α)} (h : DelimitersLast msgs)
    (hne : frames msgs ≠ []) : ∃ f rest, msgs = .frame f :: rest := by
  cases msgs with
  | nil => exact absurd rfl hne
  | cons msg msgs =>
      cases msg with
      | frame f => exact ⟨f, msgs, rfl⟩
      | delimiter =>
          obtain ⟨hall, -⟩ := List.pairwise_cons.mp h
          refine absurd ?_ hne
          rw [frames, List.filterMap_eq_nil_iff]
          intro msg hmem
          rcases List.mem_cons.mp hmem with rfl | hmem
          · rfl
          · rw [hall msg hmem rfl]
            rfl

/-- More items, behind frames only or all of them delimiters. -/
theorem DelimitersLast.append {msgs msgs' : List (Msg α)} (h : DelimitersLast msgs)
    (h' : DelimitersLast msgs')
    (hnone : Msg.delimiter ∉ msgs ∨ ∀ msg ∈ msgs', msg = .delimiter) :
    DelimitersLast (msgs ++ msgs') := by
  refine List.pairwise_append.mpr ⟨h, h', fun a ha b hb heq => ?_⟩
  rcases hnone with hnone | hall
  · exact absurd (heq ▸ ha) hnone
  · exact hall b hb

theorem delimitersLast_frames (fs : List (Frame α)) : DelimitersLast (fs.map Msg.frame) := by
  rw [DelimitersLast, List.pairwise_map]
  exact List.pairwise_of_forall fun _ _ h => by cases h

section
variable {l l' : PipeLocal α} {e : Transfer α} {peer w r : PipeEnd} {q : Fifo (Msg α)}
  {sent sent' : Written α} {got : List (Frame α)}

/-- Nothing is written. -/
theorem Carries.keep (h : Carries sent got w r q) {w' : PipeEnd}
    (hmessages : sent'.messages = sent.messages)
    (hrest : w'.state = .active → w.state = .active ∧ sent'.openParts = sent.openParts) :
    Carries sent' got w' r q where
  ready hf := by rw [hmessages]; exact h.ready hf
  complete hf := by rw [hmessages]; exact h.complete hf
  rest hs := by rw [(hrest hs).2]; exact h.rest (hrest hs).1
  last := h.last
  none hf hs := h.none hf (hrest hs).1

/-- The rest of a message that has begun to be read is there. -/
theorem Carries.next_ready (h : Carries sent got w r q) (hfreed : r.freed = false) {f : Frame α}
    (hf : got.getLast? = some f) (hmore : f.more = true) :
    ∃ next msgs, q.ready = .frame next :: msgs := by
  obtain ⟨k, -, hready⟩ := h.ready hfreed
  have hlast : DelimitersLast q.ready := (List.pairwise_append.mp (h.last hfreed)).1
  -- Without a frame that is ready, what has been read would be whole messages.
  refine hlast.head fun hnil => ?_
  rw [hnil, List.append_nil] at hready
  rw [hready] at hf
  rw [more_of_getLast_wire hf] at hmore
  cases hmore

/-- A flush makes what is complete ready. -/
theorem Carries.flush (h : Carries sent got w r q) : Carries sent got w r q.flush where
  ready hf := ⟨_, Nat.le_refl _, by rw [List.take_length]; exact h.complete hf⟩
  complete hf := by
    rw [← h.complete hf]
    simp [Fifo.flush]
  rest := h.rest
  last hf := by simpa [Fifo.flush] using h.last hf
  none hf hs := by simpa [Fifo.flush] using h.none hf hs

/-- The reader takes the next item. -/
theorem Carries.take (h : Carries sent got w r q) {r' : PipeEnd} (hfreed : r'.freed = r.freed)
    {msg : Msg α} {msgs : List (Msg α)} (hready : q.ready = msg :: msgs) :
    Carries sent (got ++ frames [msg]) w r' q.read := by
  have hread : q.read.ready = msgs := by rw [Fifo.read, hready, List.tail_cons]
  have hframes : frames q.ready = frames [msg] ++ frames msgs := by
    rw [hready, ← frames_append, List.singleton_append]
  refine ⟨fun hf => ?_, fun hf => ?_, h.rest, fun hf => ?_, fun hf hs hmem => ?_⟩
  · obtain ⟨k, hk, heq⟩ := h.ready (hfreed ▸ hf)
    refine ⟨k, hk, ?_⟩
    rw [← heq, hread, hframes, List.append_assoc]
  · rw [← h.complete (hfreed ▸ hf), hread, frames_append, frames_append, hframes]
    simp only [List.append_assoc]
    rfl
  · have hlast := h.last (hfreed ▸ hf)
    rw [hready, List.cons_append] at hlast
    rw [hread]
    exact (List.pairwise_cons.mp hlast).2
  · refine h.none (hfreed ▸ hf) hs ?_
    rw [hread] at hmem
    rw [hready, List.cons_append]
    exact List.mem_cons_of_mem _ hmem

/-- The writer writes a frame; the last one finishes a message. -/
theorem Carries.write (h : Carries sent got w r q) (hstate : w.state = .active) (f : Frame α) :
    Carries (sent.after (.wrote f)) got w r (q.write (.frame f) f.more) := by
  have hrest := h.rest hstate
  cases hmore : f.more with
  | true =>
      -- One part more in the open message.
      have hf : f = ⟨f.data, true⟩ := by rw [← hmore]
      have hsent : sent.after (.wrote f) = { sent with openParts := sent.openParts ++ [f.data] } := by
        simp [Written.after, hmore]
      rw [hsent]
      exact ⟨h.ready, h.complete, fun _ => by simpa [Fifo.write, hrest] using hf, h.last, h.none⟩
  | false =>
      -- The open parts and this one are a message.
      have hf : f = ⟨f.data, false⟩ := by rw [← hmore]
      let m := Message.close sent.openParts f.data
      have hm : q.rest ++ [.frame f] = m.frames.map Msg.frame := by
        rw [hrest, close_frames, List.map_append, List.map_map]
        exact congrArg (_ ++ [Msg.frame ·]) hf
      have hqueue : q.write (.frame f) false =
          { q with complete := q.complete ++ m.frames.map .frame, rest := [] } := by
        rw [← hm]
        simp [Fifo.write]
      have hsent : sent.after (.wrote f) = ⟨[], sent.messages ++ [m]⟩ := by
        simp [Written.after, hmore, m]
      rw [hqueue, hsent]
      refine ⟨fun hr => ?_, fun hr => ?_, fun _ => rfl, fun hr => ?_, fun hr _ => ?_⟩
      · obtain ⟨k, hk, hready⟩ := h.ready hr
        refine ⟨k, by rw [List.length_append]; exact Nat.le_add_right_of_le hk, ?_⟩
        rw [List.take_append_of_le_length hk]
        exact hready
      · dsimp only
        rw [← List.append_assoc, frames_append, frames_map, ← List.append_assoc,
          h.complete hr, wire_append, wire_cons, wire_nil, List.append_nil]
      · dsimp only
        rw [← List.append_assoc]
        exact (h.last hr).append (delimitersLast_frames _) (.inl (h.none hr hstate))
      · dsimp only
        rw [← List.append_assoc, List.mem_append, not_or]
        exact ⟨h.none hr hstate, by simp⟩

/-- The writer gives up the message it has begun, and writes the delimiter. -/
theorem Carries.finish (h : Carries sent got w r q) {w' : PipeEnd} (hstate : w'.state ≠ .active) :
    Carries (sent.after .dropped) got w' r (q.dropRest.write .delimiter false).flush := by
  have hlast : r.freed = false → DelimitersLast (q.ready ++ (q.complete ++ [.delimiter])) := by
    intro hf
    rw [← List.append_assoc]
    exact (h.last hf).append (List.pairwise_singleton _ _) (.inr (by simp))
  have hwritten : Carries (sent.after .dropped) got w' r (q.dropRest.write .delimiter false) := by
    refine ⟨h.ready, fun hf => ?_, fun hs => absurd hs hstate, hlast,
      fun _ hs => absurd hs hstate⟩
    refine Eq.trans ?_ (h.complete hf)
    simp [Fifo.write, Fifo.dropRest, frames, Msg.frame?]
  exact hwritten.flush

/-- The reader leaves the queue as it is. -/
theorem Carries.leave (h : Carries sent got w r q) {r' : PipeEnd} (hfreed : r'.freed = r.freed) :
    Carries sent (got ++ []) w r' q := by
  rw [List.append_nil]
  exact ⟨fun hr => h.ready (hfreed ▸ hr), fun hr => h.complete (hfreed ▸ hr), h.rest,
    fun hr => h.last (hfreed ▸ hr), fun hr => h.none (hfreed ▸ hr)⟩

/-- Nobody reads the queue any more. -/
theorem Carries.free (h : Carries sent got w r q) {r' : PipeEnd} {q' : Fifo (Msg α)}
    {got' : List (Frame α)} (hfreed : r'.freed = true) (hrest : q'.rest = q.rest) :
    Carries sent got' w r' q' := by
  refine ⟨?_, ?_, fun hs => by rw [hrest]; exact h.rest hs, ?_, ?_⟩ <;>
    exact fun hr => absurd hr (by simp [hfreed])

/-- On the moves of the end that writes. -/
theorem PipeMove.carries_out (h : PipeMove l e l')
    (hcarries : Carries sent got l.own peer l.outq) :
    Carries (sent.after e) got l'.own peer l'.outq := by
  cases h with
  | idle e he =>
      rcases he with rfl | ⟨rfl, hstate⟩
      · exact hcarries
      · exact hcarries.keep rfl fun hs => absurd hs hstate
  | setDelay | sleep | got | full | activateRead | activateWrite | free | ackFree =>
      exact hcarries.keep rfl fun hs => ⟨hs, rfl⟩
  | goOnWaiting => exact hcarries.keep rfl fun hs => ⟨hs, rfl⟩
  | delimiter | lastDelimiter | ask | termWait | termAck | termBoth =>
      exact hcarries.keep rfl fun hs => by cases hs
  | finishNull hacked hfreed =>
      refine hcarries.keep rfl fun hs => ?_
      have hs : l.own.state = .active := hs
      simp [PipeEnd.acked, PipeState.acked, hs, hfreed] at hacked
  | rollback =>
      exact ⟨hcarries.ready, hcarries.complete, fun _ => rfl, hcarries.last, hcarries.none⟩
  | stopWaiting =>
      exact ⟨hcarries.ready, hcarries.complete, (fun hs => by cases hs), hcarries.last,
        (fun _ hs => by cases hs)⟩
  | flush => exact hcarries.flush
  | finish hacked hstate => exact hcarries.finish hstate
  | wrote f hstate hfreed hroom =>
      have hqueue : Carries (sent.after (.wrote f)) got l.own peer
          (l.outq.write (.frame f) f.more) := hcarries.write hstate f
      exact ⟨hqueue.ready, hqueue.complete, hqueue.rest, hqueue.last, hqueue.none⟩

/-- On the moves of the end that reads. -/
theorem PipeMove.carries_in (h : PipeMove l e l')
    (hcarries : Carries sent got peer l.own l.inq) :
    Carries sent (got ++ e.frames) peer l'.own l'.inq := by
  cases h with
  | idle e he =>
      have hframes : e.frames = [] := by rcases he with rfl | ⟨rfl, -⟩ <;> rfl
      rw [hframes]
      exact hcarries.leave rfl
  | delimiter hstate hready => exact hcarries.take (by rfl) hready
  | lastDelimiter hstate hfreed hready => exact hcarries.take (by rfl) hready
  | got hin hreads hfreed hready => exact hcarries.take (by rfl) hready
  | sleep =>
      have hleave : Carries sent (got ++ []) peer { l.own with inActive := false } l.inq :=
        hcarries.leave rfl
      exact ⟨hleave.ready, hleave.complete, hleave.rest, hleave.last, hleave.none⟩
  | ackFree hinbox hstate hfreed hrest | free hinbox hacked hrest => exact hcarries.free rfl hrest
  | _ => exact hcarries.leave rfl

end

/-! ## Runs -/

namespace PipePair
variable {u : PipePair α} {tr : List (Taken (PipePair α) (Bool × PipeAct α))} {hwms : Bool → Nat}

/-- What a step takes or puts at an end. -/
def transfer (s : Bool) (x : Taken (PipePair α) (Bool × PipeAct α)) : Transfer α :=
  if x.label.1 = s then ((x.pre.next s x.label.2).map Prod.fst).getD .none else .none

/-- What an end has written in a run. -/
def writtenBy (s : Bool) (tr : List (Taken (PipePair α) (Bool × PipeAct α))) : Written α :=
  (tr.map (transfer s)).foldl Written.after ⟨[], []⟩

/-- What an end has read in a run. -/
def gotBy (s : Bool) (tr : List (Taken (PipePair α) (Bool × PipeAct α))) : List (Frame α) :=
  (tr.map (transfer s)).flatMap Transfer.frames

/-- What has been written, step by step, ... -/
theorem writtenBy_append (s : Bool) (x : Taken (PipePair α) (Bool × PipeAct α)) :
    writtenBy s (tr ++ [x]) = (writtenBy s tr).after (transfer s x) := by
  rw [writtenBy, List.map_append, List.foldl_append]
  rfl

/-- ... and what has been read. -/
theorem gotBy_append (s : Bool) (x : Taken (PipePair α) (Bool × PipeAct α)) :
    gotBy s (tr ++ [x]) = gotBy s tr ++ (transfer s x).frames := by
  rw [gotBy, List.map_append, List.flatMap_append, List.map_singleton, List.flatMap_singleton]
  rfl

/-- **The run lemma**, for both directions. -/
theorem carries_run (h : Run Step (new hwms) tr u) : Sound u ∧ ∀ s,
    Carries (writtenBy s tr) (gotBy (!s) tr) (u.ends s) (u.ends !s) (u.inpipe !s).fifo := by
  refine h.past (I := fun tr u => Sound u ∧ ∀ s,
    Carries (writtenBy s tr) (gotBy (!s) tr) (u.ends s) (u.ends !s) (u.inpipe !s).fifo) ?_ ?_
  · refine ⟨sound_new hwms, fun s => ⟨?_, ?_, ?_, ?_, ?_⟩⟩ <;>
      simp [writtenBy, gotBy, frames, new, YPipe.fifo, YPipe.fresh, DelimitersLast]
  · rintro tr p ⟨s, a⟩ p' ⟨hp, hcarries⟩ hstep
    obtain ⟨e, hnext, hp', hmove, hends⟩ := hp.step hstep
    -- The step is seen at the end that takes it and at no other.
    have hown : transfer s ⟨p, (s, a), p'⟩ = e := by
      have hnext : p.next s a = some (e, p') := hnext
      simp [transfer, hnext]
    have hother : transfer (!s) ⟨p, (s, a), p'⟩ = .none := by
      cases s <;> rfl
    refine ⟨hp', forall_side (s := s) ?_ ?_⟩
    · rw [writtenBy_append, gotBy_append, hown, hother, hends, Transfer.frames, List.append_nil]
      exact hmove.carries_out (hcarries s)
    · have hin := hcarries !s
      rw [Bool.not_not] at hin
      rw [writtenBy_append, gotBy_append, Bool.not_not, hown, hother, hends]
      exact hmove.carries_in hin

/-- **Whole messages, in order**, in every run of the two threads and in both directions, of a pipe
that neither conflates nor is hiccuped. What has been read, together with what is there to be read,
are the frames of the first so many messages that have been written; nothing is lost, nothing is
there twice, and nothing of a message can be read before the message has been finished. So an end
that has read a frame which is not the last of its message finds the next one in the pipe. -/
theorem messages_run (h : Run Step (new hwms) tr u) (s : Bool)
    (hfreed : (u.ends !s).freed = false) :
    (∃ k ≤ (writtenBy s tr).messages.length,
      gotBy (!s) tr ++ frames (u.inpipe !s).fifo.ready =
        wire ((writtenBy s tr).messages.take k)) ∧
      (gotBy (!s) tr ++ frames ((u.inpipe !s).fifo.ready ++ (u.inpipe !s).fifo.complete) =
        wire (writtenBy s tr).messages) ∧
      ∀ f, (gotBy (!s) tr).getLast? = some f → f.more = true →
        ∃ next msgs, (u.inpipe !s).fifo.ready = .frame next :: msgs := by
  obtain ⟨-, hcarries⟩ := carries_run h
  have hcarries := hcarries s
  exact ⟨hcarries.ready hfreed, hcarries.complete hfreed,
    fun f hf hmore => hcarries.next_ready hfreed hf hmore⟩

/-- Half of a message has been read, and a second one has been begun. -/
theorem messages_run_half :
    ∃ (tr : List (Taken (PipePair Nat) (Bool × PipeAct Nat))) (u : PipePair Nat),
      Run Step (new fun _ => 2) tr u ∧ (u.ends !false).freed = false ∧
      gotBy (!false) tr = [⟨7, true⟩] ∧
      (∃ k ≤ (writtenBy false tr).messages.length,
        gotBy (!false) tr ++ frames (u.inpipe !false).fifo.ready =
          wire ((writtenBy false tr).messages.take k)) ∧
      (gotBy (!false) tr ++
          frames ((u.inpipe !false).fifo.ready ++ (u.inpipe !false).fifo.complete) =
        wire (writtenBy false tr).messages) ∧
      ∀ f, (gotBy (!false) tr).getLast? = some f → f.more = true →
        ∃ next msgs, (u.inpipe !false).fifo.ready = .frame next :: msgs := by
  have hrun : (attempt (fun p a => (PipePair.next p a.1 a.2).map Prod.snd)
      (new fun _ => 2 : PipePair Nat)
      [(false, .write ⟨7, true⟩), (false, .write ⟨8, false⟩), (false, .write ⟨9, true⟩),
        (false, .flush), (true, .read)]).map
      (fun r => ((r.2.ends !false).freed, gotBy (!false) r.1)) = some (false, [⟨7, true⟩]) := rfl
  obtain ⟨⟨tr, u⟩, hattempt, htr⟩ := Option.map_eq_some_iff.mp hrun
  obtain ⟨hfreed, hgot⟩ := Prod.mk.inj htr
  obtain ⟨h, -⟩ := run_attempt hattempt
  exact ⟨tr, u, h, hfreed, hgot, messages_run h false hfreed⟩

end PipePair
end EventBus.LibZmq
