import EventBus.LibZmq.PipeTermination

/-!
# Flow control of a pipe

The writer counts the messages it has written and remembers how many of them the reader last said
it had read. It stops when there are `hwm` between the two. The reader says how many it has read
whenever that is a multiple of the low watermark, which is about half of `hwm`.

So there are never more than `hwm` messages in the pipe, and a writer that has stopped does not wait
for a reader that has nothing left to say: either the next number is on its way to it, or there are
enough messages in the pipe for the reader to come to the next multiple (`flow_run`).

Both watermarks are those the pipe is made with. A socket that changes its own while the pipe is in
use changes them at one end before the other one hears of it, and nothing is said of that here.
-/

namespace EventBus.LibZmq

open Framing Transition Handshake

variable {α : Type}

/-- The end of a message, for the counters. -/
def Msg.isLast : Msg α → Bool
  | .frame f => !f.more
  | .delimiter => false

/-- How many messages there are in a queue. -/
def countMsgs (msgs : List (Msg α)) : Nat := msgs.countP Msg.isLast

/-- The number of messages read that a command tells. -/
def Command.msgsRead : Command → Option Nat
  | activate_write n => some n
  | _ => none

/-- What the writer knows, and will come to know, about the number of messages read. -/
def announced (w : PipeEnd) (back : List Command) : List Nat :=
  w.peersMsgsRead :: back.filterMap Command.msgsRead

/-- From `w`, which writes, to `r`, which reads: `q` is the queue, and `back` the commands on their
way to the writer. -/
structure Flow (w r : PipeEnd) (q : Fifo (Msg α)) (back : List Command) : Prop where
  lwm : r.lwm = computeLwm w.hwm
  rest : ∀ msg ∈ q.rest, Msg.isLast msg = false
  count : r.freed = false → w.msgsWritten = r.msgsRead + countMsgs q.all
  /-- The reader never goes back, and says only what is so. -/
  sorted : (announced w back).Pairwise (· ≤ ·)
  le : ∀ n ∈ announced w back, n ≤ r.msgsRead ∧ r.lwm ∣ n
  /-- The last thing it said is not long ago. -/
  recent : 0 < r.lwm → ∀ n ∈ (announced w back).getLast?, r.msgsRead < n + r.lwm
  room : 0 < w.hwm → w.msgsWritten ≤ w.peersMsgsRead + w.hwm
  /-- A writer stops only when there is no room. -/
  stopped : w.state = .active → w.outActive = false →
    0 < w.hwm ∧ w.peersMsgsRead + w.hwm ≤ w.msgsWritten

section
variable {l l' : PipeLocal α} {e : Transfer α} {peer w r : PipeEnd} {q : Fifo (Msg α)}
  {back : List Command}

/-- The reader has read on, and says so if it is time. -/
theorem Flow.read (h : Flow w r q back) (f : Frame α) :
    let n := countLast f r.msgsRead
    (announced w (back ++ r.announce n)).Pairwise (· ≤ ·) ∧
      (∀ m ∈ announced w (back ++ r.announce n), m ≤ n ∧ r.lwm ∣ m) ∧
      (0 < r.lwm → ∀ m ∈ (announced w (back ++ r.announce n)).getLast?, n < m + r.lwm) := by
  intro n
  -- One message more at most.
  have hle : r.msgsRead ≤ n ∧ n ≤ r.msgsRead + 1 := by
    show _ ≤ countLast f _ ∧ countLast f _ ≤ _
    unfold countLast
    split <;> omega
  -- Either it says so now, or the last time it did is not long ago.
  by_cases hsay : 0 < r.lwm ∧ n % r.lwm = 0
  · have hannounced : announced w (back ++ r.announce n) = announced w back ++ [n] := by
      simp [announced, PipeEnd.announce, hsay, Command.msgsRead]
    rw [hannounced]
    refine ⟨?_, ?_, ?_⟩
    · rw [List.pairwise_append]
      refine ⟨h.sorted, by simp, fun m hm k hk => ?_⟩
      obtain rfl := List.mem_singleton.mp hk
      exact Nat.le_trans (h.le m hm).1 hle.1
    · intro m hm
      rcases List.mem_append.mp hm with hm | hm
      · exact ⟨Nat.le_trans (h.le m hm).1 hle.1, (h.le m hm).2⟩
      · obtain rfl := List.mem_singleton.mp hm
        exact ⟨Nat.le_refl _, Nat.dvd_of_mod_eq_zero hsay.2⟩
    · intro hpos m hm
      rw [List.getLast?_concat] at hm
      cases hm
      omega
  · have hannounced : announced w (back ++ r.announce n) = announced w back := by
      simp [PipeEnd.announce, hsay]
    rw [hannounced]
    refine ⟨h.sorted, fun m hm => ⟨Nat.le_trans (h.le m hm).1 hle.1, (h.le m hm).2⟩, ?_⟩
    intro hpos m hm
    have hlt := h.recent hpos m hm
    have hdvd := (h.le m (List.mem_of_getLast? hm)).2
    -- it would have come to the next multiple
    have hne : n ≠ m + r.lwm := by
      intro heq
      refine hsay ⟨hpos, Nat.mod_eq_zero_of_dvd ?_⟩
      rw [heq]
      exact (Nat.dvd_add_right hdvd).mpr (Nat.dvd_refl _)
    omega

/-- What the writer does that is not about messages, nor about their numbers. -/
theorem Flow.writes (h : Flow w r q back) {w' : PipeEnd} {q' : Fifo (Msg α)} {back' : List Command}
    (hhwm : w'.hwm = w.hwm) (hwritten : w'.msgsWritten = w.msgsWritten)
    (hpeers : w'.peersMsgsRead = w.peersMsgsRead)
    (hstopped : w'.state = .active → w'.outActive = false →
      w.state = .active ∧ w.outActive = false)
    (hcount : countMsgs q'.all = countMsgs q.all) (hrest : ∀ msg ∈ q'.rest, Msg.isLast msg = false)
    (hback : back'.filterMap Command.msgsRead = back.filterMap Command.msgsRead) :
    Flow w' r q' back' := by
  have hannounced : announced w' back' = announced w back := by
    rw [announced, announced, hpeers, hback]
  refine ⟨by rw [hhwm]; exact h.lwm, hrest, ?_, ?_, ?_, ?_, ?_, ?_⟩
  · rw [hwritten, hcount]
    exact h.count
  · rw [hannounced]
    exact h.sorted
  · rw [hannounced]
    exact h.le
  · rw [hannounced]
    exact h.recent
  · rw [hhwm, hwritten, hpeers]
    exact h.room
  · intro hstate hout
    obtain ⟨hstate, hout⟩ := hstopped hstate hout
    rw [hhwm, hwritten, hpeers]
    exact h.stopped hstate hout

/-- The same for the reader. An end that is freed does not count any more. -/
theorem Flow.reads (h : Flow w r q back) {r' : PipeEnd} {q' : Fifo (Msg α)} {back' : List Command}
    (hlwm : r'.lwm = r.lwm) (hread : r'.msgsRead = r.msgsRead)
    (hcount : r'.freed = false → r.freed = false ∧ countMsgs q'.all = countMsgs q.all)
    (hrest : q'.rest = q.rest)
    (hback : back'.filterMap Command.msgsRead = back.filterMap Command.msgsRead) :
    Flow w r' q' back' := by
  have hannounced : announced w back' = announced w back := by rw [announced, announced, hback]
  refine ⟨by rw [hlwm]; exact h.lwm, by rw [hrest]; exact h.rest, ?_, ?_, ?_, ?_, h.room, h.stopped⟩
  · intro hfreed
    obtain ⟨hfreed, hcount⟩ := hcount hfreed
    rw [hread, hcount]
    exact h.count hfreed
  · rw [hannounced]
    exact h.sorted
  · rw [hannounced, hread, hlwm]
    exact h.le
  · rw [hannounced, hread, hlwm]
    exact h.recent

/-- An unfinished message does not count. -/
theorem countMsgs_dropRest (hrest : ∀ msg ∈ q.rest, Msg.isLast msg = false) :
    countMsgs q.dropRest.all = countMsgs q.all := by
  have hnone : q.rest.countP Msg.isLast = 0 := by
    rw [List.countP_eq_zero]
    exact fun msg hmsg => by simp [hrest msg hmsg]
  simp [countMsgs, Fifo.all, Fifo.dropRest, hnone]

theorem countMsgs_flush (q : Fifo (Msg α)) : countMsgs q.flush.all = countMsgs q.all := by
  simp [countMsgs, Fifo.all, Fifo.flush]

theorem countMsgs_write (q : Fifo (Msg α)) (msg : Msg α) (incomplete : Bool) :
    countMsgs (q.write msg incomplete).all = countMsgs q.all + countMsgs [msg] := by
  cases incomplete <;> simp [countMsgs, Fifo.all, Fifo.write, Nat.add_assoc]

theorem countMsgs_read {msg : Msg α} {msgs : List (Msg α)} (hready : q.ready = msg :: msgs) :
    countMsgs q.read.all + countMsgs [msg] = countMsgs q.all := by
  simp only [countMsgs, Fifo.all, Fifo.read, Fifo.checkRead, hready, List.tail_cons,
    List.cons_append, List.countP_cons, List.countP_nil]
  omega

/-- A frame counts if it is the last one of its message. -/
theorem countMsgs_frame (f : Frame α) (n : Nat) : countLast f n = n + countMsgs [.frame f] := by
  cases hmore : f.more <;> simp [countLast, countMsgs, Msg.isLast, hmore]

/-- The command that wakes the reader tells no number. -/
theorem wake_msgsRead (q : Fifo (Msg α)) : q.wake.filterMap Command.msgsRead = [] := by
  unfold Fifo.wake
  split <;> rfl

/-- The writer writes while there is room. -/
theorem Flow.write (h : Flow w r q back) (hroom : w.checkHwm = true) (f : Frame α) :
    Flow { w with msgsWritten := countLast f w.msgsWritten } r (q.write (.frame f) f.more) back := by
  simp only [PipeEnd.checkHwm, Bool.not_eq_true', decide_eq_false_iff_not] at hroom
  have hcount := countMsgs_frame f w.msgsWritten
  have hone : countMsgs [Msg.frame f] ≤ 1 := List.countP_le_length
  refine ⟨h.lwm, ?_, fun hr => ?_, h.sorted, h.le, h.recent, fun hpos => ?_, fun hs ho => ?_⟩
  · intro msg hmsg
    -- What is unfinished has no last frame in it.
    cases hmore : f.more with
    | false => simp [Fifo.write, hmore] at hmsg
    | true =>
        have hmem : msg ∈ q.rest ∨ msg = .frame f := by
          simpa [Fifo.write, hmore] using hmsg
        rcases hmem with hmem | rfl
        · exact h.rest msg hmem
        · simp [Msg.isLast, hmore]
  · have hwritten := h.count hr
    rw [countMsgs_write]
    simp only [hcount]
    omega
  · have hpos : 0 < w.hwm := hpos
    simp only [hcount]
    omega
  · obtain ⟨hpos, hle⟩ := h.stopped hs ho
    refine ⟨hpos, Nat.le_trans hle ?_⟩
    simp only [hcount]
    omega

/-- The writer is told how far the reader has come. -/
theorem Flow.told {n : Nat} (h : Flow w r q (.activate_write n :: back)) {outActive : Bool}
    (hgoes : w.state = .active → outActive ≠ false) :
    Flow { w with peersMsgsRead := n, outActive } r q back := by
  have hsorted := h.sorted
  have hle := h.le
  have hrecent := h.recent
  have hannounced : announced w (.activate_write n :: back) =
      w.peersMsgsRead :: n :: back.filterMap Command.msgsRead := rfl
  rw [hannounced] at hsorted hle hrecent
  rw [List.getLast?_cons_cons] at hrecent
  -- The number the writer is told is not less than the one it knew.
  obtain ⟨hhead, htail⟩ := List.pairwise_cons.mp hsorted
  refine ⟨h.lwm, h.rest, h.count, htail, fun m hm => hle m (List.mem_cons_of_mem _ hm), hrecent,
    fun hpos => ?_, fun hs ho => absurd ho (hgoes hs)⟩
  exact Nat.le_trans (h.room hpos) (Nat.add_le_add_right (hhead n List.mem_cons_self) _)

/-- On the moves of the end that writes: three of them are about messages. -/
theorem PipeMove.flow_out (h : PipeMove l e l') (hflow : Flow l.own peer l.outq l.inbox) :
    Flow l'.own peer l'.outq l'.inbox := by
  cases h with
  | idle | setDelay | sleep | got | goOnWaiting =>
      exact hflow.writes rfl rfl rfl (fun hs ho => ⟨hs, ho⟩) rfl hflow.rest rfl
  | full hstate hfull =>
      have hfull : 0 < l.own.hwm ∧ l.own.hwm ≤ l.own.msgsWritten - l.own.peersMsgsRead := by
        simpa [PipeEnd.checkHwm] using hfull
      have hstopped : l.own.peersMsgsRead + l.own.hwm ≤ l.own.msgsWritten := by omega
      exact { hflow with stopped := fun _ _ => ⟨hfull.1, hstopped⟩ }
  | wrote f hstate hfreed hroom => exact hflow.write hroom f
  | rollback =>
      exact hflow.writes rfl rfl rfl (fun hs ho => ⟨hs, ho⟩) (countMsgs_dropRest hflow.rest)
        (by simp [Fifo.dropRest]) rfl
  | stopWaiting =>
      exact hflow.writes rfl rfl rfl (fun hs => by cases hs) (countMsgs_dropRest hflow.rest)
        (by simp [PipeLocal.ack, Fifo.dropRest]) rfl
  | flush =>
      exact hflow.writes rfl rfl rfl (fun hs ho => ⟨hs, ho⟩) (countMsgs_flush _) hflow.rest rfl
  | finish hacked hstate =>
      refine hflow.writes rfl rfl rfl (fun hs => absurd hs hstate) ?_
        (by simp [PipeLocal.flush, Fifo.flush, Fifo.write]) rfl
      show countMsgs (l.outq.dropRest.write .delimiter false).flush.all = _
      rw [countMsgs_flush, countMsgs_write, countMsgs_dropRest hflow.rest]
      rfl
  | finishNull hacked hfreed =>
      refine hflow.writes rfl rfl rfl (fun hs => ?_) rfl hflow.rest rfl
      have hs : l.own.state = .active := hs
      simp [PipeEnd.acked, PipeState.acked, hs, hfreed] at hacked
  | delimiter | ask =>
      exact hflow.writes rfl rfl rfl (fun hs => by cases hs) rfl hflow.rest rfl
  | lastDelimiter =>
      exact hflow.writes rfl rfl rfl (fun hs => by cases hs) rfl hflow.rest rfl
  | activateRead hinbox =>
      exact hflow.writes rfl rfl rfl (fun hs ho => ⟨hs, ho⟩) rfl hflow.rest (by rw [hinbox]; rfl)
  | termWait hinbox | termAck hinbox | termBoth hinbox =>
      exact hflow.writes rfl rfl rfl (fun hs => by cases hs) rfl hflow.rest (by rw [hinbox]; rfl)
  | ackFree hinbox | free hinbox =>
      exact hflow.writes rfl rfl rfl (fun hs ho => ⟨hs, ho⟩) rfl hflow.rest (by rw [hinbox]; rfl)
  | activateWrite hinbox =>
      refine (hinbox ▸ hflow).told ?_
      -- it does not stay stopped
      rintro hs ho
      have hs : l.own.state = .active := hs
      have ho : (l.own.outActive || decide (l.own.state = .active)) = false := ho
      simp [hs] at ho

/-- On the moves of the end that reads: one is. -/
theorem PipeMove.flow_in (h : PipeMove l e l') (hflow : Flow peer l.own l.inq l.outbox) :
    Flow peer l'.own l'.inq l'.outbox := by
  cases h with
  | idle | setDelay | full | wrote | rollback | goOnWaiting | finishNull | activateRead |
      activateWrite | termWait =>
      exact hflow.reads rfl rfl (fun hf => ⟨hf, rfl⟩) rfl rfl
  | sleep hready => exact hflow.reads rfl rfl (fun hf => ⟨hf, rfl⟩) rfl rfl
  | @got f msgs hin hreads hfreed hready =>
      obtain ⟨hsorted, hle, hrecent⟩ := hflow.read f
      refine ⟨hflow.lwm, hflow.rest, fun hf => ?_, hsorted, hle, hrecent, hflow.room,
        hflow.stopped⟩
      -- What has been read and what is left are what was there.
      have hcount := countMsgs_read hready
      show peer.msgsWritten = countLast f l.own.msgsRead + countMsgs l.inq.read.all
      rw [hflow.count hf, countMsgs_frame]
      omega
  | delimiter hstate hready =>
      have hcount := countMsgs_read hready
      exact hflow.reads rfl rfl (fun hf => ⟨hf, hcount⟩) rfl rfl
  | lastDelimiter hstate hfreed hready =>
      have hcount := countMsgs_read hready
      exact hflow.reads rfl rfl (fun hf => ⟨hf, hcount⟩) rfl
        (by simp [PipeLocal.ack, Command.msgsRead])
  | flush | finish =>
      refine hflow.reads rfl rfl (fun hf => ⟨hf, rfl⟩) rfl ?_
      simp only [PipeLocal.flush, List.filterMap_append, wake_msgsRead, List.append_nil]
  | ask | stopWaiting | termAck | termBoth =>
      exact hflow.reads rfl rfl (fun hf => ⟨hf, rfl⟩) rfl
        (by simp [PipeLocal.ack, Command.msgsRead])
  | ackFree hinbox hstate hfreed hrest =>
      exact hflow.reads rfl rfl (fun hf => by cases hf) hrest (by simp [Command.msgsRead])
  | free hinbox hacked hrest => exact hflow.reads rfl rfl (fun hf => by cases hf) hrest rfl

/-- No move changes the high watermark. -/
theorem PipeMove.marks (h : PipeMove l e l') : l'.own.hwm = l.own.hwm := by
  cases h <;> rfl

end

namespace PipePair
variable {u : PipePair α} {tr : List (Taken (PipePair α) (Bool × PipeAct α))} {hwms : Bool → Nat}

/-- So it is the one that the pipe was made with. -/
theorem hwm_run (h : Run Step (new hwms) tr u) : Sound u ∧ ∀ s, (u.ends s).hwm = hwms s := by
  refine (h.invariant (I := fun p => Sound p ∧ ∀ s, (p.ends s).hwm = hwms s) ?_
    ⟨sound_new hwms, fun _ => rfl⟩).2
  rintro p ⟨s, a⟩ p' hstep ⟨hp, hhwm⟩
  obtain ⟨e, -, hp', hmove, hends⟩ := hp.step hstep
  refine ⟨hp', forall_side (P := fun b => (p'.ends b).hwm = hwms b) (s := s) ?_ ?_⟩
  · exact hmove.marks.trans (hhwm s)
  · rw [hends]
    exact hhwm _

/-- **The run lemma**, for both directions. -/
theorem flows_run (h : Run Step (new hwms) tr u) :
    Sound u ∧ ∀ s, Both (fun w r q _ back => Flow w r q back) (u.side s) (u.ends !s) := by
  refine run_both (fun l e l' peer hmove _ hboth =>
    ⟨hmove.flow_out hboth.1, hmove.flow_in hboth.2⟩) h (sound_new hwms) ?_
  refine fun b => ⟨⟨?_, ?_, ?_, ?_, ?_, ?_, ?_, ?_⟩, ⟨?_, ?_, ?_, ?_, ?_, ?_, ?_, ?_⟩⟩ <;>
    simp [side, reach, Pipe.toLocal, new, PipeEnd.new, YPipe.fifo, YPipe.fresh, announced,
      countMsgs, Fifo.all]

/-- **Flow control** by the watermarks a pipe is made with, in every run of the two threads and in
both directions. There are never more messages in the pipe than its high watermark. A writer that
has stopped has a command on its way that lets it go on, or there are more messages in the pipe than
the two watermarks are apart, so that the reader sends one before it has read them all. And a reader
that sleeps while there is something to read has a command on its way that wakes it up. -/
theorem flow_run (h : Run Step (new hwms) tr u) (s : Bool) :
    ((u.ends !s).freed = false → 0 < hwms s → countMsgs (u.inpipe !s).items ≤ hwms s) ∧
      ((u.ends s).freed = false → (u.ends s).state = .active → (u.ends s).outActive = false →
        (∃ n, Command.activate_write n ∈ u.mail s) ∨
          (u.ends !s).freed = false ∧
            hwms s < countMsgs (u.inpipe !s).items + computeLwm (hwms s)) ∧
      ((u.ends !s).state.reads = true → (u.ends !s).inActive = false →
        (u.inpipe !s).fifo.ready ≠ [] → Command.activate_read ∈ u.mail !s) := by
  obtain ⟨hsound, hflow⟩ := flows_run h
  obtain ⟨-, hhwm⟩ := hwm_run h
  obtain ⟨-, hcloses⟩ := closes_run h
  have hflow : Flow (u.ends s) (u.ends !s) (u.inpipe !s).fifo (u.mail s) := (hflow s).1
  have hin : (u.inpipe !s).Sound := (hsound.ends !s).inpipe
  have hlwm := hflow.lwm
  rw [hhwm] at hlwm
  refine ⟨fun hfreed hpos => ?_, fun hown hstate hout => ?_, fun hreads hsleeps hready => ?_⟩
  · have hcount := hflow.count hfreed
    have hroom := hflow.room (by rwa [hhwm])
    have hle := (hflow.le _ List.mem_cons_self).1
    rw [hin.all_eq] at hcount
    rw [hhwm] at hroom
    omega
  · obtain ⟨hpos, hfull⟩ := hflow.stopped hstate hout
    rw [hhwm] at hpos hfull
    -- The reader waits for the acknowledgement of a writer that is active.
    have hfreed : (u.ends !s).freed = false := by
      refine (hsound.between s).out.not_freed ?_
      show (u.ends s).acked = false
      simp [PipeEnd.acked, PipeState.acked, hstate, hown]
    by_cases hsaid : ∃ n, Command.activate_write n ∈ u.mail s
    · exact .inl hsaid
    · -- what the writer knows is the last thing the reader has said
      have hsilent : (u.mail s).filterMap Command.msgsRead = [] := by
        rw [List.filterMap_eq_nil_iff]
        intro command hcommand
        cases command with
        | activate_write n => exact absurd ⟨n, hcommand⟩ hsaid
        | _ => rfl
      have hrecent := hflow.recent (by rw [hlwm, computeLwm]; omega) (u.ends s).peersMsgsRead
        (by rw [announced, hsilent]; rfl)
      have hcount := hflow.count hfreed
      rw [hin.all_eq] at hcount
      rw [hlwm] at hrecent
      exact .inr ⟨hfreed, by omega⟩
  · have hcloses : Closes (u.ends s) (u.ends !s) (u.inpipe !s).fifo (u.mail !s) := (hcloses s).1
    rcases hcloses.awake hreads hsleeps with hasleep | hmem
    · exact absurd (hin.ready_eq_nil hasleep) hready
    · exact hmem

/-- A writer that has stopped, with one message in the pipe and no command on its way. -/
theorem flow_run_full :
    ∃ (tr : List (Taken (PipePair Nat) (Bool × PipeAct Nat))) (u : PipePair Nat),
      Run Step (new fun _ => 1) tr u ∧ (u.ends false).outActive = false ∧ u.mail false = [] ∧
      ((u.ends !false).freed = false → 0 < 1 → countMsgs (u.inpipe !false).items ≤ 1) ∧
      ((u.ends false).freed = false → (u.ends false).state = .active →
        (u.ends false).outActive = false →
        (∃ n, Command.activate_write n ∈ u.mail false) ∨
          (u.ends !false).freed = false ∧
            1 < countMsgs (u.inpipe !false).items + computeLwm 1) ∧
      ((u.ends !false).state.reads = true → (u.ends !false).inActive = false →
        (u.inpipe !false).fifo.ready ≠ [] → Command.activate_read ∈ u.mail !false) := by
  have hrun : (attempt (fun p a => (PipePair.next p a.1 a.2).map Prod.snd)
      (new fun _ => 1 : PipePair Nat)
      [(true, .read), (false, .write ⟨7, false⟩), (false, .flush), (false, .write ⟨8, false⟩)]).map
      (fun r => ((r.2.ends false).outActive, r.2.mail false)) = some (false, []) := rfl
  obtain ⟨⟨tr, u⟩, hattempt, htr⟩ := Option.map_eq_some_iff.mp hrun
  obtain ⟨hout, hmail⟩ := Prod.mk.inj htr
  obtain ⟨h, -⟩ := run_attempt hattempt
  exact ⟨tr, u, h, hout, hmail, flow_run h false⟩

end PipePair
end EventBus.LibZmq
