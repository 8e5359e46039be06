import EventBus.LibZmq.Publisher

/-!
# What subscribers get

The proof of `publisher_run`. `Feeds` is what the socket knows of one of its pipes: its distributor
is right about whether the end can be written to, and what has been written are the messages that
the pipe was meant to get. Every step at either end keeps it, and one call of `xsend` brings all
pipes from one frame to the next.
-/

namespace EventBus.LibZmq

open Framing Transition Table
open Table.IndexedArray (Below)

variable {α : Type}

/-! ## One pipe -/

/-- `got` has been read at the other end, and `r` is what the pipe was meant to get. -/
structure Feeds (hwms : Bool → Nat) (got : List (Frame α)) (r : Reception α)
    (attached matching eligible : Prop) (p : PipePair α) : Prop where
  /-- What has been written finishes the messages that the pipe was meant to get. -/
  past : ∃ w, p.Past hwms true w got ∧ w.messages = r.messages ∧
    ((p.ends true).state = .active → w.openParts = r.parts.getD [])
  /-- A message is flushed before the next one. -/
  complete : (p.ends false).freed = false → (p.inpipe false).fifo.complete = []
  unattached : ¬attached → (p.ends true).freed = false →
    p.ends true = .new (hwms false) (hwms true) ∧ r.parts = none
  gone : ¬attached → (p.ends true).freed = true → (p.ends true).state ≠ .active
  alive : attached → (p.ends true).freed = false
  /-- The distributor and the end agree on whether the end has been stopped. -/
  eligible_iff : attached → (p.ends true).state = .active →
    (eligible ↔ (p.ends true).outActive = true)
  /-- In the middle of a message the matching pipes are those that get it. -/
  matching_iff : attached → (matching ↔ r.parts.isSome = true)
  /-- A message that has begun is not refused for want of room. -/
  room : r.parts.isSome = true → (p.ends true).state = .active → (p.ends true).checkHwm = true

namespace Feeds
variable {hwms : Bool → Nat} {got : List (Frame α)} {r : Reception α} {A M E : Prop}
  {p p' : PipePair α} {a : PipeAct α} {e : Transfer α}

/-- What has been read and written says that the pipe is sound. -/
theorem sound (h : Feeds hwms got r A M E p) : p.Sound := by
  obtain ⟨w, hpast, -⟩ := h.past
  exact hpast.sound

/-- Only whether the pipe is attached, matching and eligible matters. -/
theorem congr {A' M' E' : Prop} (h : Feeds hwms got r A M E p) (hA : A ↔ A') (hM : M ↔ M')
    (hE : E ↔ E') : Feeds hwms got r A' M' E' p := by
  rwa [← propext hA, ← propext hM, ← propext hE]

/-- A pipe that nobody has attached yet. -/
theorem fresh (hA : ¬A) : Feeds hwms [] ⟨none, []⟩ A M E (.new hwms : PipePair α) where
  past := ⟨⟨[], []⟩, PipePair.past_new, rfl, fun _ => rfl⟩
  complete _ := rfl
  unattached _ _ := ⟨rfl, rfl⟩
  gone _ h := by cases h
  alive h := absurd h hA
  eligible_iff h := absurd h hA
  matching_iff h := absurd h hA
  room h := by cases h

/-- Only an attached pipe takes part in a message. -/
theorem attached_of_active (h : Feeds hwms got r A M E p) (hparts : r.parts.isSome = true)
    (hstate : (p.ends true).state = .active) : A := by
  by_contra hA
  cases hfreed : (p.ends true).freed with
  | true => exact h.gone hA hfreed hstate
  | false =>
      rw [(h.unattached hA hfreed).2] at hparts
      cases hparts

/-- A step at the other end reads, and the end of the socket is left as it is. -/
theorem peer (h : Feeds hwms got r A M E p) (hnext : p.next false a = some (e, p')) :
    Feeds hwms (got ++ e.frames) r A M E p' := by
  obtain ⟨w, hpast, hmessages, hopen⟩ := h.past
  obtain ⟨v, hv, -, -, hends, -⟩ := PipePair.next_eq hnext
  have hends : p'.ends true = p.ends true := hends
  have hstep : PipePair.Step p (false, a) p' := by
    rw [PipePair.Step, hnext]
    rfl
  obtain ⟨e', hnext', -, hmove, -⟩ := h.sound.step hstep
  -- A step of the other end never leaves a whole message unflushed at this one.
  refine ⟨⟨w, hpast.reads hnext, hmessages, by rwa [hends]⟩, fun hfreed => ?_, ?_, ?_, ?_, ?_,
    h.matching_iff, ?_⟩
  · have hcomplete : (p'.inpipe false).fifo.complete = (p.inpipe false).fifo.complete :=
      hmove.complete_in hfreed
    rw [hcomplete]
    exact h.complete (Pipe.freed_of_next hv)
  -- everything else is about this end
  all_goals rw [hends]
  · exact h.unattached
  · exact h.gone
  · exact h.alive
  · exact h.eligible_iff
  · exact h.room

/-- What a step of the socket at its own end does, other than sending. -/
theorem past_own (h : Feeds hwms got r A M E p) (ha : a.notSending = true)
    (hnext : p.next true a = some (e, p')) :
    (∃ w, p'.Past hwms true w got ∧ w.messages = r.messages ∧
      ((p'.ends true).state = .active → (p.ends true).state = .active →
        w.openParts = r.parts.getD [])) ∧
      ((p'.ends false).freed = false → (p'.inpipe false).fifo.complete = []) := by
  obtain ⟨w, hpast, hmessages, hopen⟩ := h.past
  obtain ⟨v, hv, -, hown, hends, -⟩ := PipePair.next_eq hnext
  have hends : p'.ends false = p.ends false := hends
  have hwrite : ∀ f, a ≠ .write f := fun f heq => by simp [heq, PipeAct.notSending] at ha
  have hrollback : a ≠ .rollback := fun heq => by simp [heq, PipeAct.notSending] at ha
  -- A step that is no write and no rollback finishes no message and begins none.
  obtain ⟨hwrote, hafter, hsame⟩ := (h.sound.ends true).next_written hv hwrite hrollback w
  have hstep : PipePair.Step p (true, a) p' := by
    rw [PipePair.Step, hnext]
    rfl
  obtain ⟨e', hnext', -, hmove, -⟩ := h.sound.step hstep
  obtain rfl : e' = e := congrArg Prod.fst (Option.some.inj (hnext'.symm.trans hnext))
  refine ⟨⟨w.after e', hpast.writes hnext, hafter.trans hmessages, fun hstate hbefore => ?_⟩,
    fun hfreed => ?_⟩
  · rw [hown] at hstate
    rw [hsame hstate]
    exact hopen hbefore
  · rw [hends] at hfreed
    exact hmove.complete_out (fun f heq => absurd heq (hwrote f)) (h.complete hfreed)

/-- A step of which the socket is told nothing leaves the pipe as fit for writing as it was. -/
theorem own (h : Feeds hwms got r A M E p) (hA : A) (ha : a.notSending = true)
    (hcommand : a = .processCommand → ∀ inbox, p.mail true ≠ .pipe_term_ack :: inbox ∧
      ∀ n, p.mail true ≠ .activate_write n :: inbox)
    (hnext : p.next true a = some (e, p')) : Feeds hwms got r A M E p' := by
  obtain ⟨⟨w, hpast, hmessages, hopen⟩, hcomplete⟩ := h.past_own ha hnext
  obtain ⟨v, hv, -, hown, -⟩ := PipePair.next_eq hnext
  have hwrite : ∀ f, a ≠ .write f := fun f heq => by simp [heq, PipeAct.notSending] at ha
  have hkeeps : (p.ends true).Keeps (p'.ends true) := by
    rw [hown]
    exact (h.sound.ends true).next_keeps hv hwrite hcommand
  -- The end may have left the state active, but it has not come back to it.
  refine ⟨⟨w, hpast, hmessages, fun hstate => hopen hstate (hkeeps.active hstate)⟩, hcomplete,
    fun h' => absurd hA h', fun h' => absurd hA h', fun _ => hkeeps.freed.trans (h.alive hA),
    fun _ hstate => ?_, h.matching_iff, fun hparts hstate => ?_⟩
  · rw [h.eligible_iff hA (hkeeps.active hstate), hkeeps.out hstate]
  · rw [hkeeps.room hstate]
    exact h.room hparts (hkeeps.active hstate)

/-- The peer says how much it has read. -/
theorem activateWrite (h : Feeds hwms got r A M E p) (hA : A) {n : Nat} {inbox : List Command}
    (hmail : p.mail true = .activate_write n :: inbox)
    (hnext : p.next true .processCommand = some (e, p')) :
    Feeds hwms got r A M (E ∨ (p.ends true).outActive = false ∧ (p.ends true).state = .active)
      p' := by
  obtain ⟨⟨w, hpast, hmessages, hopen⟩, hcomplete⟩ := h.past_own rfl hnext
  obtain ⟨v, hv, -, hown, -⟩ := PipePair.next_eq hnext
  -- The command changes two fields of the end, and the state is neither of them.
  have hown := hown.trans (Pipe.next_activateWrite hv hmail)
  have hstate : (p'.ends true).state = (p.ends true).state := by
    rw [hown]
    rfl
  refine ⟨⟨w, hpast, hmessages, fun hs => hopen hs (hstate ▸ hs)⟩, hcomplete,
    fun h' => absurd hA h', fun h' => absurd hA h', fun _ => ?_, fun _ hs => ?_, h.matching_iff,
    fun hparts hs => ?_⟩
  · rw [hown]
    exact h.alive hA
  · rw [hstate] at hs
    rw [h.eligible_iff hA hs, hown]
    show _ ↔ ((p.ends true).outActive || decide ((p.ends true).state = .active)) = true
    cases (p.ends true).outActive <;> simp [hs]
  -- what the peer has read does not get less, so there is more room than before
  · obtain ⟨w₀, hpast₀, -⟩ := h.past
    have hle := hpast₀.le_announced hmail
    have hroom := h.room hparts (hstate ▸ hs)
    rw [hown]
    simp only [PipeEnd.checkHwm, Bool.not_eq_true', decide_eq_false_iff_not] at hroom ⊢
    show ¬ (0 < (p.ends true).hwm ∧ (p.ends true).hwm ≤ (p.ends true).msgsWritten - n)
    omega

/-- The pipe is gone. -/
theorem pipeTermAck (h : Feeds hwms got r A M E p) {inbox : List Command}
    (hmail : p.mail true = .pipe_term_ack :: inbox)
    (hnext : p.next true .processCommand = some (e, p')) :
    Feeds hwms got r False False False p' := by
  obtain ⟨⟨w, hpast, hmessages, hopen⟩, hcomplete⟩ := h.past_own rfl hnext
  obtain ⟨v, hv, -, hown, -⟩ := PipePair.next_eq hnext
  obtain ⟨hfreed, -, hreads⟩ := Pipe.next_pipeTermAck hv hmail
  rw [← hown] at hfreed hreads
  -- An end that has been freed does not read, so it is not active.
  have hstate : (p'.ends true).state ≠ .active := fun h' => by simp [h', PipeState.reads] at hreads
  exact ⟨⟨w, hpast, hmessages, fun hs => absurd hs hstate⟩, hcomplete,
    fun _ hf => absurd hfreed (by simp [hf]), fun _ _ => hstate, False.elim, False.elim,
    False.elim, fun _ hs => absurd hs hstate⟩

/-- A new pipe is attached. -/
theorem attach (h : Feeds hwms got r A M E p) (hA : ¬A) (hM : ¬M)
    (hfreed : (p.ends true).freed = false) : Feeds hwms got r True M True p := by
  -- It is as it was made: it has not been stopped, and nothing was sent to it.
  obtain ⟨hnew, hparts⟩ := h.unattached hA hfreed
  exact ⟨h.past, h.complete, fun h' => absurd trivial h', fun h' => absurd trivial h',
    fun _ => hfreed, fun _ _ => by rw [hnew]; exact ⟨fun _ => rfl, fun _ => trivial⟩,
    fun _ => ⟨fun h' => absurd h' hM, fun h' => by rw [hparts] at h'; cases h'⟩, h.room⟩

/-- The pipe has no part in a frame. -/
theorem pass (h : Feeds hwms got r A M E p) {r₁ : Reception α} (hmessages : r₁.messages = r.messages)
    (hparts : r₁.parts.getD [] = r.parts.getD [])
    (hnot : ¬ (r₁.parts.isSome = true ∧ (p.ends true).state = .active)) :
    Feeds hwms got r₁.drop A False E p := by
  obtain ⟨w, hpast, hw, hopen⟩ := h.past
  refine ⟨⟨w, hpast, hw.trans hmessages.symm, fun hstate => ?_⟩, h.complete,
    fun hA hfreed => ⟨(h.unattached hA hfreed).1, rfl⟩, h.gone, h.alive, h.eligible_iff,
    fun _ => ⟨False.elim, fun h' => by cases h'⟩, fun h' => by cases h'⟩
  -- What was begun would have been gone on with, so nothing was begun.
  rw [hopen hstate, ← hparts]
  exact Reception.getD_of_not fun hsome => hnot ⟨hsome, hstate⟩

/-- **The distributor writes a frame** to the pipe, and flushes it after the last one of a message.
The write fails exactly if the pipe has no part in the message, and then the pipe is stopped. -/
theorem deliver (h : Feeds hwms got r A M E p) (hA : A) (hclosing : (p.ends true).closing = false)
    (f : Frame α) {r₁ : Reception α} (hmessages : r₁.messages = r.messages)
    (hparts : r₁.parts.getD [] = r.parts.getD [])
    (htakes : (p.ends true).state = .active →
      (r₁.parts.isSome = true ↔ (p.ends true).outActive = true ∧ (p.ends true).checkHwm = true)) :
    ∃ ok p', p.deliver f = some (ok, p') ∧
      (ok = true ↔ r₁.parts.isSome = true ∧ (p.ends true).state = .active) ∧
      Feeds hwms got (if ok then r₁.take f else r₁.drop) A (ok = true ∧ f.more = true) (ok = true)
        p' := by
  obtain ⟨w, hpast, hw, hopen⟩ := h.past
  have hfreed := h.alive hA
  obtain ⟨ok, p₁, hnext, hok, hpast₁, hpeer, htaken, hrefused⟩ := hpast.write hfreed hclosing f
  -- By `htakes` the end takes the frame exactly if the pipe is meant to have it.
  have hok : ok = true ↔ r₁.parts.isSome = true ∧ (p.ends true).state = .active := hok.trans
    ⟨fun h' => ⟨(htakes h'.1).mpr h'.2, h'.1⟩, fun h' => ⟨h'.2, (htakes h'.2).mp h'.1⟩⟩
  have hpeer : p₁.ends false = p.ends false := hpeer
  -- refused, or taken and then flushed if the message is finished
  cases ok with
  | false =>
      obtain ⟨hown, hstop, hqueue⟩ := hrefused rfl
      have hqueue : p₁.inpipe false = p.inpipe false := hqueue
      refine ⟨false, p₁, by rw [PipePair.deliver, hnext]; rfl, hok,
        ⟨⟨w, hpast₁, hw.trans hmessages.symm, fun hs => ?_⟩, fun hf => ?_, fun hA' => absurd hA hA',
        fun hA' => absurd hA hA', fun _ => by rw [hown]; exact hfreed, fun _ hs => ?_,
        fun _ => by simp [Reception.drop], fun h' => by cases h'⟩⟩
      · have hs : (p.ends true).state = .active := by rwa [hown] at hs
        rw [hopen hs, ← hparts]
        exact Reception.getD_of_not fun hsome => absurd (hok.mpr ⟨hsome, hs⟩) (by simp)
      · rw [hpeer] at hf
        rw [hqueue]
        exact h.complete hf
      · rw [hstop (by rwa [hown] at hs)]
  | true =>
      obtain ⟨hown, hfifo⟩ := htaken rfl
      have hfifo : (p₁.inpipe false).fifo = (p.inpipe false).fifo.write (.frame f) f.more := hfifo
      obtain ⟨hsome, hstate⟩ := hok.mp rfl
      have hout := (htakes hstate).mp hsome
      have hopen := hparts ▸ hopen hstate
      cases hmore : f.more with
      | true =>
          -- There is more to come: the frame stays unflushed, in the open message.
          refine ⟨true, p₁, by simp [PipePair.deliver, hnext, hmore], hok,
            ⟨⟨_, hpast₁, ?_, fun _ => ?_⟩, fun hf => ?_, fun hA' => absurd hA hA',
            fun hA' => absurd hA hA', fun _ => by rw [hown]; exact hfreed, fun _ _ => ?_,
            fun _ => by simp [Reception.take, hmore], fun _ _ => ?_⟩⟩
          · simp [Written.after, Reception.take, hmore, hw, hmessages]
          · simp [Written.after, Reception.take, hmore, hopen]
          · rw [hpeer] at hf
            rw [hfifo]
            simp [Fifo.write, hmore, h.complete hf]
          · rw [hown]
            exact ⟨fun _ => hout.1, fun _ => rfl⟩
          · rw [hown]
            have hroom := hout.2
            simpa [PipeEnd.checkHwm, countLast, hmore] using hroom
      | false =>
          have hstate₁ : (p₁.ends true).state = .active := by rw [hown]; exact hstate
          have hfreed₁ : (p₁.ends true).freed = false := by rw [hown]; exact hfreed
          -- The message is finished by this frame, and flushed.
          obtain ⟨p₂, hnext₂, hpast₂, hsame, -, hcomplete⟩ :=
            hpast₁.flush hfreed₁ (by rw [hown]; exact hclosing) hstate₁
          refine ⟨true, p₂, by simp [PipePair.deliver, hnext, hmore, hnext₂], hok,
            ⟨⟨_, hpast₂, ?_, fun _ => ?_⟩, fun _ => hcomplete, fun hA' => absurd hA hA',
            fun hA' => absurd hA hA', fun _ => by rw [hsame]; exact hfreed₁, fun _ _ => ?_,
            fun _ => by simp [Reception.take, hmore], fun h' => ?_⟩⟩
          · simp [Written.after, Reception.take, hmore, hw, hmessages, hopen]
          · simp [Written.after, Reception.take, hmore]
          · rw [hsame, hown]
            exact ⟨fun _ => hout.1, fun _ => rfl⟩
          · simp [Reception.take, hmore] at h'

end Feeds

/-! ## One frame to all pipes -/

namespace Publisher
variable {ι : Type} [DecidableEq ι]

/-- The pipes of a set that refuse a frame, when `out` is what comes of delivering it. -/
def Refusing (out : ι → Bool × PipePair α) (T : Set ι) : Set ι := {p | p ∈ T ∧ (out p).1 = false}

omit [DecidableEq ι] in
/-- A pipe that has taken the frame is not among those that refuse. -/
theorem refusing_diff {out : ι → Bool × PipePair α} {T : Set ι} {p : ι} (h : (out p).1 = true) :
    Refusing out (T \ {p}) = Refusing out T := by
  ext q
  refine ⟨fun hq => ⟨hq.1.1, hq.2⟩, fun hq => ⟨⟨hq.1, ?_⟩, hq.2⟩⟩
  rintro rfl
  rw [hq.2] at h
  cases h

omit [DecidableEq ι] in
/-- One that has not is taken out beforehand. -/
theorem diff_refusing {out : ι → Bool × PipePair α} {S T : Set ι} {p : ι} (hp : p ∈ T)
    (h : (out p).1 = false) : (S \ {p}) \ Refusing out (T \ {p}) = S \ Refusing out T := by
  ext q
  constructor
  · rintro ⟨⟨hq, hne⟩, hnot⟩
    exact ⟨hq, fun hr => hnot ⟨⟨hr.1, hne⟩, hr.2⟩⟩
  · rintro ⟨hq, hnot⟩
    refine ⟨⟨hq, ?_⟩, fun hr => hnot ⟨hr.1.1, hr.2⟩⟩
    rintro rfl
    exact hnot ⟨hp, h⟩

omit [DecidableEq ι] in
/-- When the loop goes on to the next place, it has come past one more pipe. -/
theorem rest_succ {d : Dist ι} {A M E T : Set ι} (hholds : d.Holds A M E) {i : Nat} {p : ι}
    (hmem : p ∈ d.pipes.items) (hindex : d.pipes.index p = i)
    (hT : ∀ q, q ∈ T ↔ q ∈ M ∧ ¬ Below i q d.pipes) (q : ι) :
    q ∈ T \ {p} ↔ q ∈ M ∧ ¬ Below (i + 1) q d.pipes := by
  rw [Set.mem_sdiff, hT, and_assoc, Set.mem_singleton_iff]
  refine and_congr_right fun hq => ?_
  have hqmem := ((hholds.matching q).mpr hq).1
  constructor
  · rintro ⟨hnot, hne⟩ hbelow
    have hlt : d.pipes.index q ≠ i := fun heq =>
      hne (hholds.sound.pipes.index_inj hqmem hmem (heq.trans hindex.symm))
    exact hnot ⟨hqmem, by have : d.pipes.index q < i + 1 := hbelow.2; omega⟩
  · refine fun hnot => ⟨fun hbelow => hnot ⟨hqmem, Nat.lt_succ_of_lt hbelow.2⟩, ?_⟩
    rintro rfl
    exact hnot ⟨hmem, by omega⟩

/-- **The loop**: `T` are the pipes it has not come to. Whether the pipe at place `i` takes the frame
or is replaced by another one, there is one pipe less. -/
theorem distribute_spec (f : Frame α) (out : ι → Bool × PipePair α) (A : Set ι) :
    ∀ (rounds i : Nat) (t : Publisher ι α) (M E T : Set ι), t.dist.Holds A M E →
      i ≤ t.dist.matching → t.dist.matching < i + rounds →
      (∀ p, p ∈ T ↔ p ∈ M ∧ ¬ Below i p t.dist.pipes) →
      (∀ p ∈ T, (t.pipes p).deliver f = some (out p)) →
      ∃ t', t.distribute f rounds i = some t' ∧
        t'.dist.Holds A (M \ Refusing out T) (E \ Refusing out T) ∧
        t'.dist.more = t.dist.more ∧ t'.more = t.more ∧
        (∀ p ∈ T, t'.pipes p = (out p).2) ∧ ∀ p, p ∉ T → t'.pipes p = t.pipes p := by
  intro rounds
  -- on the rounds, each of which settles one pipe of `T`
  induction rounds with
  | zero =>
      intro i t M E T _ hi hrounds
      omega
  | succ rounds ih =>
      intro i t M E T hholds hle hrounds hT hout
      rw [distribute]
      by_cases hi : i < t.dist.matching
      · rw [if_pos hi]
        -- The pipe at place `i`: the matching ones are in front, so there is one.
        have hlen := Nat.le_trans hholds.sound.matching_le
          (Nat.le_trans hholds.sound.active_le hholds.sound.eligible_le)
        obtain ⟨p, hp⟩ : ∃ p, t.dist.pipes.items[i]? = some p :=
          ⟨_, List.getElem?_eq_getElem (Nat.lt_of_lt_of_le hi hlen)⟩
        have hmem := List.mem_of_getElem? hp
        have hindex := hholds.sound.pipes.index_eq i p hp
        have hpM : p ∈ M := (hholds.matching p).mp ⟨hmem, by omega⟩
        have hpT : p ∈ T := (hT p).mpr ⟨hpM, fun h => by have := h.2; omega⟩
        rw [hp, Option.bind_some, write, hout p hpT, Option.bind_some]
        let t₁ : Publisher ι α := { t with pipes := Function.update t.pipes p (out p).2 }
        have hsame : ∀ q, q ≠ p → t₁.pipes q = t.pipes q := fun q hq =>
          Function.update_of_ne hq _ _
        have hset : t₁.pipes p = (out p).2 := Function.update_self ..
        -- The others of `T` have not been written to.
        have hother : ∀ q ∈ T \ {p}, (t₁.pipes q).deliver f = some (out q) := by
          intro q hq
          rw [hsame q hq.2]
          exact hout q hq.1
        -- what the rest of the loop does to `T`, `p` being done
        have hrest : ∀ t' : Publisher ι α, (∀ q ∈ T \ {p}, t'.pipes q = (out q).2) →
            (∀ q, q ∉ T \ {p} → t'.pipes q = t₁.pipes q) →
            (∀ q ∈ T, t'.pipes q = (out q).2) ∧ ∀ q, q ∉ T → t'.pipes q = t.pipes q := by
          intro t' hdone hnot
          refine ⟨fun q hq => ?_, fun q hq => ?_⟩
          · by_cases hqp : q = p
            · rw [hqp, hnot p fun h => h.2 rfl, hset]
            · exact hdone q ⟨hq, hqp⟩
          · rw [hnot q fun h => hq h.1]
            exact hsame q fun heq => hq (heq ▸ hpT)
        cases hok : (out p).1 with
        -- taken: the places below `i + 1` are done
        | true =>
            have hT' := rest_succ hholds hmem hindex hT
            obtain ⟨t', hrun, hholds', hdm, hm, hdone, hnot⟩ :=
              ih (i + 1) t₁ M E (T \ {p}) hholds hi (by show t.dist.matching < _; omega) hT' hother
            rw [refusing_diff hok] at hholds'
            exact ⟨t', by simpa using hrun, hholds', hdm, hm, hrest t' hdone hnot⟩
        -- refused: another pipe of `T` is at place `i` now
        | false =>
            obtain ⟨d, hrefused, hd, hdm₁, hone, hbelow⟩ := hholds.refused_spec hpM
            have hT' : ∀ q, q ∈ T \ {p} ↔ q ∈ M \ {p} ∧ ¬ Below i q d.pipes := by
              intro q
              rw [hbelow i (by omega), Set.mem_sdiff, hT, Set.mem_sdiff]
              tauto
            obtain ⟨t', hrun, hholds', hdm, hm, hdone, hnot⟩ :=
              ih i { t₁ with dist := d } (M \ {p}) (E \ {p}) (T \ {p}) hd
                (by show i ≤ d.matching; omega) (by show d.matching < _; omega) hT' hother
            rw [diff_refusing hpT hok, diff_refusing hpT hok] at hholds'
            have hrefused : t₁.dist.refused p = some d := hrefused
            refine ⟨t', ?_, hholds', hdm.trans hdm₁, hm, hrest t' hdone hnot⟩
            simpa [hrefused, t₁] using hrun
      -- nothing of `T` is left
      · have hnone : ∀ p, p ∉ T := by
          intro p hp
          obtain ⟨hpM, hnot⟩ := (hT p).mp hp
          obtain ⟨hmem, hlt⟩ := (hholds.matching p).mpr hpM
          exact hnot ⟨hmem, by omega⟩
        have hempty : Refusing out T = ∅ := Set.eq_empty_of_forall_notMem fun p hp => hnone p hp.1
        rw [if_neg hi, hempty, Set.sdiff_empty, Set.sdiff_empty]
        exact ⟨t, rfl, hholds, rfl, rfl, fun p hp => absurd hp (hnone p), fun _ _ => rfl⟩

/-- The subscriptions mark pipes one after the other, some of them perhaps twice. Those that are not
eligible are not marked. -/
theorem mark_spec {d : Dist ι} {A M E : Set ι} (h : d.Holds A M E) (hmore : d.more = false)
    {marked : List ι} (hmarked : ∀ p ∈ marked, p ∈ A) :
    ∃ d', mark marked d = some d' ∧ d'.Holds A {q | q ∈ M ∨ q ∈ marked ∧ q ∈ E} E ∧
      d'.more = false := by
  induction marked generalizing d M with
  | nil => exact ⟨d, rfl, by simpa using h, hmore⟩
  | cons p marked ih =>
      obtain ⟨hp, hmarked⟩ := List.forall_mem_cons.mp hmarked
      -- On the marks: one is set, and then the rest.
      obtain ⟨d₁, hmatch, hd₁, hmore₁⟩ := h.matchPipe_spec hmore hp
      obtain ⟨d₂, hmark, hd₂, hmore₂⟩ := ih hd₁ hmore₁ hmarked
      refine ⟨d₂, by rw [mark, hmatch]; exact hmark, ?_, hmore₂⟩
      convert hd₂ using 1
      ext q
      simp only [Set.mem_ofPred_eq, List.mem_cons]
      constructor
      · rintro (hq | ⟨rfl | hq, hE⟩)
        · exact .inl (.inl hq)
        · exact .inl (.inr ⟨rfl, hE⟩)
        · exact .inr ⟨hq, hE⟩
      · rintro ((hq | ⟨rfl, hE⟩) | ⟨hq, hE⟩)
        · exact .inl hq
        · exact .inr ⟨.inl rfl, hE⟩
        · exact .inr ⟨.inr hq, hE⟩

/-! ## Runs -/

variable {hwms : ι → Bool → Nat} {t t' : Publisher ι α} {A M E : Set ι} {a : PublisherAct ι α}
  {tr : List (Taken (Publisher ι α) (PublisherAct ι α))}

/-- What holds in every state of a run whose trace is `tr`. -/
structure Inv (hwms : ι → Bool → Nat) (tr : List (Taken (Publisher ι α) (PublisherAct ι α)))
    (A M E : Set ι) (t : Publisher ι α) : Prop where
  holds : t.dist.Holds A M E
  more_eq : t.dist.more = t.more
  pipes : ∀ p, Feeds (hwms p) (readAt p tr) (sentTo p tr) (p ∈ A) (p ∈ M) (p ∈ E) (t.pipes p)
  /-- Between two messages nothing is matching. -/
  between : t.more = false → M = ∅ ∧ ∀ p, (sentTo p tr).parts = none

/-- At first no pipe is attached. -/
theorem inv_new : Inv hwms [] ∅ ∅ ∅ (new hwms : Publisher ι α) where
  holds := Dist.holds_new
  more_eq := rfl
  pipes p := .fresh (Set.notMem_empty p)
  between _ := ⟨rfl, fun _ => rfl⟩

/-- What a trace says, step by step. -/
theorem sentTo_append (p : ι) (x : Taken (Publisher ι α) (PublisherAct ι α)) :
    sentTo p (tr ++ [x]) = (sentTo p tr).after p x := by
  rw [sentTo, List.foldl_append]
  rfl

/-- Reading, step by step. -/
theorem readAt_append (p : ι) (x : Taken (Publisher ι α) (PublisherAct ι α)) :
    readAt p (tr ++ [x]) = readAt p tr ++ readAt p [x] := by
  rw [readAt, List.flatMap_append]
  rfl

/-- Only a step at the other end of a pipe reads from it. -/
theorem readAt_peer {p : ι} {a : PipeAct α} {e : Transfer α} {q : PipePair α}
    (h : (t.pipes p).next false a = some (e, q)) : readAt p [⟨t, .peer p a, t'⟩] = e.frames := by
  simp [readAt, Pipes.peerTransfer_self h]

/-- It does not read from another pipe. -/
theorem readAt_other {p p' : ι} {a : PipeAct α} (h : p' ≠ p) :
    readAt p' [⟨t, .peer p a, t'⟩] = [] := by
  simp [readAt, Pipes.peerTransfer_of_ne h.symm, Transfer.frames]

/-- A step that is not a call of `xsend` concerns one pipe. -/
theorem Inv.onePipe (h : Inv hwms tr A M E t) (hsend : ∀ f marked, a ≠ .xsend f marked) {p : ι}
    {q : PipePair α} {d : Dist ι} {A' M' E' : Set ι}
    (ht' : t' = { t with dist := d, pipes := Function.update t.pipes p q })
    (hd : d.Holds A' M' E') (hmore : d.more = t.dist.more)
    (hq : Feeds (hwms p) (readAt p tr ++ readAt p [⟨t, a, t'⟩]) (sentTo p tr) (p ∈ A') (p ∈ M')
      (p ∈ E') q)
    (hother : ∀ p' ≠ p, (p' ∈ A' ↔ p' ∈ A) ∧ (p' ∈ M' ↔ p' ∈ M) ∧ (p' ∈ E' ↔ p' ∈ E) ∧
      readAt p' [⟨t, a, t'⟩] = [])
    (hM : M' ⊆ M) : Inv hwms (tr ++ [⟨t, a, t'⟩]) A' M' E' t' := by
  -- nothing is sent
  have hsent : ∀ p', sentTo p' (tr ++ [⟨t, a, t'⟩]) = sentTo p' tr := by
    intro p'
    rw [sentTo_append]
    cases a with
    | xsend f marked => exact absurd rfl (hsend f marked)
    | _ => rfl
  -- the pipe itself by `hq`, and the others have not changed
  have hpipes : ∀ p', Feeds (hwms p') (readAt p' (tr ++ [⟨t, a, t'⟩]))
      (sentTo p' (tr ++ [⟨t, a, t'⟩])) (p' ∈ A') (p' ∈ M') (p' ∈ E')
      (Function.update t.pipes p q p') := by
    refine (Function.forall_update_iff t.pipes fun p' q => Feeds (hwms p')
      (readAt p' (tr ++ [⟨t, a, t'⟩])) (sentTo p' (tr ++ [⟨t, a, t'⟩])) (p' ∈ A') (p' ∈ M')
      (p' ∈ E') q).mpr ⟨?_, fun p' hne => ?_⟩
    · rwa [hsent, readAt_append]
    · obtain ⟨hA, hM, hE, hread⟩ := hother p' hne
      rw [hsent, readAt_append, hread, List.append_nil]
      exact (h.pipes p').congr hA.symm hM.symm hE.symm
  subst ht'
  refine ⟨hd, hmore.trans h.more_eq, hpipes, fun hm => ?_⟩
  obtain ⟨hnone, hparts⟩ := h.between hm
  exact ⟨Set.subset_empty_iff.mp (hnone ▸ hM), fun p => by rw [hsent]; exact hparts p⟩

/-- In the middle of a message the new pipe is eligible, but not active before the message is
finished. -/
theorem Inv.attach_step (h : Inv hwms tr A M E t) {p : ι} (hmay : t.mayAct (.attach p) = true) :
    ∃ t' A' M' E', t.next (.attach p) = some t' ∧
      Inv hwms (tr ++ [⟨t, .attach p, t'⟩]) A' M' E' t' := by
  obtain ⟨⟨-, hnew⟩, hfreed⟩ : (Pipes.busy t.dist.pipes.items t.pipes = false ∧
      p ∉ t.dist.pipes.items) ∧ ((t.pipes p).ends true).freed = false := by
    simpa [mayAct, Pipes.mayAttach] using hmay
  -- A pipe that is not in the array is not attached, so nothing has been sent to it.
  have hA : p ∉ A := fun hp => hnew ((h.holds.attached p).mpr hp)
  obtain ⟨hsub, hsub'⟩ := h.holds.subset
  obtain ⟨d, hattach, hd, hmore⟩ := h.holds.attach_spec hA
  refine ⟨{ t with dist := d }, _, _, _, ?_, h.onePipe (by simp)
    (q := t.pipes p) (by rw [Function.update_eq_self]) hd hmore ?_ (fun q hq => ?_)
    (Set.Subset.refl M)⟩
  · rw [next, hmay]
    simp [hattach]
  · have hp := (h.pipes p).attach hA (fun hM => hA (hsub' (hsub hM))) hfreed
    rw [show readAt p [_] = [] from rfl, List.append_nil]
    exact hp.congr (by simp) Iff.rfl (by simp)
  · exact ⟨by simp [hq], Iff.rfl, by simp [hq], rfl⟩

/-- A step at the other end of a pipe does not reach the socket before a command comes. -/
theorem Inv.peer_step (h : Inv hwms tr A M E t) {p : ι} {a : PipeAct α}
    (hready : Pipes.ready false p a t.pipes = true) :
    ∃ t' A' M' E', t.next (.peer p a) = some t' ∧
      Inv hwms (tr ++ [⟨t, .peer p a, t'⟩]) A' M' E' t' := by
  obtain ⟨e, q, hnext, -⟩ := (h.pipes p).sound.next hready
  refine ⟨{ t with pipes := Function.update t.pipes p q }, A, M, E, ?_,
    h.onePipe (by simp) rfl h.holds rfl ?_ (fun p' hne => ⟨Iff.rfl, Iff.rfl, Iff.rfl, ?_⟩)
      (Set.Subset.refl M)⟩
  · rw [next, mayAct]
    simp [Pipes.next_eq hnext]
  -- What is read is added to what has been read.
  · rw [readAt_peer hnext]
    exact (h.pipes p).peer hnext
  · exact readAt_other hne

/-- A step of the socket at its own end of which it is told nothing. -/
theorem Inv.quiet (h : Inv hwms tr A M E t) {p : ι} {a : PipeAct α} {e : Transfer α} {q : PipePair α}
    (hA : p ∈ A) (ha : a.notSending = true)
    (hcommand : a = .processCommand → ∀ inbox, (t.pipes p).mail true ≠ .pipe_term_ack :: inbox ∧
      ∀ n, (t.pipes p).mail true ≠ .activate_write n :: inbox)
    (hnext : (t.pipes p).next true a = some (e, q))
    (ht' : t' = { t with pipes := Function.update t.pipes p q }) :
    Inv hwms (tr ++ [⟨t, .own p a, t'⟩]) A M E t' := by
  refine h.onePipe (by simp) ht' h.holds rfl ?_ (fun p' hp => ⟨Iff.rfl, Iff.rfl, Iff.rfl, rfl⟩)
    (Set.Subset.refl M)
  rw [show readAt p [_] = [] from rfl, List.append_nil]
  exact (h.pipes p).own hA ha hcommand hnext

/-- The peer has read on. The distributor is told if the end had been stopped. -/
theorem Inv.activateWrite (h : Inv hwms tr A M E t) {p : ι} {e : Transfer α} {q : PipePair α}
    (hA : p ∈ A) {n : Nat} {inbox : List Command}
    (hmail : (t.pipes p).mail true = .activate_write n :: inbox)
    (hnext : (t.pipes p).next true .processCommand = some (e, q)) :
    ∃ d E', t.notify p = some d ∧ ∀ t',
      t' = { t with dist := d, pipes := Function.update t.pipes p q } →
        Inv hwms (tr ++ [⟨t, .own p .processCommand, t'⟩]) A M E' t' := by
  have hfeeds := h.pipes p
  have hq := hfeeds.activateWrite hA hmail hnext
  by_cases hout : ((t.pipes p).ends true).outActive = false ∧
      ((t.pipes p).ends true).state = .active
  · -- it is not among the eligible ones yet
    have hE : p ∉ E := fun hE => by
      have := (hfeeds.eligible_iff hA hout.2).mp hE
      rw [hout.1] at this
      cases this
    obtain ⟨d, hactivated, hd, hmore⟩ := h.holds.activated_spec hA hE
    refine ⟨d, _, by simp [notify, PipePair.event, hmail, hout, hactivated], fun t' ht' =>
      h.onePipe (by simp) ht' hd hmore ?_ (fun p' hp => ⟨Iff.rfl, Iff.rfl, by simp [hp], rfl⟩)
        (Set.Subset.refl M)⟩
    rw [show readAt p [_] = [] from rfl, List.append_nil]
    exact hq.congr Iff.rfl Iff.rfl (by simp [hout])
  · -- it has not been stopped, or it is not to be written to any more
    have hnotify : t.notify p = some t.dist := by
      rw [notify, PipePair.event, hmail]
      dsimp only
      rw [if_neg (by simpa using hout)]
    refine ⟨t.dist, E, hnotify, fun t' ht' => h.onePipe (by simp) ht' h.holds rfl ?_
      (fun p' hp => ⟨Iff.rfl, Iff.rfl, Iff.rfl, rfl⟩) (Set.Subset.refl M)⟩
    rw [show readAt p [_] = [] from rfl, List.append_nil]
    exact hq.congr Iff.rfl Iff.rfl (or_iff_left hout)

/-- The pipe is gone, and the distributor forgets it. -/
theorem Inv.pipeTermAck (h : Inv hwms tr A M E t) {p : ι} {e : Transfer α} {q : PipePair α}
    (hA : p ∈ A) {inbox : List Command} (hmail : (t.pipes p).mail true = .pipe_term_ack :: inbox)
    (hnext : (t.pipes p).next true .processCommand = some (e, q)) :
    ∃ d, t.notify p = some d ∧ ∀ t',
      t' = { t with dist := d, pipes := Function.update t.pipes p q } →
        Inv hwms (tr ++ [⟨t, .own p .processCommand, t'⟩]) (A \ {p}) (M \ {p}) (E \ {p}) t' := by
  obtain ⟨d, hterminated, hd, hmore⟩ := h.holds.pipeTerminated_spec hA
  refine ⟨d, by simp [notify, PipePair.event, hmail, hterminated], fun t' ht' =>
    h.onePipe (by simp) ht' hd hmore ?_ (fun p' hp => by simp [hp, readAt]) Set.sdiff_subset⟩
  rw [show readAt p [_] = [] from rfl, List.append_nil]
  exact ((h.pipes p).pipeTermAck hmail hnext).congr (by simp) (by simp) (by simp)

/-- What the end tells the socket, and the step it takes then. -/
theorem Inv.own_step (h : Inv hwms tr A M E t) {p : ι} {a : PipeAct α}
    (hmay : t.mayAct (.own p a) = true) (hready : Pipes.ready true p a t.pipes = true) :
    ∃ t' A' M' E', t.next (.own p a) = some t' ∧
      Inv hwms (tr ++ [⟨t, .own p a, t'⟩]) A' M' E' t' := by
  obtain ⟨⟨hp, -⟩, ha⟩ : (p ∈ t.dist.pipes.items ∧ _) ∧ a.notSending = true := by
    simpa only [mayAct, Pipes.mayOwn, Bool.and_eq_true, decide_eq_true_eq] using hmay
  have hA : p ∈ A := (h.holds.attached p).mp hp
  obtain ⟨e, q, hnext, -⟩ := (h.pipes p).sound.next hready
  cases a with
  | processCommand =>
      -- The step, once it is known what the distributor makes of the command.
      have hstep : ∀ d, t.notify p = some d → t.next (.own p .processCommand) =
          some { t with dist := d, pipes := Function.update t.pipes p q } := by
        intro d hd
        rw [next, hmay]
        simp [hd, Pipes.next_eq hnext]
      -- of two of the four commands the socket is told
      cases hmail : (t.pipes p).mail true with
      | nil => simp [Pipes.ready, Pipe.ready, PipePair.reach, hmail] at hready
      | cons command inbox =>
          cases command with
          | pipe_term =>
              exact ⟨_, A, M, E, hstep t.dist (by simp [notify, PipePair.event, hmail]),
                h.quiet hA ha (by simp [hmail]) hnext rfl⟩
          | activate_read =>
              refine ⟨_, A, M, E, hstep t.dist ?_, h.quiet hA ha (by simp [hmail]) hnext rfl⟩
              rw [notify, PipePair.event, hmail]
              dsimp only
              -- `activate_read` is for the reading side of the socket; the distributor is not told.
              generalize (!((t.pipes p).ends true).inActive && _) = wakes
              cases wakes <;> rfl
          | activate_write n =>
              obtain ⟨d, E', hnotify, ht'⟩ := h.activateWrite hA hmail hnext
              exact ⟨_, A, M, E', hstep d hnotify, ht' _ rfl⟩
          | pipe_term_ack =>
              obtain ⟨d, hnotify, ht'⟩ := h.pipeTermAck hA hmail hnext
              exact ⟨_, _, _, _, hstep d hnotify, ht' _ rfl⟩
  | _ =>
      refine ⟨_, A, M, E, ?_, h.quiet hA ha (by simp) hnext rfl⟩
      show (if !t.mayAct _ then none else (Pipes.next true p _ t.pipes).map _) = _
      rw [hmay, Pipes.next_eq hnext]
      rfl

/-- What a pipe is meant to get, once its part in the message is settled. -/
def started (marked : List ι) (t : Publisher ι α) (p : ι) (r : Reception α) : Reception α :=
  if t.more then r else r.start (p ∈ marked) ((t.pipes p).ends true).checkHwm

/-- Before a frame is distributed: the pipes at the front include those that are meant to get it,
and no other that could take it. -/
theorem Inv.marked (h : Inv hwms tr A M E t) {marked : List ι}
    (hmarked : t.more = false → ∀ p ∈ marked, p ∈ A) :
    ∃ d M₁, (if t.more then some t.dist else mark marked t.dist) = some d ∧ d.Holds A M₁ E ∧
      ∀ p, (started marked t p (sentTo p tr)).messages = (sentTo p tr).messages ∧
        (started marked t p (sentTo p tr)).parts.getD [] = (sentTo p tr).parts.getD [] ∧
        (p ∈ M₁ → ((t.pipes p).ends true).state = .active →
          ((started marked t p (sentTo p tr)).parts.isSome = true ↔
            ((t.pipes p).ends true).outActive = true ∧
              ((t.pipes p).ends true).checkHwm = true)) ∧
        (p ∉ M₁ → ¬ ((started marked t p (sentTo p tr)).parts.isSome = true ∧
          ((t.pipes p).ends true).state = .active)) := by
  -- in the middle of a message it was settled by the first frame, and otherwise it is now
  cases hmore : t.more with
  | true =>
      refine ⟨t.dist, M, rfl, h.holds, fun p => ?_⟩
      have hp := h.pipes p
      rw [started, if_pos hmore]
      refine ⟨rfl, rfl, fun hM hstate => ?_, fun hM hboth => ?_⟩
      · obtain ⟨hsub, hsub'⟩ := h.holds.subset
        have hparts := (hp.matching_iff (hsub' (hsub hM))).mp hM
        -- It matches, so it gets the message, and a message that has begun is not refused.
        have hroom := hp.room hparts hstate
        obtain ⟨w, hpast, -⟩ := hp.past
        exact ⟨fun _ => ⟨hpast.out_of_room hstate hroom, hroom⟩, fun _ => hparts⟩
      · exact hM ((hp.matching_iff (hp.attached_of_active hboth.1 hboth.2)).mpr hboth.1)
  | false =>
      obtain ⟨rfl, hnone⟩ := h.between hmore
      obtain ⟨d, hmark, hd, -⟩ := mark_spec h.holds (h.more_eq.trans hmore) (hmarked hmore)
      refine ⟨d, _, hmark, hd, fun p => ?_⟩
      have hp := h.pipes p
      have hstarted : started marked t p (sentTo p tr) =
          (sentTo p tr).start (p ∈ marked) ((t.pipes p).ends true).checkHwm :=
        if_neg (by simp [hmore])
      have hsome : (started marked t p (sentTo p tr)).parts.isSome = true ↔
          p ∈ marked ∧ ((t.pipes p).ends true).checkHwm = true := by
        rw [hstarted, Reception.isSome_start, Bool.and_eq_true, decide_eq_true_eq]
      refine ⟨by rw [hstarted]; rfl, ?_, fun hM hstate => ?_, fun hM hboth => ?_⟩
      · rw [hstarted, Reception.getD_start, hnone p]
        rfl
      -- Marked are those that were asked for and are eligible, which is: not stopped.
      · obtain ⟨hp', hE⟩ : p ∈ marked ∧ p ∈ E := by simpa using hM
        have hout := (hp.eligible_iff (hmarked hmore p hp') hstate).mp hE
        rw [hsome]
        exact ⟨fun h' => ⟨hout, h'.2⟩, fun h' => ⟨hp', h'.2⟩⟩
      -- an end with room has not been stopped, so it was eligible and is marked
      · obtain ⟨hp', hroom⟩ := hsome.mp hboth.1
        obtain ⟨w, hpast, -⟩ := hp.past
        have hout := hpast.out_of_room hboth.2 hroom
        exact hM (.inr ⟨hp', (hp.eligible_iff (hmarked hmore p hp') hboth.2).mpr hout⟩)

/-- **`xsend` on the sets.** Marking has put the pipes of `M` in front. Those of them that refuse the
frame are not eligible any more, and the others are still marked if this is not the last frame. -/
theorem xsend_spec {f : Frame α} {marked : List ι} {out : ι → Bool × PipePair α} {d : Dist ι}
    (hmark : (if t.more then some t.dist else mark marked t.dist) = some d) (hd : d.Holds A M E)
    (hout : ∀ p ∈ M, (t.pipes p).deliver f = some (out p)) :
    ∃ t', t.xsend f marked = some t' ∧
      t'.dist.Holds A {p | f.more = true ∧ p ∈ M \ Refusing out M} (E \ Refusing out M) ∧
      t'.dist.more = f.more ∧ t'.more = f.more ∧
      (∀ p ∈ M, t'.pipes p = (out p).2) ∧ ∀ p, p ∉ M → t'.pipes p = t.pipes p := by
  obtain ⟨t₂, hrun, hholds, -, -, hdone, hnot⟩ :=
    distribute_spec f out A (d.matching + 1) 0 { t with dist := d } M E M hd (Nat.zero_le _)
      (by show d.matching < _; omega) (fun p => by simp [Below]) hout
  let d' : Dist ι := if f.more then t₂.dist.sent f.more else (t₂.dist.sent f.more).unmatch
  have hsent := hholds.sent f.more
  -- After the last frame `unmatch` leaves none at the front.
  have hd' : d'.Holds A {p | f.more = true ∧ p ∈ M \ Refusing out M} (E \ Refusing out M) := by
    cases hf : f.more with
    | true =>
        have hM : {p | true = true ∧ p ∈ M \ Refusing out M} = M \ Refusing out M :=
          Set.ext fun p => by simp
        rw [show d' = t₂.dist.sent f.more from if_pos hf, hM]
        exact hsent
    | false =>
        rw [show d' = (t₂.dist.sent f.more).unmatch from if_neg (by simp [hf])]
        simpa using hsent.unmatch
  have hmore : d'.more = f.more := by
    show (if f.more then t₂.dist.sent f.more else (t₂.dist.sent f.more).unmatch).more = f.more
    split <;> rfl
  -- the loop is skipped if no pipe matches, and then it would do nothing
  have hloop : (if d.matching = 0 then some { t with dist := d }
      else distribute f (d.matching + 1) 0 { t with dist := d }) = some t₂ := by
    by_cases hzero : d.matching = 0
    · rw [if_pos hzero, ← hrun, distribute]
      simp [hzero]
    · rw [if_neg hzero, hrun]
  refine ⟨⟨d', f.more, t₂.pipes⟩, ?_, hd', hmore, rfl, hdone, hnot⟩
  rw [xsend, hmark, Option.bind_some, sendToMatching]
  dsimp only
  rw [hloop]
  rfl

/-- What is sent to a pipe with a frame: it takes part if it did before, or does from now on. -/
theorem sentTo_xsend {f : Frame α} {marked : List ι} (p : ι) :
    sentTo p (tr ++ [⟨t, .xsend f marked, t'⟩]) =
      if (started marked t p (sentTo p tr)).parts.isSome = true ∧
          ((t.pipes p).ends true).state = .active
      then (started marked t p (sentTo p tr)).take f
      else (started marked t p (sentTo p tr)).drop := by
  rw [sentTo_append]
  let r := started marked t p (sentTo p tr)
  show (if (r.parts.isSome && decide (((t.pipes p).ends true).state = .active)) = true
    then r.take f else r.drop) = _
  simp only [Bool.and_eq_true, decide_eq_true_eq]
  rfl

/-- **One frame**, to all the pipes that are meant to get it. -/
theorem Inv.xsend_step (h : Inv hwms tr A M E t) {f : Frame α} {marked : List ι}
    (hmay : t.mayAct (.xsend f marked) = true) :
    ∃ t' A' M' E', t.next (.xsend f marked) = some t' ∧
      Inv hwms (tr ++ [⟨t, .xsend f marked, t'⟩]) A' M' E' t' := by
  obtain ⟨hbusy, hmay'⟩ := Bool.and_eq_true_iff.mp hmay
  have hmarked : t.more = false → ∀ p ∈ marked, p ∈ A := fun hmore p hp =>
    (h.holds.attached p).mp (by simp_all)
  have hclosing : ∀ p ∈ A, ((t.pipes p).ends true).closing = false := fun p hp =>
    Pipes.closing_of_not_busy (by simpa using hbusy) ((h.holds.attached p).mpr hp)
  obtain ⟨d, M₁, hmark, hd, hparts⟩ := h.marked hmarked
  obtain ⟨hsub, hsub'⟩ := hd.subset
  -- what would come of every single delivery; the loop makes those to the pipes at the front
  have hdeliver : ∀ p, ∃ out : Bool × PipePair α, p ∈ M₁ →
      (t.pipes p).deliver f = some out ∧
      (out.1 = true ↔ (started marked t p (sentTo p tr)).parts.isSome = true ∧
        ((t.pipes p).ends true).state = .active) ∧
      Feeds (hwms p) (readAt p tr)
        (if out.1 then (started marked t p (sentTo p tr)).take f
          else (started marked t p (sentTo p tr)).drop)
        (p ∈ A) (out.1 = true ∧ f.more = true) (out.1 = true) out.2 := by
    intro p
    by_cases hp : p ∈ M₁
    · obtain ⟨hmessages, hopen, htakes, -⟩ := hparts p
      obtain ⟨ok, q, hdeliver, hok, hq⟩ := (h.pipes p).deliver (hsub' (hsub hp))
        (hclosing p (hsub' (hsub hp))) f hmessages hopen (htakes hp)
      exact ⟨(ok, q), fun _ => ⟨hdeliver, hok, hq⟩⟩
    · exact ⟨(false, t.pipes p), fun h' => absurd h' hp⟩
  choose out hout using hdeliver
  obtain ⟨t', hxsend, hd', hdmore, hmore, hdone, hnot⟩ :=
    xsend_spec hmark hd fun p hp => (hout p hp).1
  have hnext : t.next (.xsend f marked) = some t' := by
    rw [next, hmay]
    exact hxsend
  refine ⟨t', A, _, _, hnext, hd', hdmore.trans hmore.symm, fun p => ?_, fun hm => ⟨?_, fun p => ?_⟩⟩
  · rw [sentTo_xsend, readAt_append, show readAt p [_] = [] from rfl, List.append_nil]
    by_cases hp : p ∈ M₁
    · obtain ⟨-, hok, hq⟩ := hout p hp
      -- To a pipe at the front it has been delivered.
      rw [hdone p hp]
      rw [if_congr hok.symm rfl rfl]
      refine hq.congr Iff.rfl ?_ ?_
      · simp [Refusing, hp, and_comm]
      · simp [Refusing, hp, hsub hp]
    -- The loop does not come to any other, and it was not meant to get the frame.
    · obtain ⟨hmessages, hopen, -, hpass⟩ := hparts p
      have hpass := hpass hp
      rw [hnot p hp, if_neg hpass]
      refine ((h.pipes p).pass hmessages hopen hpass).congr Iff.rfl ?_ ?_
      · simp [hp]
      · simp [Refusing, hp]
  · have hf : f.more = false := hmore.symm.trans hm
    simp [hf]
  · have hf : f.more = false := hmore.symm.trans hm
    rw [sentTo_xsend]
    split <;> simp [Reception.take, Reception.drop, hf]

/-- **The step lemma.** -/
theorem Inv.step (h : Inv hwms tr A M E t) (hready : t.ready a = true) :
    ∃ t' A' M' E', t.next a = some t' ∧ Inv hwms (tr ++ [⟨t, a, t'⟩]) A' M' E' t' := by
  obtain ⟨hmay, hready⟩ := Bool.and_eq_true_iff.mp hready
  cases a with
  | attach p => exact h.attach_step hmay
  | peer p a => exact h.peer_step hready
  | own p a => exact h.own_step hmay hready
  | xsend f marked => exact h.xsend_step hmay

/-- Nobody takes a step that is not ready. -/
theorem ready_of_next (h : t.next a = some t') : t.ready a = true := by
  unfold next at h
  cases hmay : t.mayAct a with
  | false =>
      rw [hmay] at h
      cases h
  | true =>
      rw [hmay] at h
      refine Bool.and_eq_true_iff.mpr ⟨hmay, ?_⟩
      cases a with
      | attach | xsend => rfl
      | peer p a =>
          obtain ⟨r, hr, -⟩ := Option.map_eq_some_iff.mp h
          exact Pipes.ready_of_next hr
      | own p a =>
          cases a with
          | processCommand =>
              obtain ⟨d, -, h⟩ := Option.bind_eq_some_iff.mp h
              obtain ⟨r, hr, -⟩ := Option.map_eq_some_iff.mp h
              exact Pipes.ready_of_next hr
          | _ =>
              obtain ⟨r, hr, -⟩ := Option.map_eq_some_iff.mp h
              exact Pipes.ready_of_next hr

/-- **The run lemma.** -/
theorem inv_run (h : Run Step (new hwms) tr t) : ∃ A M E, Inv hwms tr A M E t := by
  refine h.past (I := fun tr t => ∃ A M E, Inv hwms tr A M E t) ⟨_, _, _, inv_new⟩ ?_
  rintro tr t a t' ⟨A, M, E, ht⟩ hstep
  obtain ⟨t₁, A', M', E', hnext, ht₁⟩ := ht.step (ready_of_next hstep)
  -- The step that was taken is the one that the step lemma is about.
  obtain rfl := Option.some.inj (hnext.symm.trans hstep)
  exact ⟨A', M', E', ht₁⟩

/-- What is ready is possible, and nothing else. -/
theorem Inv.isSome_next (h : Inv hwms tr A M E t) (a : PublisherAct ι α) :
    (t.next a).isSome = t.ready a := by
  refine Bool.eq_iff_iff.mpr (Option.isSome_iff_exists.trans ⟨?_, fun hready => ?_⟩)
  · rintro ⟨t', hnext⟩
    exact ready_of_next hnext
  · obtain ⟨t', _, _, _, hnext, -⟩ := h.step hready
    exact ⟨t', hnext⟩

/-- Everything sent has been flushed, so it has been read or can be. -/
theorem Inv.reads (h : Inv hwms tr A M E t) (p : ι)
    (hfreed : ((t.pipes p).ends false).freed = false) :
    readAt p tr ++ frames ((t.pipes p).inpipe false).fifo.ready = wire (sentTo p tr).messages := by
  have hp := h.pipes p
  obtain ⟨w, hpast, hmessages, -⟩ := hp.past
  rw [← hmessages]
  exact hpast.wire_eq hfreed (hp.complete hfreed)

/-- **A publishing socket** with the options it is made with, in every run of its own thread and of
the threads at the other ends of its pipes. Nothing goes wrong: whatever a thread may do and has a
reason to do is possible. And at the other end of every pipe there are whole messages, in order:
what has been read, together with what is there to be read, are the frames of the messages for which
the pipe was marked and had room when they began, and that were finished before the end was closed.
-/
theorem publisher_run (h : Run Step (new hwms) tr t) :
    (∀ a, (t.next a).isSome = t.ready a) ∧
      ∀ p, ((t.pipes p).ends false).freed = false →
        readAt p tr ++ frames ((t.pipes p).inpipe false).fifo.ready =
          wire (sentTo p tr).messages := by
  obtain ⟨A, M, E, ht⟩ := inv_run h
  exact ⟨ht.isSome_next, ht.reads⟩

/-- A pipe is attached in the middle of a message, and another one is full after it. -/
theorem publisher_run_midway :
    ∃ (tr : List (Taken (Publisher Nat Nat) (PublisherAct Nat Nat))) (t : Publisher Nat Nat),
      Run Step (new fun _ _ => 1) tr t ∧ tr.length = 6 ∧
      (sentTo 0 tr).messages = [⟨3, [4]⟩] ∧ (sentTo 1 tr).messages = [⟨5, []⟩] ∧
      (∀ a, (t.next a).isSome = t.ready a) ∧
      ∀ p, ((t.pipes p).ends false).freed = false →
        readAt p tr ++ frames ((t.pipes p).inpipe false).fifo.ready =
          wire (sentTo p tr).messages := by
  have hrun : (attempt Publisher.next (new fun _ _ => 1 : Publisher Nat Nat)
      [.attach 0, .peer 0 .read, .xsend ⟨3, true⟩ [0], .attach 1, .xsend ⟨4, false⟩ [],
        .xsend ⟨5, false⟩ [1, 0]]).map
      (fun r => (r.1.length, (sentTo 0 r.1).messages, (sentTo 1 r.1).messages)) =
        some (6, [⟨3, [4]⟩], [⟨5, []⟩]) := rfl
  obtain ⟨⟨tr, t⟩, hattempt, htr⟩ := Option.map_eq_some_iff.mp hrun
  obtain ⟨hlen, hsent⟩ := Prod.mk.inj htr
  obtain ⟨hsent₀, hsent₁⟩ := Prod.mk.inj hsent
  obtain ⟨h, -⟩ := run_attempt hattempt
  exact ⟨tr, t, h, hlen, hsent₀, hsent₁, publisher_run h⟩

end Publisher
end EventBus.LibZmq
