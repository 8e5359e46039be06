import EventBus.LibZmq.Subscriber

/-!
# What a subscriber collects

The proof of `subscriber_run`. `Supplies` is what the socket knows of one of its pipes: its fair
queue is right about whether there may be something to read. In the middle of a message the current
pipe is the one it comes from, and the next frame is there already.
-/

namespace EventBus.LibZmq

open Framing Transition Table
open Table.IndexedArray (Below)

variable {α : Type}

/-! ## One pipe -/

/-- What has been written stays written: a roll back takes unfinished messages only. -/
theorem Written.messages_after (w : Written α) (e : Transfer α) :
    w.messages <+: (w.after e).messages := by
  cases e with
  | wrote f => cases hmore : f.more <;> simp [Written.after, hmore]
  | _ => exact List.prefix_rfl

/-- So the frames of the messages so far are the beginning of all that will come. -/
theorem wire_mono {ms ms' : List (Message α)} (h : ms <+: ms') : wire ms <+: wire ms' := by
  obtain ⟨rest, rfl⟩ := h
  rw [wire_append]
  exact List.prefix_append _ _

/-- At the other end `w` has been written, and `got` has been read here. -/
structure Supplies (hwms : Bool → Nat) (w : Written α) (got : List (Frame α))
    (attached active : Prop) (p : PipePair α) : Prop where
  past : p.Past hwms false w got
  /-- Also of a pipe that is gone by now. -/
  inOrder : got <+: wire w.messages
  /-- A pipe is new when it is attached. -/
  unattached : ¬attached → (p.ends true).freed = false →
    p.ends true = .new (hwms false) (hwms true)
  alive : attached → (p.ends true).freed = false
  /-- The fair queue and the pipe agree on whether the pipe is asleep. -/
  active_iff : attached → (p.ends true).state.reads = true →
    (active ↔ (p.ends true).inActive = true)
  /-- A receiving socket takes what its peer has written before the peer's `pipe_term`. -/
  delay : (p.ends true).state = .active → (p.ends true).delay = true

namespace Supplies
variable {hwms : Bool → Nat} {w : Written α} {got : List (Frame α)} {A S : Prop}
  {p p' : PipePair α} {a : PipeAct α} {e : Transfer α}

/-- Only whether the pipe is attached and active matters. -/
theorem congr {A' S' : Prop} (h : Supplies hwms w got A S p) (hA : A ↔ A') (hS : S ↔ S') :
    Supplies hwms w got A' S' p := by
  rwa [← propext hA, ← propext hS]

/-- A pipe that nobody has attached yet. -/
theorem fresh (hA : ¬A) : Supplies hwms ⟨[], []⟩ [] A S (.new hwms : PipePair α) where
  past := PipePair.past_new
  inOrder := List.nil_prefix
  unattached _ _ := rfl
  alive h := absurd h hA
  active_iff h := absurd h hA
  delay _ := rfl

/-- A step at the other end. The end of the socket is left as it is, and there may be more messages.
-/
theorem peer (h : Supplies hwms w got A S p) (hnext : p.next false a = some (e, p')) :
    Supplies hwms (w.after e) got A S p' := by
  obtain ⟨v, -, -, -, hends, -⟩ := PipePair.next_eq hnext
  have hends : p'.ends true = p.ends true := hends
  -- More has been written now, and what has been read is the beginning of that as well.
  refine ⟨h.past.writes hnext, h.inOrder.trans (wire_mono (w.messages_after e)), ?_, ?_, ?_, ?_⟩
  all_goals rw [hends]
  · exact h.unattached
  · exact h.alive
  · exact h.active_iff
  · exact h.delay

/-- A step of the socket of which it is not told anything. Unless it terminates the pipe, a pipe
that can be read from stays so. -/
theorem own (h : Supplies hwms w got A S p) (hA : A) (ha : a.notReading = true)
    (hcommand : a = .processCommand → ∀ inbox, p.mail true ≠ .activate_read :: inbox ∧
      p.mail true ≠ .pipe_term_ack :: inbox)
    (hnext : p.next true a = some (e, p')) :
    Supplies hwms w got A S p' ∧ ((∀ delay, a ≠ .terminate delay) →
      (p.ends true).state.reads = true → (p'.ends true).state.reads = true) := by
  obtain ⟨v, hv, -, hown, -⟩ := PipePair.next_eq hnext
  obtain ⟨hkeeps, hreads⟩ := Pipe.next_keepsIn hv ha hcommand
  rw [← hown] at hkeeps hreads
  have hpast := h.past.reads hnext
  -- A step that is no read brings no frame.
  rw [Pipe.next_not_got hv ha, List.append_nil] at hpast
  exact ⟨⟨hpast, h.inOrder, fun hA' => absurd hA hA', fun _ => hkeeps.freed.trans (h.alive hA),
    fun _ hr => (h.active_iff hA (hkeeps.reads hr)).trans (by rw [hkeeps.inActive hr]; rfl),
    fun hs => (hkeeps.delay hs).2.trans (h.delay (hkeeps.delay hs).1)⟩,
    fun hnot => hreads hnot h.delay⟩

/-- The pipe has something to read again. -/
theorem activateRead (h : Supplies hwms w got A S p) (hA : A) {inbox : List Command}
    (hmail : p.mail true = .activate_read :: inbox)
    (hnext : p.next true .processCommand = some (e, p')) :
    Supplies hwms w got A
      (S ∨ (p.ends true).inActive = false ∧ (p.ends true).state.reads = true) p' ∧
      (p'.ends true).state = (p.ends true).state := by
  obtain ⟨v, hv, -, hown, -⟩ := PipePair.next_eq hnext
  -- The command wakes the end up, if it still reads, and leaves its state.
  have hown := hown.trans (Pipe.next_activateRead hv hmail)
  have hpast := h.past.reads hnext
  rw [Pipe.next_not_got hv rfl, List.append_nil] at hpast
  have hstate : (p'.ends true).state = (p.ends true).state := by
    rw [hown]
    rfl
  refine ⟨⟨hpast, h.inOrder, fun hA' => absurd hA hA', fun _ => ?_, fun _ hr => ?_, fun hs => ?_⟩,
    hstate⟩
  · rw [hown]
    exact h.alive hA
  · rw [hstate] at hr
    rw [h.active_iff hA hr, hown]
    show _ ↔ ((p.ends true).inActive || (p.ends true).state.reads) = true
    cases (p.ends true).inActive <;> simp [hr]
  · rw [hown]
    exact h.delay (hstate ▸ hs)

/-- The pipe is gone. -/
theorem pipeTermAck (h : Supplies hwms w got A S p) {inbox : List Command}
    (hmail : p.mail true = .pipe_term_ack :: inbox)
    (hnext : p.next true .processCommand = some (e, p')) :
    Supplies hwms w got False False p' ∧ (p.ends true).state.reads = false := by
  obtain ⟨v, hv, -, hown, -⟩ := PipePair.next_eq hnext
  -- The acknowledgement comes to an end that has stopped reading by then.
  obtain ⟨hfreed, hbefore, hreads⟩ := Pipe.next_pipeTermAck hv hmail
  rw [← hown] at hfreed hreads
  have hpast := h.past.reads hnext
  rw [Pipe.next_not_got hv rfl, List.append_nil] at hpast
  exact ⟨⟨hpast, h.inOrder, fun _ hf => absurd hfreed (by simp [hf]), False.elim, False.elim,
    fun hs => by simp [hs, PipeState.reads] at hreads⟩, hbefore⟩

/-- From now on the pipe is active: it may have been written to already. -/
theorem attach (h : Supplies hwms w got A S p) (hA : ¬A) (hfreed : (p.ends true).freed = false) :
    Supplies hwms w got True True p := by
  -- It is as it was made, and so it is not asleep.
  have hnew := h.unattached hA hfreed
  exact ⟨h.past, h.inOrder, fun h' => absurd trivial h', fun _ => hfreed,
    fun _ _ => by rw [hnew]; exact ⟨fun _ => rfl, fun _ => trivial⟩, h.delay⟩

/-- The socket reads. In the middle of a message there is something to read. -/
theorem read (h : Supplies hwms w got A S p) (hA : A) (hclosing : (p.ends true).closing = false) :
    ∃ (r : Option (Frame α)) (p' : PipePair α),
      p.next true .read = some (r.elim .none .got, p') ∧
      Supplies hwms w (got ++ r.toList) A (S ∧ r.isSome = true) p' ∧
      (p'.ends true).closing = false ∧
      (r.isSome = true → (p'.ends true).state.reads = true) ∧
      ((p.ends true).state.reads = true → S → (∃ f, got.getLast? = some f ∧ f.more = true) →
        r.isSome = true) := by
  have hfreed := h.alive hA
  obtain ⟨e, p', hnext, -, -, -⟩ := h.past.sound.next (s := true) (a := .read) (by
    simp [Pipe.ready, PipeEnd.mayAct, PipePair.reach, hfreed, hclosing])
  obtain ⟨v, hv, -, hown, -⟩ := PipePair.next_eq hnext
  obtain ⟨⟨r, v'⟩, hread, heq⟩ := Pipe.next_read hv
  obtain ⟨rfl, rfl⟩ := Prod.mk.inj heq
  -- What a read leaves of the end, with a frame and without one.
  obtain ⟨hsome, hnone⟩ := Pipe.read_keepsIn hread
  rw [← hown] at hsome hnone
  have hpast := h.past.reads hnext
  -- a frame is there, if the last one was not the end of its message
  have hmid : (p.ends true).state.reads = true → S →
      (∃ f, got.getLast? = some f ∧ f.more = true) → r.isSome = true := by
    rintro hreads hS ⟨f, hlast, hmore⟩
    obtain ⟨next, msgs, hready⟩ := h.past.carries.next_ready hfreed hlast hmore
    have hr := (h.past.sound.ends true).read_frame ((h.active_iff hA hreads).mp hS) hreads hready
      hread
    rw [show r = some next from hr]
    rfl
  refine ⟨r, p', hnext, ?_, ?_, fun hr => ?_, hmid⟩
  · cases r with
    | some f =>
        -- A frame comes only to an end that is awake, and it stays so.
        obtain ⟨hreads, hin, hkeeps, -⟩ := hsome rfl
        have hfreed' : (p'.ends true).freed = false := hkeeps.freed.trans hfreed
        refine ⟨hpast, ?_, fun hA' => absurd hA hA', fun _ => hfreed', fun _ hr => ?_, fun hs => ?_⟩
        -- what has been read and what can be read are whole messages, so this is the beginning of
        -- them
        · rw [← hpast.carries.complete hfreed']
          exact List.prefix_append _ _
        · rw [hkeeps.inActive hr, h.active_iff hA hreads]
          exact and_iff_left rfl
        · exact (hkeeps.delay hs).2.trans (h.delay (hkeeps.delay hs).1)
    -- the pipe has gone to sleep, or this was the delimiter
    | none =>
        obtain ⟨hfreed', hreads, hdelay⟩ := hnone rfl
        have hpast : p'.Past hwms false w (got ++ []) := hpast
        refine ⟨hpast, by simpa using h.inOrder, fun hA' => absurd hA hA',
          fun _ => hfreed'.trans hfreed, fun _ hr => ?_, fun hs => ?_⟩
        · rw [(hreads hr).2]
          simp
        · exact (hdelay hs).2.trans (h.delay (hdelay hs).1)
  · rw [hown]
    exact (Pipe.read_closing hread).trans hclosing
  · obtain ⟨hreads, -, -, hstate⟩ := hsome hr
    rw [hstate]
    exact hreads

end Supplies

/-! ## Whole messages -/

/-- Whether the rest of a message is for the user. -/
def XSubPlace.passes : XSubPlace → Bool
  | .idle | .loops _ => true
  | .pops _ => false

namespace Subscriber
variable {ι : Type} [DecidableEq ι]

omit [DecidableEq ι] in
/-- The frames of a message end with the one that says so. -/
theorem Begun.finish {pipe : ι} {passed : Bool} {es : List (Fetched ι α)} {e : Fetched ι α}
    (h : Begun pipe passed es) (hpipe : e.pipe = pipe) (hpassed : e.passed = passed)
    (hmore : e.frame.more = false) : OneMessage (es ++ [e]) := by
  obtain ⟨hne, hall, hhead⟩ := h
  refine ⟨pipe, passed, ?_, ?_, Message.close (es.map fun e => e.frame.data) e.frame.data, ?_⟩
  · intro e' he
    rcases List.mem_append.mp he with he | he
    · obtain ⟨hp, hb, -⟩ := hall e' he
      exact ⟨hp, hb⟩
    · obtain rfl := List.mem_singleton.mp he
      exact ⟨hpipe, hpassed⟩
  · rw [List.head?_append_of_ne_nil _ hne]
    exact hhead
  -- All frames but the last one say that there is more.
  · have hframe : ∀ e' ∈ es, Fetched.frame e' = ⟨e'.frame.data, true⟩ := fun e' he => by
      rw [← (hall e' he).2.2]
    rw [close_frames, List.map_append, List.map_map, List.map_congr_left hframe, List.map_singleton,
      ← hmore]
    rfl

omit [DecidableEq ι] in
/-- At the beginning nothing has begun. -/
theorem collected_nil : Collected none ([] : List (Fetched ι α)) := ⟨[], [], rfl, by simp, rfl⟩

omit [DecidableEq ι] in
/-- One more frame: of the message that has begun, or else the first one of a message. -/
theorem Collected.add {begun : Option (ι × Bool)} {es : List (Fetched ι α)} {e : Fetched ι α}
    (h : Collected begun es) (hfirst : begun = none → e.passed = e.accepted)
    (hnext : ∀ b ∈ begun, b = (e.pipe, e.passed)) :
    Collected (if e.frame.more then some (e.pipe, e.passed) else none) (es ++ [e]) := by
  obtain ⟨groups, rest, rfl, hgroups, hrest⟩ := h
  -- the message that `e` belongs to
  have hopen : (e.frame.more = true → Begun e.pipe e.passed (rest ++ [e])) ∧
      (e.frame.more = false → OneMessage (rest ++ [e])) := by
    -- either nothing has begun and `e` is the first frame, or it goes on with what has
    cases begun with
    | none =>
        obtain rfl : rest = [] := hrest
        have hpassed := hfirst rfl
        refine ⟨fun hmore => ⟨by simp, by simpa using hmore, by simp [hpassed]⟩, fun hmore =>
          ⟨e.pipe, e.passed, by simp, by simp [hpassed], ⟨e.frame.data, []⟩, ?_⟩⟩
        obtain ⟨_, ⟨d, more⟩, _, _⟩ := e
        obtain rfl : more = false := hmore
        rfl
    | some b =>
        obtain rfl := hnext b rfl
        have hrest : Begun e.pipe e.passed rest := hrest
        refine ⟨fun hmore => ⟨by simp, ?_, ?_⟩, hrest.finish rfl rfl⟩
        · intro e' he
          rcases List.mem_append.mp he with he | he
          · exact hrest.2.1 e' he
          · obtain rfl := List.mem_singleton.mp he
            exact ⟨rfl, rfl, hmore⟩
        · rw [List.head?_append_of_ne_nil _ hrest.1]
          exact hrest.2.2
  -- if it is the last frame there is one group more
  cases hmore : e.frame.more with
  | true =>
      rw [if_pos rfl]
      exact ⟨groups, rest ++ [e], List.append_assoc _ _ _, hgroups, hopen.1 hmore⟩
  | false =>
      rw [if_neg (by simp)]
      refine ⟨groups ++ [rest ++ [e]], [], by simp, fun g hg => ?_, rfl⟩
      rcases List.mem_append.mp hg with hg | hg
      · exact hgroups g hg
      · rw [List.mem_singleton.mp hg]
        exact hopen.2 hmore

/-! ## One frame from all pipes -/

/-- The fair queue is right about all pipes. In the middle of a message the current one can be read
from, and the frame that has been read last is not the last one of its message. -/
structure Supplied (hwms : ι → Bool → Nat) (w : ι → Written α) (got : ι → List (Frame α))
    (A S : Set ι) (cur : Option ι) (t : Subscriber ι α) : Prop where
  holds : t.fq.Holds A S cur
  pipes : ∀ p, Supplies (hwms p) (w p) (got p) (p ∈ A) (p ∈ S) (t.pipes p)
  middle : t.fq.more = true → ∃ p, cur = some p ∧
    ((t.pipes p).ends true).state.reads = true ∧ ∃ f, (got p).getLast? = some f ∧ f.more = true

variable {hwms : ι → Bool → Nat} {w : ι → Written α} {got : ι → List (Frame α)} {A : Set ι}

/-- **One round of `recvpipe`**, with a pipe in front: it brings a frame, or else it is not the middle
of a message and the pipe is not in front any more. -/
theorem Supplied.round {S : Set ι} {cur : Option ι} {t : Subscriber ι α}
    (h : Supplied hwms w got A S cur t) (hpos : 0 < t.fq.active)
    (hclosing : ∀ p ∈ A, ((t.pipes p).ends true).closing = false) :
    ∃ p r pipes, t.fq.pipes.items[t.fq.current]? = some p ∧ cur = some p ∧
      Pipes.next true p .read t.pipes = some (Option.elim r .none .got, pipes) ∧
      (∀ p' ∈ A, ((pipes p').ends true).closing = false) ∧
      ((∃ f cur', r = some f ∧ (f.more = true → cur' = some p) ∧
          Supplied hwms w (Function.update got p (got p ++ [f])) A S cur'
            { t with fq := t.fq.fetched f.more, pipes }) ∨
        r = none ∧ t.fq.more = false ∧ ∃ fq cur', t.fq.deactivate t.fq.current = some fq ∧
          fq.more = false ∧ fq.active + 1 = t.fq.active ∧
          Supplied hwms w got A (S \ {p}) cur' { t with fq, pipes }) := by
  -- The pipe at the place `current`: it is one of the active ones, which are in front.
  have hlen := Nat.lt_of_lt_of_le (h.holds.sound.current_lt hpos) h.holds.sound.active_le
  obtain ⟨p, hp⟩ : ∃ p, t.fq.pipes.items[t.fq.current]? = some p :=
    ⟨_, List.getElem?_eq_getElem hlen⟩
  have hcur : cur = some p := by rw [← h.holds.current, if_pos hpos, hp]
  obtain ⟨hpS, hindex⟩ := h.holds.current_iff.mp hcur
  have hpA := h.holds.subset hpS
  obtain ⟨r, q, hnext, hq, hclosed, hreads, hmid⟩ := (h.pipes p).read hpA (hclosing p hpA)
  refine ⟨p, r, Function.update t.pipes p q, hp, hcur, Pipes.next_eq hnext,
    (Function.forall_update_iff t.pipes fun p' q => p' ∈ A → (q.ends true).closing = false).mpr
      ⟨fun _ => hclosed, fun p' _ => hclosing p'⟩, ?_⟩
  cases r with
  | some f =>
      -- There is a frame. The next pipe has its turn if this was the last one of its message.
      obtain ⟨cur', hfq, hcur'⟩ := h.holds.fetched hcur f.more
      have hpipes : ∀ p', Supplies (hwms p') (w p') (Function.update got p (got p ++ [f]) p')
          (p' ∈ A) (p' ∈ S) (Function.update t.pipes p q p') := by
        refine (Function.forall_update_iff t.pipes fun p' q => Supplies (hwms p') (w p')
          (Function.update got p (got p ++ [f]) p') (p' ∈ A) (p' ∈ S) q).mpr
          ⟨?_, fun p' hne => ?_⟩
        · rw [Function.update_self]
          exact hq.congr Iff.rfl (and_iff_left rfl)
        · rw [Function.update_of_ne hne]
          exact h.pipes p'
      refine .inl ⟨f, cur', rfl, hcur', hfq, hpipes, fun hmore => ?_⟩
      refine ⟨p, hcur' hmore, ?_, f, by simp, hmore⟩
      dsimp only
      rw [Function.update_self]
      exact hreads rfl
  | none =>
      -- in the middle of a message the current pipe would have had a frame
      have hmore : t.fq.more = false := by
        cases hmore : t.fq.more with
        | false => rfl
        | true =>
            obtain ⟨p', hp', hreads', hlast⟩ := h.middle hmore
            obtain rfl := Option.some.inj (hcur.symm.trans hp')
            cases hmid hreads' hpS hlast
      -- So the pipe is put behind the active ones, and another one takes its place.
      obtain ⟨fq, cur', hdeactivate, hfq, hmore', hactive, -, -⟩ := h.holds.deactivate_spec hpS
      have hpipes : ∀ p', Supplies (hwms p') (w p') (got p') (p' ∈ A) (p' ∈ S \ {p})
          (Function.update t.pipes p q p') := by
        refine (Function.forall_update_iff t.pipes fun p' q => Supplies (hwms p') (w p')
          (got p') (p' ∈ A) (p' ∈ S \ {p}) q).mpr ⟨by simpa using hq, fun p' hne => ?_⟩
        exact (h.pipes p').congr Iff.rfl (by simp [hne])
      have hmore' : fq.more = false := hmore'.trans hmore
      rw [hindex] at hdeactivate
      refine .inr ⟨rfl, hmore, fq, cur', hdeactivate, hmore', by omega, hfq, hpipes, fun hm => ?_⟩
      rw [show fq.more = true from hm] at hmore'
      cases hmore'

omit [DecidableEq ι] in
/-- With no pipe in front it is not the middle of a message. -/
theorem Supplied.more_of_none {S : Set ι} {cur : Option ι} {t : Subscriber ι α}
    (h : Supplied hwms w got A S cur t) (hzero : ¬ 0 < t.fq.active) : t.fq.more = false := by
  cases hmore : t.fq.more with
  | false => rfl
  | true =>
      obtain ⟨p, hp, -⟩ := h.middle hmore
      rw [← h.holds.current, if_neg hzero] at hp
      cases hp

/-- **The loop of `recvpipe`**: it ends with a frame of the message that has begun, or else with the
first frame of a message or with nothing to read at all. Every pipe it does not get a frame from is
not active any more. -/
theorem recvpipe_spec :
    ∀ (rounds : Nat) (t : Subscriber ι α) (S : Set ι) (cur : Option ι),
      Supplied hwms w got A S cur t → t.fq.active < rounds →
      (∀ p ∈ A, ((t.pipes p).ends true).closing = false) →
      ∃ r fq pipes S' cur', t.recvpipe rounds = some (r, { t with fq, pipes }) ∧
        ((r = none ∧ t.fq.more = false ∧ fq.more = false ∧
            Supplied hwms w got A S' cur' { t with fq, pipes }) ∨
          ∃ p f, r = some (p, f) ∧ (t.fq.more = true → cur = some p) ∧ fq.more = f.more ∧
            (f.more = true → cur' = some p) ∧
            Supplied hwms w (Function.update got p (got p ++ [f])) A S' cur'
              { t with fq, pipes }) := by
  intro rounds
  -- on the rounds: every round but the last one takes a pipe out of the active ones
  induction rounds with
  | zero =>
      intro t S cur _ hrounds
      omega
  | succ rounds ih =>
      intro t S cur h hrounds hclosing
      rw [recvpipe]
      by_cases hpos : 0 < t.fq.active
      · rw [if_pos hpos]
        obtain ⟨p, r, pipes, hp, hcur, hnext, hclosing₁, hcases⟩ := h.round hpos hclosing
        rw [hp, Option.bind_some, hnext, Option.bind_some]
        rcases hcases with ⟨f, cur', rfl, hcur', hsupplied⟩ |
          ⟨rfl, hmore, fq, cur₁, hdeactivate, hmore₁, hactive, h₁⟩
        -- A frame: the loop ends here.
        · exact ⟨_, _, pipes, S, cur', rfl, .inr ⟨p, f, rfl, fun _ => hcur, rfl, hcur', hsupplied⟩⟩
        -- None: it goes on with one pipe less, and not in the middle of a message.
        · obtain ⟨r, fq', pipes', S', cur', hrun, hcases⟩ :=
            ih { t with fq, pipes } _ _ h₁ (by show fq.active < rounds; omega) hclosing₁
          refine ⟨r, fq', pipes', S', cur', ?_, ?_⟩
          · show (if t.fq.more then none
              else (t.fq.deactivate t.fq.current).bind fun fq =>
                recvpipe rounds { t with fq, pipes }) = _
            rw [if_neg (by simp [hmore]), hdeactivate]
            exact hrun
          · rcases hcases with ⟨hr, -, hcase⟩ | ⟨p', f, hr, -, hcase⟩
            · exact .inl ⟨hr, hmore, hcase⟩
            · exact .inr ⟨p', f, hr, fun hm => absurd hm (by simp [hmore]), hcase⟩
      · rw [if_neg hpos]
        have hmore := h.more_of_none hpos
        exact ⟨none, t.fq, t.pipes, S, cur, rfl, .inl ⟨rfl, hmore, hmore, h⟩⟩

/-! ## Runs -/

/-- Where a call may be, and what the socket knows of the message it is in the middle of. -/
def Stage (t : Subscriber ι α) : Prop :=
  match t.place, t.message with
  | .idle, none => t.more = t.fq.more
  | .idle, some f => t.more = false ∧ t.fq.more = f.more
  | .loops polls, none => t.more = t.fq.more ∧ (polls = true → t.more = false)
  | .pops _, none => t.more = false ∧ t.fq.more = true
  | _, some _ => False

/-- The message that has begun, by where the thread is with it. -/
def begun (cur : Option ι) (t : Subscriber ι α) : Option (ι × Bool) :=
  if t.fq.more then cur.map fun p => (p, t.place.passes) else none

variable {S : Set ι} {cur : Option ι} {t t' : Subscriber ι α} {a : SubscriberAct ι α}
  {o : Outcome ι α} {tr : List (Taken (Subscriber ι α) (SubscriberAct ι α))}

/-- What holds in every state of a run whose trace is `tr`. -/
structure Inv (hwms : ι → Bool → Nat) (tr : List (Taken (Subscriber ι α) (SubscriberAct ι α)))
    (A S : Set ι) (cur : Option ι) (t : Subscriber ι α) : Prop where
  supplied : Supplied hwms (fun p => writtenAt p tr) (fun p => fetchedFrom p (fetched tr)) A S cur t
  stage : t.Stage
  collected : Collected (t.begun cur) (fetched tr)
  passed : received tr ++ t.message.toList = ((fetched tr).filter Fetched.passed).map Fetched.frame

/-- At first no pipe is attached, and nothing has begun. -/
theorem inv_new {accepts : α → Bool} : Inv hwms [] ∅ ∅ none (new accepts hwms) where
  supplied := ⟨Fq.holds_new, fun p => .fresh (Set.notMem_empty p), fun h => by cases h⟩
  stage := rfl
  collected := collected_nil
  passed := rfl

/-- The outcome of a step does not depend on the state after it. -/
theorem outcome_eq (h : t.next a = some (o, t')) (u : Subscriber ι α) : outcome ⟨t, a, u⟩ = o := by
  rw [outcome, h]
  rfl

/-- What a trace says, step by step. -/
theorem fetched_append (x : Taken (Subscriber ι α) (SubscriberAct ι α)) :
    fetched (tr ++ [x]) = fetched tr ++ (outcome x).fetched.toList := by
  rw [fetched, List.filterMap_append]
  cases h : (outcome x).fetched <;> simp [fetched, h]

/-- What the user gets, step by step. -/
theorem received_append (x : Taken (Subscriber ι α) (SubscriberAct ι α)) :
    received (tr ++ [x]) = received tr ++ (outcome x).received.toList := by
  rw [received, List.filterMap_append]
  cases h : (outcome x).received <;> simp [received, h]

/-- Only a step at the other end of a pipe writes to it. -/
theorem writtenAt_append (p : ι) (x : Taken (Subscriber ι α) (SubscriberAct ι α))
    (h : ∀ a, x.label ≠ .peer p a) : writtenAt p (tr ++ [x]) = writtenAt p tr := by
  rw [writtenAt, List.map_append, List.foldl_append]
  obtain ⟨t, a, t'⟩ := x
  cases a with
  | peer p' a =>
      -- A step of a peer at another pipe.
      have hne : p' ≠ p := by
        rintro rfl
        exact h a rfl
      simp [Pipes.peerTransfer_of_ne hne, writtenAt, Written.after]
  | _ => rfl

/-- And it writes what it says. -/
theorem writtenAt_peer {p : ι} {a : PipeAct α} {e : Transfer α} {q : PipePair α}
    (h : (t.pipes p).next false a = some (e, q)) :
    writtenAt p (tr ++ [⟨t, .peer p a, t'⟩]) = (writtenAt p tr).after e := by
  rw [writtenAt, List.map_append, List.foldl_append]
  simp [Pipes.peerTransfer_self h, writtenAt]

/-- A frame belongs to the pipe it has been fetched from. -/
theorem fetchedFrom_append (es : List (Fetched ι α)) (e : Fetched ι α) :
    (fun p => fetchedFrom p (es ++ [e])) = Function.update (fun p => fetchedFrom p es) e.pipe
      (fetchedFrom e.pipe es ++ [e.frame]) := by
  funext p
  by_cases hp : p = e.pipe
  · subst hp
    simp [fetchedFrom]
  · rw [Function.update_of_ne hp]
    simp [fetchedFrom, Ne.symm hp]

/-- A step in which nothing is fetched and nobody is called concerns one pipe. -/
theorem Inv.onePipe (h : Inv hwms tr A S cur t) {p : ι} {q : PipePair α} {fq : Fq ι} {A' S' : Set ι}
    {cur' : Option ι} (ht' : t' = { t with fq, pipes := Function.update t.pipes p q })
    (hnext : t.next a = some (⟨none, none⟩, t')) (hfq : fq.Holds A' S' cur')
    (hmore : fq.more = t.fq.more)
    (hq : Supplies (hwms p) (writtenAt p (tr ++ [⟨t, a, t'⟩])) (fetchedFrom p (fetched tr)) (p ∈ A')
      (p ∈ S') q)
    (hother : ∀ p' ≠ p, (p' ∈ A' ↔ p' ∈ A) ∧ (p' ∈ S' ↔ p' ∈ S) ∧ ∀ b, a ≠ .peer p' b)
    (hcur : t.fq.more = true → ∀ c, cur = some c → cur' = some c ∧
      (c = p → ((t.pipes p).ends true).state.reads = true → (q.ends true).state.reads = true)) :
    Inv hwms (tr ++ [⟨t, a, t'⟩]) A' S' cur' t' := by
  have hquiet : outcome ⟨t, a, t'⟩ = ⟨none, none⟩ := outcome_eq hnext _
  have hfetched : fetched (tr ++ [⟨t, a, t'⟩]) = fetched tr := by
    rw [fetched_append, hquiet]
    exact List.append_nil _
  have hreceived : received (tr ++ [⟨t, a, t'⟩]) = received tr := by
    rw [received_append, hquiet]
    exact List.append_nil _
  -- the pipe itself by `hq`, and the others have not changed
  have hpipes : ∀ p', Supplies (hwms p') (writtenAt p' (tr ++ [⟨t, a, t'⟩]))
      (fetchedFrom p' (fetched tr)) (p' ∈ A') (p' ∈ S') (Function.update t.pipes p q p') := by
    refine (Function.forall_update_iff t.pipes fun p' q => Supplies (hwms p')
      (writtenAt p' (tr ++ [⟨t, a, t'⟩])) (fetchedFrom p' (fetched tr)) (p' ∈ A') (p' ∈ S') q).mpr
      ⟨hq, fun p' hne => ?_⟩
    obtain ⟨hA, hS, hpeer⟩ := hother p' hne
    rw [writtenAt_append p' _ hpeer]
    exact (h.supplied.pipes p').congr hA.symm hS.symm
  -- the message that has begun is still the same
  have hbegun : t'.begun cur' = t.begun cur := by
    subst ht'
    show (if fq.more then _ else _) = (if t.fq.more then _ else _)
    rw [hmore]
    cases hm : t.fq.more with
    | false => rfl
    | true =>
        obtain ⟨c, hc, -⟩ := h.supplied.middle hm
        rw [hc, (hcur hm c hc).1]
  have hstage := h.stage
  have hcollected := h.collected
  have hpassed := h.passed
  rw [← hbegun] at hcollected
  subst ht'
  refine ⟨?_, ?_, by rwa [hfetched], by rwa [hfetched, hreceived]⟩
  · rw [hfetched]
    refine ⟨hfq, hpipes, fun hm => ?_⟩
    have hm : t.fq.more = true := hmore ▸ hm
    obtain ⟨c, hc, hreads, hlast⟩ := h.supplied.middle hm
    obtain ⟨hc', hreads'⟩ := hcur hm c hc
    refine ⟨c, hc', ?_, hlast⟩
    dsimp only
    by_cases hne : c = p
    · subst hne
      rw [Function.update_self]
      exact hreads' rfl hreads
    · rw [Function.update_of_ne hne]
      exact hreads
  · unfold Stage at hstage ⊢
    dsimp only
    rwa [hmore]

/-- The new pipe goes to the end of the active ones, and the current one stays. -/
theorem Inv.attach_step (h : Inv hwms tr A S cur t) {p : ι} (hmay : t.mayAct (.attach p) = true) :
    ∃ o t' A' S' cur', t.next (.attach p) = some (o, t') ∧
      Inv hwms (tr ++ [⟨t, .attach p, t'⟩]) A' S' cur' t' := by
  obtain ⟨-, ⟨-, hnew⟩, hfreed⟩ : t.place = .idle ∧ (Pipes.busy t.fq.pipes.items t.pipes = false ∧
      p ∉ t.fq.pipes.items) ∧ ((t.pipes p).ends true).freed = false := by
    simpa [mayAct, Pipes.mayAttach] using hmay
  -- It has not been attached before, so no pipe of `A` is put anywhere else.
  have hA : p ∉ A := fun hp => hnew ((h.supplied.holds.attached p).mpr hp)
  obtain ⟨fq, cur', hattach, hfq, hmore, hkeep⟩ := h.supplied.holds.attach_spec hA
  have hnext : t.next (.attach p) = some (⟨none, none⟩, { t with fq }) := by
    rw [next, hmay]
    simp [hattach]
  refine ⟨_, _, _, _, _, hnext, h.onePipe (q := t.pipes p) (by rw [Function.update_eq_self]) hnext
    hfq hmore ?_ (fun p' hne => ?_) fun _ c hc => ⟨hkeep c hc, fun _ => id⟩⟩
  · rw [writtenAt_append p _ (by simp)]
    exact ((h.supplied.pipes p).attach hA hfreed).congr (by simp) (by simp)
  · exact ⟨by simp [hne], by simp [hne], by simp⟩

/-- A step at the other end of a pipe does not reach the socket before a command comes. -/
theorem Inv.peer_step (h : Inv hwms tr A S cur t) {p : ι} {a : PipeAct α}
    (hready : Pipes.ready false p a t.pipes = true) :
    ∃ o t' A' S' cur', t.next (.peer p a) = some (o, t') ∧
      Inv hwms (tr ++ [⟨t, .peer p a, t'⟩]) A' S' cur' t' := by
  obtain ⟨e, q, hnext, -, -, hends⟩ := (h.supplied.pipes p).past.sound.next hready
  have hends : q.ends true = (t.pipes p).ends true := hends
  have hstep : t.next (.peer p a) =
      some (⟨none, none⟩, { t with pipes := Function.update t.pipes p q }) := by
    rw [next, mayAct]
    simp [Pipes.next_eq hnext]
  refine ⟨_, _, _, _, _, hstep, h.onePipe rfl hstep h.supplied.holds rfl ?_
    (fun p' hne => ⟨Iff.rfl, Iff.rfl, by simp [Ne.symm hne]⟩) fun _ c hc =>
      ⟨hc, fun _ => by rw [hends]; exact id⟩⟩
  rw [writtenAt_peer hnext]
  exact (h.supplied.pipes p).peer hnext

/-- A step of the socket at its own end of which it is told nothing. Giving up the current pipe in the
middle of a message is what `Undisturbed` excludes. -/
theorem Inv.quiet (h : Inv hwms tr A S cur t) {p : ι} {a : PipeAct α} {e : Transfer α}
    {q : PipePair α} (hA : p ∈ A) (ha : a.notReading = true)
    (hcommand : a = .processCommand → ∀ inbox, (t.pipes p).mail true ≠ .activate_read :: inbox ∧
      (t.pipes p).mail true ≠ .pipe_term_ack :: inbox)
    (hpipe : (t.pipes p).next true a = some (e, q))
    (ht' : t' = { t with pipes := Function.update t.pipes p q })
    (hnext : t.next (.own p a) = some (⟨none, none⟩, t')) (hund : Undisturbed ⟨t, .own p a, t'⟩) :
    Inv hwms (tr ++ [⟨t, .own p a, t'⟩]) A S cur t' := by
  obtain ⟨hq, hreads⟩ := (h.supplied.pipes p).own hA ha hcommand hpipe
  refine h.onePipe ht' hnext h.supplied.holds rfl
    (by rwa [writtenAt_append p _ (by simp)]) (fun p' hne => ⟨Iff.rfl, Iff.rfl, by simp⟩)
    fun hm c hc => ⟨hc, fun hcp => hreads ?_⟩
  -- A pipe stops being read from if it is terminated, and then it is not the current one.
  rintro delay rfl
  refine hund hm ?_
  subst hcp
  obtain ⟨hcS, hindex⟩ := h.supplied.holds.current_iff.mp hc
  rw [← hindex]
  exact h.supplied.holds.sound.pipes.get_index ((h.supplied.holds.attached c).mpr hA)

/-- There is something to read in the pipe. The fair queue is told if the pipe had gone to sleep. -/
theorem Inv.activateRead (h : Inv hwms tr A S cur t) {p : ι} {e : Transfer α} {q : PipePair α}
    (hA : p ∈ A) {inbox : List Command} (hmail : (t.pipes p).mail true = .activate_read :: inbox)
    (hpipe : (t.pipes p).next true .processCommand = some (e, q)) :
    ∃ fq S' cur', t.notify p = some fq ∧ ∀ t',
      t' = { t with fq, pipes := Function.update t.pipes p q } →
        t.next (.own p .processCommand) = some (⟨none, none⟩, t') →
          Inv hwms (tr ++ [⟨t, .own p .processCommand, t'⟩]) A S' cur' t' := by
  have hsupplies := h.supplied.pipes p
  obtain ⟨hq, hstate⟩ := hsupplies.activateRead hA hmail hpipe
  have hwritten : ∀ t', writtenAt p (tr ++ [⟨t, .own p .processCommand, t'⟩]) = writtenAt p tr :=
    fun t' => writtenAt_append p _ (by simp)
  by_cases hin : ((t.pipes p).ends true).inActive = false ∧
      ((t.pipes p).ends true).state.reads = true
  · -- it is not among the active ones yet
    have hS : p ∉ S := fun hS => by
      have := (hsupplies.active_iff hA hin.2).mp hS
      rw [hin.1] at this
      cases this
    obtain ⟨fq, cur', hactivated, hfq, hmore, hkeep⟩ := h.supplied.holds.activated_spec hA hS
    refine ⟨fq, _, cur', by simp [notify, PipePair.event, hmail, hin, hactivated],
      fun t' ht' hnext => h.onePipe ht' hnext hfq hmore ?_
        (fun p' hne => ⟨Iff.rfl, by simp [hne], by simp⟩) fun _ c hc =>
          ⟨hkeep c hc, fun _ => by rw [hstate]; exact id⟩⟩
    rw [hwritten]
    exact hq.congr Iff.rfl (by simp [hin])
  · -- it has not been asleep, or it is not to be read from any more
    have hnotify : t.notify p = some t.fq := by
      rw [notify, PipePair.event, hmail]
      dsimp only
      rw [if_neg (by simpa using hin)]
    refine ⟨t.fq, S, cur, hnotify, fun t' ht' hnext => h.onePipe ht' hnext h.supplied.holds rfl ?_
      (fun p' hne => ⟨Iff.rfl, Iff.rfl, by simp⟩) fun _ c hc =>
        ⟨hc, fun _ => by rw [hstate]; exact id⟩⟩
    rw [hwritten]
    exact hq.congr Iff.rfl (or_iff_left hin)

/-- The pipe is gone. It is not the one a message comes from, and it does not put another one in the
place of this one, if nothing is disturbed. -/
theorem Inv.pipeTermAck (h : Inv hwms tr A S cur t) {p : ι} {e : Transfer α} {q : PipePair α}
    (hA : p ∈ A) {inbox : List Command} (hmail : (t.pipes p).mail true = .pipe_term_ack :: inbox)
    (hpipe : (t.pipes p).next true .processCommand = some (e, q)) :
    ∃ fq cur', t.notify p = some fq ∧ ∀ t',
      t' = { t with fq, pipes := Function.update t.pipes p q } →
        t.next (.own p .processCommand) = some (⟨none, none⟩, t') →
          Undisturbed ⟨t, .own p .processCommand, t'⟩ →
            Inv hwms (tr ++ [⟨t, .own p .processCommand, t'⟩]) (A \ {p}) (S \ {p}) cur' t' := by
  obtain ⟨hq, hbefore⟩ := (h.supplied.pipes p).pipeTermAck hmail hpipe
  obtain ⟨fq, cur', hterminated, hfq, hmore, hkeep⟩ := h.supplied.holds.pipeTerminated_spec hA
  refine ⟨fq, cur', by simp [notify, PipePair.event, hmail, hterminated], fun t' ht' hnext hund =>
    h.onePipe ht' hnext hfq hmore ?_ (fun p' hne => ⟨by simp [hne], by simp [hne], by simp⟩)
      fun hm c hc => ?_⟩
  · rw [writtenAt_append p _ (by simp)]
    exact hq.congr (by simp) (by simp)
  -- The current pipe reads, and the one that is gone does not: they are two.
  · obtain ⟨c', hc', hreads, -⟩ := h.supplied.middle hm
    obtain rfl := Option.some.inj (hc'.symm.trans hc)
    have hne : c' ≠ p := by
      rintro rfl
      rw [hbefore] at hreads
      cases hreads
    exact ⟨(hkeep c' hne hc).mpr (hund hm (by simp [hmail])), fun hcp => absurd hcp hne⟩

/-- Other than by handling a command, the socket changes nothing but the pipe. -/
theorem next_own {p : ι} {a : PipeAct α} {e : Transfer α} {q : PipePair α}
    (hmay : t.mayAct (.own p a) = true) (ha : a ≠ .processCommand)
    (hpipe : (t.pipes p).next true a = some (e, q)) : t.next (.own p a) =
      some (⟨none, none⟩, { t with pipes := Function.update t.pipes p q }) := by
  rw [next, hmay]
  cases a with
  | processCommand => exact absurd rfl ha
  | _ => simp [Pipes.next_eq hpipe]

/-- What the end tells the socket, and the step it takes then. -/
theorem Inv.own_step (h : Inv hwms tr A S cur t) {p : ι} {a : PipeAct α}
    (hmay : t.mayAct (.own p a) = true) (hready : Pipes.ready true p a t.pipes = true) :
    ∃ o t' A' S' cur', t.next (.own p a) = some (o, t') ∧ (Undisturbed ⟨t, .own p a, t'⟩ →
      Inv hwms (tr ++ [⟨t, .own p a, t'⟩]) A' S' cur' t') := by
  obtain ⟨-, ⟨hp, -⟩, ha⟩ : t.place = .idle ∧ (p ∈ t.fq.pipes.items ∧ _) ∧
      a.notReading = true := by
    simpa only [mayAct, Pipes.mayOwn, Bool.and_eq_true, decide_eq_true_eq] using hmay
  have hA : p ∈ A := (h.supplied.holds.attached p).mp hp
  obtain ⟨e, q, hpipe, -⟩ := (h.supplied.pipes p).past.sound.next hready
  cases a with
  | processCommand =>
      -- The step, once it is known what the fair queue makes of the command.
      have hstep : ∀ fq, t.notify p = some fq → t.next (.own p .processCommand) =
          some (⟨none, none⟩, { t with fq, pipes := Function.update t.pipes p q }) := by
        intro fq hfq
        rw [next, hmay]
        simp [hfq, Pipes.next_eq hpipe]
      -- of two of the four commands the socket is told
      cases hmail : (t.pipes p).mail true with
      | nil => simp [Pipes.ready, Pipe.ready, PipePair.reach, hmail] at hready
      | cons command inbox =>
          cases command with
          | pipe_term =>
              have hnext := hstep t.fq (by simp [notify, PipePair.event, hmail])
              exact ⟨_, _, _, _, _, hnext, h.quiet hA ha (by simp [hmail]) hpipe rfl hnext⟩
          | activate_write n =>
              have hnotify : t.notify p = some t.fq := by
                rw [notify, PipePair.event, hmail]
                dsimp only
                -- `activate_write` is for the sending side of the socket; the fair queue is not
                -- told.
                generalize (!((t.pipes p).ends true).outActive && _) = wakes
                cases wakes <;> rfl
              have hnext := hstep t.fq hnotify
              exact ⟨_, _, _, _, _, hnext, h.quiet hA ha (by simp [hmail]) hpipe rfl hnext⟩
          | activate_read =>
              obtain ⟨fq, S', cur', hnotify, ht'⟩ := h.activateRead hA hmail hpipe
              have hnext := hstep fq hnotify
              exact ⟨_, _, _, _, _, hnext, fun _ => ht' _ rfl hnext⟩
          | pipe_term_ack =>
              obtain ⟨fq, cur', hnotify, ht'⟩ := h.pipeTermAck hA hmail hpipe
              have hnext := hstep fq hnotify
              exact ⟨_, _, _, _, _, hnext, ht' _ rfl hnext⟩
  -- The socket reads in `fetch`, and `setNodelay` is not among what it does to its ends.
  | read | checkRead | setNodelay => cases ha
  | _ =>
      have hnext := next_own hmay (by simp) hpipe
      exact ⟨_, _, _, _, _, hnext, h.quiet hA ha (by simp) hpipe rfl hnext⟩

/-- A step in which nothing is fetched. -/
theorem Inv.noFrame (h : Inv hwms tr A S cur t) {rcv : Option (Frame α)} {S' : Set ι}
    {cur' : Option ι} (hnext : t.next a = some (⟨none, rcv⟩, t')) (hpeer : ∀ p b, a ≠ .peer p b)
    (hsupplied : Supplied hwms (fun p => writtenAt p tr) (fun p => fetchedFrom p (fetched tr)) A S'
      cur' t') (hstage : t'.Stage) (hbegun : t'.begun cur' = t.begun cur)
    (hreceived : rcv.toList ++ t'.message.toList = t.message.toList) :
    Inv hwms (tr ++ [⟨t, a, t'⟩]) A S' cur' t' := by
  have hout : outcome ⟨t, a, t'⟩ = ⟨none, rcv⟩ := outcome_eq hnext _
  have hfetched : fetched (tr ++ [⟨t, a, t'⟩]) = fetched tr := by
    rw [fetched_append, hout]
    exact List.append_nil _
  have hwritten : ∀ p, writtenAt p (tr ++ [⟨t, a, t'⟩]) = writtenAt p tr := fun p =>
    writtenAt_append p _ (hpeer p)
  refine ⟨?_, hstage, ?_, ?_⟩
  · simpa only [hwritten, hfetched] using hsupplied
  · rw [hfetched, hbegun]
    exact h.collected
  · rw [hfetched, received_append, hout, List.append_assoc, hreceived]
    exact h.passed

/-- A step in which the frame of `e` is fetched. -/
theorem Inv.frame (h : Inv hwms tr A S cur t) {e : Fetched ι α} {rcv : Option (Frame α)} {S' : Set ι}
    {cur' : Option ι} (hnext : t.next .fetch = some (⟨some e, rcv⟩, t'))
    (hsupplied : Supplied hwms (fun p => writtenAt p tr)
      (Function.update (fun p => fetchedFrom p (fetched tr)) e.pipe
        (fetchedFrom e.pipe (fetched tr) ++ [e.frame])) A S' cur' t')
    (hstage : t'.Stage) (hfirst : t.fq.more = false → e.passed = e.accepted)
    (hrest : t.fq.more = true → cur = some e.pipe ∧ t.place.passes = e.passed)
    (hmore : t'.fq.more = e.frame.more)
    (hcur : e.frame.more = true → cur' = some e.pipe ∧ t'.place.passes = e.passed)
    (hmessage : t.message = none)
    (hreceived : rcv.toList ++ t'.message.toList = if e.passed then [e.frame] else []) :
    Inv hwms (tr ++ [⟨t, .fetch, t'⟩]) A S' cur' t' := by
  have hout : outcome ⟨t, .fetch, t'⟩ = ⟨some e, rcv⟩ := outcome_eq hnext _
  have hfetched : fetched (tr ++ [⟨t, .fetch, t'⟩]) = fetched tr ++ [e] := by
    rw [fetched_append, hout]
    rfl
  have hwritten : ∀ p, writtenAt p (tr ++ [⟨t, .fetch, t'⟩]) = writtenAt p tr := fun p =>
    writtenAt_append p _ (by simp)
  refine ⟨?_, hstage, ?_, ?_⟩
  · simpa only [hwritten, hfetched, fetchedFrom_append] using hsupplied
  -- the frame is the beginning of what has begun now, or it is the end of it
  · have hbegun : t'.begun cur' = if e.frame.more then some (e.pipe, e.passed) else none := by
      rw [begun, hmore]
      cases hm : e.frame.more with
      | false => rfl
      | true =>
          obtain ⟨hc, hpasses⟩ := hcur hm
          rw [hc, hpasses]
          rfl
    rw [hfetched, hbegun]
    refine h.collected.add (fun hnone => hfirst ?_) fun b hb => ?_
    · cases hm : t.fq.more with
      | false => rfl
      | true =>
          rw [begun, hm, (hrest hm).1] at hnone
          cases hnone
    · cases hm : t.fq.more with
      | false =>
          rw [begun, hm] at hb
          cases hb
      | true =>
          obtain ⟨hc, hpasses⟩ := hrest hm
          rw [begun, hm, hc, hpasses] at hb
          exact (Option.some.inj hb).symm
  -- The user gets the frame, or it is kept, exactly if its message passes.
  · have hpassed := h.passed
    rw [hmessage, Option.toList_none, List.append_nil] at hpassed
    rw [hfetched, received_append, hout, List.append_assoc, hreceived, hpassed, List.filter_append,
      List.map_append]
    cases he : e.passed <;> simp [he]

/-- A call begins when no other call is under way. -/
theorem idle_of_call {polls : Bool} (hmay : t.mayAct (.call polls) = true) : t.place = .idle := by
  have hboth : t.place = .idle ∧ Pipes.busy t.fq.pipes.items t.pipes = false := by
    simpa [mayAct] using hmay
  exact hboth.1

/-- A call that is under way may go on, unless the thread is terminating a pipe. -/
theorem place_of_fetch (hmay : t.mayAct .fetch = true) :
    t.place ≠ .idle ∧ Pipes.busy t.fq.pipes.items t.pipes = false := by
  simpa [mayAct] using hmay

/-- Subscriptions change between two calls. -/
theorem Inv.filter_step (h : Inv hwms tr A S cur t) {accepts : α → Bool}
    (hmay : t.mayAct (.filter accepts) = true) :
    ∃ o t' A' S' cur', t.next (.filter accepts) = some (o, t') ∧
      Inv hwms (tr ++ [⟨t, .filter accepts, t'⟩]) A' S' cur' t' := by
  have hnext : t.next (.filter accepts) = some (⟨none, none⟩, { t with accepts }) := by
    rw [next, hmay]
    rfl
  obtain ⟨hfq, hpipes, hmiddle⟩ := h.supplied
  exact ⟨_, _, A, S, cur, hnext, h.noFrame hnext (by simp) ⟨hfq, hpipes, hmiddle⟩ h.stage rfl rfl⟩

/-- A call returns at once, or its loop begins. -/
theorem Inv.call_step (h : Inv hwms tr A S cur t) {polls : Bool}
    (hmay : t.mayAct (.call polls) = true) :
    ∃ o t' A' S' cur', t.next (.call polls) = some (o, t') ∧
      Inv hwms (tr ++ [⟨t, .call polls, t'⟩]) A' S' cur' t' := by
  have hnext : t.next (.call polls) = some (t.call polls) := by
    rw [next, hmay]
    rfl
  have hidle := idle_of_call hmay
  obtain ⟨hfq, hpipes, hmiddle⟩ := h.supplied
  have hstage := h.stage
  -- a message that is there already, or else there is something to fetch
  cases hmessage : t.message with
  | some f =>
      rw [Stage, hidle, hmessage] at hstage
      obtain ⟨hmore, hfqmore⟩ : t.more = false ∧ t.fq.more = f.more := hstage
      cases polls with
      | true =>
          have hcall : t.call true = (⟨none, none⟩, t) := by simp [call, hmessage]
          rw [hcall] at hnext
          exact ⟨_, _, A, S, cur, hnext, h.noFrame hnext (by simp) h.supplied h.stage rfl rfl⟩
      | false =>
          have hcall : t.call false =
              (⟨none, some f⟩, { t with message := none, more := f.more }) := by
            simp [call, hmessage]
          rw [hcall] at hnext
          refine ⟨_, _, A, S, cur, hnext, h.noFrame hnext (by simp) ⟨hfq, hpipes, hmiddle⟩ ?_ rfl ?_⟩
          · rw [Stage, hidle]
            exact hfqmore.symm
          · rw [hmessage]
            rfl
  | none =>
      rw [Stage, hidle, hmessage] at hstage
      have hstage : t.more = t.fq.more := hstage
      by_cases hloops : polls = true ∧ t.more = true
      · have hcall : t.call polls = (⟨none, none⟩, t) := by simp [call, hloops]
        rw [hcall] at hnext
        exact ⟨_, _, A, S, cur, hnext, h.noFrame hnext (by simp) h.supplied h.stage rfl rfl⟩
      · have hcall : t.call polls = (⟨none, none⟩, { t with place := .loops polls }) := by
          cases polls <;> simp_all [call]
        rw [hcall] at hnext
        refine ⟨_, _, A, S, cur, hnext, h.noFrame hnext (by simp) ⟨hfq, hpipes, hmiddle⟩ ?_ ?_ rfl⟩
        · rw [Stage, hmessage]
          exact ⟨hstage, by simpa using hloops⟩
        · rw [begun, begun, hidle]
          rfl

/-- What `fq_t::recv` brings, when the thread is not in the middle of closing a pipe. -/
theorem Inv.recv_spec (h : Inv hwms tr A S cur t)
    (hbusy : Pipes.busy t.fq.pipes.items t.pipes = false) :
    ∃ r fq pipes S' cur', t.recv = some (r, { t with fq, pipes }) ∧
      ((r = none ∧ t.fq.more = false ∧ fq.more = false ∧
          Supplied hwms (fun p => writtenAt p tr) (fun p => fetchedFrom p (fetched tr)) A S' cur'
            { t with fq, pipes }) ∨
        ∃ p f, r = some (p, f) ∧ (t.fq.more = true → cur = some p) ∧ fq.more = f.more ∧
          (f.more = true → cur' = some p) ∧
          Supplied hwms (fun p => writtenAt p tr)
            (Function.update (fun p => fetchedFrom p (fetched tr)) p
              (fetchedFrom p (fetched tr) ++ [f])) A S' cur' { t with fq, pipes }) := by
  exact recvpipe_spec (t.fq.active + 1) t S cur h.supplied (Nat.lt_succ_self _) fun p hp =>
    Pipes.closing_of_not_busy hbusy ((h.supplied.holds.attached p).mpr hp)

/-- `xhas_in` fetches nothing while there is a message, and `xrecv` takes it first. -/
theorem Inv.message_of_place (h : Inv hwms tr A S cur t) (hplace : t.place ≠ .idle) :
    t.message = none := by
  have hstage := h.stage
  cases hmessage : t.message with
  | none => rfl
  | some f =>
      rw [Stage, hmessage] at hstage
      cases hp : t.place <;> simp_all

/-- A round in which a message may begin, or go on in the hands of the user. -/
theorem Inv.loops_step (h : Inv hwms tr A S cur t) {polls : Bool} (hp : t.place = .loops polls)
    (hmay : t.mayAct .fetch = true) :
    ∃ o t' A' S' cur', t.next .fetch = some (o, t') ∧
      Inv hwms (tr ++ [⟨t, .fetch, t'⟩]) A' S' cur' t' := by
  obtain ⟨hplace, hbusy⟩ := place_of_fetch hmay
  obtain ⟨r, fq, pipes, S', cur', hrecv, hcases⟩ := h.recv_spec hbusy
  have hnext : t.next .fetch = t.fetch := by
    rw [next, hmay]
    rfl
  have hmessage := h.message_of_place hplace
  have hstage := h.stage
  rw [Stage, hp, hmessage] at hstage
  obtain ⟨hmore, hpolls⟩ : t.more = t.fq.more ∧ (polls = true → t.more = false) := hstage
  rcases hcases with ⟨rfl, hbetween, hfqmore, hfq, hpipes, hmiddle⟩ |
    ⟨p, f, rfl, hcurrent, hfqmore, hcur', hfq, hpipes, hmiddle⟩
  -- Nothing to read: the call returns without a message, and nothing has begun.
  · have hfetch : t.fetch = some (⟨none, none⟩, { t with fq, pipes, place := .idle }) := by
      rw [fetch, hp]
      simp [hrecv]
    refine ⟨_, _, _, _, _, hnext.trans hfetch,
      h.noFrame (hnext.trans hfetch) (by simp) ⟨hfq, hpipes, hmiddle⟩ ?_ ?_ rfl⟩
    · rw [Stage, hmessage]
      exact hmore.trans (hbetween.trans hfqmore.symm)
    · rw [begun, begun, hbetween, hfqmore]
      rfl
  · have hrest : t.fq.more = true → cur = some p ∧ t.place.passes = true := fun hm =>
      ⟨hcurrent hm, by rw [hp]; rfl⟩
    -- a frame in the middle of a message goes to the user as well, but `xhas_in` fetches none
    cases hcond : (!polls && t.more || t.accepts f.data) with
    | true =>
        have hfirst : t.fq.more = false → true = t.accepts f.data := fun hm => by
          simpa [hmore, hm] using hcond.symm
        -- It passes: `xhas_in` keeps the message, and `xrecv` hands it over.
        cases polls with
        | true =>
            have hfetch : t.fetch = some (⟨some ⟨p, f, t.accepts f.data, true⟩, none⟩,
                { t with fq, pipes, message := some f, place := .idle }) := by
              rw [fetch, hp]
              simp_all
            exact ⟨_, _, _, _, _, hnext.trans hfetch,
              h.frame (hnext.trans hfetch) ⟨hfq, hpipes, hmiddle⟩ ⟨hpolls rfl, hfqmore⟩ hfirst
                hrest hfqmore (fun hm => ⟨hcur' hm, rfl⟩) hmessage rfl⟩
        | false =>
            have hfetch : t.fetch = some (⟨some ⟨p, f, t.accepts f.data, true⟩, some f⟩,
                { t with fq, pipes, more := f.more, place := .idle }) := by
              rw [fetch, hp]
              simp_all
            refine ⟨_, _, _, _, _, hnext.trans hfetch,
              h.frame (hnext.trans hfetch) ⟨hfq, hpipes, hmiddle⟩ ?_ hfirst hrest hfqmore
                (fun hm => ⟨hcur' hm, rfl⟩) hmessage (by rw [hmessage]; rfl)⟩
            rw [Stage, hmessage]
            exact hfqmore.symm
    | false =>
        -- It does not: the rest of the message, if there is any, is to be popped.
        obtain ⟨hnot, haccepts⟩ := Bool.or_eq_false_iff.mp hcond
        have hbetween : t.more = false := by
          cases polls with
          | true => exact hpolls rfl
          | false => exact hnot
        have hfetch : t.fetch = some (⟨some ⟨p, f, t.accepts f.data, false⟩, none⟩,
            { t with fq, pipes, place := if f.more then .pops polls else .loops polls }) := by
          rw [fetch, hp]
          simp_all
        refine ⟨_, _, _, _, _, hnext.trans hfetch,
          h.frame (hnext.trans hfetch) ⟨hfq, hpipes, hmiddle⟩ ?_ (fun _ => haccepts.symm)
            (fun hm => ?_) hfqmore (fun hm => ⟨hcur' hm, by rw [if_pos hm]; rfl⟩)
            hmessage (by rw [hmessage]; rfl)⟩
        · rw [Stage, hmessage]
          cases hm : f.more with
          | true => exact ⟨hbetween, hfqmore.trans hm⟩
          | false => exact ⟨hbetween.trans (hfqmore.trans hm).symm, fun _ => hbetween⟩
        · rw [← hmore, hbetween] at hm
          cases hm

/-- A round that pops a frame of a message that has not passed: it is there, and it does not pass
either. -/
theorem Inv.pops_step (h : Inv hwms tr A S cur t) {polls : Bool} (hp : t.place = .pops polls)
    (hmay : t.mayAct .fetch = true) :
    ∃ o t' A' S' cur', t.next .fetch = some (o, t') ∧
      Inv hwms (tr ++ [⟨t, .fetch, t'⟩]) A' S' cur' t' := by
  obtain ⟨hplace, hbusy⟩ := place_of_fetch hmay
  obtain ⟨r, fq, pipes, S', cur', hrecv, hcases⟩ := h.recv_spec hbusy
  have hnext : t.next .fetch = t.fetch := by
    rw [next, hmay]
    rfl
  have hmessage := h.message_of_place hplace
  have hstage := h.stage
  rw [Stage, hp, hmessage] at hstage
  obtain ⟨hmore, hmid⟩ : t.more = false ∧ t.fq.more = true := hstage
  -- It is the middle of a message, so there is a frame.
  rcases hcases with ⟨-, hbetween, -⟩ |
    ⟨p, f, rfl, hcurrent, hfqmore, hcur', hfq, hpipes, hmiddle⟩
  · rw [hmid] at hbetween
    cases hbetween
  · have hfetch : t.fetch = some (⟨some ⟨p, f, t.accepts f.data, false⟩, none⟩,
        { t with fq, pipes, place := if f.more then .pops polls else .loops polls }) := by
      rw [fetch, hp]
      simp [hrecv]
    refine ⟨_, _, _, _, _, hnext.trans hfetch,
      h.frame (hnext.trans hfetch) ⟨hfq, hpipes, hmiddle⟩ ?_ (fun hm => ?_)
        (fun _ => ⟨hcurrent hmid, by rw [hp]; rfl⟩) hfqmore
        (fun hm => ⟨hcur' hm, by rw [if_pos hm]; rfl⟩) hmessage (by rw [hmessage]; rfl)⟩
    · rw [Stage, hmessage]
      cases hm : f.more with
      | true => exact ⟨hmore, hfqmore.trans hm⟩
      | false => exact ⟨hmore.trans (hfqmore.trans hm).symm, fun _ => hmore⟩
    · rw [hmid] at hm
      cases hm

/-- **One round** of the loops of `xrecv` and `xhas_in`. -/
theorem Inv.fetch_step (h : Inv hwms tr A S cur t) (hmay : t.mayAct .fetch = true) :
    ∃ o t' A' S' cur', t.next .fetch = some (o, t') ∧
      Inv hwms (tr ++ [⟨t, .fetch, t'⟩]) A' S' cur' t' := by
  cases hp : t.place with
  | idle => exact absurd hp (place_of_fetch hmay).1
  | loops polls => exact h.loops_step hp hmay
  | pops polls => exact h.pops_step hp hmay

/-- **The step lemma.** Only a step of the socket at one of its ends can disturb. -/
theorem Inv.step (h : Inv hwms tr A S cur t) (hready : t.ready a = true) :
    ∃ o t' A' S' cur', t.next a = some (o, t') ∧
      (Undisturbed ⟨t, a, t'⟩ → Inv hwms (tr ++ [⟨t, a, t'⟩]) A' S' cur' t') := by
  obtain ⟨hmay, hready⟩ := Bool.and_eq_true_iff.mp hready
  have hany : (∃ o t' A' S' cur', t.next a = some (o, t') ∧
      Inv hwms (tr ++ [⟨t, a, t'⟩]) A' S' cur' t') → ∃ o t' A' S' cur', t.next a = some (o, t') ∧
        (Undisturbed ⟨t, a, t'⟩ → Inv hwms (tr ++ [⟨t, a, t'⟩]) A' S' cur' t') := by
    rintro ⟨o, t', A', S', cur', hnext, ht'⟩
    exact ⟨o, t', A', S', cur', hnext, fun _ => ht'⟩
  cases a with
  | attach p => exact hany (h.attach_step hmay)
  | peer p a => exact hany (h.peer_step hready)
  | own p a => exact h.own_step hmay hready
  | filter accepts => exact hany (h.filter_step hmay)
  | call polls => exact hany (h.call_step hmay)
  | fetch => exact hany (h.fetch_step hmay)

/-- Nobody takes a step that is not ready. -/
theorem ready_of_next (h : t.next a = some (o, t')) : t.ready a = true := by
  unfold next at h
  cases hmay : t.mayAct a with
  | false =>
      rw [hmay] at h
      cases h
  | true =>
      rw [hmay] at h
      refine Bool.and_eq_true_iff.mpr ⟨hmay, ?_⟩
      cases a with
      | attach | filter | call | fetch => rfl
      | peer p a =>
          obtain ⟨r, hr, -⟩ := Option.map_eq_some_iff.mp h
          exact Pipes.ready_of_next hr
      | own p a =>
          cases a with
          | processCommand =>
              obtain ⟨fq, -, h⟩ := Option.bind_eq_some_iff.mp h
              obtain ⟨r, hr, -⟩ := Option.map_eq_some_iff.mp h
              exact Pipes.ready_of_next hr
          | _ =>
              obtain ⟨r, hr, -⟩ := Option.map_eq_some_iff.mp h
              exact Pipes.ready_of_next hr

/-- **The run lemma.** -/
theorem inv_run {accepts : α → Bool} (h : Run Step (new accepts hwms) tr t)
    (hund : ∀ x ∈ tr, Undisturbed x) : ∃ A S cur, Inv hwms tr A S cur t := by
  refine (h.restrict hund).past (I := fun tr t => ∃ A S cur, Inv hwms tr A S cur t)
    ⟨_, _, _, inv_new⟩ ?_
  rintro tr t a t' ⟨A, S, cur, ht⟩ ⟨hstep, hund⟩
  -- The step that was taken is the one that the step lemma is about.
  obtain ⟨⟨o, u⟩, hnext, hu⟩ := Option.map_eq_some_iff.mp hstep
  obtain ⟨o', u', A', S', cur', hnext', ht'⟩ := ht.step (ready_of_next hnext)
  obtain ⟨-, rfl⟩ := Prod.mk.inj (Option.some.inj (hnext'.symm.trans hnext))
  obtain rfl := hu
  exact ⟨A', S', cur', ht' hund⟩

/-- In the middle of a message there is another frame, whatever becomes of it. -/
theorem Inv.fetch_frame (h : Inv hwms tr A S cur t) (hmid : t.fq.more = true)
    (hnext : t.next .fetch = some (o, t')) : o.fetched.isSome = true := by
  unfold next at hnext
  split at hnext
  · cases hnext
  · rename_i hmay
    obtain ⟨-, hbusy⟩ := place_of_fetch (by simpa using hmay)
    have hfetch : t.fetch = some (o, t') := hnext
    obtain ⟨r, fq, pipes, S', cur', hrecv, hcases⟩ := h.recv_spec hbusy
    -- Without a frame it would not be the middle of a message.
    rcases hcases with ⟨-, hbetween, -⟩ | ⟨p, f, rfl, -⟩
    · rw [hmid] at hbetween
      cases hbetween
    · unfold fetch at hfetch
      rw [hrecv] at hfetch
      cases hp : t.place with
      | idle =>
          rw [hp] at hfetch
          cases hfetch
      | pops polls =>
          rw [hp] at hfetch
          cases hfetch
          rfl
      | loops polls =>
          rw [hp] at hfetch
          dsimp only [Option.map_some] at hfetch
          split at hfetch
          · cases polls <;> cases hfetch <;> rfl
          · cases hfetch
            rfl

/-- What is ready is possible, and nothing else. -/
theorem Inv.isSome_next (h : Inv hwms tr A S cur t) (a : SubscriberAct ι α) :
    (t.next a).isSome = t.ready a := by
  refine Bool.eq_iff_iff.mpr (Option.isSome_iff_exists.trans ⟨?_, fun hready => ?_⟩)
  · rintro ⟨⟨o, t'⟩, hnext⟩
    exact ready_of_next hnext
  · obtain ⟨o, t', _, _, _, hnext, -⟩ := h.step hready
    exact ⟨(o, t'), hnext⟩

/-- **A receiving socket**, in every run of its own thread and of the threads at the other ends of
its pipes. Nothing goes wrong: whatever a thread may do and has a reason to do is possible. The rest
of a message is always there: a fetch in the middle of one brings a frame. What is fetched are whole
messages, one after the other and each from one pipe, in the order in which they have been written
to the pipe. And the user gets the messages whose first frame has passed the filter, with all their
frames. -/
theorem subscriber_run {accepts : α → Bool} (h : Run Step (new accepts hwms) tr t)
    (hund : ∀ x ∈ tr, Undisturbed x) :
    (∀ a, (t.next a).isSome = t.ready a) ∧
      (∀ x ∈ tr, x.label = .fetch → x.pre.fq.more = true → (outcome x).fetched.isSome = true) ∧
      (∃ begun, Collected begun (fetched tr)) ∧
      (∀ p, fetchedFrom p (fetched tr) <+: wire (writtenAt p tr).messages) ∧
      received tr ++ t.message.toList = ((fetched tr).filter Fetched.passed).map Fetched.frame := by
  obtain ⟨A, S, cur, ht⟩ := inv_run h hund
  refine ⟨ht.isSome_next, fun x hx hlabel hmid => ?_, ⟨_, ht.collected⟩,
    fun p => (ht.supplied.pipes p).inOrder, ht.passed⟩
  -- the state before a fetch is the end of a run of its own
  obtain ⟨tr₁, tr₂, rfl⟩ := List.append_of_mem hx
  obtain ⟨hbefore, hstep, -⟩ := h.split
  obtain ⟨A', S', cur', hx⟩ := inv_run hbefore fun y hy => hund y (List.mem_append_left _ hy)
  obtain ⟨pre, label, post⟩ := x
  obtain rfl : label = .fetch := hlabel
  obtain ⟨⟨o, u⟩, hnext, -⟩ := Option.map_eq_some_iff.mp hstep
  rw [outcome_eq hnext]
  exact hx.fetch_frame hmid hnext

omit [DecidableEq ι] in
/-- A socket that leaves its ends alone does not disturb. -/
theorem undisturbed_of_label {x : Taken (Subscriber ι α) (SubscriberAct ι α)}
    (h : ∀ p a, x.label ≠ .own p a) : Undisturbed x := by
  obtain ⟨t, a, t'⟩ := x
  intro _
  cases a with
  | own p a => exact absurd rfl (h p a)
  | _ => trivial

/-- Two publishers, and a subscriber that does not take what is over 100. -/
theorem subscriber_run_filtered :
    ∃ (tr : List (Taken (Subscriber Nat Nat) (SubscriberAct Nat Nat))) (t : Subscriber Nat Nat),
      Run Step (new (fun d => d < 100) fun _ _ => 0) tr t ∧ (∀ x ∈ tr, Undisturbed x) ∧
      received tr = [⟨1, true⟩, ⟨200, false⟩] ∧
      (∀ a, (t.next a).isSome = t.ready a) ∧
      (∀ x ∈ tr, x.label = .fetch → x.pre.fq.more = true → (outcome x).fetched.isSome = true) ∧
      (∃ begun, Collected begun (fetched tr)) ∧
      (∀ p, fetchedFrom p (fetched tr) <+: wire (writtenAt p tr).messages) ∧
      received tr ++ t.message.toList = ((fetched tr).filter Fetched.passed).map Fetched.frame := by
  have hrun : (attempt (fun t a => (Subscriber.next t a).map Prod.snd)
      (new (fun d => d < 100) fun _ _ => 0 : Subscriber Nat Nat)
      [.attach 0, .attach 1, .peer 0 (.write ⟨150, true⟩), .peer 0 (.write ⟨2, false⟩),
        .peer 0 .flush, .peer 1 (.write ⟨1, true⟩), .peer 1 (.write ⟨200, false⟩), .peer 1 .flush,
        .call false, .fetch, .fetch, .fetch, .call false, .fetch]).map
      (fun r => received r.1) = some [⟨1, true⟩, ⟨200, false⟩] := rfl
  obtain ⟨⟨tr, t⟩, hattempt, hreceived⟩ := Option.map_eq_some_iff.mp hrun
  obtain ⟨h, hlabels⟩ := run_attempt hattempt
  have hund : ∀ x ∈ tr, Undisturbed x := by
    refine fun x hx => undisturbed_of_label fun p a heq => ?_
    have hmem := List.mem_map_of_mem (f := Taken.label) hx
    rw [hlabels, heq] at hmem
    simp at hmem
  exact ⟨tr, t, h, hund, hreceived, subscriber_run h hund⟩

/-- The code does not see to it: while the last pipe in front is being read from, another one is
given up, and the next frame comes from a third one. -/
theorem disturbed_run :
    ∃ (tr : List (Taken (Subscriber Nat Nat) (SubscriberAct Nat Nat))) (t : Subscriber Nat Nat),
      Run Step (new (fun _ => true) fun _ _ => 0) tr t ∧
      (fetched tr).map (fun e => (e.pipe, e.frame)) =
        [(0, ⟨1, false⟩), (1, ⟨2, false⟩), (2, ⟨3, true⟩), (0, ⟨5, false⟩)] := by
  have hrun : (attempt (fun t a => (Subscriber.next t a).map Prod.snd)
      (new (fun _ => true) fun _ _ => 0 : Subscriber Nat Nat)
      [.attach 0, .attach 1, .attach 2, .peer 0 (.write ⟨1, false⟩), .peer 0 (.write ⟨5, false⟩),
        .peer 0 .flush, .peer 1 (.write ⟨2, false⟩), .peer 1 .flush, .peer 2 (.write ⟨3, true⟩),
        .peer 2 (.write ⟨4, false⟩), .peer 2 .flush, .call false, .fetch, .call false, .fetch,
        .own 1 (.terminate false), .own 1 .finishTerminate, .call false, .fetch,
        .peer 1 .processCommand, .peer 1 .read, .own 1 .processCommand, .call false, .fetch]).map
      (fun r => (fetched r.1).map fun e => (e.pipe, e.frame)) =
        some [(0, ⟨1, false⟩), (1, ⟨2, false⟩), (2, ⟨3, true⟩), (0, ⟨5, false⟩)] := rfl
  obtain ⟨⟨tr, t⟩, hattempt, hfetched⟩ := Option.map_eq_some_iff.mp hrun
  obtain ⟨h, -⟩ := run_attempt hattempt
  exact ⟨tr, t, h, hfetched⟩

end Subscriber
end EventBus.LibZmq
