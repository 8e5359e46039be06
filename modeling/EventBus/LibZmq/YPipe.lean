import EventBus.Transition.Run

/-!
# The lock-free queue of a pipe

`YPipe` is `ypipe_t`: one thread writes, another one reads, and they share the queue and the
pointer `c`. An address in the queue is a position, counted from the first element the queue ever
had; `Sound` says that all pointers are at positions that exist, where different positions have
different addresses.

`Fifo` says what the queue is for: items become readable when they are flushed, incomplete items
never are, and a reader that found nothing is asleep until it is woken up.

The two threads meet at the atomic operations on `c`. A flush that finds the reader asleep takes two
of them, and the reader may come in between (`Threads`). Every run of the two threads is a run of
the `Fifo` with the same results (`threads_run`).
-/

namespace EventBus.LibZmq

open Transition

/-! ## The code -/

structure YPipe (α : Type) where
  /-- The position of `queue.front ()`. -/
  front : Nat
  /-- From the front to the terminator, which has no value yet. -/
  items : List α
  /-- The first un-flushed item. -/
  w : Nat
  /-- The first un-prefetched item. -/
  r : Option Nat
  /-- The first item to be flushed in the future. -/
  f : Nat
  /-- Past the last flushed item; `none` is `NULL`, the reader is asleep. -/
  c : Option Nat
  deriving DecidableEq

/-- `atomic_ptr_t::cas`: the value it returns, and the value it leaves. -/
def cas (ptr cmp val : Option Nat) : Option Nat × Option Nat :=
  (ptr, if ptr = cmp then val else ptr)

namespace YPipe
variable {α : Type}

def fresh : YPipe α := ⟨0, [], 0, some 0, 0, some 0⟩

/-- The position of `queue.back ()`, the terminator. -/
def back (p : YPipe α) : Nat := p.front + p.items.length

def write (value : α) (incomplete : Bool) (p : YPipe α) : YPipe α :=
  let p := { p with items := p.items ++ [value] }
  if incomplete then p else { p with f := p.back }

/-- The value that was taken back, if there was one. Nothing at all comes out where the code would
leave the queue. -/
def unwrite (p : YPipe α) : Option (Option α × YPipe α) :=
  if p.f = p.back then some (none, p)
  else p.items.getLast?.map fun value => (some value, { p with items := p.items.dropLast })

def flush (p : YPipe α) : Bool × YPipe α :=
  if p.w = p.f then (true, p)
  else
    let (old, c) := cas p.c (some p.w) (some p.f)
    if old ≠ some p.w then (false, { p with c := some p.f, w := p.f })
    else (true, { p with c, w := p.f })

def checkRead (p : YPipe α) : Bool × YPipe α :=
  if p.r ≠ some p.front ∧ p.r ≠ none then (true, p)
  else
    let (old, c) := cas p.c (some p.front) none
    (decide (¬(old = some p.front ∨ old = none)), { p with r := old, c })

/-- The value that was read, if there was one. Nothing at all comes out where the code would read
the terminator. -/
def read (p : YPipe α) : Option (Option α × YPipe α) :=
  match p.checkRead with
  | (false, p) => some (none, p)
  | (true, p) =>
      match p.items with
      | [] => none
      | value :: items => some (some value, { p with front := p.front + 1, items })

/-- The first item. Nothing comes out where the code would fail an assertion. -/
def probe (p : YPipe α) : Option (α × YPipe α) :=
  match p.checkRead with
  | (false, _) => none
  | (true, p) => p.items.head?.map fun value => (value, p)

end YPipe

/-! ## What it is for -/

structure Fifo (α : Type) where
  /-- Flushed and not read. -/
  ready : List α
  /-- Complete and not flushed. -/
  complete : List α
  /-- Items of an incomplete message. -/
  rest : List α
  /-- The reader found nothing, and nobody has woken it up. -/
  asleep : Bool
  deriving DecidableEq

/-- What a thread asked for, and what it was told. -/
inductive QueueOp (α : Type)
  | write (value : α) (incomplete : Bool)
  | unwrite (result : Option α)
  | flush (result : Bool)
  | checkRead (result : Bool)
  | read (result : Option α)

namespace Fifo
variable {α : Type}

def empty : Fifo α := ⟨[], [], [], false⟩

def write (value : α) (incomplete : Bool) (q : Fifo α) : Fifo α :=
  if incomplete then { q with rest := q.rest ++ [value] }
  else { q with complete := q.complete ++ (q.rest ++ [value]), rest := [] }

def flush (q : Fifo α) : Fifo α :=
  { q with
    ready := q.ready ++ q.complete, complete := []
    asleep := q.asleep && q.complete.isEmpty }

def checkRead (q : Fifo α) : Fifo α := { q with asleep := q.ready.isEmpty }

def read (q : Fifo α) : Fifo α := { q.checkRead with ready := q.ready.tail }

inductive Step : Fifo α → QueueOp α → Fifo α → Prop
  | write (q value incomplete) : Step q (.write value incomplete) (q.write value incomplete)
  | unwrite (q) : Step q (.unwrite q.rest.getLast?) { q with rest := q.rest.dropLast }
  /-- The caller has to wake up the reader if there is something new for it and it is asleep. -/
  | flush (q) : Step q (.flush (q.complete.isEmpty || !q.asleep)) q.flush
  | checkRead (q) : Step q (.checkRead !q.ready.isEmpty) q.checkRead
  | read (q) : Step q (.read q.ready.head?) q.read

/-- Everything in the queue, in order. -/
def all (q : Fifo α) : List α := q.ready ++ (q.complete ++ q.rest)

/-- What the reader gets. -/
def got : QueueOp α → List α
  | .read result => result.toList
  | _ => []

/-- What is in the queue or has been read, when `values` was. -/
def keep (values : List α) : QueueOp α → List α
  | .write value _ => values ++ [value]
  | .unwrite (some _) => values.dropLast
  | _ => values

/-- What has been written and not been taken back. -/
def written (ops : List (QueueOp α)) : List α := ops.foldl keep []

/-- Whether the reader waits to be woken up, when `asleep` says whether it did. -/
def sleep (asleep : Bool) : QueueOp α → Bool
  | .checkRead result => !result
  | .read result => result.isNone
  | .flush false => false
  | _ => asleep

/-- The reader has looked for something in vain, and no flush since then has asked to wake it
up. -/
def sleeping (ops : List (QueueOp α)) : Bool := ops.foldl sleep false

theorem written_append (ops ops' : List (QueueOp α)) :
    written (ops ++ ops') = ops'.foldl keep (written ops) := List.foldl_append

theorem sleeping_append (ops ops' : List (QueueOp α)) :
    sleeping (ops ++ ops') = ops'.foldl sleep (sleeping ops) := List.foldl_append

variable {q : Fifo α} {tr : List (Taken (Fifo α) (QueueOp α))}

/-- **First in, first out.** -/
theorem received_append_all (h : Run Step empty tr q) :
    (tr.map Taken.label).flatMap got ++ q.all = written (tr.map Taken.label) := by
  refine h.past (I := fun tr q =>
    (tr.map Taken.label).flatMap got ++ q.all = written (tr.map Taken.label)) rfl ?_
  rintro tr q op q' ih hstep
  rw [List.map_append, List.flatMap_append, written_append, ← ih, List.append_assoc]
  cases hstep with
  | write value incomplete => cases incomplete <;> simp [got, keep, all, write]
  | unwrite =>
      cases hlast : q.rest.getLast? with
      | none => simp [got, keep, all, List.getLast?_eq_none_iff.mp hlast]
      | some value =>
          have hne : q.rest ≠ [] := by
            rintro hrest
            simp [hrest] at hlast
          simp [got, keep, all, List.dropLast_append_of_ne_nil, hne]
  | flush => simp [got, keep, all, flush]
  | checkRead => simp [got, keep, all, checkRead]
  | read => cases hready : q.ready <;> simp [got, keep, all, read, checkRead, hready]

/-- **No wake-up is lost**: what is ready has been seen by the reader, or it is awake, or it has
been woken up. -/
theorem asleep_eq_sleeping (h : Run Step empty tr q) :
    q.asleep = sleeping (tr.map Taken.label) ∧ (q.asleep = true → q.ready = []) := by
  refine h.past (I := fun tr q =>
    q.asleep = sleeping (tr.map Taken.label) ∧ (q.asleep = true → q.ready = []))
    ⟨rfl, fun _ => rfl⟩ ?_
  rintro tr q op q' ⟨ih, hready⟩ hstep
  rw [List.map_append, sleeping_append, ← ih]
  cases hstep with
  | write value incomplete => cases incomplete <;> exact ⟨rfl, hready⟩
  | unwrite => exact ⟨by cases q.rest.getLast? <;> rfl, hready⟩
  | flush =>
      cases hcomplete : q.complete <;> cases hasleep : q.asleep <;> simp_all [flush, sleep]
  | checkRead => simp [checkRead, sleep]
  | read => cases hr : q.ready <;> simp [read, checkRead, sleep, hr]

end Fifo

/-! ## The pointers -/

namespace YPipe
variable {α : Type}

structure Sound (p : YPipe α) : Prop where
  front_le : p.front ≤ p.w
  w_le : p.w ≤ p.f
  f_le : p.f ≤ p.back
  prefetched : ∀ x, p.r = some x → p.front ≤ x ∧ x ≤ p.w
  shared : ∀ x, p.c = some x → x = p.w
  /-- A sleeping reader has read everything. -/
  asleep : p.c = none → p.w = p.front

def fifo (p : YPipe α) : Fifo α where
  ready := p.items.take (p.w - p.front)
  complete := (p.items.drop (p.w - p.front)).take (p.f - p.w)
  rest := p.items.drop (p.f - p.front)
  asleep := p.c == none

theorem sound_fresh : Sound (fresh : YPipe α) :=
  ⟨Nat.le_refl 0, Nat.le_refl 0, Nat.le_refl 0, by simp [fresh], by simp [fresh], by simp [fresh]⟩

variable {p : YPipe α}

theorem Sound.length_ready (h : Sound p) : p.fifo.ready.length = p.w - p.front := by
  have := h.f_le
  have := h.w_le
  simp only [fifo, List.length_take, back] at *
  omega

theorem Sound.ready_isEmpty (h : Sound p) : p.fifo.ready.isEmpty = decide (p.w = p.front) := by
  have := h.length_ready
  have := h.front_le
  rw [Bool.eq_iff_iff, List.isEmpty_iff, ← List.length_eq_zero_iff, decide_eq_true_iff]
  omega

theorem Sound.ready_eq_nil (h : Sound p) (hasleep : p.fifo.asleep = true) :
    p.fifo.ready = [] := by
  rw [← List.isEmpty_iff, h.ready_isEmpty, h.asleep (eq_of_beq hasleep), decide_eq_true rfl]

theorem Sound.length_complete (h : Sound p) : p.fifo.complete.length = p.f - p.w := by
  have := h.f_le
  have := h.w_le
  have := h.front_le
  simp only [fifo, List.length_take, List.length_drop, back] at *
  omega

theorem Sound.complete_isEmpty (h : Sound p) : p.fifo.complete.isEmpty = decide (p.w = p.f) := by
  have := h.length_complete
  have := h.w_le
  rw [Bool.eq_iff_iff, List.isEmpty_iff, ← List.length_eq_zero_iff, decide_eq_true_iff]
  omega

theorem Sound.all_eq (h : Sound p) : p.fifo.all = p.items := by
  have hf : p.f - p.front = (p.w - p.front) + (p.f - p.w) := by
    have := h.front_le
    have := h.w_le
    omega
  have hrest : p.fifo.rest = (p.items.drop (p.w - p.front)).drop (p.f - p.w) := by
    rw [List.drop_drop, ← hf]
    rfl
  calc p.fifo.all
      = p.items.take (p.w - p.front) ++ ((p.items.drop (p.w - p.front)).take (p.f - p.w) ++
          (p.items.drop (p.w - p.front)).drop (p.f - p.w)) := by rw [← hrest]; rfl
    _ = p.items := by rw [List.take_append_drop, List.take_append_drop]

/-- The pointers cut the queue into what is flushed, what is complete, and the rest. -/
theorem Sound.fifo_eq (h : Sound p) (ready complete rest : List α)
    (hitems : p.items = ready ++ (complete ++ rest)) (hready : ready.length = p.w - p.front)
    (hcomplete : complete.length = p.f - p.w) : p.fifo = ⟨ready, complete, rest, p.c == none⟩ := by
  have hf : p.f - p.front = ready.length + complete.length := by
    have := h.front_le
    have := h.w_le
    omega
  simp only [fifo, ← hready, ← hcomplete, hf, hitems]
  simp

@[simp] theorem back_write (p : YPipe α) (value : α) (incomplete : Bool) :
    (p.write value incomplete).back = p.back + 1 := by
  cases incomplete <;> simp [write, back, Nat.add_assoc]

theorem Sound.write_spec (h : Sound p) (value : α) (incomplete : Bool) :
    Sound (p.write value incomplete) ∧
      (p.write value incomplete).fifo = p.fifo.write value incomplete := by
  have hitems : (p.write value incomplete).items = p.fifo.all ++ [value] := by
    rw [h.all_eq]
    cases incomplete <;> rfl
  cases incomplete with
  | true =>
      have hsound : Sound (p.write value true) :=
        ⟨h.front_le, h.w_le, by rw [back_write]; exact Nat.le_succ_of_le h.f_le,
          h.prefetched, h.shared, h.asleep⟩
      refine ⟨hsound, hsound.fifo_eq _ _ (p.fifo.rest ++ [value]) ?_ h.length_ready
        h.length_complete⟩
      rw [hitems]
      simp [Fifo.all]
  | false =>
      have hlt : p.f ≤ (p.write value false).f := by
        have hback := back_write p value false
        exact Nat.le_trans (Nat.le_succ_of_le h.f_le) (Nat.le_of_eq hback.symm)
      have hsound : Sound (p.write value false) :=
        ⟨h.front_le, Nat.le_trans h.w_le hlt, Nat.le_refl _, h.prefetched, h.shared, h.asleep⟩
      refine ⟨hsound, hsound.fifo_eq _ (p.fifo.complete ++ (p.fifo.rest ++ [value]))
        [] ?_ h.length_ready ?_⟩
      · rw [hitems]
        simp [Fifo.all]
      · have hlen := congrArg List.length h.all_eq
        have hready := h.length_ready
        have hfront := h.front_le
        have hw := h.w_le
        have hf := h.f_le
        simp only [Fifo.all, List.length_append] at hlen
        simp only [write, back, List.length_append, List.length_singleton, Bool.false_eq_true,
          if_false] at *
        omega

/-- Only what is not complete is taken back. -/
theorem Sound.unwrite_spec (h : Sound p) : ∃ p', p.unwrite = some (p.fifo.rest.getLast?, p') ∧
    Sound p' ∧ p'.fifo = { p.fifo with rest := p.fifo.rest.dropLast } := by
  have hlen : p.fifo.rest.length = p.back - p.f := by
    have := h.front_le
    have := h.w_le
    have := h.f_le
    simp only [fifo, List.length_drop, back]
    omega
  have hf := h.f_le
  by_cases hback : p.f = p.back
  · have hrest : p.fifo.rest = [] := List.length_eq_zero_iff.mp (by omega)
    refine ⟨p, by rw [unwrite, if_pos hback, hrest]; rfl, h, ?_⟩
    rw [hrest, List.dropLast_nil, ← hrest]
  · have hne : p.fifo.rest ≠ [] := by
      intro hrest
      rw [hrest, List.length_nil] at hlen
      omega
    have hlast : p.items.getLast? = p.fifo.rest.getLast? := by
      rw [← h.all_eq, Fifo.all, List.getLast?_append, List.getLast?_append,
        List.getLast?_eq_some_getLast hne, Option.some_or, Option.some_or]
    have hitems : p.items.dropLast = { p.fifo with rest := p.fifo.rest.dropLast }.all := by
      rw [← h.all_eq, Fifo.all, List.dropLast_append_of_ne_nil (by simp [hne]),
        List.dropLast_append_of_ne_nil hne]
      rfl
    have hsound : Sound { p with items := p.items.dropLast } := by
      refine ⟨h.front_le, h.w_le, ?_, h.prefetched, h.shared, h.asleep⟩
      show p.f ≤ p.front + p.items.dropLast.length
      rw [List.length_dropLast]
      unfold back at *
      omega
    refine ⟨{ p with items := p.items.dropLast }, ?_, hsound,
      hsound.fifo_eq _ _ _ hitems h.length_ready h.length_complete⟩
    rw [unwrite, if_neg hback, hlast, List.getLast?_eq_some_getLast hne, Option.map_some]

theorem Sound.flush_spec (h : Sound p) : (p.flush).1 = (p.fifo.complete.isEmpty || !p.fifo.asleep) ∧
    Sound p.flush.2 ∧ p.flush.2.fifo = p.fifo.flush := by
  rw [h.complete_isEmpty]
  by_cases hw : p.w = p.f
  · have hcomplete : p.fifo.complete = [] := by
      have := h.complete_isEmpty
      rw [decide_eq_true hw] at this
      exact List.isEmpty_iff.mp this
    rw [flush, if_pos hw]
    refine ⟨by simp [hw], h, ?_⟩
    simp only [Fifo.flush, hcomplete, List.append_nil, List.isEmpty_nil, Bool.and_true]
    rw [← hcomplete]
  · -- the pointers after the flush, whichever way `c` got there
    have hsound : Sound { p with c := some p.f, w := p.f } :=
      ⟨Nat.le_trans h.front_le h.w_le, Nat.le_refl _, h.f_le,
        fun x hx => ⟨(h.prefetched x hx).1, Nat.le_trans (h.prefetched x hx).2 h.w_le⟩,
        fun x hx => (Option.some.inj hx).symm, by simp⟩
    have hfifo : YPipe.fifo { p with c := some p.f, w := p.f } = p.fifo.flush := by
      refine (hsound.fifo_eq (p.fifo.ready ++ p.fifo.complete) []
        p.fifo.rest ?_ ?_ (by simp)).trans ?_
      · show p.items = _
        rw [← h.all_eq]
        simp [Fifo.all]
      · have := h.front_le
        have := h.w_le
        rw [List.length_append, h.length_ready, h.length_complete]
        show _ = p.f - p.front
        omega
      · simp [Fifo.flush, h.complete_isEmpty, hw]
    cases hc : p.c with
    | none =>
        have hflush : p.flush = (false, { p with c := some p.f, w := p.f }) := by
          simp [flush, hw, cas, hc]
        rw [hflush]
        exact ⟨by simp [hw, fifo, hc], hsound, hfifo⟩
    | some x =>
        obtain rfl := h.shared x hc
        have hflush : p.flush = (true, { p with c := some p.f, w := p.f }) := by
          simp [flush, hw, cas, hc]
        rw [hflush]
        exact ⟨by simp [fifo, hc], hsound, hfifo⟩

theorem Sound.checkRead_spec (h : Sound p) : p.checkRead.1 = !p.fifo.ready.isEmpty ∧
    Sound p.checkRead.2 ∧ p.checkRead.2.fifo = p.fifo.checkRead := by
  rw [h.ready_isEmpty]
  have hfront := h.front_le
  have hfifo : ∀ q : YPipe α, q.front = p.front → q.items = p.items → q.w = p.w → q.f = p.f →
      (q.c = none ↔ p.w = p.front) → q.fifo = p.fifo.checkRead := by
    intro q hf hi hw hq hc
    simp only [fifo, Fifo.checkRead, hf, hi, hw, hq]
    have hempty : (p.items.take (p.w - p.front)).isEmpty = decide (p.w = p.front) :=
      h.ready_isEmpty
    simp only [hempty, Fifo.mk.injEq, true_and]
    rw [Bool.eq_iff_iff, beq_iff_eq, decide_eq_true_iff, hc]
  by_cases hr : p.r ≠ some p.front ∧ p.r ≠ none
  · have hcheck : p.checkRead = (true, p) := by rw [checkRead, if_pos hr]
    -- something was prefetched
    have hlt : p.w ≠ p.front := by
      intro hw
      obtain ⟨x, hx⟩ := Option.ne_none_iff_exists'.mp hr.2
      have := h.prefetched x hx
      exact hr.1 (by rw [hx]; congr 1; omega)
    rw [hcheck]
    exact ⟨by simp [hlt], h, hfifo p rfl rfl rfl rfl ⟨h.asleep, fun hw => absurd hw hlt⟩⟩
  · cases hc : p.c with
    | none =>
        have hw := h.asleep hc
        have hcheck : p.checkRead = (false, { p with r := none, c := none }) := by
          rw [checkRead, if_neg hr]
          simp [cas, hc]
        rw [hcheck]
        exact ⟨by simp [hw], ⟨h.front_le, h.w_le, h.f_le, by simp, by simp, fun _ => hw⟩,
          hfifo _ rfl rfl rfl rfl (by simp [hw])⟩
    | some x =>
        obtain rfl := h.shared x hc
        by_cases hw : p.w = p.front
        · have hcheck : p.checkRead = (false, { p with r := some p.w, c := none }) := by
            rw [checkRead, if_neg hr]
            simp [cas, hc, hw]
          rw [hcheck]
          refine ⟨by simp [hw], ⟨h.front_le, h.w_le, h.f_le, ?_, by simp, fun _ => hw⟩,
            hfifo _ rfl rfl rfl rfl (by simp [hw])⟩
          rintro x hx
          cases hx
          exact ⟨hfront, Nat.le_refl _⟩
        · have hcheck : p.checkRead = (true, { p with r := some p.w, c := some p.w }) := by
            rw [checkRead, if_neg hr]
            simp [cas, hc, hw]
          rw [hcheck]
          refine ⟨by simp [hw], ⟨h.front_le, h.w_le, h.f_le, ?_, ?_, by simp⟩,
            hfifo _ rfl rfl rfl rfl (by simp [hw])⟩
          · rintro x hx
            cases hx
            exact ⟨hfront, Nat.le_refl _⟩
          · rintro x hx
            cases hx
            rfl

theorem checkRead_prefetched (h : p.checkRead.1 = true) :
    p.checkRead.2.r ≠ some p.checkRead.2.front := by
  by_cases hr : p.r ≠ some p.front ∧ p.r ≠ none
  · rw [checkRead, if_pos hr]
    exact hr.1
  · rw [checkRead, if_neg hr] at h ⊢
    exact fun heq => of_decide_eq_true h (.inl heq)

theorem Sound.read_spec (h : Sound p) :
    ∃ p', p.read = some (p.fifo.ready.head?, p') ∧ Sound p' ∧ p'.fifo = p.fifo.read := by
  obtain ⟨hresult, hsound, hfifo⟩ := h.checkRead_spec
  have hprefetched := checkRead_prefetched (p := p)
  cases hcheck : p.checkRead with
  | mk ok q =>
      rw [hcheck] at hresult hsound hfifo hprefetched
      dsimp only at hresult hsound hfifo hprefetched
      cases hready : p.fifo.ready with
      | nil =>
          rw [hready] at hresult
          subst hresult
          refine ⟨q, by simp [read, hcheck], hsound, ?_⟩
          rw [hfifo, Fifo.read, hready, List.tail_nil, ← hready]
          rfl
      | cons value ready =>
          rw [hready] at hresult
          subst hresult
          have hq : q.fifo.ready = value :: ready := by rw [hfifo]; exact hready
          have hitems : q.items = value :: (ready ++ (q.fifo.complete ++ q.fifo.rest)) := by
            rw [← hsound.all_eq, Fifo.all, hq, List.cons_append]
          have hlen := hsound.length_ready
          rw [hq, List.length_cons] at hlen
          let p' : YPipe α :=
            { q with front := q.front + 1, items := ready ++ (q.fifo.complete ++ q.fifo.rest) }
          have hsound' : Sound p' := by
            refine ⟨show q.front + 1 ≤ q.w by omega, hsound.w_le, ?_, ?_, hsound.shared, ?_⟩
            · have := hsound.f_le
              simp only [back, hitems, List.length_cons, p'] at this ⊢
              omega
            · intro x hx
              have hne : x ≠ q.front := fun heq => hprefetched rfl (heq ▸ hx)
              obtain ⟨hle, hxw⟩ := hsound.prefetched x hx
              exact ⟨show q.front + 1 ≤ x by omega, hxw⟩
            · intro hc
              have := hsound.asleep hc
              omega
          refine ⟨p', by simp [read, hcheck, hitems, p'], hsound', ?_⟩
          rw [hsound'.fifo_eq _ _ _ rfl (show ready.length = q.w - (q.front + 1) by omega)
            hsound.length_complete, Fifo.read, ← hfifo, hready]
          rfl

/-- Looking again at a queue that has something to read changes nothing. -/
theorem Sound.checkRead_eq (h : Sound p) (hready : p.fifo.ready ≠ []) :
    p.fifo.checkRead = p.fifo := by
  cases hasleep : p.fifo.asleep with
  | true => exact absurd (h.ready_eq_nil hasleep) hready
  | false =>
      rw [Fifo.checkRead, List.isEmpty_eq_false_iff.mpr hready, ← hasleep]

theorem Sound.probe_spec (h : Sound p) {value : α} {ready : List α}
    (hready : p.fifo.ready = value :: ready) :
    ∃ p', p.probe = some (value, p') ∧ Sound p' ∧ p'.fifo = p.fifo := by
  obtain ⟨hresult, hsound, hfifo⟩ := h.checkRead_spec
  have hne : p.fifo.ready ≠ [] := by simp [hready]
  rw [h.checkRead_eq hne] at hfifo
  cases hcheck : p.checkRead with
  | mk ok q =>
      rw [hcheck] at hresult hsound hfifo
      dsimp only at hresult hsound hfifo
      rw [hready] at hresult
      subst hresult
      have hitems : q.items = value :: (ready ++ (q.fifo.complete ++ q.fifo.rest)) := by
        rw [← hsound.all_eq, Fifo.all, hfifo, hready, List.cons_append]
      exact ⟨q, by simp [probe, hcheck, hitems], hsound, hfifo⟩

end YPipe

/-! ## Two threads -/

/-- A reader thread and a writer thread at one queue. -/
structure Threads (α : Type) where
  pipe : YPipe α
  /-- The writer is in `flush`, has found `c` to be `NULL` and has not yet set it. -/
  waking : Bool

inductive ThreadsAct (α : Type)
  | write (value : α) (incomplete : Bool)
  | unwrite
  /-- `flush` up to the compare-and-swap; to its end unless the reader is asleep. -/
  | flush
  /-- The rest of `flush`. -/
  | setC
  | checkRead
  | read

namespace Threads
variable {α : Type}

def fresh : Threads α := ⟨.fresh, false⟩

/-- The compare-and-swap of `flush` has found `NULL`. -/
def findsNull (p : YPipe α) : Bool :=
  p.w ≠ p.f && (cas p.c (some p.w) (some p.f)).1 ≠ some p.w

/-- One atomic step of one of the threads, with what its caller is told if it is the last one of
an operation. -/
def next (s : Threads α) : ThreadsAct α → Option (Option (QueueOp α) × Threads α)
  | .write value incomplete =>
      if s.waking then none
      else some (some (.write value incomplete), { s with pipe := s.pipe.write value incomplete })
  | .unwrite =>
      if s.waking then none
      else s.pipe.unwrite.map fun r => (some (.unwrite r.1), { s with pipe := r.2 })
  | .flush =>
      if s.waking then none
      else if findsNull s.pipe then some (none, { s with waking := true })
      else some (some (.flush s.pipe.flush.1), { s with pipe := s.pipe.flush.2 })
  | .setC =>
      if s.waking then
        some (some (.flush false), ⟨{ s.pipe with c := some s.pipe.f, w := s.pipe.f }, false⟩)
      else none
  | .checkRead =>
      some (some (.checkRead s.pipe.checkRead.1), { s with pipe := s.pipe.checkRead.2 })
  | .read => s.pipe.read.map fun r => (some (.read r.1), { s with pipe := r.2 })

def Step (s : Threads α) (a : ThreadsAct α) (t : Threads α) : Prop :=
  (s.next a).map Prod.snd = some t

/-- A step of a thread as a step of the queue, if it ends an operation. -/
def visible (x : Taken (Threads α) (ThreadsAct α)) : Option (Taken (Fifo α) (QueueOp α)) :=
  (x.pre.next x.label).bind fun r =>
    r.1.map fun op => ⟨x.pre.pipe.fifo, op, x.post.pipe.fifo⟩

/-- What each thread may do: a writer that is in `flush` has to finish it. -/
def mayAct (s : Threads α) : ThreadsAct α → Bool
  | .setC => s.waking
  | .write _ _ | .unwrite | .flush => !s.waking
  | .checkRead | .read => true

structure Sound (s : Threads α) : Prop where
  pipe : s.pipe.Sound
  waking : s.waking = true → s.pipe.fifo.asleep = true ∧ s.pipe.fifo.complete.isEmpty = false

theorem sound_fresh : Sound (fresh : Threads α) := ⟨YPipe.sound_fresh, by simp [fresh]⟩

variable {s t u : Threads α} {tr : List (Taken (Threads α) (ThreadsAct α))}

theorem findsNull_iff {p : YPipe α} (h : p.Sound) :
    findsNull p = true ↔ p.fifo.asleep = true ∧ p.fifo.complete.isEmpty = false := by
  rw [h.complete_isEmpty]
  cases hc : p.c with
  | none => simp [findsNull, YPipe.fifo, cas, hc]
  | some x => simp [findsNull, YPipe.fifo, cas, hc, h.shared x hc]

/-- The second half of a flush, on its own, does what a flush does when the reader is asleep. -/
theorem setC_eq {p : YPipe α} (h : p.Sound) (hasleep : p.fifo.asleep = true)
    (hcomplete : p.fifo.complete.isEmpty = false) :
    p.flush = (false, { p with c := some p.f, w := p.f }) := by
  rw [h.complete_isEmpty, decide_eq_false_iff_not] at hcomplete
  have hc : p.c = none := eq_of_beq hasleep
  simp [YPipe.flush, cas, hc, hcomplete]

/-- What a step comes to: it is possible, and an operation that it ends has the effect and the
result that it has on the queue. -/
def Acts (s : Threads α) (a : ThreadsAct α) : Prop :=
  ∃ op t, s.next a = some (op, t) ∧ Sound t ∧ (op = none → t.pipe = s.pipe) ∧
    ∀ o, op = some o → Fifo.Step s.pipe.fifo o t.pipe.fifo

private theorem acts_of_op {a : ThreadsAct α} {o : QueueOp α}
    (hnext : s.next a = some (some o, t)) (hsound : Sound t)
    (hstep : Fifo.Step s.pipe.fifo o t.pipe.fifo) : Acts s a :=
  ⟨some o, t, hnext, hsound, by simp, fun _ ho => Option.some.inj ho ▸ hstep⟩

/-- The reader leaves a writer in the middle of a flush where it is. -/
private theorem Sound.reader (h : Sound s) {p : YPipe α} (hp : p.Sound)
    (hcomplete : p.fifo.complete = s.pipe.fifo.complete)
    (hasleep : p.fifo.asleep = s.pipe.fifo.ready.isEmpty) : Sound { s with pipe := p } := by
  refine ⟨hp, fun hwaking => ?_⟩
  obtain ⟨hbefore, hne⟩ := h.waking hwaking
  exact ⟨by rw [hasleep, h.pipe.ready_eq_nil hbefore, List.isEmpty_nil], by rw [hcomplete, hne]⟩

/-- **One step** of a thread that may go on. -/
theorem acts (h : Sound s) {a : ThreadsAct α} (hmay : s.mayAct a = true) : Acts s a := by
  cases a with
  | write value incomplete =>
      have hwaking : s.waking = false := by simpa [mayAct] using hmay
      obtain ⟨hsound, hfifo⟩ := h.pipe.write_spec value incomplete
      refine acts_of_op (t := ⟨s.pipe.write value incomplete, false⟩)
        (by simp only [next, hwaking]; rfl) ⟨hsound, by simp⟩ ?_
      rw [hfifo]
      exact .write _ _ _
  | unwrite =>
      have hwaking : s.waking = false := by simpa [mayAct] using hmay
      obtain ⟨p, hunwrite, hsound, hfifo⟩ := h.pipe.unwrite_spec
      refine acts_of_op (t := ⟨p, false⟩) (by simp only [next, hwaking, hunwrite]; rfl)
        ⟨hsound, by simp⟩ ?_
      rw [hfifo]
      exact .unwrite _
  | flush =>
      have hwaking : s.waking = false := by simpa [mayAct] using hmay
      by_cases hnull : findsNull s.pipe = true
      · exact ⟨none, { s with waking := true }, by simp [next, hwaking, hnull],
          ⟨h.pipe, fun _ => (findsNull_iff h.pipe).mp hnull⟩, fun _ => rfl, by simp⟩
      · obtain ⟨hresult, hsound, hfifo⟩ := h.pipe.flush_spec
        refine acts_of_op (t := ⟨s.pipe.flush.2, false⟩) (by simp only [next, hwaking, hnull]; rfl)
          ⟨hsound, by simp⟩ ?_
        rw [hfifo, hresult]
        exact .flush _
  | setC =>
      have hwaking : s.waking = true := hmay
      obtain ⟨hasleep, hcomplete⟩ := h.waking hwaking
      obtain ⟨hresult, hsound, hfifo⟩ := h.pipe.flush_spec
      rw [setC_eq h.pipe hasleep hcomplete] at hresult hsound hfifo
      refine acts_of_op (t := ⟨{ s.pipe with c := some s.pipe.f, w := s.pipe.f }, false⟩)
        (by simp only [next, hwaking]; rfl) ⟨hsound, by simp⟩ ?_
      dsimp only at hresult hfifo
      rw [hfifo, hresult]
      exact .flush _
  | checkRead =>
      obtain ⟨hresult, hsound, hfifo⟩ := h.pipe.checkRead_spec
      refine acts_of_op rfl (h.reader hsound (by rw [hfifo]; rfl) (by rw [hfifo]; rfl)) ?_
      rw [hfifo, hresult]
      exact .checkRead _
  | read =>
      obtain ⟨p, hread, hsound, hfifo⟩ := h.pipe.read_spec
      refine acts_of_op (t := { s with pipe := p }) (by simp only [next, hread]; rfl)
        (h.reader hsound (by rw [hfifo]; rfl) (by rw [hfifo]; rfl)) ?_
      rw [hfifo]
      exact .read _

theorem mayAct_of_next {a : ThreadsAct α} (h : s.mayAct a = false) : s.next a = none := by
  cases a <;> simp_all [mayAct, next]

theorem run_sound (h : Run Step s tr u) (hs : Sound s) :
    Run Fifo.Step s.pipe.fifo (tr.filterMap visible) u.pipe.fifo ∧ Sound u := by
  induction h with
  | nil => exact ⟨.nil, hs⟩
  | @cons s a t tr u hstep _ ih =>
      obtain ⟨⟨op, t'⟩, hnext, ht'⟩ := Option.map_eq_some_iff.mp hstep
      obtain rfl : t' = t := ht'
      have hmay : s.mayAct a = true := by
        cases hmay : s.mayAct a with
        | true => rfl
        | false =>
            rw [mayAct_of_next hmay] at hnext
            cases hnext
      obtain ⟨op', t₁, hnext', ht, hsame, hop⟩ := acts hs hmay
      obtain ⟨rfl, rfl⟩ := Prod.mk.inj (Option.some.inj (hnext.symm.trans hnext'))
      obtain ⟨hrun, hu⟩ := ih ht
      refine ⟨?_, hu⟩
      rw [List.filterMap_cons]
      cases op with
      | none =>
          have hvisible : visible ⟨s, a, t'⟩ = none := by simp [visible, hnext]
          rwa [hvisible, ← hsame rfl]
      | some o =>
          have hvisible : visible ⟨s, a, t'⟩ = some ⟨s.pipe.fifo, o, t'.pipe.fifo⟩ := by
            simp [visible, hnext]
          rw [hvisible]
          exact .cons (hop o rfl) hrun

/-- **Every run of the two threads is a run of the queue**, whichever way their atomic operations
interleave. The reader gets what was written in the order it was written; while it sleeps there is
nothing for it to read; and no thread ever comes to a place where the queue has no element. -/
theorem threads_run (h : Run Step fresh tr u) :
    Run Fifo.Step .empty (tr.filterMap visible) u.pipe.fifo ∧
      ((tr.filterMap visible).map Taken.label).flatMap Fifo.got ++ u.pipe.items =
        Fifo.written ((tr.filterMap visible).map Taken.label) ∧
      (Fifo.sleeping ((tr.filterMap visible).map Taken.label) = true → u.pipe.fifo.ready = []) ∧
      u.pipe.Sound ∧ ∀ a, (u.next a).isSome = u.mayAct a := by
  obtain ⟨hrun, hsound⟩ := run_sound h sound_fresh
  obtain ⟨hasleep, hready⟩ := Fifo.asleep_eq_sleeping hrun
  refine ⟨hrun, ?_, fun hsleeping => hready (hasleep.trans hsleeping), hsound.pipe, fun a => ?_⟩
  · rw [← hsound.pipe.all_eq]
    exact Fifo.received_append_all hrun
  · cases hmay : u.mayAct a with
    | false => rw [mayAct_of_next hmay, Option.isSome_none]
    | true =>
        obtain ⟨op, t, hnext, -⟩ := acts hsound hmay
        rw [hnext, Option.isSome_some]

/-- The reader finds nothing, and comes back while the writer is in the middle of waking it up. -/
theorem threads_run_waking : ∃ (tr : List (Taken (Threads Nat) (ThreadsAct Nat))) (u : Threads Nat),
    Run Step fresh tr u ∧ tr.length = 7 ∧
      ((tr.filterMap visible).map Taken.label).flatMap Fifo.got = [7] ∧
      Run Fifo.Step .empty (tr.filterMap visible) u.pipe.fifo ∧
      ((tr.filterMap visible).map Taken.label).flatMap Fifo.got ++ u.pipe.items =
        Fifo.written ((tr.filterMap visible).map Taken.label) ∧
      (Fifo.sleeping ((tr.filterMap visible).map Taken.label) = true → u.pipe.fifo.ready = []) ∧
      u.pipe.Sound ∧ ∀ a, (u.next a).isSome = u.mayAct a := by
  have hrun : (attempt (fun s a => (next s a).map Prod.snd) (fresh : Threads Nat)
      [.checkRead, .write 7 false, .flush, .checkRead, .setC, .read, .flush]).map
      (fun r => (r.1.length, ((r.1.filterMap visible).map Taken.label).flatMap Fifo.got)) =
        some (7, [7]) := rfl
  obtain ⟨⟨tr, u⟩, hattempt, htr⟩ := Option.map_eq_some_iff.mp hrun
  obtain ⟨hlen, hgot⟩ := Prod.mk.inj htr
  obtain ⟨h, -⟩ := run_attempt hattempt
  exact ⟨tr, u, h, hlen, hgot, threads_run h⟩

end Threads
end EventBus.LibZmq
