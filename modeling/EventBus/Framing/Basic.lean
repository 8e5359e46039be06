import Mathlib.Data.List.Basic

/-!
# Multi-part messages and their frames

A transport that keeps message boundaries carries *frames*: a payload and a flag telling whether
another frame of the same message follows. This file relates streams of frames to the messages they
spell, for payloads of any type.

* `Message.frames` and `wire` flatten messages to frames.
* `AtStart msgs fs` says that what is left to read, `fs`, begins with the first frame of one of the
  messages `msgs` that were put on the wire (or that everything has been read). Frames inside a
  message are never such a place, because every message has at least one frame.
-/

namespace EventBus.Framing

variable {α : Type}

/-- A frame: its payload, and whether more frames of the same message follow. -/
structure Frame (α : Type) where
  data : α
  more : Bool
  deriving DecidableEq, Repr

/-- A multi-part message: one part, then any number of further parts. -/
structure Message (α : Type) where
  first : α
  rest : List α
  deriving DecidableEq, Repr

/-- The parts of a message, in order. -/
def Message.parts (m : Message α) : List α := m.first :: m.rest

/-- The frames of a message with first part `a`: all but the last announce another one. -/
def framesOf (a : α) : List α → List (Frame α)
  | [] => [⟨a, false⟩]
  | b :: bs => ⟨a, true⟩ :: framesOf b bs

def Message.frames (m : Message α) : List (Frame α) := framesOf m.first m.rest

/-- The stream of frames a list of messages becomes. -/
def wire (ms : List (Message α)) : List (Frame α) := ms.flatMap Message.frames

/-- The message that is complete once a last part arrives behind the parts already there. -/
def Message.close : List α → α → Message α
  | [], d => ⟨d, []⟩
  | a :: as, d => ⟨a, as ++ [d]⟩

@[simp] theorem Message.close_parts (as : List α) (d : α) :
    (Message.close as d).parts = as ++ [d] := by
  cases as <;> rfl

@[simp] theorem wire_nil : wire ([] : List (Message α)) = [] := rfl

@[simp] theorem wire_cons (m : Message α) (ms : List (Message α)) :
    wire (m :: ms) = m.frames ++ wire ms := by
  simp [wire]

theorem wire_append (ms ms' : List (Message α)) : wire (ms ++ ms') = wire ms ++ wire ms' := by
  simp [wire]

theorem wire_singles (ds : List α) :
    wire (ds.map fun d => ⟨d, []⟩) = ds.map fun d => ⟨d, false⟩ := by
  induction ds with
  | nil => rfl
  | cons d ds ih =>
      rw [List.map_cons, wire_cons, ih]
      rfl

@[simp] theorem length_framesOf (a : α) (as : List α) : (framesOf a as).length = as.length + 1 := by
  induction as generalizing a with
  | nil => rfl
  | cons b bs ih => simp [framesOf, ih]

theorem Message.length_frames (m : Message α) : m.frames.length = m.rest.length + 1 :=
  length_framesOf m.first m.rest

@[simp] theorem map_data_framesOf (a : α) (as : List α) :
    (framesOf a as).map Frame.data = a :: as := by
  induction as generalizing a with
  | nil => rfl
  | cons b bs ih => rw [framesOf, List.map_cons, ih]

/-- A message can be read off its frames. -/
theorem frames_injective : Function.Injective (Message.frames (α := α)) := by
  rintro ⟨a, as⟩ ⟨b, bs⟩ h
  have hdata := congrArg (List.map Frame.data) h
  simp only [Message.frames, map_data_framesOf, List.cons.injEq] at hdata
  obtain ⟨rfl, rfl⟩ := hdata
  rfl

/-! ## Where a reader stands -/

/-- The frames left to read are whole messages: the reader stands at the start of a message, or at
the end of the stream. -/
def AtStart (msgs : List (Message α)) (fs : List (Frame α)) : Prop :=
  ∃ k ≤ msgs.length, fs = wire (msgs.drop k)

theorem AtStart.all (msgs : List (Message α)) : AtStart msgs (wire msgs) := ⟨0, by simp, by simp⟩

/-- Reading all frames of the next message leads to the start of the one after it. -/
theorem AtStart.next {msgs : List (Message α)} {k : Nat} {m : Message α} {ms : List (Message α)}
    (hk : msgs.drop k = m :: ms) : AtStart msgs (wire ms) := by
  refine ⟨k + 1, ?_, ?_⟩
  · have : k < msgs.length := by
      by_contra hlt
      rw [List.drop_eq_nil_of_le (by omega)] at hk
      cases hk
    omega
  · rw [← List.tail_drop, hk, List.tail_cons]

/-- What is left of a stream with `k` messages to go has a length of its own: it shrinks with every
message read. -/
theorem length_wire_drop_lt {msgs : List (Message α)} {k : Nat} {m : Message α}
    {ms : List (Message α)} (hk : msgs.drop k = m :: ms) {j : Nat} (hj : k < j) :
    (wire (msgs.drop j)).length ≤ (wire ms).length := by
  have hsuffix : msgs.drop j <:+ ms := by
    have h : msgs.drop j = ms.drop (j - (k + 1)) := by
      have htail : ms = msgs.drop (k + 1) := by rw [← List.tail_drop, hk, List.tail_cons]
      rw [htail, List.drop_drop]
      congr 1
      omega
    exact h ▸ List.drop_suffix _ _
  obtain ⟨pre, hpre⟩ := hsuffix
  rw [← hpre, wire_append]
  simp

/-- **Inside a message is not a start**: a reader that has read some but not all frames of the
message at position `k` is at no start. -/
theorem not_atStart_of_mid {msgs : List (Message α)} {k : Nat} {m : Message α}
    {ms : List (Message α)} (hk : msgs.drop k = m :: ms) {fs : List (Frame α)}
    (hlo : (wire ms).length < fs.length) (hhi : fs.length < (wire (m :: ms)).length) :
    ¬ AtStart msgs fs := by
  rintro ⟨j, -, rfl⟩
  rcases Nat.lt_or_ge k j with hj | hj
  · have := length_wire_drop_lt hk hj
    omega
  · -- at or before `k` at least the whole message `m` is still to come
    have hsuffix : msgs.drop k <:+ msgs.drop j := by
      have h : msgs.drop k = (msgs.drop j).drop (k - j) := by
        rw [List.drop_drop]
        congr 1
        omega
      exact h ▸ List.drop_suffix _ _
    obtain ⟨pre, hpre⟩ := hsuffix
    rw [← hpre, wire_append, hk, List.length_append] at hhi
    omega

end EventBus.Framing
