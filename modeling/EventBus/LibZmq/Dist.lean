import EventBus.Table.IndexedArray
import Mathlib.Data.Set.Insert

/-!
# The distributor of a publishing socket

`Dist` is `dist_t`: an array of pipes whose front holds the pipes that match the message being
sent, behind them those that may be sent to, and at the end those that refused something. Three
counters tell one from the other, and every operation moves pipes by swapping them.

What the distributor is for are three sets of pipes (`Holds`): a pipe is attached, matching or
eligible. The rules below say what each operation does to these sets, and that it never looks at a
place outside the array.
-/

namespace EventBus.LibZmq

open Table
open Table.IndexedArray (Below Swapped)

/-- The first `matching` pipes match, the first `active` ones are sent to, and the first `eligible`
ones may be sent to from the next message on. -/
structure Dist (ι : Type) where
  pipes : IndexedArray ι
  matching : Nat
  active : Nat
  eligible : Nat
  /-- We are in the middle of a multipart message. -/
  more : Bool

namespace Dist
variable {ι : Type} [DecidableEq ι]

/-- A distributor without pipes. -/
def new : Dist ι := ⟨.empty, 0, 0, 0, false⟩

/-- `pipes.swap` -/
def swap (i j : Nat) (d : Dist ι) : Option (Dist ι) :=
  (d.pipes.swap i j).map fun pipes => { d with pipes }

/-- A pipe that comes in the middle of a message is not active before the next one. -/
def attach (pipe : ι) (d : Dist ι) : Option (Dist ι) :=
  let d := { d with pipes := d.pipes.pushBack pipe }
  let last := d.pipes.items.length - 1
  if d.more then
    (d.swap d.eligible last).map fun d => { d with eligible := d.eligible + 1 }
  else
    (d.swap d.active last).map fun d =>
      { d with active := d.active + 1, eligible := d.eligible + 1 }

/-- `dist_t::match`. -/
def matchPipe (pipe : ι) (d : Dist ι) : Option (Dist ι) :=
  if d.pipes.index pipe < d.matching then some d
  else if d.eligible ≤ d.pipes.index pipe then some d
  else (d.swap (d.pipes.index pipe) d.matching).map fun d => { d with matching := d.matching + 1 }

/-- After a message nothing matches. -/
def unmatch (d : Dist ι) : Dist ι := { d with matching := 0 }

/-- The pipe leaves the three parts one after the other, and then the array. -/
def pipeTerminated (pipe : ι) (d : Dist ι) : Option (Dist ι) :=
  (d.pipes.leave pipe d.matching).bind fun r₁ =>
    (r₁.1.leave pipe d.active).bind fun r₂ =>
      (r₂.1.leave pipe d.eligible).bind fun r₃ =>
        (r₃.1.erase pipe).map fun pipes =>
          { d with pipes, matching := r₁.2, active := r₂.2, eligible := r₃.2 }

/-- The pipe may be sent to again, in the middle of a message only from the next one on. -/
def activated (pipe : ι) (d : Dist ι) : Option (Dist ι) :=
  let enterEligible (d : Dist ι) : Option (Dist ι) :=
    if d.eligible < d.pipes.items.length then
      (d.swap (d.pipes.index pipe) d.eligible).map fun d => { d with eligible := d.eligible + 1 }
    else some d
  let enterActive (d : Dist ι) : Option (Dist ι) :=
    if !d.more && d.active < d.pipes.items.length then
      (d.swap (d.eligible - 1) d.active).map fun d => { d with active := d.active + 1 }
    else some d
  (enterEligible d).bind enterActive

/-- What `dist_t::write` does when the pipe has refused the message. -/
def refused (pipe : ι) (d : Dist ι) : Option (Dist ι) :=
  (d.swap (d.pipes.index pipe) (d.matching - 1)).bind fun d =>
    let d := { d with matching := d.matching - 1 }
    (d.swap (d.pipes.index pipe) (d.active - 1)).bind fun d =>
      let d := { d with active := d.active - 1 }
      (d.swap d.active (d.eligible - 1)).map fun d => { d with eligible := d.eligible - 1 }

/-- What `send_to_matching` does after a frame has been distributed. -/
def sent (more : Bool) (d : Dist ι) : Dist ι :=
  { d with active := if more then d.active else d.eligible, more }

/-! ## Three sets of pipes -/

/-- The three parts lie one in the other. Between two messages all eligible pipes are active. -/
structure Sound (d : Dist ι) : Prop where
  pipes : d.pipes.Sound
  matching_le : d.matching ≤ d.active
  active_le : d.active ≤ d.eligible
  eligible_le : d.eligible ≤ d.pipes.items.length
  active_eq : d.more = false → d.active = d.eligible

/-- The pipes that are attached, those that match, and those that are eligible. -/
structure Holds (d : Dist ι) (attached matching eligible : Set ι) : Prop where
  sound : Sound d
  attached : ∀ q, q ∈ d.pipes.items ↔ q ∈ attached
  matching : ∀ q, Below d.matching q d.pipes ↔ q ∈ matching
  eligible : ∀ q, Below d.eligible q d.pipes ↔ q ∈ eligible

omit [DecidableEq ι] in
theorem holds_new : Holds (new : Dist ι) ∅ ∅ ∅ where
  sound := ⟨IndexedArray.sound_empty, Nat.le_refl _, Nat.le_refl _, Nat.le_refl _, fun _ => rfl⟩
  attached q := by simp [new, IndexedArray.empty]
  matching q := by simp [new, Below]
  eligible q := by simp [new, Below]

section
variable {d : Dist ι} {A M E : Set ι} {p q : ι}

omit [DecidableEq ι] in
theorem Holds.subset (h : Holds d A M E) : M ⊆ E ∧ E ⊆ A := by
  refine ⟨fun q hq => ?_, fun q hq => ?_⟩
  · have hlt := (h.matching q).mpr hq
    have hle := Nat.le_trans h.sound.matching_le h.sound.active_le
    exact (h.eligible q).mp ⟨hlt.1, Nat.lt_of_lt_of_le hlt.2 hle⟩
  · exact (h.attached q).mp ((h.eligible q).mpr hq).1

/-- A new pipe may be sent to. -/
theorem Holds.attach_spec (h : Holds d A M E) (hp : p ∉ A) :
    ∃ d', d.attach p = some d' ∧ Holds d' (insert p A) M (insert p E) ∧ d'.more = d.more := by
  obtain ⟨hpipes, hma, hae, hes, heq⟩ := h.sound
  have hnew : p ∉ d.pipes.items := fun hmem => hp ((h.attached p).mp hmem)
  -- in both cases the new pipe goes to the first place behind the eligible ones
  obtain ⟨b, hswap, hb, hlen, hmem, hbelow, -, hsame⟩ := hpipes.enter_new hnew hes
  have hattached : ∀ q, q ∈ b.items ↔ q ∈ insert p A := fun q => by
    rw [hmem, h.attached, Set.mem_insert_iff, or_comm]
  have hmatching : ∀ q, Below d.matching q b ↔ q ∈ M := fun q => by
    rw [hsame _ (Nat.le_trans hma hae), h.matching]
  have heligible : ∀ q, Below (d.eligible + 1) q b ↔ q ∈ insert p E := fun q => by
    rw [hbelow, h.eligible, Set.mem_insert_iff, or_comm]
  cases hmore : d.more with
  -- In the middle of a message only `eligible` goes up.
  | true =>
      refine ⟨{ d with pipes := b, eligible := d.eligible + 1 }, ?_,
        ⟨⟨hb, hma, by show d.active ≤ d.eligible + 1; omega,
          by show d.eligible + 1 ≤ b.items.length; omega, ?_⟩, hattached, hmatching, heligible⟩,
        hmore⟩
      · simp [attach, swap, hmore, hswap]
      · intro hfalse
        rw [show d.more = false from hfalse] at hmore
        cases hmore
  | false =>
      have heq := heq hmore
      refine ⟨{ d with pipes := b, active := d.active + 1, eligible := d.eligible + 1 }, ?_,
        ⟨⟨hb, by show d.matching ≤ d.active + 1; omega,
          by show d.active + 1 ≤ d.eligible + 1; omega,
          by show d.eligible + 1 ≤ b.items.length; omega, fun _ => by simp [heq]⟩, hattached,
          hmatching, heligible⟩, hmore⟩
      simp [attach, swap, hmore, heq, hswap]

/-- Pipes are matched between two messages, when all the eligible ones are active. -/
theorem Holds.matchPipe_spec (h : Holds d A M E) (hmore : d.more = false) (hp : p ∈ A) :
    ∃ d', d.matchPipe p = some d' ∧ Holds d' A {q | q ∈ M ∨ q = p ∧ p ∈ E} E ∧
      d'.more = false := by
  obtain ⟨hpipes, hma, hae, hes, heq⟩ := h.sound
  have hmem : p ∈ d.pipes.items := (h.attached p).mpr hp
  -- It matches already, or it must not be sent to, or it goes to the front.
  by_cases hm : d.pipes.index p < d.matching
  · have hpm : p ∈ M := (h.matching p).mp ⟨hmem, hm⟩
    refine ⟨d, by simp [matchPipe, hm], ⟨h.sound, h.attached, fun q => ?_, h.eligible⟩, hmore⟩
    rw [h.matching, Set.mem_ofPred_eq]
    exact ⟨.inl, fun hq => hq.elim id fun hq => hq.1 ▸ hpm⟩
  · by_cases he : d.eligible ≤ d.pipes.index p
    · have hpe : p ∉ E := fun hpe => Nat.not_lt_of_le he ((h.eligible p).mpr hpe).2
      refine ⟨d, by simp [matchPipe, hm, he], ⟨h.sound, h.attached, fun q => ?_, h.eligible⟩, hmore⟩
      rw [h.matching, Set.mem_ofPred_eq]
      exact ⟨.inl, fun hq => hq.elim id fun hq => absurd hq.2 hpe⟩
    · have hpe : p ∈ E := (h.eligible p).mp ⟨hmem, by omega⟩
      obtain ⟨b, hswap, hb⟩ := hpipes.swap_spec (i := d.pipes.index p) (j := d.matching) (by omega)
        (by omega)
      refine ⟨{ d with pipes := b, matching := d.matching + 1 },
        by simp [matchPipe, swap, hm, he, hswap],
        ⟨⟨hb.sound, ?_, hae, hb.length ▸ hes, heq⟩, fun q => ?_, fun q => ?_, fun q => ?_⟩, hmore⟩
      · have := heq hmore
        show d.matching + 1 ≤ d.active
        omega
      · rw [hb.mem, h.attached]
      · rw [hb.enter hpipes hmem (by omega), h.matching, Set.mem_ofPred_eq, and_iff_left hpe]
      · rw [hb.below_same (by show _ < d.eligible ↔ _ < d.eligible; omega), h.eligible]

/-- So may one that has room again. What matches stays as it is. -/
theorem Holds.activated_spec (h : Holds d A M E) (hp : p ∈ A) (hpe : p ∉ E) :
    ∃ d', d.activated p = some d' ∧ Holds d' A M (insert p E) ∧ d'.more = d.more := by
  obtain ⟨hpipes, hma, hae, hes, heq⟩ := h.sound
  have hmem : p ∈ d.pipes.items := (h.attached p).mpr hp
  have hlt := hpipes.index_lt hmem
  -- It is somewhere behind the eligible ones, and comes to the first place there.
  have hle : d.eligible ≤ d.pipes.index p :=
    Nat.le_of_not_lt fun hlt => hpe ((h.eligible p).mp ⟨hmem, hlt⟩)
  obtain ⟨b, hswap, hb⟩ := hpipes.swap_spec (i := d.pipes.index p) (j := d.eligible) hlt (by omega)
  have hattached : ∀ q, q ∈ b.items ↔ q ∈ A := fun q => by rw [hb.mem, h.attached]
  have hmatching : ∀ q, Below d.matching q b ↔ q ∈ M := fun q => by
    rw [hb.below_same (by omega), h.matching]
  have heligible : ∀ q, Below (d.eligible + 1) q b ↔ q ∈ insert p E := fun q => by
    rw [hb.enter hpipes hmem hle, h.eligible, Set.mem_insert_iff, or_comm]
  have hlen := hb.length
  cases hmore : d.more with
  | true =>
      refine ⟨{ d with pipes := b, eligible := d.eligible + 1 }, ?_,
        ⟨⟨hb.sound, hma, by show d.active ≤ d.eligible + 1; omega,
          by show d.eligible + 1 ≤ b.items.length; omega, ?_⟩, hattached, hmatching, heligible⟩,
        hmore⟩
      · simp [activated, swap, hmore, hswap, Nat.lt_of_le_of_lt hle hlt]
      · intro hfalse
        rw [show d.more = false from hfalse] at hmore
        cases hmore
  | false =>
      -- then the pipe is where it has to be already
      have heq := heq hmore
      obtain ⟨b', hswap', hb'⟩ := hb.sound.swap_spec (i := d.eligible) (j := d.eligible) (by omega)
        (by omega)
      refine ⟨{ d with pipes := b', active := d.active + 1, eligible := d.eligible + 1 }, ?_,
        ⟨⟨hb'.sound, by show d.matching ≤ d.active + 1; omega,
          by show d.active + 1 ≤ d.eligible + 1; omega,
          by show d.eligible + 1 ≤ b'.items.length; rw [hb'.length]; omega,
          fun _ => by simp [heq]⟩, fun q => by rw [hb'.mem, hattached],
          fun q => by rw [hb'.below_same Iff.rfl, hmatching],
          fun q => by rw [hb'.below_same Iff.rfl, heligible]⟩, hmore⟩
      have hlt' : d.eligible < b.items.length := by omega
      simp [activated, swap, hmore, hswap, hswap', heq, Nat.lt_of_le_of_lt hle hlt, hlt']

/-- A pipe that has refused the message goes behind the eligible ones, and what is in front of it
stays where it is. -/
theorem Holds.refused_spec (h : Holds d A M E) (hp : p ∈ M) :
    ∃ d', d.refused p = some d' ∧ Holds d' A (M \ {p}) (E \ {p}) ∧ d'.more = d.more ∧
      d'.matching + 1 = d.matching ∧
      ∀ n ≤ d.pipes.index p, ∀ q, Below n q d'.pipes ↔ Below n q d.pipes := by
  obtain ⟨hpipes, hma, hae, hes, heq⟩ := h.sound
  obtain ⟨hmem, hlt⟩ := (h.matching p).mpr hp
  obtain ⟨m, hm⟩ : ∃ m, d.matching = m + 1 := ⟨d.matching - 1, by omega⟩
  obtain ⟨a, ha⟩ : ∃ a, d.active = a + 1 := ⟨d.active - 1, by omega⟩
  obtain ⟨e, he⟩ : ∃ e, d.eligible = e + 1 := ⟨d.eligible - 1, by omega⟩
  -- Three swaps: to the end of the matching, of the active and of the eligible ones.
  obtain ⟨b₁, hswap₁, hb₁⟩ := hpipes.swap_spec (i := d.pipes.index p) (j := m) (by omega) (by omega)
  have hp₁ : b₁.index p = m := by rw [hb₁.index p hmem, Equiv.swap_apply_left]
  have hlen₁ := hb₁.length
  obtain ⟨b₂, hswap₂, hb₂⟩ := hb₁.sound.swap_spec (i := m) (j := a) (by omega) (by omega)
  have hmem₁ : p ∈ b₁.items := (hb₁.mem p).mpr hmem
  have hp₂ : b₂.index p = a := by rw [hb₂.index p hmem₁, hp₁, Equiv.swap_apply_left]
  have hlen₂ := hb₂.length
  obtain ⟨b₃, hswap₃, hb₃⟩ := hb₂.sound.swap_spec (i := a) (j := e) (by omega) (by omega)
  have hmem₂ : p ∈ b₂.items := (hb₂.mem p).mpr hmem₁
  rw [hm] at hlt
  refine ⟨{ d with pipes := b₃, matching := m, active := a, eligible := e }, ?_,
    ⟨⟨hb₃.sound, by show m ≤ a; omega, by show a ≤ e; omega, ?_, fun hmore => ?_⟩,
      fun q => by rw [hb₃.mem, hb₂.mem, hb₁.mem, h.attached], fun q => ?_, fun q => ?_⟩, rfl,
    hm.symm, fun n hn q => ?_⟩
  · simp [refused, swap, hm, ha, he, hswap₁, hp₁, hswap₂, hswap₃]
  · show e ≤ b₃.items.length
    rw [hb₃.length]
    omega
  · have := heq hmore
    show a = e
    omega
  · show Below m q b₃ ↔ _
    rw [hb₃.below_same (by omega), hb₂.below_same (by omega),
      (hb₁.leave hpipes ⟨hmem, hlt⟩).1, ← hm, h.matching]
    rfl
  · have hlast : Below (e + 1) p b₂ := ⟨hmem₂, by omega⟩
    rw [← hp₂] at hb₃
    show Below e q b₃ ↔ _
    rw [(hb₃.leave hb₂.sound hlast).1, hb₂.below_same (by omega), hb₁.below_same (by omega), ← he,
      h.eligible]
    rfl
  -- No swap concerns a place in front of the pipe.
  · show Below n q b₃ ↔ _
    rw [hb₃.below_same (by omega), hb₂.below_same (by omega), hb₁.below_same (by omega)]

/-- A pipe that is gone is in none of the sets. -/
theorem Holds.pipeTerminated_spec (h : Holds d A M E) (hp : p ∈ A) :
    ∃ d', d.pipeTerminated p = some d' ∧ Holds d' (A \ {p}) (M \ {p}) (E \ {p}) ∧
      d'.more = d.more := by
  obtain ⟨hpipes, hma, hae, hes, heq⟩ := h.sound
  have hmem : p ∈ d.pipes.items := (h.attached p).mpr hp
  -- Out of each part in turn, and then out of the array.
  obtain ⟨b₁, m, hleave₁, hb₁, hlen₁, hmem₁, hm, hle₁, hbelow₁, hsame₁⟩ :=
    hpipes.leave_spec hmem (n := d.matching) (by omega)
  have hp₁ : p ∈ b₁.items := (hmem₁ p).mpr hmem
  obtain ⟨b₂, a, hleave₂, hb₂, hlen₂, hmem₂, ha, hle₂, hbelow₂, hsame₂⟩ :=
    hb₁.leave_spec hp₁ (n := d.active) (by omega)
  have hp₂ : p ∈ b₂.items := (hmem₂ p).mpr hp₁
  obtain ⟨b₃, e, hleave₃, hb₃, hlen₃, hmem₃, he, hle₃, hbelow₃, hsame₃⟩ :=
    hb₂.leave_spec hp₂ (n := d.eligible) (by omega)
  have hp₃ : p ∈ b₃.items := (hmem₃ p).mpr hp₂
  obtain ⟨b, herase, hb, hlen, hmem', hbelow⟩ := hb₃.erase_below hp₃
  -- the pipe is in front of a counter in the array it comes from or in none of them
  have hidx₁ : b₁.index p < d.active ↔ d.pipes.index p < d.active := by
    have := hsame₁ d.active (.inr hma) p
    rwa [Below, Below, and_iff_right hp₁, and_iff_right hmem] at this
  have hidx₂ : b₂.index p < d.eligible ↔ d.pipes.index p < d.eligible := by
    have h₁ := hsame₁ d.eligible (.inr (Nat.le_trans hma hae)) p
    have h₂ := hsame₂ d.eligible (.inr hae) p
    rw [h₁] at h₂
    rwa [Below, Below, and_iff_right hp₂, and_iff_right hmem] at h₂
  have hlt := hpipes.index_lt hmem
  -- A counter goes down if the pipe was in its part, and then it was in the larger ones too.
  have hma' : m ≤ a := by
    rw [hm, ha]
    split <;> split <;> omega
  have hae' : a ≤ e := by
    rw [ha, he]
    split <;> split <;> omega
  have hes' : e ≤ b.items.length := by
    rw [he]
    split <;> omega
  refine ⟨{ d with pipes := b, matching := m, active := a, eligible := e }, ?_,
    ⟨⟨hb, hma', hae', hes', fun hmore => ?_⟩, fun q => ?_, fun q => ?_, fun q => ?_⟩, rfl⟩
  · simp [pipeTerminated, hleave₁, hleave₂, hleave₃, herase]
  · have heq := heq hmore
    show a = e
    rw [ha, he]
    split <;> split <;> omega
  · rw [hmem', hmem₃, hmem₂, hmem₁, h.attached]
    rfl
  · show Below m q b ↔ _
    rw [hbelow m (by omega), hsame₃ m (.inl ⟨by omega, by omega⟩),
      hsame₂ m (.inl ⟨by omega, by omega⟩), hbelow₁, h.matching]
    rfl
  · show Below e q b ↔ _
    rw [hbelow e (by omega), hbelow₃, hsame₂ _ (.inr hae), hsame₁ _ (.inr (by omega)), h.eligible]
    rfl

omit [DecidableEq ι] in
theorem Holds.unmatch (h : Holds d A M E) : Holds d.unmatch A ∅ E where
  sound := ⟨h.sound.pipes, Nat.zero_le _, h.sound.active_le, h.sound.eligible_le,
    h.sound.active_eq⟩
  attached := h.attached
  matching q := by simp [Dist.unmatch, Below]
  eligible := h.eligible

omit [DecidableEq ι] in
theorem Holds.sent (h : Holds d A M E) (more : Bool) : Holds (d.sent more) A M E := by
  obtain ⟨hpipes, hma, hae, hes, -⟩ := h.sound
  cases more with
  | true => exact ⟨⟨hpipes, hma, hae, hes, by simp [Dist.sent]⟩, h.attached, h.matching, h.eligible⟩
  | false =>
      exact ⟨⟨hpipes, Nat.le_trans hma hae, Nat.le_refl _, hes, fun _ => rfl⟩, h.attached,
        h.matching, h.eligible⟩

end

end Dist
end EventBus.LibZmq
