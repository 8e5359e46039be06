import EventBus.Table.IndexedArray
import Mathlib.Order.BooleanAlgebra.Set

/-!
# Fair queueing over the pipes of a receiving socket

`Fq` is `fq_t`: the pipes that may have something to read are at the front of the array, and
`current` walks over them, from one pipe to the next after every message. In the middle of a message
it stays where it is, so it matters that no other operation puts another pipe there. That is so but
for one case (`Holds.pipeTerminated_spec`): when a pipe in front is removed while `current` is at the
last one in front, the pipe at `current` is moved to the place that has become free, but `current`
goes back to the first place.
-/

namespace EventBus.LibZmq

open Table
open Table.IndexedArray (Below Swapped)

/-- The first `active` pipes may have something to read, and `current` is the one that has its turn.
-/
structure Fq (ι : Type) where
  pipes : IndexedArray ι
  active : Nat
  current : Nat
  /-- Part of a multipart message has been received. -/
  more : Bool

namespace Fq
variable {ι : Type} [DecidableEq ι]

def new : Fq ι := ⟨.empty, 0, 0, false⟩

/-- A new pipe may have something to read already. -/
def attach (pipe : ι) (q : Fq ι) : Option (Fq ι) :=
  let pipes := q.pipes.pushBack pipe
  (pipes.swap q.active (pipes.items.length - 1)).map fun pipes =>
    { q with pipes, active := q.active + 1 }

/-- `active--; pipes.swap (index, active); if (current == active) current = 0;` -/
def deactivate (index : Nat) (q : Fq ι) : Option (Fq ι) :=
  let active := q.active - 1
  (q.pipes.swap index active).map fun pipes =>
    { q with pipes, active, current := if q.current = active then 0 else q.current }

/-- The last active pipe takes the place of the one that is gone. -/
def pipeTerminated (pipe : ι) (q : Fq ι) : Option (Fq ι) :=
  let index := q.pipes.index pipe
  (if index < q.active then q.deactivate index else some q).bind fun q =>
    (q.pipes.erase pipe).map fun pipes => { q with pipes }

/-- The pipe has something to read again. -/
def activated (pipe : ι) (q : Fq ι) : Option (Fq ι) :=
  (q.pipes.swap (q.pipes.index pipe) q.active).map fun pipes =>
    { q with pipes, active := q.active + 1 }

/-- What `recvpipe` does when a frame has been fetched from the current pipe. -/
def fetched (more : Bool) (q : Fq ι) : Fq ι :=
  { q with more, current := if more then q.current else (q.current + 1) % q.active }

/-- Removing this pipe, which is not the current one, puts another pipe in the place of the current
one. -/
def Misplaces (pipe : ι) (q : Fq ι) : Prop :=
  q.pipes.index pipe < q.active ∧ q.current + 1 = q.active ∧ q.pipes.index pipe ≠ 0

instance (pipe : ι) (q : Fq ι) : Decidable (q.Misplaces pipe) :=
  inferInstanceAs (Decidable (_ ∧ _))

/-! ## Two sets of pipes -/

structure Sound (q : Fq ι) : Prop where
  pipes : q.pipes.Sound
  active_le : q.active ≤ q.pipes.items.length
  current_lt : 0 < q.active → q.current < q.active
  current_eq : q.active = 0 → q.current = 0

/-- The pipes that are attached, those that are active, and the one to read from. -/
structure Holds (q : Fq ι) (attached active : Set ι) (current : Option ι) : Prop where
  sound : Sound q
  attached : ∀ p, p ∈ q.pipes.items ↔ p ∈ attached
  active : ∀ p, Below q.active p q.pipes ↔ p ∈ active
  current : (if 0 < q.active then q.pipes.items[q.current]? else none) = current

omit [DecidableEq ι] in
theorem holds_new : Holds (new : Fq ι) ∅ ∅ none where
  sound := ⟨IndexedArray.sound_empty, Nat.le_refl _, fun h => h, fun _ => rfl⟩
  attached p := by simp [new, IndexedArray.empty]
  active p := by simp [new, Below]
  current := rfl

section
variable {q : Fq ι} {A S : Set ι} {cur : Option ι} {p c : ι}

omit [DecidableEq ι] in
/-- Only attached pipes are active. -/
theorem Holds.subset (h : Holds q A S cur) : S ⊆ A := fun p hp =>
  (h.attached p).mp ((h.active p).mpr hp).1

omit [DecidableEq ι] in
/-- The current pipe is the one at the place `current`. -/
theorem Holds.current_iff (h : Holds q A S cur) :
    cur = some c ↔ c ∈ S ∧ q.pipes.index c = q.current := by
  rw [← h.current]
  constructor
  · intro hc
    split at hc
    · rename_i hpos
      have hindex := h.sound.pipes.index_eq _ _ hc
      exact ⟨(h.active c).mp ⟨List.mem_of_getElem? hc, hindex ▸ h.sound.current_lt hpos⟩, hindex⟩
    · cases hc
  · rintro ⟨hc, hindex⟩
    obtain ⟨hmem, hlt⟩ := (h.active c).mpr hc
    rw [if_pos (Nat.zero_lt_of_lt hlt), ← hindex]
    exact h.sound.pipes.get_index hmem

omit [DecidableEq ι] in
/-- The set-up of the pipes determines which one is the current one. -/
theorem Sound.holds (h : Sound q) (hattached : ∀ p, p ∈ q.pipes.items ↔ p ∈ A)
    (hactive : ∀ p, Below q.active p q.pipes ↔ p ∈ S) : ∃ cur, Holds q A S cur :=
  ⟨_, h, hattached, hactive, rfl⟩

/-- A new pipe goes behind the active ones, and the current one stays. -/
theorem Holds.attach_spec (h : Holds q A S cur) (hp : p ∉ A) :
    ∃ q' cur', q.attach p = some q' ∧ Holds q' (insert p A) (insert p S) cur' ∧
      q'.more = q.more ∧ ∀ c, cur = some c → cur' = some c := by
  obtain ⟨hpipes, hle, hcur, hcur'⟩ := h.sound
  have hnew : p ∉ q.pipes.items := fun hmem => hp ((h.attached p).mp hmem)
  obtain ⟨b, hswap, hb, hlen, hmem, hbelow, hindex, -⟩ := hpipes.enter_new hnew hle
  have hattached : ∀ c, c ∈ b.items ↔ c ∈ insert p A := fun c => by
    rw [hmem, h.attached, Set.mem_insert_iff, or_comm]
  have hactive : ∀ c, Below (q.active + 1) c b ↔ c ∈ insert p S := fun c => by
    rw [hbelow, h.active, Set.mem_insert_iff, or_comm]
  have hsound : Sound { q with pipes := b, active := q.active + 1 } :=
    ⟨hb, by show q.active + 1 ≤ b.items.length; omega, fun _ => by
      show q.current < q.active + 1
      by_cases hzero : q.active = 0
      · rw [hcur' hzero]; omega
      · exact Nat.lt_succ_of_lt (hcur (by omega)), fun hzero => by cases hzero⟩
  obtain ⟨cur', h'⟩ := hsound.holds hattached hactive
  refine ⟨_, cur', by rw [attach, hswap]; rfl, h', rfl, fun c hc => ?_⟩
  obtain ⟨hcS, hindex'⟩ := h.current_iff.mp hc
  refine h'.current_iff.mpr ⟨.inr hcS, ?_⟩
  obtain ⟨hcmem, hlt⟩ := (h.active c).mpr hcS
  exact (hindex c hcmem hlt).trans hindex'

/-- So does one that wakes up. -/
theorem Holds.activated_spec (h : Holds q A S cur) (hp : p ∈ A) (hpS : p ∉ S) :
    ∃ q' cur', q.activated p = some q' ∧ Holds q' A (insert p S) cur' ∧ q'.more = q.more ∧
      ∀ c, cur = some c → cur' = some c := by
  obtain ⟨hpipes, hle, hcur, hcur'⟩ := h.sound
  have hmem := (h.attached p).mpr hp
  have hlt := hpipes.index_lt hmem
  have hbehind : q.active ≤ q.pipes.index p :=
    Nat.le_of_not_lt fun hlt => hpS ((h.active p).mp ⟨hmem, hlt⟩)
  obtain ⟨b, hswap, hb⟩ := hpipes.swap_spec (i := q.pipes.index p) (j := q.active) hlt (by omega)
  have hlen := hb.length
  let q' : Fq ι := { q with pipes := b, active := q.active + 1 }
  have hsound : Sound q' :=
    ⟨hb.sound, by show q.active + 1 ≤ b.items.length; omega, fun _ => by
      show q.current < q.active + 1
      by_cases hzero : q.active = 0
      · rw [hcur' hzero]; omega
      · exact Nat.lt_succ_of_lt (hcur (by omega)), fun hzero => by cases hzero⟩
  obtain ⟨cur', h'⟩ := hsound.holds (A := A) (S := insert p S) (fun c => by
    show c ∈ b.items ↔ _
    rw [hb.mem, h.attached]) (fun c => by
    show Below (q.active + 1) c b ↔ _
    rw [hb.enter hpipes hmem hbehind, h.active, Set.mem_insert_iff, or_comm])
  refine ⟨q', cur', by simp [activated, hswap, q'], h', rfl, fun c hc => ?_⟩
  obtain ⟨hcS, hindex⟩ := h.current_iff.mp hc
  obtain ⟨hcmem, hclt⟩ := (h.active c).mpr hcS
  refine h'.current_iff.mpr ⟨.inr hcS, ?_⟩
  show b.index c = q.current
  rw [hb.index c hcmem, Equiv.swap_apply_of_ne_of_ne (by omega) (by omega)]
  exact hindex

/-- A pipe that has nothing to read goes behind the active ones. -/
theorem Holds.deactivate_spec (h : Holds q A S cur) (hp : p ∈ S) :
    ∃ q' cur', q.deactivate (q.pipes.index p) = some q' ∧ Holds q' A (S \ {p}) cur' ∧
      q'.more = q.more ∧ q'.active + 1 = q.active ∧ q'.pipes.index p = q'.active ∧
      ∀ c, c ≠ p → cur = some c → (cur' = some c ↔ ¬ q.Misplaces p) := by
  obtain ⟨hpipes, hle, hcur, -⟩ := h.sound
  obtain ⟨hmem, hlt⟩ := (h.active p).mpr hp
  have hpos := hcur (by omega)
  obtain ⟨n, hn⟩ : ∃ n, q.active = n + 1 := ⟨q.active - 1, by omega⟩
  obtain ⟨b, hswap, hb⟩ := hpipes.swap_spec (i := q.pipes.index p) (j := n) (by omega) (by omega)
  have hlen := hb.length
  have hleave := fun c => hb.leave (q := c) hpipes ⟨hmem, by omega⟩
  let q' : Fq ι := { q with
    pipes := b, active := n, current := if q.current = n then 0 else q.current }
  have hsound : Sound q' := by
    refine ⟨hb.sound, by show n ≤ b.items.length; omega, fun (hn' : 0 < n) => ?_,
      fun (hn' : n = 0) => ?_⟩
    · show (if q.current = n then 0 else q.current) < n
      split <;> omega
    · show (if q.current = n then 0 else q.current) = 0
      split <;> omega
  obtain ⟨cur', h'⟩ := hsound.holds (A := A) (S := S \ {p}) (fun c => by
    show c ∈ b.items ↔ _
    rw [hb.mem, h.attached]) (fun c => by
    show Below n c b ↔ _
    rw [(hleave c).1, ← hn, h.active]
    rfl)
  refine ⟨q', cur', by simp [deactivate, hn, hswap, q'], h', rfl, hn.symm, (hleave p).2,
    fun c hne hc => ?_⟩
  obtain ⟨hcS, hindex⟩ := h.current_iff.mp hc
  have hcmem := ((h.active c).mpr hcS).1
  have hdiff : q.pipes.index c ≠ q.pipes.index p := fun heq => hne (hpipes.index_inj hcmem hmem heq)
  rw [h'.current_iff, and_iff_right ⟨hcS, hne⟩, Misplaces]
  show b.index c = (if q.current = n then 0 else q.current) ↔ _
  rw [hb.index c hcmem, Equiv.swap_apply_def, if_neg hdiff]
  by_cases hlast : q.current = n
  · rw [if_pos (hindex.trans hlast), if_pos hlast]
    omega
  · rw [if_neg (by omega), if_neg hlast]
    omega

/-- **Removing a pipe** other than the current one keeps the current one exactly if it does not
misplace it. -/
theorem Holds.pipeTerminated_spec (h : Holds q A S cur) (hp : p ∈ A) :
    ∃ q' cur', q.pipeTerminated p = some q' ∧ Holds q' (A \ {p}) (S \ {p}) cur' ∧
      q'.more = q.more ∧ ∀ c, c ≠ p → cur = some c → (cur' = some c ↔ ¬ q.Misplaces p) := by
  have hmem := (h.attached p).mpr hp
  -- the pipe goes behind the active ones, if it is not there
  obtain ⟨q₁, cur₁, hrun, h₁, hmore, hbehind, hkeep⟩ : ∃ q₁ cur₁,
      (if q.pipes.index p < q.active then q.deactivate (q.pipes.index p) else some q) = some q₁ ∧
        Holds q₁ A (S \ {p}) cur₁ ∧ q₁.more = q.more ∧ q₁.active ≤ q₁.pipes.index p ∧
        ∀ c, c ≠ p → cur = some c → (cur₁ = some c ↔ ¬ q.Misplaces p) := by
    by_cases hlt : q.pipes.index p < q.active
    · obtain ⟨q₁, cur₁, hrun, h₁, hmore, -, hindex, hkeep⟩ :=
        h.deactivate_spec ((h.active p).mp ⟨hmem, hlt⟩)
      exact ⟨q₁, cur₁, by rw [if_pos hlt, hrun], h₁, hmore, Nat.le_of_eq hindex.symm, hkeep⟩
    · have hpS : p ∉ S := fun hpS => hlt ((h.active p).mpr hpS).2
      refine ⟨q, cur, if_neg hlt, ?_, rfl, by omega, fun c _ hc => ?_⟩
      · rwa [Set.sdiff_singleton_eq_self hpS]
      · exact ⟨fun _ hmis => hlt hmis.1, fun _ => hc⟩
  have hmem₁ := (h₁.attached p).mpr hp
  obtain ⟨b, herase, hb, hlen, hmem', hbelow⟩ := h₁.sound.pipes.erase_below hmem₁
  let q' : Fq ι := { q₁ with pipes := b }
  have hlt := h₁.sound.pipes.index_lt hmem₁
  have hsound : Sound q' :=
    ⟨hb, by show q₁.active ≤ b.items.length; omega, h₁.sound.current_lt, h₁.sound.current_eq⟩
  obtain ⟨cur', h'⟩ := hsound.holds (A := A \ {p}) (S := S \ {p}) (fun c => by
    show c ∈ b.items ↔ _
    rw [hmem', h₁.attached]
    rfl) (fun c => by
    show Below q₁.active c b ↔ _
    rw [hbelow _ hbehind, h₁.active])
  refine ⟨q', cur', by rw [pipeTerminated]; simp [hrun, herase, q'], h', hmore,
    fun c hne hc => ?_⟩
  rw [← hkeep c hne hc, h'.current_iff, h₁.current_iff]
  refine and_congr_right fun hcS => ?_
  -- what is in front stays where it is
  obtain ⟨hcmem, hclt⟩ := (h₁.active c).mpr hcS
  have hup := (hbelow (q₁.pipes.index c + 1) (by omega) c).mpr ⟨hcmem, Nat.lt_succ_self _⟩
  have hdown : ¬ b.index c < q₁.pipes.index c := fun hlt =>
    Nat.lt_irrefl _ ((hbelow (q₁.pipes.index c) (by omega) c).mp ⟨hup.1, hlt⟩).2
  have hindex : b.index c = q₁.pipes.index c := by
    have := hup.2
    omega
  show b.index c = q₁.current ↔ _
  rw [hindex]

omit [DecidableEq ι] in
/-- A frame comes from the current pipe, which stays the current one until the message is over. -/
theorem Holds.fetched (h : Holds q A S cur) (hp : cur = some p) (more : Bool) :
    ∃ cur', Holds (q.fetched more) A S cur' ∧ (more = true → cur' = some p) := by
  obtain ⟨hpipes, hle, hcur, hcur'⟩ := h.sound
  obtain ⟨hpS, hindex⟩ := h.current_iff.mp hp
  have hpos := Nat.zero_lt_of_lt ((h.active p).mpr hpS).2
  have hsound : Sound (q.fetched more) := by
    refine ⟨hpipes, hle, fun _ => ?_, fun hzero => ?_⟩
    · show (if more then q.current else (q.current + 1) % q.active) < q.active
      split
      · exact hcur hpos
      · exact Nat.mod_lt _ hpos
    · have hzero : q.active = 0 := hzero
      omega
  obtain ⟨cur', h'⟩ := hsound.holds h.attached h.active
  refine ⟨cur', h', fun hmore => h'.current_iff.mpr ⟨hpS, hindex.trans ?_⟩⟩
  rw [Fq.fetched, hmore]
  rfl

end
end Fq
end EventBus.LibZmq
