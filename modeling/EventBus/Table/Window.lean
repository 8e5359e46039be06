import Mathlib.Data.List.Basic

/-!
# Windows onto partial functions

A table that holds the values of a partial function on `Nat` for one interval of keys: `slots` are
the values from the key `min` on, and `live` counts those that are there. A window is *compact* when
the count is right and no slot can be cut off at either end. Two compact windows that show the same
function have the same slots.

A window is widened by `extend` and narrowed by `narrow`; neither changes the function as long as
what it cuts off is empty.
-/

namespace EventBus.Table

/-- The values for the keys `min`, `min + 1`, …, and how many there are. -/
structure Window (α : Type*) where
  min : Nat
  live : Nat
  slots : List (Option α)
  deriving DecidableEq, Repr

namespace Window
variable {α : Type*}

def empty : Window α := ⟨0, 0, []⟩

def count (w : Window α) : Nat := w.slots.length

/-- The key is in the interval. -/
def Covers (w : Window α) (c : Nat) : Prop := w.min ≤ c ∧ c < w.min + w.count

instance (w : Window α) (c : Nat) : Decidable (w.Covers c) := by
  unfold Covers
  infer_instance

def get (w : Window α) (c : Nat) : Option α :=
  if w.min ≤ c then w.slots[c - w.min]?.join else none

/-- Replaces what is under a key of the interval. -/
def put (c : Nat) (a : Option α) (w : Window α) : Window α :=
  { w with slots := w.slots.set (c - w.min) a }

/-- Widens the interval as far as the key. -/
def extend (c : Nat) (w : Window α) : Window α :=
  if w.count = 0 then { w with min := c, slots := [none] }
  else if w.count = 1 then
    let count := (if w.min < c then c - w.min else w.min - c) + 1
    let min := Nat.min w.min c
    { w with min, slots := (List.replicate count none).set (w.min - min) w.slots.head?.join }
  else if w.min < c then
    { w with slots := w.slots ++ List.replicate (c - w.min + 1 - w.count) none }
  else { w with min := c, slots := List.replicate (w.min - c) none ++ w.slots }

/-- Keeps the slots `lo, …, hi - 1`. -/
def narrow (lo hi : Nat) (w : Window α) : Window α :=
  { w with min := w.min + lo, slots := (w.slots.take hi).drop lo }

/-! ## Looking up -/

/-- What is found, by its place among the slots. -/
theorem get_eq_some_iff {w : Window α} {c : Nat} {a : α} :
    w.get c = some a ↔ w.min ≤ c ∧ w.slots[c - w.min]? = some (some a) := by
  unfold get
  split
  · rename_i h
    simp only [h, true_and]
    cases w.slots[c - w.min]? <;> simp
  · rename_i h
    simp [h]

/-- What is found is in the interval. -/
theorem covers_of_get {w : Window α} {c : Nat} {a : α} (h : w.get c = some a) : w.Covers c := by
  obtain ⟨hmin, hslot⟩ := get_eq_some_iff.mp h
  obtain ⟨hlt, -⟩ := List.getElem?_eq_some_iff.mp hslot
  exact ⟨hmin, by unfold count; omega⟩

theorem count_pos_of_get {w : Window α} {c : Nat} {a : α} (h : w.get c = some a) : 0 < w.count := by
  have hcovers := covers_of_get h
  unfold Covers at hcovers
  omega

theorem get_of_not_covers {w : Window α} {c : Nat} (h : ¬ w.Covers c) : w.get c = none := by
  cases hget : w.get c with
  | none => rfl
  | some a => exact absurd (covers_of_get hget) h

@[simp] theorem get_empty (c : Nat) : (empty : Window α).get c = none := by
  simp [get, empty]

@[simp] theorem count_put (c : Nat) (a : Option α) (w : Window α) :
    (w.put c a).count = w.count := by
  simp [count, put]

@[simp] theorem live_put (c : Nat) (a : Option α) (w : Window α) : (w.put c a).live = w.live := rfl

@[simp] theorem min_put (c : Nat) (a : Option α) (w : Window α) : (w.put c a).min = w.min := rfl

@[simp] theorem covers_put {c d : Nat} {a : Option α} {w : Window α} :
    (w.put c a).Covers d ↔ w.Covers d := by
  simp [Covers]

/-- Only what is under the key is replaced. -/
theorem get_put {c : Nat} {w : Window α} (h : w.Covers c) (a : Option α) (d : Nat) :
    (w.put c a).get d = if d = c then a else w.get d := by
  obtain ⟨hmin, hlt⟩ := h
  unfold count at hlt
  by_cases hd : w.min ≤ d
  · by_cases hdc : d = c
    · subst hdc
      have hslot : (w.slots.set (d - w.min) a)[d - w.min]? = some a :=
        List.getElem?_set_self (by omega)
      simp [get, put, hd, hslot]
    · have hne : c - w.min ≠ d - w.min := by omega
      simp [get, put, hd, hdc, List.getElem?_set_ne hne]
  · have hdc : d ≠ c := by omega
    simp [get, put, hd, hdc]

/-! ## Widening -/

/-- The slots below and above an interval put around another one are empty. -/
private theorem get_pad (w : Window α) (n m k : Nat) (hn : n ≤ w.min) :
    get ⟨w.min - n, w.live, List.replicate n none ++ w.slots ++ List.replicate m none⟩ k =
      w.get k := by
  -- What is found at a place of the longer list.
  have hslot : ∀ i : Nat, (List.replicate n none ++ w.slots ++ List.replicate m none)[i]?.join =
      if n ≤ i then w.slots[i - n]?.join else none := by
    intro i
    grind
  unfold get
  simp only [hslot]
  grind

/-- A window that is not empty is widened by empty slots. -/
theorem extend_eq {w : Window α} {c : Nat} (h : ¬ w.Covers c) (hne : w.slots ≠ []) :
    w.extend c = ⟨w.min - (w.min - c), w.live,
      List.replicate (w.min - c) none ++ w.slots ++
        List.replicate (c + 1 - (w.min + w.count)) none⟩ := by
  unfold Covers count at h
  obtain ⟨min, live, slots⟩ := w
  simp only at h
  match slots with
  | [] => exact absurd rfl hne
  | [s] =>
      -- A single slot comes to stand at one end of a new list.
      by_cases hlt : min < c
      · have hset : (List.replicate (c - min + 1) none).set 0 s =
            [s] ++ List.replicate (c - min) none := by
          rw [List.replicate_succ]
          rfl
        have hsub : c + 1 - (min + 1) = c - min := by omega
        simpa [extend, count, hlt, Nat.min_eq_left (Nat.le_of_lt hlt), hsub,
          Nat.sub_eq_zero_of_le (Nat.le_of_lt hlt)] using hset
      · have hset : (List.replicate (min - c + 1) none).set (min - c) s =
            List.replicate (min - c) none ++ [s] := by
          rw [List.replicate_succ']
          simp
        have hle : c ≤ min := Nat.le_of_not_lt hlt
        have hsub : c + 1 - (min + 1) = 0 := by omega
        simpa [extend, count, hlt, Nat.min_eq_right hle, hsub, Nat.sub_sub_self hle] using hset
  | s :: t :: slots =>
      by_cases hlt : min < c
      · have hsub : min - c = 0 := by omega
        have hadd : c - min + 1 - (slots.length + 1 + 1) = c + 1 - (min + (slots.length + 1 + 1)) := by
          omega
        simp [extend, count, hlt, hsub, hadd]
      · have hle : c ≤ min := Nat.le_of_not_lt hlt
        have hsub : c + 1 - (min + (slots.length + 1 + 1)) = 0 := by omega
        simp [extend, count, hlt, hsub, Nat.sub_sub_self hle]

theorem extend_nil {w : Window α} (c : Nat) (h : w.slots = []) :
    w.extend c = ⟨c, w.live, [none]⟩ := by
  simp [extend, count, h]

/-- Widening adds nothing but empty slots. -/
theorem get_extend {w : Window α} {c : Nat} (h : ¬ w.Covers c) (k : Nat) :
    (w.extend c).get k = w.get k := by
  by_cases hne : w.slots = []
  · have hnone : ∀ i : Nat, ([none] : List (Option α))[i]?.join = none := by
      intro i
      cases i <;> rfl
    simp [extend_nil c hne, get, hne, hnone]
  · rw [extend_eq h hne]
    exact get_pad w _ _ k (Nat.sub_le _ _)

theorem covers_extend {w : Window α} {c : Nat} (h : ¬ w.Covers c) : (w.extend c).Covers c := by
  by_cases hne : w.slots = []
  · simp [extend_nil c hne, Covers, count]
  · rw [extend_eq h hne]
    unfold Covers count at *
    simp only [List.length_append, List.length_replicate]
    omega

/-- The window, widened where it does not cover the key. -/
def reach (c : Nat) (w : Window α) : Window α := if w.Covers c then w else w.extend c

@[simp] theorem get_reach (c : Nat) (w : Window α) (k : Nat) : (w.reach c).get k = w.get k := by
  unfold reach
  split
  · rfl
  · rename_i h
    exact get_extend h k

/-- The key is in the interval then. -/
theorem covers_reach (c : Nat) (w : Window α) : (w.reach c).Covers c := by
  unfold reach
  split
  · assumption
  · rename_i h
    exact covers_extend h

/-! ## Compact windows -/

/-- `live` is the number of slots that are not empty. -/
def Counted (w : Window α) : Prop := w.live = w.slots.countP Option.isSome

/-- Neither end can be cut off. -/
structure Compact (w : Window α) : Prop where
  counted : w.Counted
  first : 0 < w.count → (w.get w.min).isSome
  last : 0 < w.count → (w.get (w.min + w.count - 1)).isSome

theorem compact_empty : (empty : Window α).Compact :=
  ⟨rfl, by simp [count, empty], by simp [count, empty]⟩

/-- What is counted can be found, ... -/
theorem exists_get_of_live {w : Window α} (h : w.Counted) (hlive : 0 < w.live) :
    ∃ c a, w.get c = some a := by
  rw [h, List.countP_pos_iff] at hlive
  obtain ⟨s, hmem, hs⟩ := hlive
  obtain ⟨a, rfl⟩ := Option.isSome_iff_exists.mp hs
  obtain ⟨i, hi⟩ := List.mem_iff_getElem?.mp hmem
  refine ⟨w.min + i, a, get_eq_some_iff.mpr ⟨Nat.le_add_right _ _, ?_⟩⟩
  rw [Nat.add_sub_cancel_left]
  exact hi

/-- ... and what is found is counted. -/
theorem live_pos_of_get {w : Window α} (h : w.Counted) {c : Nat} {a : α} (hc : w.get c = some a) :
    0 < w.live := by
  obtain ⟨-, hslot⟩ := get_eq_some_iff.mp hc
  rw [h, List.countP_pos_iff]
  exact ⟨_, List.mem_of_getElem? hslot, rfl⟩

/-- A slot that is filled or emptied is counted once. -/
theorem counted_put {w : Window α} (h : w.Counted) {c : Nat} (hc : w.Covers c) (a : Option α) :
    Counted { w.put c a with
      live := w.live - (if (w.get c).isSome then 1 else 0) + if a.isSome then 1 else 0 } := by
  have hlt : c - w.min < w.slots.length := by
    unfold Covers count at hc
    omega
  have hslot : w.get c = w.slots[c - w.min] := by
    simp [get, hc.1, List.getElem?_eq_getElem hlt]
  unfold Counted at *
  simp only [put, List.countP_set hlt, hslot, h]

/-- With one slot left, whatever is found is in it. -/
theorem eq_of_live_one {w : Window α} (h : w.Counted) (hlive : w.live = 1) {c d : Nat} {a b : α}
    (hc : w.get c = some a) (hd : w.get d = some b) : c = d := by
  -- Without the first one the other one would still be counted.
  have hcount := counted_put h (covers_of_get hc) none
  by_contra hne
  have hget : (w.put c none).get d = some b := by
    rw [get_put (covers_of_get hc), if_neg (Ne.symm hne), hd]
  have hpos := live_pos_of_get hcount (c := d) (a := b) hget
  simp [hlive, hc] at hpos

/-- Another value under a key that was there. -/
theorem Compact.put {w : Window α} (h : w.Compact) {c : Nat} {a : α} (hc : w.get c = some a)
    (b : α) : (w.put c (some b)).Compact := by
  have hcovers := covers_of_get hc
  have hsome : ∀ d, (w.get d).isSome → ((w.put c (some b)).get d).isSome := by
    intro d hd
    rw [get_put hcovers]
    split <;> simp [hd]
  refine ⟨?_, ?_, ?_⟩
  · have hlive := live_pos_of_get h.counted hc
    have hcount := counted_put h.counted hcovers (some b)
    simp only [hc, Option.isSome_some, if_true, Nat.sub_add_cancel hlive] at hcount
    exact hcount
  · intro hpos
    exact hsome _ (h.first (by simpa using hpos))
  · intro hpos
    simpa using hsome _ (h.last (by simpa using hpos))

theorem reach_of_get {w : Window α} {c : Nat} {a : α} (h : w.get c = some a) : w.reach c = w :=
  if_pos (covers_of_get h)

@[simp] theorem live_reach (c : Nat) (w : Window α) : (w.reach c).live = w.live := by
  unfold reach extend
  split <;> (try split) <;> (try split) <;> (try split) <;> rfl

/-- Widening does not change the count. -/
theorem counted_reach {w : Window α} (h : w.Counted) (c : Nat) : (w.reach c).Counted := by
  unfold reach
  split
  · exact h
  · rename_i hc
    unfold Counted at *
    by_cases hne : w.slots = []
    · simpa [extend_nil c hne, hne] using h
    · have hnone : ∀ n : Nat, (List.replicate n (none : Option α)).countP Option.isSome = 0 := by
        intro n
        simp [List.countP_replicate]
      simpa [extend_eq hc hne, hnone] using h

/-- The slots a compact window is widened by lie between its interval and the key. -/
private theorem reach_ends {w : Window α} (h : w.Compact) (c : Nat) :
    let w' := w.reach c
    0 < w'.count ∧ (w'.min = c ∨ (w.get w'.min).isSome) ∧
      (w'.min + w'.count - 1 = c ∨ (w.get (w'.min + w'.count - 1)).isSome) := by
  intro w'
  by_cases hc : w.Covers c
  · have hw' : w' = w := if_pos hc
    have hpos : 0 < w.count := by
      unfold Covers at hc
      omega
    rw [hw']
    exact ⟨hpos, .inr (h.first hpos), .inr (h.last hpos)⟩
  · by_cases hne : w.slots = []
    · have hw' : w' = ⟨c, w.live, [none]⟩ := (if_neg hc).trans (extend_nil c hne)
      rw [hw']
      exact ⟨Nat.one_pos, .inl rfl, .inl rfl⟩
    · have hpos : 0 < w.count := List.length_pos_iff.mpr hne
      have hfirst := h.first hpos
      have hlast := h.last hpos
      have hmin : w'.min = w.min - (w.min - c) := by
        show (w.reach c).min = _
        rw [reach, if_neg hc, extend_eq hc hne]
      have hcount : w'.count = w.min - c + w.count + (c + 1 - (w.min + w.count)) := by
        show (w.reach c).count = _
        rw [reach, if_neg hc, extend_eq hc hne]
        simp [count, Nat.add_assoc]
      rw [hmin, hcount]
      -- The key is outside, at one end or at the other.
      have hend : w.min - (w.min - c) + (w.min - c + w.count + (c + 1 - (w.min + w.count))) - 1 =
          if c < w.min + w.count then w.min + w.count - 1 else c := by
        split <;> omega
      have hstart : w.min - (w.min - c) = if c < w.min then c else w.min := by
        split <;> omega
      refine ⟨by omega, ?_, ?_⟩
      · rw [hstart]
        split
        · exact .inl rfl
        · exact .inr hfirst
      · rw [hend]
        split
        · exact .inr hlast
        · exact .inl rfl

/-- A window reaches a new key with a single slot exactly if it had nothing. -/
theorem count_reach_eq_one_iff {w : Window α} (h : w.Compact) {c : Nat} (hc : w.get c = none) :
    (w.reach c).count = 1 ↔ w.live = 0 := by
  obtain ⟨hpos, hstart, hend⟩ := reach_ends h c
  constructor
  · intro hone
    by_contra hlive
    obtain ⟨d, a, hd⟩ := exists_get_of_live h.counted (Nat.pos_of_ne_zero hlive)
    have hcovers := covers_reach c w
    have hcoversd : (w.reach c).Covers d := covers_of_get (by rw [get_reach, hd])
    -- The only slot is that of the key, which was not there before.
    have hsame : d = c := by
      unfold Covers at hcovers hcoversd
      omega
    rw [hsame, hc] at hd
    cases hd
  · intro hlive
    have hnone : ∀ d, (w.get d).isSome = false := by
      intro d
      cases hd : w.get d with
      | none => rfl
      | some a => exact absurd (live_pos_of_get h.counted hd) (by omega)
    have hmin := hstart.resolve_right (by simp [hnone])
    have hmax := hend.resolve_right (by simp [hnone])
    omega

/-- **A new key**: widening the window as far as the key and filling its slot. -/
theorem Compact.insert {w : Window α} (h : w.Compact) {c : Nat} (hc : w.get c = none) (a : α) :
    Compact { (w.reach c).put c (some a) with live := (w.reach c).live + 1 } := by
  have hcovers := covers_reach c w
  obtain ⟨-, hstart, hend⟩ := reach_ends h c
  have hget : ∀ k, Window.get { (w.reach c).put c (some a) with live := (w.reach c).live + 1 } k =
      if k = c then some a else w.get k := by
    intro k
    have hput := get_put hcovers (some a) k
    rw [get_reach] at hput
    exact hput
  refine ⟨?_, ?_, ?_⟩
  · have hcount := counted_put (counted_reach h.counted c) hcovers (some a)
    simpa [hc] using hcount
  · intro _
    rw [hget]
    split
    · rfl
    · exact hstart.resolve_left (by assumption)
  · intro _
    rw [hget]
    have hsame : Window.count { (w.reach c).put c (some a) with live := (w.reach c).live + 1 } =
        (w.reach c).count := count_put c (some a) (w.reach c)
    rw [hsame]
    split
    · rfl
    · exact hend.resolve_left (by assumption)

/-! ## Narrowing -/

/-- Nothing is cut off but empty slots. -/
theorem get_narrow {w : Window α} {lo hi : Nat}
    (hout : ∀ k, (w.get k).isSome → w.min + lo ≤ k ∧ k < w.min + hi) (k : Nat) :
    (w.narrow lo hi).get k = w.get k := by
  refine Option.ext fun a => ?_
  rw [get_eq_some_iff, get_eq_some_iff]
  simp only [narrow]
  constructor
  · rintro ⟨hle, hslot⟩
    have hadd : lo + (k - (w.min + lo)) = k - w.min := by omega
    rw [List.getElem?_drop, hadd, List.getElem?_take] at hslot
    split at hslot
    · exact ⟨by omega, hslot⟩
    · cases hslot
  · rintro ⟨hle, hslot⟩
    have hget : w.get k = some a := get_eq_some_iff.mpr ⟨hle, hslot⟩
    obtain ⟨hlo, hhi⟩ := hout k (by simp [hget])
    have hadd : lo + (k - (w.min + lo)) = k - w.min := by omega
    have hlt : k - w.min < hi := by omega
    exact ⟨hlo, by rwa [List.getElem?_drop, hadd, List.getElem?_take, if_pos hlt]⟩

/-- So the count is right after it. -/
theorem counted_narrow {w : Window α} (h : w.Counted) {lo hi : Nat}
    (hout : ∀ k, (w.get k).isSome → w.min + lo ≤ k ∧ k < w.min + hi) :
    (w.narrow lo hi).Counted := by
  have hzero : ∀ ks : List (Option α), (∀ s ∈ ks, s = none) → ks.countP Option.isSome = 0 := by
    intro ks hks
    rw [List.countP_eq_zero]
    intro s hs
    simp [hks s hs]
  have hin : ∀ i : Nat, ∀ a, w.slots[i]? = some (some a) → lo ≤ i ∧ i < hi := by
    intro i a hi
    have hget : w.get (w.min + i) = some a :=
      get_eq_some_iff.mpr ⟨Nat.le_add_right _ _, by rwa [Nat.add_sub_cancel_left]⟩
    have := hout (w.min + i) (by simp [hget])
    omega
  have hbelow : ((w.slots.take hi).take lo).countP Option.isSome = 0 := by
    refine hzero _ fun s hs => ?_
    obtain ⟨i, hs⟩ := List.mem_iff_getElem?.mp hs
    cases s with
    | none => rfl
    | some a =>
        have := hin i a (by grind)
        grind
  have habove : (w.slots.drop hi).countP Option.isSome = 0 := by
    refine hzero _ fun s hs => ?_
    obtain ⟨i, hs⟩ := List.mem_iff_getElem?.mp hs
    cases s with
    | none => rfl
    | some a =>
        have := hin (hi + i) a (by rwa [List.getElem?_drop] at hs)
        omega
  -- The slots are those cut off below, those kept and those cut off above.
  have hsplit : w.slots.countP Option.isSome = ((w.slots.take hi).take lo).countP Option.isSome +
      ((w.slots.take hi).drop lo).countP Option.isSome +
      (w.slots.drop hi).countP Option.isSome := by
    rw [← List.countP_append, List.take_append_drop, ← List.countP_append, List.take_append_drop]
  unfold Counted at *
  simp only [narrow]
  omega

/-- A window is compact once it is cut down to its first and its last key. -/
theorem compact_narrow {w : Window α} (h : w.Counted) {lo hi : Nat} (hlt : lo < hi)
    (hhi : hi ≤ w.count) (hout : ∀ k, (w.get k).isSome → w.min + lo ≤ k ∧ k < w.min + hi)
    (hfirst : (w.get (w.min + lo)).isSome) (hlast : (w.get (w.min + hi - 1)).isSome) :
    (w.narrow lo hi).Compact := by
  have hcount : (w.narrow lo hi).count = hi - lo := by
    unfold count at *
    simp [narrow, Nat.min_eq_left hhi]
  have hend : w.min + lo + (hi - lo) - 1 = w.min + hi - 1 := by omega
  refine ⟨counted_narrow h hout, ?_, ?_⟩
  · intro _
    rwa [get_narrow hout]
  · intro _
    rw [get_narrow hout, hcount]
    simpa [narrow, hend] using hlast

/-! ## Bounds -/

theorem bound_reach {w : Window α} {n c : Nat} (h : w.min + w.count ≤ n) (hc : c < n) :
    (w.reach c).min + (w.reach c).count ≤ n := by
  unfold reach
  split
  · exact h
  · rename_i hcovers
    by_cases hne : w.slots = []
    · simpa [extend_nil c hne, count] using Nat.succ_le_of_lt hc
    · rw [extend_eq hcovers hne]
      unfold Covers count at *
      simp only [List.length_append, List.length_replicate]
      omega

theorem bound_narrow {w : Window α} {n lo hi : Nat} (h : w.min + w.count ≤ n) (hle : lo ≤ hi)
    (hhi : hi ≤ w.count) : (w.narrow lo hi).min + (w.narrow lo hi).count ≤ n := by
  unfold count at *
  simp only [narrow, List.length_drop, List.length_take]
  omega

end Window

/-! ## Searching -/

/-- The index of the first slot from `i` on that is not empty. -/
def firstFrom {α : Type*} (i : Nat) (slots : List (Option α)) : Option Nat :=
  ((slots.drop i).findIdx? Option.isSome).map (· + i)

/-- What the search finds: the first one. -/
theorem firstFrom_eq_some {α : Type*} {i k : Nat} {slots : List (Option α)}
    (h : firstFrom i slots = some k) :
    i ≤ k ∧ (∃ a, slots[k]? = some (some a)) ∧
      ∀ j : Nat, i ≤ j → j < k → ∀ a, slots[j]? ≠ some (some a) := by
  obtain ⟨m, hm, rfl⟩ := Option.map_eq_some_iff.mp h
  obtain ⟨hlt, hsome, hbefore⟩ := List.findIdx?_eq_some_iff_getElem.mp hm
  obtain ⟨a, ha⟩ := Option.isSome_iff_exists.mp hsome
  have hslot : (slots.drop i)[m]? = some (some a) := by rw [List.getElem?_eq_getElem hlt, ha]
  rw [List.getElem?_drop, Nat.add_comm] at hslot
  refine ⟨Nat.le_add_left _ _, ⟨a, hslot⟩, fun j hij hjk b hb => ?_⟩
  have hlt' : j - i < m := by omega
  have hj : (slots.drop i)[j - i]? = some (some b) := by
    rw [List.getElem?_drop, Nat.add_sub_cancel' hij, hb]
  obtain ⟨hjlt, hjeq⟩ := List.getElem?_eq_some_iff.mp hj
  have := hbefore (j - i) hlt'
  rw [hjeq] at this
  exact this rfl

/-- It finds something if there is anything. -/
theorem firstFrom_isSome {α : Type*} {i k : Nat} {slots : List (Option α)} {a : α} (hik : i ≤ k)
    (h : slots[k]? = some (some a)) : ∃ k', firstFrom i slots = some k' := by
  cases hfind : (slots.drop i).findIdx? Option.isSome with
  | some m => exact ⟨m + i, by simp [firstFrom, hfind]⟩
  | none =>
      have hmem : some a ∈ slots.drop i := by
        have hslot : (slots.drop i)[k - i]? = some (some a) := by
          rw [List.getElem?_drop, Nat.add_sub_cancel' hik, h]
        exact List.mem_of_getElem? hslot
      have := List.findIdx?_eq_none_iff.mp hfind _ hmem
      simp at this

namespace Window
variable {α : Type*}

/-! ## Erasing a key -/

/-- The window without a key, as wide as before. -/
def erase (c : Nat) (w : Window α) : Window α := { w.put c none with live := w.live - 1 }

theorem get_erase {w : Window α} {c : Nat} (h : w.Covers c) (k : Nat) :
    (w.erase c).get k = if k = c then none else w.get k :=
  get_put h none k

@[simp] theorem count_erase (c : Nat) (w : Window α) : (w.erase c).count = w.count :=
  count_put c none w

@[simp] theorem min_erase (c : Nat) (w : Window α) : (w.erase c).min = w.min := rfl

@[simp] theorem live_erase (c : Nat) (w : Window α) : (w.erase c).live = w.live - 1 := rfl

/-- One less than before. -/
theorem counted_erase {w : Window α} (h : w.Counted) {c : Nat} {a : α} (hc : w.get c = some a) :
    (w.erase c).Counted := by
  have hcount := counted_put h (covers_of_get hc) none
  simpa [hc, erase] using hcount

/-- A compact window with more than one slot has different keys at its ends. -/
theorem Compact.two_le_live {w : Window α} (h : w.Compact) (hcount : 1 < w.count) :
    1 < w.live := by
  obtain ⟨a, ha⟩ := Option.isSome_iff_exists.mp (h.first (by omega))
  obtain ⟨b, hb⟩ := Option.isSome_iff_exists.mp (h.last (by omega))
  by_contra hlive
  have hpos := live_pos_of_get h.counted ha
  have := eq_of_live_one h.counted (by omega) ha hb
  omega

/-- A single slot of a compact window is not empty. -/
theorem Compact.live_of_count_one {w : Window α} (h : w.Compact) (hcount : w.count = 1) :
    w.live = 1 := by
  obtain ⟨a, ha⟩ := Option.isSome_iff_exists.mp (h.first (by omega))
  have hpos := live_pos_of_get h.counted ha
  have hle : w.slots.countP Option.isSome ≤ w.slots.length := List.countP_le_length
  have hlive := h.counted
  unfold Counted count at *
  omega

/-- The last key left makes a window of one slot. -/
theorem compact_single {w : Window α} (h : w.Counted) (hlive : w.live = 1) {i : Nat} {a : α}
    (hi : w.get (w.min + i) = some a) :
    Compact ⟨w.min + i, 1, [some a]⟩ ∧ ∀ k, get ⟨w.min + i, 1, [some a]⟩ k = w.get k := by
  have hcovers := covers_of_get hi
  obtain ⟨-, hslot⟩ := get_eq_some_iff.mp hi
  rw [Nat.add_sub_cancel_left] at hslot
  have hout : ∀ k, (w.get k).isSome → w.min + i ≤ k ∧ k < w.min + (i + 1) := by
    intro k hk
    obtain ⟨b, hb⟩ := Option.isSome_iff_exists.mp hk
    have := eq_of_live_one h hlive hi hb
    omega
  have hnarrow : w.narrow i (i + 1) = ⟨w.min + i, 1, [some a]⟩ := by
    unfold narrow
    rw [hlive, List.take_add_one, hslot, List.drop_append]
    have hlen : (w.slots.take i).length = i := by
      unfold Covers count at hcovers
      rw [List.length_take]
      omega
    simp [hlen]
  rw [← hnarrow]
  refine ⟨compact_narrow h (Nat.lt_succ_self i) ?_ hout ?_ ?_, get_narrow hout⟩
  · unfold Covers at hcovers
    omega
  · simp [hi]
  · simp [← Nat.add_assoc, hi]

/-- The first slot is empty and the last is not: the search for the next key from the left. -/
theorem compact_narrow_left {w : Window α} (h : w.Counted) (hcount : 1 < w.count)
    (hfirst : w.get w.min = none) (hlast : (w.get (w.min + w.count - 1)).isSome) :
    ∃ i, firstFrom 1 w.slots = some i ∧ 0 < i ∧ i < w.count ∧
      (w.narrow i w.count).Compact ∧ ∀ k, (w.narrow i w.count).get k = w.get k := by
  obtain ⟨b, hb⟩ := Option.isSome_iff_exists.mp hlast
  obtain ⟨-, hlastSlot⟩ := get_eq_some_iff.mp hb
  have hle : 1 ≤ w.min + w.count - 1 - w.min := by omega
  obtain ⟨i, hi⟩ := firstFrom_isSome hle hlastSlot
  obtain ⟨hone, ⟨a, ha⟩, hbefore⟩ := firstFrom_eq_some hi
  obtain ⟨hilt, -⟩ := List.getElem?_eq_some_iff.mp ha
  -- Before the first one that is found there are only empty slots.
  have hout : ∀ k, (w.get k).isSome → w.min + i ≤ k ∧ k < w.min + w.count := by
    intro k hk
    obtain ⟨d, hd⟩ := Option.isSome_iff_exists.mp hk
    obtain ⟨hmin, hslot⟩ := get_eq_some_iff.mp hd
    obtain ⟨-, hlt⟩ := covers_of_get hd
    refine ⟨?_, hlt⟩
    by_contra hlt'
    by_cases hzero : k = w.min
    · rw [hzero, hfirst] at hd
      cases hd
    · exact hbefore (k - w.min) (by omega) (by omega) d hslot
  have hget : (w.get (w.min + i)).isSome := by
    have : w.get (w.min + i) = some a :=
      get_eq_some_iff.mpr ⟨Nat.le_add_right _ _, by rwa [Nat.add_sub_cancel_left]⟩
    simp [this]
  exact ⟨i, hi, hone, hilt, compact_narrow h hilt (Nat.le_refl _) hout hget hlast, get_narrow hout⟩

/-- The last slot is empty and the first is not: the search for the next key from the right. -/
theorem compact_narrow_right {w : Window α} (h : w.Counted) (hcount : 1 < w.count)
    (hfirst : (w.get w.min).isSome) (hlast : w.get (w.min + w.count - 1) = none) :
    ∃ i, firstFrom 1 w.slots.reverse = some i ∧ 0 < i ∧ i < w.count ∧
      (w.narrow 0 (w.count - i)).Compact ∧
      ∀ k, (w.narrow 0 (w.count - i)).get k = w.get k := by
  -- The search goes through the slots from the last one on.
  have hrev : ∀ j : Nat, j < w.slots.length →
      w.slots.reverse[j]? = w.slots[w.slots.length - 1 - j]? := fun j hj => by
    rw [List.getElem?_reverse hj]
  have hlen : w.slots.length = w.count := rfl
  obtain ⟨b, hb⟩ := Option.isSome_iff_exists.mp hfirst
  obtain ⟨-, hfirstSlot⟩ := get_eq_some_iff.mp hb
  have hfirstRev : w.slots.reverse[w.count - 1]? = some (some b) := by
    rw [hrev _ (by omega), hlen, Nat.sub_self, ← hfirstSlot, Nat.sub_self]
  obtain ⟨i, hi⟩ := firstFrom_isSome (by omega : 1 ≤ w.count - 1) hfirstRev
  obtain ⟨hone, ⟨a, ha⟩, hbefore⟩ := firstFrom_eq_some hi
  obtain ⟨hilt, -⟩ := List.getElem?_eq_some_iff.mp ha
  rw [List.length_reverse, hlen] at hilt
  have hout : ∀ k, (w.get k).isSome → w.min + 0 ≤ k ∧ k < w.min + (w.count - i) := by
    intro k hk
    obtain ⟨d, hd⟩ := Option.isSome_iff_exists.mp hk
    obtain ⟨hmin, hslot⟩ := get_eq_some_iff.mp hd
    obtain ⟨-, hlt⟩ := covers_of_get hd
    refine ⟨hmin, ?_⟩
    by_contra hge
    by_cases hend : k = w.min + w.count - 1
    · rw [hend, hlast] at hd
      cases hd
    · refine hbefore (w.count - 1 - (k - w.min)) (by omega) (by omega) d ?_
      rw [hrev _ (by omega), hlen]
      have hsub : w.count - 1 - (w.count - 1 - (k - w.min)) = k - w.min := by omega
      rw [hsub, hslot]
  have hget : (w.get (w.min + (w.count - i) - 1)).isSome := by
    rw [hrev _ (by omega), hlen] at ha
    have hsub : w.min + (w.count - i) - 1 - w.min = w.count - 1 - i := by omega
    have : w.get (w.min + (w.count - i) - 1) = some a :=
      get_eq_some_iff.mpr ⟨by omega, by rw [hsub, ha]⟩
    simp [this]
  exact ⟨i, hi, hone, hilt, compact_narrow h (by omega) (by omega) hout hfirst hget,
    get_narrow hout⟩

/-! ## Pruning -/

/-- What has to be left of a window onto keys below `n` when a key has been taken out. -/
structure Pruned (n c : Nat) (w w' : Window α) : Prop where
  compact : w'.Compact
  bound : w'.min + w'.count ≤ n
  get : ∀ k, w'.get k = if k = c then none else w.get k

section Pruned
variable {n c : Nat} {w : Window α} {a : α}

/-- The only slot is given up. -/
theorem pruned_cleared (h : w.Compact) (hbound : w.min + w.count ≤ n) (hc : w.get c = some a)
    (hone : w.count = 1) : Pruned n c w ⟨w.min, 0, []⟩ := by
  refine ⟨⟨rfl, by simp [count], by simp [count]⟩, ?_, fun k => ?_⟩
  · exact Nat.le_trans (Nat.le_add_right _ _) hbound
  · have hnil : get (⟨w.min, 0, []⟩ : Window α) k = none := by simp [get]
    rw [hnil]
    split
    · rfl
    · rename_i hk
      cases hget : w.get k with
      | none => rfl
      | some b =>
          exact absurd (eq_of_live_one h.counted (h.live_of_count_one hone) hget hc) hk

/-- Whatever is found is the one key left. -/
theorem pruned_single (h : w.Compact) (hbound : w.min + w.count ≤ n) (hc : w.get c = some a)
    (hlive : w.live - 1 = 1) {i : Nat} {b : α} (hi : (w.erase c).get (w.min + i) = some b) :
    w.min + i < n ∧ Pruned n c w ⟨w.min + i, 1, [some b]⟩ := by
  obtain ⟨hcompact, hsame⟩ := compact_single (counted_erase h.counted hc) hlive hi
  obtain ⟨-, hlt⟩ := covers_of_get hi
  rw [min_erase, count_erase] at hlt
  have hin : w.min + i < n := Nat.lt_of_lt_of_le hlt hbound
  exact ⟨hin, hcompact, hin, fun k => (hsame k).trans (get_erase (covers_of_get hc) k)⟩

/-- The first key of several is taken out: the interval begins at the next one. -/
theorem pruned_left (h : w.Compact) (hbound : w.min + w.count ≤ n) (hc : w.get c = some a)
    (hcount : 1 < w.count) (hfirst : c = w.min) :
    ∃ i, firstFrom 1 (w.erase c).slots = some i ∧ 0 < i ∧ i < w.count ∧
      Pruned n c w ⟨w.min + i, w.live - 1, (w.erase c).slots.drop i⟩ := by
  have hget := get_erase (covers_of_get hc)
  have hnone : (w.erase c).get (w.erase c).min = none := by
    rw [min_erase, hget, if_pos hfirst.symm]
  have hlast : ((w.erase c).get ((w.erase c).min + (w.erase c).count - 1)).isSome := by
    rw [min_erase, count_erase, hget, if_neg (by omega)]
    exact h.last (by omega)
  obtain ⟨i, hfind, hi, hlt, hcompact, hsame⟩ :=
    compact_narrow_left (counted_erase h.counted hc) (by rwa [count_erase]) hnone hlast
  rw [count_erase] at hlt
  have htake : (w.erase c).slots.take (w.erase c).count = (w.erase c).slots := List.take_length
  have hnarrow : (w.erase c).narrow i (w.erase c).count =
      ⟨w.min + i, w.live - 1, (w.erase c).slots.drop i⟩ := by
    simp only [narrow, htake, min_erase, live_erase]
  refine ⟨i, hfind, hi, hlt, ?_⟩
  rw [← hnarrow]
  refine ⟨hcompact, ?_, fun k => (hsame k).trans (hget k)⟩
  exact bound_narrow (by simpa using hbound) (by rw [count_erase]; omega) (Nat.le_refl _)

/-- The last key of several is taken out: the interval ends at the one before. -/
theorem pruned_right (h : w.Compact) (hbound : w.min + w.count ≤ n) (hc : w.get c = some a)
    (hcount : 1 < w.count) (hlast : c = w.min + w.count - 1) :
    ∃ i, firstFrom 1 (w.erase c).slots.reverse = some i ∧ 0 < i ∧ i < w.count ∧
      Pruned n c w ⟨w.min, w.live - 1, (w.erase c).slots.take (w.count - i)⟩ := by
  have hget := get_erase (covers_of_get hc)
  have hfirst : ((w.erase c).get (w.erase c).min).isSome := by
    rw [min_erase, hget, if_neg (by omega)]
    exact h.first (by omega)
  have hnone : (w.erase c).get ((w.erase c).min + (w.erase c).count - 1) = none := by
    rw [min_erase, count_erase, hget, if_pos hlast.symm]
  obtain ⟨i, hfind, hi, hlt, hcompact, hsame⟩ :=
    compact_narrow_right (counted_erase h.counted hc) (by rwa [count_erase]) hfirst hnone
  rw [count_erase] at hlt hcompact hsame
  have hnarrow : (w.erase c).narrow 0 (w.count - i) =
      ⟨w.min, w.live - 1, (w.erase c).slots.take (w.count - i)⟩ := rfl
  refine ⟨i, hfind, hi, hlt, ?_⟩
  rw [← hnarrow]
  refine ⟨hcompact, ?_, fun k => (hsame k).trans (hget k)⟩
  exact bound_narrow (by simpa using hbound) (Nat.zero_le _) (by simp)

/-- A key between the ends is taken out: the interval stays. -/
theorem pruned_inside (h : w.Compact) (hbound : w.min + w.count ≤ n) (hc : w.get c = some a)
    (hfirst : c ≠ w.min) (hlast : c ≠ w.min + w.count - 1) : Pruned n c w (w.erase c) := by
  have hget := get_erase (covers_of_get hc)
  refine ⟨⟨counted_erase h.counted hc, fun hpos => ?_, fun hpos => ?_⟩, ?_, hget⟩
  · rw [min_erase, hget, if_neg (Ne.symm hfirst)]
    exact h.first (by simpa using hpos)
  · rw [min_erase, count_erase, hget, if_neg (Ne.symm hlast)]
    exact h.last (by simpa using hpos)
  · rwa [min_erase, count_erase]

end Pruned

/-! ## Cutting down to the keys left -/

/-- The least and the greatest key of a window. -/
structure Ends (w : Window α) (lo hi : Nat) : Prop where
  first : (w.get lo).isSome
  last : (w.get hi).isSome
  between : ∀ k, (w.get k).isSome → lo ≤ k ∧ k ≤ hi

section Ends
variable {w : Window α} {lo hi : Nat}

/-- Both ends are in the interval. -/
theorem Ends.covers (h : w.Ends lo hi) : w.min ≤ lo ∧ lo ≤ hi ∧ hi < w.min + w.count := by
  obtain ⟨a, ha⟩ := Option.isSome_iff_exists.mp h.first
  obtain ⟨b, hb⟩ := Option.isSome_iff_exists.mp h.last
  exact ⟨(covers_of_get ha).1, (h.between lo h.first).2, (covers_of_get hb).2⟩

/-- With one key left they are the same, ... -/
theorem Ends.eq_of_live_one (h : w.Ends lo hi) (hw : w.Counted) (hlive : w.live = 1) : lo = hi := by
  obtain ⟨a, ha⟩ := Option.isSome_iff_exists.mp h.first
  obtain ⟨b, hb⟩ := Option.isSome_iff_exists.mp h.last
  exact Window.eq_of_live_one hw hlive ha hb

/-- ... and with more they are not. -/
theorem Ends.lt_of_live (h : w.Ends lo hi) (hw : w.Counted) (hlive : 1 < w.live) : lo < hi := by
  obtain ⟨a, ha⟩ := Option.isSome_iff_exists.mp h.first
  -- there is another key without the first one
  obtain ⟨k, b, hk⟩ := exists_get_of_live (counted_erase hw ha) (by rw [live_erase]; omega)
  rw [get_erase (covers_of_get ha)] at hk
  split at hk
  · cases hk
  · have := h.between k (by simp [hk])
    omega

/-- A window is cut down to the keys from the least to the greatest. -/
theorem Ends.cut {n : Nat} (h : w.Ends lo hi) (hw : w.Counted) (hbound : w.min + w.count ≤ n) :
    let w' : Window α := ⟨lo, w.live, (w.slots.drop (lo - w.min)).take (hi - lo + 1)⟩
    w'.Compact ∧ w'.min + w'.count ≤ n ∧ ∀ k, w'.get k = w.get k := by
  intro w'
  obtain ⟨hlo, hle, hhi⟩ := h.covers
  have hfirst : w.min + (lo - w.min) = lo := Nat.add_sub_cancel' hlo
  have hlast : w.min + (hi - w.min + 1) = hi + 1 := by omega
  have hnarrow : w.narrow (lo - w.min) (hi - w.min + 1) = w' := by
    have hlen : lo - w.min + (hi - lo + 1) = hi - w.min + 1 := by omega
    simp only [w', narrow, hfirst, List.take_drop, hlen]
  have hout : ∀ k, (w.get k).isSome → w.min + (lo - w.min) ≤ k ∧ k < w.min + (hi - w.min + 1) := by
    intro k hk
    rw [hfirst, hlast]
    exact ⟨(h.between k hk).1, Nat.lt_succ_of_le (h.between k hk).2⟩
  rw [← hnarrow]
  refine ⟨compact_narrow hw (by omega) (by omega) hout ?_ ?_,
    bound_narrow hbound (by omega) (by omega), get_narrow hout⟩
  · rw [hfirst]
    exact h.first
  · rw [hlast]
    exact h.last

/-- There is nothing to cut off if they are at the ends already. -/
theorem Ends.compact (h : w.Ends lo hi) (hw : w.Counted) (hlo : lo = w.min)
    (hhi : hi = w.min + w.count - 1) : w.Compact := by
  refine ⟨hw, fun _ => ?_, fun _ => ?_⟩
  · rw [← hlo]
    exact h.first
  · rw [← hhi]
    exact h.last

end Ends

end Window
end EventBus.Table
