import Mathlib.Logic.Equiv.Basic
import Mathlib.Data.List.Basic

/-!
# An array whose items know where they are

Each item keeps its own index, so that it is found and removed in constant time. Items are removed
by putting the last one in their place, and moved by swapping two of them. `Sound` says that every
item is where it says it is; then an operation on the array is a permutation of indices, and what is
kept at one end of the array is a set, told from the rest by `Below`.
-/

namespace EventBus.Table

structure IndexedArray (ι : Type*) where
  items : List ι
  /-- The index an item keeps; it means nothing for what is not in the array. -/
  index : ι → Nat

namespace IndexedArray
variable {ι : Type*} [DecidableEq ι]

def empty : IndexedArray ι := ⟨[], fun _ => 0⟩

def pushBack (p : ι) (a : IndexedArray ι) : IndexedArray ι :=
  ⟨a.items ++ [p], Function.update a.index p a.items.length⟩

/-- Nothing comes out if there is no item at one of the places. -/
def swap (i j : Nat) (a : IndexedArray ι) : Option (IndexedArray ι) :=
  a.items[i]?.bind fun p => a.items[j]?.map fun q =>
    ⟨(a.items.set i q).set j p, Function.update (Function.update a.index p j) q i⟩

/-- The last item takes the place of `p`. -/
def erase (p : ι) (a : IndexedArray ι) : Option (IndexedArray ι) :=
  a.items.getLast?.bind fun last =>
    if a.index p < a.items.length then
      some ⟨(a.items.set (a.index p) last).dropLast, Function.update a.index last (a.index p)⟩
    else none

/-- An item is taken out of the first `n`, if it is one of them. -/
def leave (p : ι) (n : Nat) (a : IndexedArray ι) : Option (IndexedArray ι × Nat) :=
  if a.index p < n then (a.swap (a.index p) (n - 1)).map fun a => (a, n - 1) else some (a, n)

structure Sound (a : IndexedArray ι) : Prop where
  index_eq : ∀ i p, a.items[i]? = some p → a.index p = i

/-- One of the first `n` items. -/
def Below (n : Nat) (p : ι) (a : IndexedArray ι) : Prop := p ∈ a.items ∧ a.index p < n

instance (n : Nat) (p : ι) (a : IndexedArray ι) : Decidable (Below n p a) :=
  inferInstanceAs (Decidable (_ ∧ _))

omit [DecidableEq ι] in
theorem sound_empty : Sound (empty : IndexedArray ι) := ⟨by simp [empty]⟩

section
variable {a : IndexedArray ι} {p q : ι} {i j : Nat}

omit [DecidableEq ι] in
theorem Sound.get_index (h : Sound a) (hp : p ∈ a.items) : a.items[a.index p]? = some p := by
  obtain ⟨i, hi⟩ := List.mem_iff_getElem?.mp hp
  rw [h.index_eq i p hi]
  exact hi

omit [DecidableEq ι] in
theorem Sound.index_lt (h : Sound a) (hp : p ∈ a.items) : a.index p < a.items.length :=
  (List.getElem?_eq_some_iff.mp (h.get_index hp)).1

omit [DecidableEq ι] in
theorem Sound.index_inj (h : Sound a) (hp : p ∈ a.items) (hq : q ∈ a.items)
    (heq : a.index p = a.index q) : p = q := by
  have hpq := h.get_index hp
  rw [heq, h.get_index hq] at hpq
  exact (Option.some.inj hpq).symm

theorem Sound.pushBack (h : Sound a) (hp : p ∉ a.items) : Sound (a.pushBack p) := by
  refine ⟨fun i q hi => ?_⟩
  show Function.update a.index p a.items.length q = i
  rw [IndexedArray.pushBack, List.getElem?_append] at hi
  by_cases hlt : i < a.items.length
  · rw [if_pos hlt] at hi
    have hq : q ≠ p := fun heq => hp (heq ▸ List.mem_of_getElem? hi)
    rw [Function.update_of_ne hq]
    exact h.index_eq i q hi
  · rw [if_neg hlt, List.getElem?_singleton] at hi
    split at hi
    · cases hi
      rw [Function.update_self]
      omega
    · cases hi

theorem mem_pushBack : q ∈ (a.pushBack p).items ↔ q ∈ a.items ∨ q = p := by
  rw [pushBack, List.mem_append, List.mem_singleton]

theorem index_pushBack (hp : p ∉ a.items) (hq : q ∈ a.items) :
    (a.pushBack p).index q = a.index q := by
  have hne : q ≠ p := fun heq => hp (heq ▸ hq)
  exact Function.update_of_ne hne _ _

theorem index_pushBack_self : (a.pushBack p).index p = a.items.length := Function.update_self ..

omit [DecidableEq ι] in
/-- The items after a swap, by their places before it. -/
private theorem getElem?_set_set {items : List ι} {i j : Nat} {x y : ι} (hx : items[i]? = some x)
    (hy : items[j]? = some y) (k : Nat) :
    ((items.set i y).set j x)[k]? = items[Equiv.swap i j k]? := by
  have hi := (List.getElem?_eq_some_iff.mp hx).1
  have hj := (List.getElem?_eq_some_iff.mp hy).1
  rw [List.getElem?_set, List.getElem?_set, List.length_set, Equiv.swap_apply_def]
  by_cases hkj : k = j
  · subst hkj
    by_cases hki : k = i
    · subst hki
      rw [if_pos rfl, if_pos hj, if_pos rfl, hx]
    · rw [if_pos rfl, if_pos hj, if_neg hki, if_pos rfl, hx]
  · rw [if_neg (Ne.symm hkj)]
    by_cases hki : k = i
    · subst hki
      rw [if_pos rfl, if_pos hi, if_pos rfl, hy]
    · rw [if_neg (Ne.symm hki), if_neg hki, if_neg hkj]

omit [DecidableEq ι] in
/-- The items after the last one has been put in a place. -/
private theorem getElem?_set_dropLast {items : List ι} (i : Nat) (last : ι) (k : Nat) :
    ((items.set i last).dropLast)[k]? =
      if k + 1 < items.length then if i = k then some last else items[k]? else none := by
  rw [List.getElem?_dropLast, List.length_set, List.getElem?_set]
  by_cases hk : k + 1 < items.length
  · rw [if_pos (by omega), if_pos hk]
    by_cases hik : i = k
    · rw [if_pos hik, if_pos (by omega), if_pos hik]
    · rw [if_neg hik, if_neg hik]
  · rw [if_neg (by omega), if_neg hk]

/-- `b` is `a` with two items swapped. -/
structure Swapped (a b : IndexedArray ι) (i j : Nat) : Prop where
  sound : Sound b
  length : b.items.length = a.items.length
  mem : ∀ q, q ∈ b.items ↔ q ∈ a.items
  index : ∀ q ∈ a.items, b.index q = Equiv.swap i j (a.index q)

/-- **Swapping** two items swaps two indices. -/
theorem Sound.swap_spec (h : Sound a) (hi : i < a.items.length) (hj : j < a.items.length) :
    ∃ b, a.swap i j = some b ∧ Swapped a b i j := by
  let x := a.items[i]
  let y := a.items[j]
  let b : IndexedArray ι :=
    ⟨(a.items.set i y).set j x, Function.update (Function.update a.index x j) y i⟩
  have hx : a.items[i]? = some x := List.getElem?_eq_getElem hi
  have hy : a.items[j]? = some y := List.getElem?_eq_getElem hj
  have hget : ∀ k, b.items[k]? = a.items[Equiv.swap i j k]? := getElem?_set_set hx hy
  have hindex : ∀ q ∈ a.items, b.index q = Equiv.swap i j (a.index q) := by
    intro q hq
    show Function.update (Function.update a.index x j) y i q = _
    have hxi := h.index_eq i x hx
    have hyj := h.index_eq j y hy
    by_cases hqy : q = y
    · rw [hqy, Function.update_self, hyj, Equiv.swap_apply_right]
    · rw [Function.update_of_ne hqy]
      -- an item that is neither of the two keeps its index
      by_cases hqx : q = x
      · rw [hqx, Function.update_self, hxi, Equiv.swap_apply_left]
      · rw [Function.update_of_ne hqx, Equiv.swap_apply_of_ne_of_ne]
        · exact fun heq => hqx (h.index_inj hq (List.mem_of_getElem? hx) (heq.trans hxi.symm))
        · exact fun heq => hqy (h.index_inj hq (List.mem_of_getElem? hy) (heq.trans hyj.symm))
  refine ⟨b, by simp [swap, hx, hy, b], ⟨fun k q hk => ?_⟩, by simp [b], fun q => ?_, hindex⟩
  · rw [hget] at hk
    rw [hindex q (List.mem_of_getElem? hk), h.index_eq _ q hk, Equiv.swap_apply_self]
  · rw [List.mem_iff_getElem?, List.mem_iff_getElem?]
    simp only [hget]
    exact (Equiv.swap i j).exists_congr_left.trans (by simp)

/-- **Erasing** an item moves the last one. -/
theorem Sound.erase_spec (h : Sound a) (hp : p ∈ a.items) :
    ∃ b, a.erase p = some b ∧ Sound b ∧ b.items.length + 1 = a.items.length ∧
      (∀ q, q ∈ b.items ↔ q ∈ a.items ∧ q ≠ p) ∧
      ∀ q ∈ b.items, b.index q =
        if a.index q + 1 = a.items.length then a.index p else a.index q := by
  have hlt := h.index_lt hp
  have hpos : 0 < a.items.length := Nat.zero_lt_of_lt hlt
  let last := a.items[a.items.length - 1]
  have hlast : a.items[a.items.length - 1]? = some last := List.getElem?_eq_getElem _
  have hlast' := h.index_eq _ _ hlast
  let b : IndexedArray ι :=
    ⟨(a.items.set (a.index p) last).dropLast, Function.update a.index last (a.index p)⟩
  have hget : ∀ k, b.items[k]? =
      if k + 1 < a.items.length then if a.index p = k then some last else a.items[k]? else none :=
    getElem?_set_dropLast _ _
  have hmem : ∀ q, q ∈ b.items ↔ q ∈ a.items ∧ q ≠ p := by
    intro q
    constructor
    · intro hq
      obtain ⟨k, hk⟩ := List.mem_iff_getElem?.mp hq
      rw [hget] at hk
      split at hk
      · split at hk
        · cases hk
          refine ⟨List.mem_of_getElem? hlast, fun heq => ?_⟩
          rw [heq] at hlast'
          omega
        · rename_i hne
          refine ⟨List.mem_of_getElem? hk, fun heq => hne ?_⟩
          rw [← heq]
          exact h.index_eq k q hk
      · cases hk
    · rintro ⟨hq, hne⟩
      have hqlt := h.index_lt hq
      have hindex : a.index p ≠ a.index q := fun heq => hne (h.index_inj hq hp heq.symm)
      rw [List.mem_iff_getElem?]
      -- `q` is where it was, unless it was the last one
      by_cases hql : a.index q + 1 < a.items.length
      · refine ⟨a.index q, ?_⟩
        rw [hget, if_pos hql, if_neg hindex]
        exact h.get_index hq
      · refine ⟨a.index p, ?_⟩
        rw [hget, if_pos (by omega), if_pos rfl]
        exact congrArg some (h.index_inj (List.mem_of_getElem? hlast) hq (by omega))
  have hindex : ∀ q ∈ b.items, b.index q =
      if a.index q + 1 = a.items.length then a.index p else a.index q := by
    intro q hq
    have hq := ((hmem q).mp hq).1
    show Function.update a.index last (a.index p) q = _
    by_cases hql : a.index q + 1 = a.items.length
    · have heq : q = last := h.index_inj hq (List.mem_of_getElem? hlast) (by omega)
      rw [if_pos hql, heq, Function.update_self]
    · have hne : q ≠ last := by
        intro heq
        rw [heq, hlast'] at hql
        omega
      rw [if_neg hql, Function.update_of_ne hne]
  refine ⟨b, ?_, ⟨fun k q hk => ?_⟩, by simp [b]; omega, hmem, hindex⟩
  · rw [erase, List.getLast?_eq_getElem?, hlast, Option.bind_some, if_pos hlt]
  · rw [hindex q (List.mem_of_getElem? hk)]
    rw [hget] at hk
    split at hk
    · split at hk
      · cases hk
        rw [if_pos (by omega)]
        assumption
      · rw [h.index_eq k q hk, if_neg (by omega)]
    · cases hk

/-! ## What is kept at the front -/

variable {b : IndexedArray ι} {n m : Nat}

omit [DecidableEq ι]

theorem Swapped.symm (h : Swapped a b i j) : Swapped a b j i :=
  ⟨h.sound, h.length, h.mem, fun q hq => by rw [Equiv.swap_comm]; exact h.index q hq⟩

theorem Swapped.below_iff (h : Swapped a b i j) :
    Below n q b ↔ q ∈ a.items ∧ Equiv.swap i j (a.index q) < n := by
  rw [Below, h.mem]
  exact and_congr_right fun hq => by rw [h.index q hq]

/-- Both places are in front, or neither is. -/
theorem Swapped.below_same (h : Swapped a b i j) (hn : i < n ↔ j < n) :
    Below n q b ↔ Below n q a := by
  rw [h.below_iff, Below, Equiv.swap_apply_def]
  refine and_congr_right fun _ => ?_
  split
  · omega
  · split <;> omega

/-- An item from behind comes to the front. -/
theorem Swapped.enter (h : Swapped a b (a.index p) n) (ha : Sound a) (hp : p ∈ a.items)
    (hn : n ≤ a.index p) : Below (n + 1) q b ↔ Below n q a ∨ q = p := by
  rw [h.below_iff, Below, Equiv.swap_apply_def]
  constructor
  · rintro ⟨hq, hlt⟩
    by_cases hqp : a.index q = a.index p
    · exact .inr (ha.index_inj hq hp hqp)
    · rw [if_neg hqp] at hlt
      split at hlt
      · omega
      · exact .inl ⟨hq, by omega⟩
  · rintro (⟨hq, hlt⟩ | rfl)
    · refine ⟨hq, ?_⟩
      rw [if_neg (by omega), if_neg (by omega)]
      omega
    · exact ⟨hp, by rw [if_pos rfl]; omega⟩

/-- An item goes from the front to behind. -/
theorem Swapped.leave (h : Swapped a b (a.index p) n) (ha : Sound a)
    (hp : Below (n + 1) p a) : (Below n q b ↔ Below (n + 1) q a ∧ q ≠ p) ∧ b.index p = n := by
  obtain ⟨hp, hlt⟩ := hp
  constructor
  · rw [h.below_iff, Below, Equiv.swap_apply_def, and_assoc]
    refine and_congr_right fun hq => ?_
    by_cases hqp : q = p
    · subst hqp
      simp
    · have hne : a.index q ≠ a.index p := fun heq => hqp (ha.index_inj hq hp heq)
      rw [if_neg hne]
      split
      · simp only [hqp, ne_eq, not_false_eq_true, and_true]
        omega
      · simp only [hqp, ne_eq, not_false_eq_true, and_true]
        omega
  · rw [h.index p hp, Equiv.swap_apply_left]

variable [DecidableEq ι]

/-- **Entering the first `n`**: a new item comes behind them, and what is in front stays where it
is. -/
theorem Sound.enter_new (h : Sound a) (hp : p ∉ a.items) (hn : n ≤ a.items.length) :
    ∃ b, (a.pushBack p).swap n ((a.pushBack p).items.length - 1) = some b ∧ Sound b ∧
      b.items.length = a.items.length + 1 ∧ (∀ q, q ∈ b.items ↔ q ∈ a.items ∨ q = p) ∧
      (∀ q, Below (n + 1) q b ↔ Below n q a ∨ q = p) ∧
      (∀ q ∈ a.items, a.index q < n → b.index q = a.index q) ∧
      ∀ k ≤ n, ∀ q, Below k q b ↔ Below k q a := by
  have hsound := h.pushBack hp
  have hlast := index_pushBack_self (a := a) (p := p)
  have hlen : (a.pushBack p).items.length = a.items.length + 1 := List.length_append
  have hmem : p ∈ (a.pushBack p).items := mem_pushBack.mpr (.inr rfl)
  have hbelow : ∀ k ≤ a.items.length, ∀ q, Below k q (a.pushBack p) ↔ Below k q a := by
    intro k hk q
    constructor
    · rintro ⟨hq, hlt⟩
      rcases mem_pushBack.mp hq with hq | rfl
      · exact ⟨hq, by rwa [index_pushBack hp hq] at hlt⟩
      · rw [hlast] at hlt
        omega
    · rintro ⟨hq, hlt⟩
      exact ⟨mem_pushBack.mpr (.inl hq), by rwa [index_pushBack hp hq]⟩
  have hlast' : (a.pushBack p).items.length - 1 = (a.pushBack p).index p := by omega
  obtain ⟨b, hswap, hb⟩ := hsound.swap_spec (i := n) (j := (a.pushBack p).index p) (by omega)
    (by omega)
  refine ⟨b, by rw [hlast', hswap], hb.sound, hb.length.trans hlen,
    fun q => by rw [hb.mem, mem_pushBack], fun q => ?_, fun q hq hlt => ?_, fun k hk q => ?_⟩
  · rw [hb.symm.enter hsound hmem (by omega), hbelow _ hn]
  · rw [hb.index q (mem_pushBack.mpr (.inl hq)), index_pushBack hp hq,
      Equiv.swap_apply_of_ne_of_ne (by omega) (by omega)]
  · rw [hb.below_same (by omega), hbelow k (by omega)]

/-- **Leaving the first `n`**: what is in front of the item, and the first items of a longer part,
are the same as before. -/
theorem Sound.leave_spec (h : Sound a) (hp : p ∈ a.items) (hn : n ≤ a.items.length) :
    ∃ b m, a.leave p n = some (b, m) ∧ Sound b ∧ b.items.length = a.items.length ∧
      (∀ q, q ∈ b.items ↔ q ∈ a.items) ∧ m = (if a.index p < n then n - 1 else n) ∧
      m ≤ b.index p ∧ (∀ q, Below m q b ↔ Below n q a ∧ q ≠ p) ∧
      ∀ k, k ≤ m ∧ k ≤ a.index p ∨ n ≤ k → ∀ q, Below k q b ↔ Below k q a := by
  by_cases hlt : a.index p < n
  · obtain ⟨m, rfl⟩ : ∃ m, n = m + 1 := ⟨n - 1, by omega⟩
    obtain ⟨b, hswap, hb⟩ := h.swap_spec (i := a.index p) (j := m) (by omega) (by omega)
    have hleave := fun q => hb.leave (q := q) h ⟨hp, hlt⟩
    refine ⟨b, m, by simp [leave, hlt, hswap], hb.sound, hb.length, hb.mem, by simp [hlt],
      Nat.le_of_eq (hleave p).2.symm, fun q => (hleave q).1, fun k hk q => hb.below_same (by omega)⟩
  · refine ⟨a, n, by simp [leave, hlt], h, rfl, fun _ => Iff.rfl, by simp [hlt], by omega,
      fun q => ⟨fun hq => ⟨hq, ?_⟩, And.left⟩, fun _ _ _ => Iff.rfl⟩
    rintro rfl
    exact hlt hq.2

/-- Erasing an item that is behind the first `n`. -/
theorem Sound.erase_below (h : Sound a) (hp : p ∈ a.items) :
    ∃ b, a.erase p = some b ∧ Sound b ∧ b.items.length + 1 = a.items.length ∧
      (∀ q, q ∈ b.items ↔ q ∈ a.items ∧ q ≠ p) ∧
      ∀ k ≤ a.index p, ∀ q, Below k q b ↔ Below k q a := by
  obtain ⟨b, herase, hb, hlen, hmem, hindex⟩ := h.erase_spec hp
  refine ⟨b, herase, hb, hlen, hmem, fun k hk q => ⟨?_, ?_⟩⟩
  · rintro ⟨hq, hlt⟩
    rw [hindex q hq] at hlt
    refine ⟨((hmem q).mp hq).1, ?_⟩
    split at hlt <;> omega
  · rintro ⟨hq, hlt⟩
    have hne : q ≠ p := by
      rintro rfl
      omega
    have hq' := (hmem q).mpr ⟨hq, hne⟩
    have hp' := h.index_lt hp
    refine ⟨hq', ?_⟩
    rw [hindex q hq', if_neg (by omega)]
    exact hlt

end
end IndexedArray
end EventBus.Table
