import EventBus.Multimap.Basic

/-!
# Iterators over the multimap

An iterator is `none` for `end()` or `some i` for "the node with identity `i`". It is *valid* while
that node is in the map; `end()` is always valid. `suffix` is the run of nodes a `for` loop visits
when it starts at an iterator, stops at `end()` and its body leaves the map alone; `range` is the
same for a loop between two iterators.
-/

namespace EventBus

/-- `none` is `end()`. -/
abbrev Iter := Option Nat

namespace Multimap
variable {κ α : Type} [LinearOrder κ]

/-! ## Positions -/

/-- `begin()`. -/
def begin (m : Multimap κ α) : Iter := m.nodes.head?.map Node.id

/-- The first entry whose key is not less than `k`. -/
def lowerBound (m : Multimap κ α) (k : κ) : Iter :=
  (m.nodes.dropWhile (fun n => n.key < k)).head?.map Node.id

/-- The first entry whose key is greater than `k`. -/
def upperBound (m : Multimap κ α) (k : κ) : Iter :=
  (m.nodes.dropWhile (fun n => n.key ≤ k)).head?.map Node.id

/-- `find`: the lower bound if its key is `k`, else `end()`. -/
def find (m : Multimap κ α) (k : κ) : Iter :=
  match m.nodes.dropWhile (fun n => n.key < k) with
  | n :: _ => if k < n.key then none else some n.id
  | [] => none

/-- `equal_range`. -/
def equalRange (m : Multimap κ α) (k : κ) : Iter × Iter := (m.lowerBound k, m.upperBound k)

/-- The nodes from an iterator up to `end()`. -/
def suffix (m : Multimap κ α) : Iter → List (Node κ α)
  | none => []
  | some i => m.nodes.dropWhile (fun n => n.id ≠ i)

/-- The nodes from `first` up to, not including, `last`. -/
def range (m : Multimap κ α) (first last : Iter) : List (Node κ α) :=
  (m.suffix first).takeWhile (fun n => some n.id ≠ last)

/-- An iterator may be dereferenced, incremented or compared: `end()`, or its entry is there. -/
def Valid (m : Multimap κ α) (it : Iter) : Prop := ∀ i, it = some i → ∃ n ∈ m.nodes, n.id = i

instance (m : Multimap κ α) (it : Iter) : Decidable (m.Valid it) :=
  match it with
  | none => .isTrue (by simp [Valid])
  | some i => decidable_of_iff (∃ n ∈ m.nodes, n.id = i) (by simp [Valid])

/-- The node under an iterator. -/
def deref (m : Multimap κ α) (it : Iter) : Option (Node κ α) :=
  m.nodes.find? (fun n => some n.id = it)

/-- `++it`, for an iterator to an entry. -/
def next (m : Multimap κ α) (it : Iter) : Iter := (m.suffix it).tail.head?.map Node.id

/-! ## What the loops visit -/

/-- The iterator to the head of a tail of the node list has exactly that tail in front of it. -/
theorem suffix_head (m : Multimap κ α) {l₁ l₂ : List (Node κ α)} (h : m.nodes = l₁ ++ l₂) :
    m.suffix (l₂.head?.map Node.id) = l₂ := by
  cases l₂ with
  | nil => rfl
  | cons a as =>
      have hnd := m.nodup
      rw [h, List.map_append, List.map_cons, List.nodup_middle, List.nodup_cons] at hnd
      have hne : ∀ x ∈ l₁, x.id ≠ a.id := by
        intro x hx heq
        exact hnd.1 (List.mem_append_left _ (List.mem_map.mpr ⟨x, hx, heq⟩))
      show m.nodes.dropWhile (fun n => n.id ≠ a.id) = a :: as
      rw [h, List.dropWhile_append_of_pos (by simpa using hne), List.dropWhile_cons]
      simp

@[simp] theorem suffix_begin (m : Multimap κ α) : m.suffix m.begin = m.nodes :=
  m.suffix_head (List.nil_append m.nodes).symm

theorem lowerBound_eq (m : Multimap κ α) (k : κ) :
    m.lowerBound k = (m.under k ++ m.above k).head?.map Node.id := by
  rw [lowerBound, dropWhile_lt, filter_le]

theorem upperBound_eq (m : Multimap κ α) (k : κ) :
    m.upperBound k = (m.above k).head?.map Node.id := by
  rw [upperBound, dropWhile_le, above]

/-- `find` yields the first entry under the key, and `end()` if there is none. -/
theorem find_eq (m : Multimap κ α) (k : κ) : m.find k = (m.under k).head?.map Node.id := by
  rw [find, dropWhile_lt, filter_le]
  cases hu : m.under k with
  | nil =>
      -- the lower bound, if there is one, is already above `k`
      cases ha : m.above k with
      | nil => rfl
      | cons a as =>
          have hlt : k < a.key := (mem_above.mp (ha ▸ List.mem_cons_self)).2
          simp [hlt]
  | cons a as =>
      have heq : a.key = k := (mem_under.mp (hu ▸ List.mem_cons_self)).2
      simp [heq]

theorem find_eq_none {m : Multimap κ α} {k : κ} : m.find k = none ↔ m.under k = [] := by
  rw [find_eq, Option.map_eq_none_iff, List.head?_eq_none_iff]

/-- From `find` a loop to `end()` visits the entries of the key and then every entry above it, if
the key is there at all, and nothing otherwise. -/
theorem suffix_find (m : Multimap κ α) (k : κ) :
    m.suffix (m.find k) = if m.under k = [] then [] else m.under k ++ m.above k := by
  split
  · next h => rw [find_eq_none.mpr h]; rfl
  · next h =>
      have hhead : (m.under k).head? = (m.under k ++ m.above k).head? :=
        (List.head?_append_of_ne_nil _ h).symm
      rw [find_eq, hhead, m.suffix_head (m.nodes_split k)]

/-- A tail of the list of nodes is what `takeWhile` up to the iterator at its head cuts off. -/
theorem takeWhile_until_head (m : Multimap κ α) {l₁ l₂ l₃ : List (Node κ α)}
    (h : m.nodes = l₁ ++ (l₂ ++ l₃)) :
    (l₂ ++ l₃).takeWhile (fun n => some n.id ≠ l₃.head?.map Node.id) = l₂ := by
  have hnd := m.nodup
  rw [h, List.map_append, List.map_append] at hnd
  have hdisj := (List.nodup_append.mp (List.nodup_append.mp hnd).2.1).2.2
  have hall : ∀ x ∈ l₂, decide (some x.id ≠ l₃.head?.map Node.id) = true := by
    intro x hx
    cases l₃ with
    | nil => simp
    | cons b bs =>
        have := hdisj x.id (List.mem_map.mpr ⟨x, hx, rfl⟩) b.id (by simp)
        simpa using this
  rw [List.takeWhile_append_of_pos hall]
  cases l₃ with
  | nil => simp
  | cons b bs => simp

/-- A loop over `equal_range(k)` visits exactly the entries under `k`. -/
theorem range_equalRange (m : Multimap κ α) (k : κ) :
    m.range (m.equalRange k).1 (m.equalRange k).2 = m.under k := by
  show (m.suffix (m.lowerBound k)).takeWhile (fun n => some n.id ≠ m.upperBound k) = _
  rw [lowerBound_eq, upperBound_eq, m.suffix_head (m.nodes_split k)]
  exact m.takeWhile_until_head (m.nodes_split k)

theorem deref_of_mem {m : Multimap κ α} {a : Node κ α} (ha : a ∈ m.nodes) :
    m.deref (some a.id) = some a := by
  unfold deref
  cases hfind : m.nodes.find? (fun n => some n.id = some a.id) with
  | none =>
      have hne := List.find?_eq_none.mp hfind a ha
      simp at hne
  | some b =>
      have hid : b.id = a.id := by simpa using List.find?_some hfind
      rw [m.eq_of_id_eq (List.mem_of_find?_eq_some hfind) ha hid]

/-! ## Loops over a map that changes

A loop from `it` to `last` needs more than valid iterators to come to an end: `it` must not have
passed `last`. Inserting never breaks this, and erasing only when it erases one of the two entries.
-/

/-- One entry comes before another. -/
def Precedes (m : Multimap κ α) (a b : Node κ α) : Prop := [a, b].Sublist m.nodes

/-- A loop iterator on its way to `last`, or there. -/
def Reaches (m : Multimap κ α) (it last : Iter) : Prop :=
  (it = last ∧ m.Valid last) ∨
    ∃ a ∈ m.nodes, it = some a.id ∧ ∀ j, last = some j → ∃ b, b.id = j ∧ m.Precedes a b

section Loop
variable {m : Multimap κ α} {a b : Node κ α}

theorem Precedes.insert (h : m.Precedes a b) (k : κ) (v : α) : (m.insert k v).Precedes a b := by
  apply List.Sublist.trans h
  conv_lhs => rw [← List.takeWhile_append_dropWhile (p := fun n => n.key ≤ k) (l := m.nodes)]
  exact List.Sublist.append_left (List.sublist_cons_self _ _) _

theorem Precedes.erase (h : m.Precedes a b) {i : Nat} (ha : a.id ≠ i) (hb : b.id ≠ i) :
    (m.erase i).Precedes a b := by
  have hfilter := List.Sublist.filter (fun n => decide (n.id ≠ i)) h
  rw [List.filter_cons, if_pos (by simpa using ha), List.filter_cons,
    if_pos (by simpa using hb)] at hfilter
  exact hfilter

theorem Precedes.mem_right (h : m.Precedes a b) : b ∈ m.nodes := h.subset (by simp)

theorem valid_of_mem (ha : a ∈ m.nodes) : m.Valid (some a.id) := by
  intro i hi
  exact ⟨a, ha, Option.some.inj hi⟩

/-- What comes after an entry is in the part of the list behind it. -/
theorem Precedes.mem_behind (h : m.Precedes a b) {l₁ l₂ : List (Node κ α)}
    (hsplit : m.nodes = l₁ ++ a :: l₂) : b ∈ l₂ := by
  have hnd : (l₁ ++ a :: l₂).Nodup := hsplit ▸ m.nodup.of_map
  unfold Precedes at h
  rw [hsplit, List.sublist_append_iff] at h
  obtain ⟨s₁, s₂, hs, h₁, h₂⟩ := h
  cases s₁ with
  | nil =>
      rw [List.nil_append] at hs
      rw [← hs, List.cons_sublist_cons] at h₂
      exact List.singleton_sublist.mp h₂
  | cons x xs =>
      -- `a` would occur twice
      have hx : a = x := (List.cons.inj hs).1
      have hmem : a ∈ l₁ := h₁.subset (hx ▸ List.mem_cons_self)
      exact absurd rfl ((List.nodup_append.mp hnd).2.2 a hmem a List.mem_cons_self)

theorem next_of_split {l₁ l₂ : List (Node κ α)} (hsplit : m.nodes = l₁ ++ a :: l₂) :
    m.next (some a.id) = l₂.head?.map Node.id := by
  have hsuffix := m.suffix_head hsplit
  rw [List.head?_cons, Option.map_some] at hsuffix
  rw [next, hsuffix, List.tail_cons]

/-- Incrementing an iterator that is still on its way leads to one that is. -/
theorem reaches_next (ha : a ∈ m.nodes) {last : Iter}
    (hlast : ∀ j, last = some j → ∃ b, b.id = j ∧ m.Precedes a b) :
    m.Reaches (m.next (some a.id)) last := by
  obtain ⟨l₁, l₂, hsplit⟩ := List.append_of_mem ha
  rw [next_of_split hsplit]
  cases last with
  | none =>
      cases l₂ with
      | nil => exact Or.inl ⟨rfl, by intro i hi; cases hi⟩
      | cons a' l₃ =>
          refine Or.inr ⟨a', by simp [hsplit], rfl, ?_⟩
          intro j hj
          cases hj
  | some j =>
      obtain ⟨b, rfl, hab⟩ := hlast j rfl
      have hb := hab.mem_behind hsplit
      cases l₂ with
      | nil => cases hb
      | cons a' l₃ =>
          rcases List.mem_cons.mp hb with rfl | hb
          · exact Or.inl ⟨rfl, valid_of_mem hab.mem_right⟩
          · refine Or.inr ⟨a', by simp [hsplit], rfl, ?_⟩
            intro j hj
            cases hj
            refine ⟨b, rfl, ?_⟩
            unfold Precedes
            rw [hsplit]
            apply List.Sublist.trans _ (List.sublist_append_right _ _)
            exact ((List.singleton_sublist.mpr hb).cons_cons a').cons a

theorem Reaches.valid {it last : Iter} (h : m.Reaches it last) : m.Valid it ∧ m.Valid last := by
  rcases h with ⟨rfl, hvalid⟩ | ⟨a, ha, rfl, hlast⟩
  · exact ⟨hvalid, hvalid⟩
  · refine ⟨valid_of_mem ha, ?_⟩
    intro j hj
    obtain ⟨b, hb, hab⟩ := hlast j hj
    exact ⟨b, hab.mem_right, hb⟩

/-- The loop over an equal range starts on its way to the end of the range. -/
theorem reaches_equalRange (m : Multimap κ α) (k : κ) :
    m.Reaches (m.equalRange k).1 (m.equalRange k).2 := by
  show m.Reaches (m.lowerBound k) (m.upperBound k)
  rw [lowerBound_eq, upperBound_eq]
  have hsplit := m.nodes_split k
  cases hu : m.under k with
  | nil =>
      refine Or.inl ⟨rfl, ?_⟩
      cases ha : m.above k with
      | nil => intro i hi; cases hi
      | cons b bs => exact valid_of_mem (mem_above.mp (ha ▸ List.mem_cons_self)).1
  | cons a as =>
      rw [hu] at hsplit
      refine Or.inr ⟨a, by rw [hsplit]; simp, rfl, ?_⟩
      intro j hj
      cases ha : m.above k with
      | nil => rw [ha] at hj; cases hj
      | cons b bs =>
          rw [ha] at hj hsplit
          refine ⟨b, Option.some.inj hj, ?_⟩
          unfold Precedes
          rw [hsplit]
          apply List.Sublist.trans _ (List.sublist_append_right _ _)
          apply List.Sublist.cons_cons
          exact List.singleton_sublist.mpr (by simp)

/-- So does the loop from `find` to `end()`. -/
theorem reaches_find (m : Multimap κ α) (k : κ) : m.Reaches (m.find k) none := by
  rw [find_eq]
  cases hu : m.under k with
  | nil => exact Or.inl ⟨rfl, by intro i hi; cases hi⟩
  | cons a as =>
      refine Or.inr ⟨a, (mem_under.mp (hu ▸ List.mem_cons_self)).1, rfl, ?_⟩
      intro j hj
      cases hj

end Loop

/-! ## Entries of one pair

A multimap may hold a pair more than once. Whoever erases "the entry of a pair" erases the first of
them, so an entry is safe as long as it has others of its pair ahead of it. -/

section Pairs
variable [DecidableEq α] {m : Multimap κ α} {k : κ} {v : α}

/-- The entries of one pair, in iteration order. -/
def entriesOf (m : Multimap κ α) (k : κ) (v : α) : List (Node κ α) :=
  m.nodes.filter (fun n => n.key = k ∧ n.val = v)

/-- How many entries of the same pair are ahead of an entry. -/
def ahead (m : Multimap κ α) (n : Node κ α) : Nat := (m.entriesOf n.key n.val).idxOf n

theorem mem_entriesOf {n : Node κ α} :
    n ∈ m.entriesOf k v ↔ n ∈ m.nodes ∧ n.key = k ∧ n.val = v := by
  simp [entriesOf]

theorem entriesOf_eq (m : Multimap κ α) (k : κ) (v : α) :
    m.entriesOf k v = (m.under k).filter (fun n => n.val = v) := by
  rw [entriesOf, under, List.filter_filter]
  apply List.filter_congr
  intro n _
  rw [Bool.eq_iff_iff]
  simp [and_comm]

/-- A new entry has the older ones of its pair ahead of it. -/
theorem ahead_insert {n : Node κ α} (hn : n ∈ m.nodes) (k : κ) (v : α) :
    (m.insert k v).ahead n = m.ahead n := by
  have hmem : n ∈ m.entriesOf n.key n.val := mem_entriesOf.mpr ⟨hn, rfl, rfl⟩
  unfold ahead
  rw [entriesOf_eq] at hmem ⊢
  rw [entriesOf_eq]
  by_cases hkey : k = n.key
  · rw [hkey, under_insert_self, List.filter_append]
    exact List.idxOf_append_of_mem hmem
  · rw [under_insert_of_ne m v hkey]

theorem entriesOf_erase (m : Multimap κ α) (i : Nat) (k : κ) (v : α) :
    (m.erase i).entriesOf k v = (m.entriesOf k v).filter (fun n => n.id ≠ i) := by
  rw [entriesOf, erase, entriesOf, List.filter_comm]

/-- Erasing an entry of another pair. -/
theorem ahead_erase_of_ne {e n : Node κ α} (he : e ∈ m.nodes)
    (hne : ¬ (e.key = n.key ∧ e.val = n.val)) : (m.erase e.id).ahead n = m.ahead n := by
  have hkeep : (m.entriesOf n.key n.val).filter (fun a => a.id ≠ e.id) =
      m.entriesOf n.key n.val := by
    rw [List.filter_eq_self]
    intro a ha
    obtain ⟨ha, hpair⟩ := mem_entriesOf.mp ha
    rw [decide_eq_true_eq]
    intro hid
    rw [m.eq_of_id_eq ha he hid] at hpair
    exact hne hpair
  unfold ahead
  rw [entriesOf_erase, hkeep]

/-- Erasing the first entry of the pair. -/
theorem ahead_erase_head {e n : Node κ α} {rest : List (Node κ α)}
    (hhead : m.entriesOf n.key n.val = e :: rest) (hne : e ≠ n) :
    m.ahead n = (m.erase e.id).ahead n + 1 := by
  have hnodup : ((e :: rest).map Node.id).Nodup :=
    hhead ▸ m.nodup.sublist (List.filter_sublist.map _)
  have hkeep : (e :: rest).filter (fun a => a.id ≠ e.id) = rest := by
    rw [List.filter_cons, if_neg (by simp), List.filter_eq_self]
    intro a ha
    rw [decide_eq_true_eq]
    intro hid
    rw [List.map_cons, List.nodup_cons] at hnodup
    exact hnodup.1 (List.mem_map.mpr ⟨a, ha, hid⟩)
  unfold ahead
  rw [entriesOf_erase, hhead, hkeep, List.idxOf_cons_ne rest hne]

theorem ahead_head {n : Node κ α} {rest : List (Node κ α)}
    (hhead : m.entriesOf n.key n.val = n :: rest) : m.ahead n = 0 := by
  rw [ahead, hhead, List.idxOf_cons_self]

end Pairs

end Multimap
end EventBus
