import Mathlib.Data.List.Nodup
import Mathlib.Data.List.TakeWhile
import Mathlib.Order.Lattice

/-!
# A sorted multimap whose nodes have an identity

The tree behind `std::multimap`, as the list of its nodes in iteration order. Three facts are part
of the type, so no lemma below has to assume them:

* the nodes are sorted by key;
* node identities are pairwise distinct;
* identities still to be handed out are larger than all identities in use.

An identity stands for "this entry, since it was inserted": it is never used again, even when an
equal pair is inserted later. That is what the validity rule of the container is about (an iterator
is valid until its own entry is erased), and memory addresses would not say it.

Two choices of the implementation are fixed here: `insert` puts a new entry at the end of the range
of its key, and `find` (in `Multimap/Iterator`) returns the first entry of that range.
-/

namespace EventBus

/-- One node of the tree. `id` is what an iterator to the node holds. -/
structure Node (κ α : Type) where
  id : Nat
  key : κ
  val : α
  deriving DecidableEq, Repr

/-- The multimap: nodes in iteration order, and the next identity to hand out. -/
structure Multimap (κ α : Type) [LinearOrder κ] where
  nodes : List (Node κ α)
  fresh : Nat
  sorted : nodes.Pairwise (fun a b => a.key ≤ b.key)
  nodup : (nodes.map Node.id).Nodup
  bound : ∀ n ∈ nodes, n.id < fresh

/-! ## Prefixes of a sorted list

On a list sorted by `R`, a predicate that is inherited downwards along `R` holds on an initial
segment, so `takeWhile` and `dropWhile` are the two filters. -/

section Prefix
variable {β : Type} {R : β → β → Prop} {p : β → Bool}

/-- What `dropWhile` leaves of a sorted list fails the predicate throughout. -/
theorem not_p_of_mem_dropWhile (hp : ∀ a b, R a b → p b = true → p a = true) :
    ∀ {l : List β}, l.Pairwise R → ∀ x ∈ l.dropWhile p, p x = false
  | [], _, x, hx => by simp at hx
  | a :: as, hl, x, hx => by
      obtain ⟨ha, has⟩ := List.pairwise_cons.mp hl
      rw [List.dropWhile_cons] at hx
      split at hx
      · exact not_p_of_mem_dropWhile hp has x hx
      · next hpa =>
          rcases List.mem_cons.mp hx with rfl | hx'
          · simpa using hpa
          · cases hpx : p x with
            | false => rfl
            | true => exact absurd (hp a x (ha x hx') hpx) hpa

theorem dropWhile_eq_filter (hp : ∀ a b, R a b → p b = true → p a = true) {l : List β}
    (hl : l.Pairwise R) : l.dropWhile p = l.filter (fun x => !p x) := by
  have htake : (l.takeWhile p).filter (fun x => !p x) = [] := by
    rw [List.filter_eq_nil_iff]
    intro x hx
    simp [List.mem_takeWhile_imp hx]
  have hdrop : (l.dropWhile p).filter (fun x => !p x) = l.dropWhile p := by
    rw [List.filter_eq_self]
    intro x hx
    simp [not_p_of_mem_dropWhile hp hl x hx]
  calc l.dropWhile p
      = (l.takeWhile p).filter (fun x => !p x) ++ (l.dropWhile p).filter (fun x => !p x) := by
        rw [htake, hdrop, List.nil_append]
    _ = l.filter (fun x => !p x) := by
        rw [← List.filter_append, List.takeWhile_append_dropWhile]

theorem takeWhile_eq_filter (hp : ∀ a b, R a b → p b = true → p a = true) {l : List β}
    (hl : l.Pairwise R) : l.takeWhile p = l.filter p := by
  have htake : (l.takeWhile p).filter p = l.takeWhile p := by
    rw [List.filter_eq_self]
    exact fun x hx => List.mem_takeWhile_imp hx
  have hdrop : (l.dropWhile p).filter p = [] := by
    rw [List.filter_eq_nil_iff]
    intro x hx
    simp [not_p_of_mem_dropWhile hp hl x hx]
  calc l.takeWhile p
      = (l.takeWhile p).filter p ++ (l.dropWhile p).filter p := by
        rw [htake, hdrop, List.append_nil]
    _ = l.filter p := by rw [← List.filter_append, List.takeWhile_append_dropWhile]

end Prefix

namespace Multimap
variable {κ α : Type} [LinearOrder κ]

/-- Nodes with equal identities are the same node. -/
theorem eq_of_id_eq (m : Multimap κ α) {a b : Node κ α} (ha : a ∈ m.nodes) (hb : b ∈ m.nodes)
    (h : a.id = b.id) : a = b :=
  List.inj_on_of_nodup_map m.nodup ha hb h

/-! ## The operations -/

/-- The container as constructed. -/
def empty : Multimap κ α := ⟨[], 0, .nil, .nil, by simp⟩

/-- The nodes not above `k`, in order. -/
theorem takeWhile_le (m : Multimap κ α) (k : κ) :
    m.nodes.takeWhile (fun n => n.key ≤ k) = m.nodes.filter (fun n => n.key ≤ k) :=
  takeWhile_eq_filter (fun _ _ hab hb => by simp only [decide_eq_true_eq] at *; exact hab.trans hb)
    m.sorted

theorem dropWhile_le (m : Multimap κ α) (k : κ) :
    m.nodes.dropWhile (fun n => n.key ≤ k) = m.nodes.filter (fun n => k < n.key) := by
  rw [dropWhile_eq_filter
    (fun _ _ hab hb => by simp only [decide_eq_true_eq] at *; exact hab.trans hb) m.sorted]
  exact List.filter_congr fun n _ => by simp [← not_le]

theorem dropWhile_lt (m : Multimap κ α) (k : κ) :
    m.nodes.dropWhile (fun n => n.key < k) = m.nodes.filter (fun n => k ≤ n.key) := by
  rw [dropWhile_eq_filter
    (fun _ _ hab hb => by simp only [decide_eq_true_eq] at *; exact hab.trans_lt hb) m.sorted]
  exact List.filter_congr fun n _ => by simp [← not_lt]

/-- `insert`: a new node behind the last node whose key is not greater. -/
def insert (m : Multimap κ α) (k : κ) (v : α) : Multimap κ α where
  nodes := m.nodes.takeWhile (fun n => n.key ≤ k) ++
    ⟨m.fresh, k, v⟩ :: m.nodes.dropWhile (fun n => n.key ≤ k)
  fresh := m.fresh + 1
  sorted := by
    rw [takeWhile_le, dropWhile_le, List.pairwise_append, List.pairwise_cons]
    refine ⟨m.sorted.sublist List.filter_sublist,
      ⟨fun b hb => ?_, m.sorted.sublist List.filter_sublist⟩, fun a ha b hb => ?_⟩
    · have hkb : k < b.key := by simpa using (List.mem_filter.mp hb).2
      exact hkb.le
    · have hak : a.key ≤ k := by simpa using (List.mem_filter.mp ha).2
      rcases List.mem_cons.mp hb with rfl | hb'
      · exact hak
      · have hkb : k < b.key := by simpa using (List.mem_filter.mp hb').2
        exact hak.trans hkb.le
  nodup := by
    have hne : m.fresh ∉ m.nodes.map Node.id := by
      intro h
      obtain ⟨n, hn, hid⟩ := List.mem_map.mp h
      exact absurd (m.bound n hn) (by omega)
    rw [List.map_append, List.map_cons, List.nodup_middle, ← List.map_append,
      List.takeWhile_append_dropWhile]
    exact List.nodup_cons.mpr ⟨hne, m.nodup⟩
  bound := by
    intro n hn
    rcases List.mem_append.mp hn with hn | hn
    · exact Nat.lt_succ_of_lt (m.bound n ((List.takeWhile_sublist _).subset hn))
    · rcases List.mem_cons.mp hn with rfl | hn
      · exact Nat.lt_succ_self _
      · exact Nat.lt_succ_of_lt (m.bound n ((List.dropWhile_sublist _).subset hn))

/-- `erase`: unlink the node an iterator points to. -/
def erase (m : Multimap κ α) (i : Nat) : Multimap κ α where
  nodes := m.nodes.filter (fun n => n.id ≠ i)
  fresh := m.fresh
  sorted := m.sorted.sublist List.filter_sublist
  nodup := m.nodup.sublist (List.filter_sublist.map _)
  bound := fun n hn => m.bound n (List.mem_filter.mp hn).1

/-! ## What is in the map -/

/-- The key-value pairs, in iteration order. -/
def entries (m : Multimap κ α) : List (κ × α) := m.nodes.map (fun n => (n.key, n.val))

/-- The nodes under one key, in iteration order. -/
def under (m : Multimap κ α) (k : κ) : List (Node κ α) := m.nodes.filter (fun n => n.key = k)

/-- The nodes above one key, in iteration order. -/
def above (m : Multimap κ α) (k : κ) : List (Node κ α) := m.nodes.filter (fun n => k < n.key)

theorem mem_entries {m : Multimap κ α} {k : κ} {v : α} :
    (k, v) ∈ m.entries ↔ ∃ n ∈ m.nodes, n.key = k ∧ n.val = v := by
  simp [entries]

theorem mem_under {m : Multimap κ α} {k : κ} {n : Node κ α} :
    n ∈ m.under k ↔ n ∈ m.nodes ∧ n.key = k := by
  simp [under]

theorem mem_above {m : Multimap κ α} {k : κ} {n : Node κ α} :
    n ∈ m.above k ↔ n ∈ m.nodes ∧ k < n.key := by
  simp [above]

/-- The entries not below `k` are those under `k` followed by those above it. -/
theorem filter_le (m : Multimap κ α) (k : κ) :
    m.nodes.filter (fun n => k ≤ n.key) = m.under k ++ m.above k := by
  set l := m.nodes.filter (fun n => k ≤ n.key) with hl
  have hsorted : l.Pairwise (fun a b => a.key ≤ b.key) := m.sorted.sublist List.filter_sublist
  have hle : ∀ a b : Node κ α, a.key ≤ b.key → decide (b.key ≤ k) = true →
      decide (a.key ≤ k) = true := by
    intro a b hab hb
    simp only [decide_eq_true_eq] at *
    exact hab.trans hb
  calc l = l.takeWhile (fun n => n.key ≤ k) ++ l.dropWhile (fun n => n.key ≤ k) :=
        List.takeWhile_append_dropWhile.symm
    _ = l.filter (fun n => n.key ≤ k) ++ l.filter (fun n => !decide (n.key ≤ k)) := by
        rw [takeWhile_eq_filter hle hsorted, dropWhile_eq_filter hle hsorted]
    _ = m.under k ++ m.above k := by
        rw [hl, List.filter_filter, List.filter_filter, under, above]
        congr 1
        · refine List.filter_congr fun n _ => ?_
          rw [← Bool.decide_and, decide_eq_decide]
          exact le_antisymm_iff.symm
        · refine List.filter_congr fun n _ => ?_
          by_cases h : k < n.key
          · simp [h, h.le]
          · simp [h, not_lt.mp h]

/-- The nodes below a key, under it and above it, in this order, are all nodes. -/
theorem nodes_split (m : Multimap κ α) (k : κ) :
    m.nodes = m.nodes.takeWhile (fun n => n.key < k) ++ (m.under k ++ m.above k) := by
  rw [← filter_le, ← dropWhile_lt, List.takeWhile_append_dropWhile]

/-- Inserting adds one node and keeps all others. -/
theorem nodes_insert_perm (m : Multimap κ α) (k : κ) (v : α) :
    (m.insert k v).nodes.Perm (⟨m.fresh, k, v⟩ :: m.nodes) := by
  have h : (m.insert k v).nodes.Perm (⟨m.fresh, k, v⟩ ::
      (m.nodes.takeWhile (fun n => n.key ≤ k) ++ m.nodes.dropWhile (fun n => n.key ≤ k))) :=
    List.perm_middle
  rwa [List.takeWhile_append_dropWhile] at h

theorem mem_insert {m : Multimap κ α} {k : κ} {v : α} {n : Node κ α} :
    n ∈ (m.insert k v).nodes ↔ n = ⟨m.fresh, k, v⟩ ∨ n ∈ m.nodes := by
  rw [(nodes_insert_perm m k v).mem_iff, List.mem_cons]

/-- The identity an insertion gives its entry is new. -/
theorem fresh_not_mem (m : Multimap κ α) (k : κ) (v : α) : (⟨m.fresh, k, v⟩ : Node κ α) ∉ m.nodes :=
  fun hmem => absurd (m.bound _ hmem) (Nat.lt_irrefl _)

theorem insert_ne_self (m : Multimap κ α) (k : κ) (v : α) : m.insert k v ≠ m := by
  intro hsame
  apply m.fresh_not_mem k v
  have hmem : (⟨m.fresh, k, v⟩ : Node κ α) ∈ (m.insert k v).nodes := mem_insert.mpr (Or.inl rfl)
  rwa [hsame] at hmem

/-- A new entry goes to the end of the range of its key. -/
theorem under_insert_self (m : Multimap κ α) (k : κ) (v : α) :
    (m.insert k v).under k = m.under k ++ [⟨m.fresh, k, v⟩] := by
  have htake : (m.nodes.filter (fun n => n.key ≤ k)).filter (fun n => n.key = k) = m.under k := by
    rw [List.filter_filter, under]
    refine List.filter_congr fun n _ => ?_
    by_cases h : n.key = k <;> simp [h]
  have hdrop : (m.nodes.filter (fun n => k < n.key)).filter (fun n => n.key = k) = [] := by
    rw [List.filter_filter, List.filter_eq_nil_iff]
    intro n _
    by_cases h : n.key = k <;> simp [h]
  rw [under, insert, List.filter_append, takeWhile_le, dropWhile_le, htake, List.filter_cons, hdrop]
  simp

/-- Inserting leaves the ranges of the other keys alone. -/
theorem under_insert_of_ne (m : Multimap κ α) {k k' : κ} (v : α) (h : k ≠ k') :
    (m.insert k v).under k' = m.under k' := by
  rw [under, insert, List.filter_append, List.filter_cons, if_neg (by simpa using h),
    ← List.filter_append, List.takeWhile_append_dropWhile, under]

theorem mem_erase {m : Multimap κ α} {i : Nat} {n : Node κ α} :
    n ∈ (m.erase i).nodes ↔ n ∈ m.nodes ∧ n.id ≠ i := by
  simp [erase]

theorem erase_ne_self {m : Multimap κ α} {n : Node κ α} (hn : n ∈ m.nodes) : m.erase n.id ≠ m := by
  intro hsame
  rw [← hsame] at hn
  exact (mem_erase.mp hn).2 rfl

theorem under_erase (m : Multimap κ α) (i : Nat) (k : κ) :
    (m.erase i).under k = (m.under k).filter (fun n => n.id ≠ i) := by
  rw [under, erase, under, List.filter_comm]

end Multimap
end EventBus
