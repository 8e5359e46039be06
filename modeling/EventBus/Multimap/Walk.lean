import EventBus.Multimap.Iterator
import Mathlib.Data.List.Perm.Basic

/-!
# What a loop has still to visit

A loop that stands at an entry will visit a stretch of entries behind it and then stop. If the map
changes in the meantime, that stretch changes with it: an entry that is inserted may join it, one
that is erased leaves it, and the rest stays in order. This needs the entry the loop stands at and
the one it stops at to stay where they are.
-/

namespace EventBus.Multimap

variable {κ α : Type} [LinearOrder κ] {m : Multimap κ α} {a : Node κ α} {w : List (Node κ α)}
  {last : Iter}

/-- A loop at `a` will visit `w` and then be at `last`. -/
def Visits (m : Multimap κ α) (a : Node κ α) (w : List (Node κ α)) (last : Iter) : Prop :=
  ∃ l r, m.nodes = l ++ a :: (w ++ r) ∧ last = r.head?.map Node.id

theorem Visits.mem (h : m.Visits a w last) : a ∈ m.nodes := by
  obtain ⟨l, r, hsplit, -⟩ := h
  simp [hsplit]

/-- The loop has not arrived yet. -/
theorem Visits.ne_last (h : m.Visits a w last) : some a.id ≠ last := by
  obtain ⟨l, r, hsplit, hlast⟩ := h
  rw [hlast]
  intro hid
  obtain ⟨b, hb, hid⟩ := Option.map_eq_some_iff.mp hid.symm
  have hnodup := m.nodup
  rw [hsplit, List.map_append, List.map_cons, List.nodup_middle, List.nodup_cons] at hnodup
  apply hnodup.1
  rw [← hid]
  apply List.mem_append_right
  exact List.mem_map_of_mem (List.mem_append_right w (List.mem_of_mem_head? hb))

theorem Visits.valid_last (h : m.Visits a w last) : m.Valid last := by
  obtain ⟨l, r, hsplit, rfl⟩ := h
  intro i hi
  obtain ⟨b, hb, hid⟩ := Option.map_eq_some_iff.mp hi
  exact ⟨b, by simp [hsplit, List.mem_of_mem_head? hb], hid⟩

theorem Visits.range (h : m.Visits a w last) : m.range (m.next (some a.id)) last = w := by
  obtain ⟨l, r, hsplit, rfl⟩ := h
  have hsplit' : m.nodes = (l ++ [a]) ++ (w ++ r) := by simp [hsplit]
  rw [Multimap.range, next_of_split hsplit, m.suffix_head hsplit']
  exact m.takeWhile_until_head hsplit'

/-- With nothing left to visit, the next increment arrives. -/
theorem Visits.next_nil (h : m.Visits a [] last) : m.next (some a.id) = last := by
  obtain ⟨l, r, hsplit, rfl⟩ := h
  exact next_of_split hsplit

theorem Visits.next_cons {b : Node κ α} (h : m.Visits a (b :: w) last) :
    m.next (some a.id) = some b.id ∧ m.Visits b w last := by
  obtain ⟨l, r, hsplit, hlast⟩ := h
  refine ⟨next_of_split hsplit, l ++ [a], r, ?_, hlast⟩
  rw [hsplit]
  simp

/-- The loop over an equal range visits what is under the key. -/
theorem visits_equalRange {k : κ} (h : m.under k = a :: w) :
    (m.equalRange k).1 = some a.id ∧ m.Visits a w (m.equalRange k).2 := by
  have hsplit := m.nodes_split k
  rw [h] at hsplit
  refine ⟨?_, m.nodes.takeWhile (fun n => n.key < k), m.above k, hsplit, upperBound_eq m k⟩
  show m.lowerBound k = _
  rw [lowerBound_eq, h]
  rfl

/-! ## Changes -/

/-- An element put into a list lands in front of the stretch, in it, or behind it. -/
theorem exists_walk_insert {β : Type} {as bs l w r : List β} {a : β} (x : β)
    (h : as ++ bs = l ++ a :: (w ++ r)) :
    ∃ l' w' r', as ++ x :: bs = l' ++ a :: (w' ++ r') ∧ (w' = w ∨ w'.Perm (x :: w)) ∧
      r'.head? = r.head? := by
  rcases List.append_eq_append_iff.mp h with ⟨as', rfl, rfl⟩ | ⟨cs, rfl, hcs⟩
  · exact ⟨as ++ x :: as', w, r, by simp, Or.inl rfl, rfl⟩
  · cases cs with
    | nil =>
        rw [List.nil_append] at hcs
        subst hcs
        exact ⟨l ++ [x], w, r, by simp, Or.inl rfl, rfl⟩
    | cons c cs =>
        obtain ⟨rfl, hrest⟩ := List.cons.inj hcs
        rcases List.append_eq_append_iff.mp hrest with ⟨es, rfl, rfl⟩ | ⟨ds, rfl, rfl⟩
        · cases es with
          | nil => exact ⟨l, w ++ [x], bs, by simp, Or.inr (List.perm_append_singleton x w), rfl⟩
          | cons e es => exact ⟨l, w, e :: es ++ x :: bs, by simp, Or.inl rfl, rfl⟩
        · exact ⟨l, cs ++ x :: ds, r, by simp, Or.inr List.perm_middle, rfl⟩

theorem Visits.insert (h : m.Visits a w last) (k : κ) (v : α) :
    ∃ w', (m.insert k v).Visits a w' last ∧ (w' = w ∨ w'.Perm (⟨m.fresh, k, v⟩ :: w)) := by
  obtain ⟨l, r, hsplit, hlast⟩ := h
  have happend : m.nodes.takeWhile (fun n => n.key ≤ k) ++ m.nodes.dropWhile (fun n => n.key ≤ k) =
      l ++ a :: (w ++ r) := by
    rw [List.takeWhile_append_dropWhile, hsplit]
  obtain ⟨l', w', r', hnodes, hw, hr⟩ := exists_walk_insert ⟨m.fresh, k, v⟩ happend
  exact ⟨w', ⟨l', r', hnodes, by rw [hlast, hr]⟩, hw⟩

theorem Visits.erase (h : m.Visits a w last) {i : Nat} (ha : a.id ≠ i) (hlast : last ≠ some i) :
    (m.erase i).Visits a (w.filter (fun n => n.id ≠ i)) last := by
  obtain ⟨l, r, hsplit, rfl⟩ := h
  refine ⟨l.filter (fun n => n.id ≠ i), r.filter (fun n => n.id ≠ i), ?_, ?_⟩
  · show m.nodes.filter (fun n => n.id ≠ i) = _
    rw [hsplit, List.filter_append, List.filter_cons, if_pos (by simpa using ha),
      List.filter_append]
  · cases r with
    | nil => rfl
    | cons b bs =>
        have hb : b.id ≠ i := fun hid => hlast (congrArg some hid)
        rw [List.filter_cons, if_pos (by simpa using hb)]
        rfl

end EventBus.Multimap
