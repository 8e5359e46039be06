import Mathlib.Data.List.Chain
import Mathlib.Logic.Relation

/-!
# A copy that lags behind

A value in one place, a copy of it in another, and between them a FIFO queue of the new values.
Whoever changes the value puts the new one in the queue, and only does so if it differs; the copy
takes the values over one by one. When the queue is empty the copy is right, and it stays right
until the value changes again.
-/

namespace EventBus.Transition

variable {α : Type*}

structure Lag (α : Type*) where
  copy : α
  queue : List α
  source : α

namespace Lag

inductive Step : Lag α → Lag α → Prop
  | change (l : Lag α) {a : α} (h : a ≠ l.source) :
      Step l { l with queue := l.queue ++ [a], source := a }
  | take {l : Lag α} {a : α} {as : List α} (h : l.queue = a :: as) :
      Step l { l with copy := a, queue := as }

/-- From the copy on, each value is a change, and the last one is the source. -/
structure Faithful (l : Lag α) : Prop where
  changes : List.IsChain (· ≠ ·) (l.copy :: l.queue)
  last : (l.copy :: l.queue).getLast? = some l.source

theorem Faithful.copy_eq {l : Lag α} (h : l.Faithful) (hqueue : l.queue = []) :
    l.copy = l.source := by
  have hlast := h.last
  rw [hqueue, List.getLast?_singleton] at hlast
  exact Option.some.inj hlast

/-- The next value in the queue is news to the copy. -/
theorem Faithful.ne_copy {l : Lag α} (h : l.Faithful) {a : α} {as : List α}
    (hqueue : l.queue = a :: as) : a ≠ l.copy := by
  have hchanges := h.changes
  rw [hqueue, List.isChain_cons_cons] at hchanges
  exact hchanges.1.symm

theorem Step.faithful {l l' : Lag α} (hstep : Step l l') (h : l.Faithful) : l'.Faithful := by
  obtain ⟨hchanges, hlast⟩ := h
  cases hstep with
  | @change a ha =>
      have hend : l.copy :: (l.queue ++ [a]) = (l.copy :: l.queue) ++ [a] := rfl
      refine ⟨?_, ?_⟩
      · rw [hend, List.isChain_append]
        refine ⟨hchanges, List.isChain_singleton a, ?_⟩
        intro b hb a' ha'
        rw [hlast] at hb
        cases hb
        cases ha'
        exact ha.symm
      · rw [hend, List.getLast?_concat]
  | @take a as hqueue =>
      rw [hqueue] at hchanges hlast
      rw [List.isChain_cons_cons] at hchanges
      rw [List.getLast?_cons_cons] at hlast
      exact ⟨hchanges.2, hlast⟩

/-- With nothing in the queue, a step that leaves the source as it was is no step. -/
theorem Step.source_ne {l l' : Lag α} (hstep : Step l l') (hqueue : l.queue = []) :
    l'.source ≠ l.source := by
  cases hstep with
  | change ha => exact ha
  | take htake =>
      rw [hqueue] at htake
      cases htake

/-- At most one step. -/
abbrev Steps : Lag α → Lag α → Prop := Relation.ReflGen Step

theorem Steps.faithful {l l' : Lag α} (hsteps : Steps l l') (h : l.Faithful) : l'.Faithful := by
  cases hsteps with
  | refl => exact h
  | single hstep => exact hstep.faithful h

/-- **A copy that is right stays right** while the source keeps its value. -/
theorem Steps.eq_of_source_eq {l l' : Lag α} (hsteps : Steps l l') (hqueue : l.queue = [])
    (hsource : l'.source = l.source) : l' = l := by
  cases hsteps with
  | refl => rfl
  | single hstep => exact absurd hsource (hstep.source_ne hqueue)

end Lag
end EventBus.Transition
