import Mathlib.Logic.Basic

/-!
# Recursive mutexes

A recursive mutex over any threads `ι`: the thread that holds it may lock it again, and must unlock
it as often. What a mutex is used for is a critical section, the threads in which are told apart by
a predicate `inside`. A mutex *guards* the section if exactly its holder is inside. A program keeps
it that way if a thread locks when it enters, unlocks when it leaves, and otherwise neither enters
nor leaves; whatever it does in between, nobody else is inside.
-/

namespace EventBus.Transition

variable {ι : Type*}

inductive RecursiveMutex (ι : Type*)
  | free
  /-- Locked by the thread once and `again` more times. -/
  | held (holder : ι) (again : Nat)
  deriving DecidableEq, Repr

namespace RecursiveMutex

section
variable [DecidableEq ι]

/-- `none` as long as another thread holds the mutex: the thread waits. -/
def lock (i : ι) : RecursiveMutex ι → Option (RecursiveMutex ι)
  | .free => some (.held i 0)
  | .held j n => if i = j then some (.held j (n + 1)) else none

/-- Only the holder may unlock. -/
def unlock (i : ι) : RecursiveMutex ι → Option (RecursiveMutex ι)
  | .free => none
  | .held j 0 => if i = j then some .free else none
  | .held j (n + 1) => if i = j then some (.held j n) else none

end

/-- Inside the critical section is exactly the thread that holds the mutex, if there is one. -/
structure Guards (m : RecursiveMutex ι) (inside : ι → Prop) : Prop where
  held : ∀ i, inside i ↔ m = .held i 0
  once : ∀ i n, m = .held i n → n = 0

variable {m m' : RecursiveMutex ι} {inside inside' : ι → Prop} {i : ι}

theorem guards_free (h : ∀ i, ¬ inside i) : Guards .free inside where
  held i := ⟨fun hi => absurd hi (h i), fun hi => by cases hi⟩
  once i n hheld := by cases hheld

/-- **Mutual exclusion**. -/
theorem Guards.exclusive (h : Guards m inside) {j : ι} (hi : inside i) (hj : inside j) : i = j := by
  have heq := ((h.held i).mp hi).symm.trans ((h.held j).mp hj)
  injection heq

/-- A step by which nobody enters or leaves. -/
theorem Guards.congr (h : Guards m inside) (hsame : ∀ j, inside' j ↔ inside j) :
    Guards m inside' where
  held j := (hsame j).trans (h.held j)
  once := h.once

section
variable [DecidableEq ι]

/-- A thread that locks from outside finds the mutex free. -/
theorem Guards.free_of_lock (h : Guards m inside) (hi : ¬ inside i) (hlock : m.lock i = some m') :
    m = .free ∧ m' = .held i 0 := by
  cases m with
  | free =>
      cases hlock
      exact ⟨rfl, rfl⟩
  | held j n =>
      cases h.once j n rfl
      have hne : i ≠ j := fun hij => hi ((h.held i).mpr (by rw [hij]))
      rw [lock, if_neg hne] at hlock
      cases hlock

theorem Guards.enter (h : Guards m inside) (hi : ¬ inside i) (hlock : m.lock i = some m')
    (hi' : inside' i) (hothers : ∀ j, j ≠ i → (inside' j ↔ inside j)) : Guards m' inside' := by
  obtain ⟨rfl, rfl⟩ := h.free_of_lock hi hlock
  refine ⟨fun j => ?_, fun j n heq => ?_⟩
  · by_cases hj : j = i
    · subst hj
      exact iff_of_true hi' rfl
    · rw [hothers j hj, h.held j]
      grind
  · injection heq with _ hn
    exact hn.symm

/-- Whoever is inside can unlock, and that leaves the mutex free. -/
theorem Guards.unlock_eq (h : Guards m inside) (hi : inside i) : m.unlock i = some .free := by
  rw [(h.held i).mp hi, unlock, if_pos rfl]

theorem Guards.leave (h : Guards m inside) (hi : inside i) (hunlock : m.unlock i = some m')
    (hi' : ¬ inside' i) (hothers : ∀ j, j ≠ i → (inside' j ↔ inside j)) : Guards m' inside' := by
  cases (h.unlock_eq hi).symm.trans hunlock
  apply guards_free
  intro j hj
  by_cases hji : j = i
  · exact hi' (hji ▸ hj)
  · exact hji (h.exclusive ((hothers j hji).mp hj) hi)

end

end RecursiveMutex
end EventBus.Transition
