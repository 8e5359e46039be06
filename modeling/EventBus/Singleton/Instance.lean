import EventBus.Transition.Mutex
import EventBus.Transition.Run
import Mathlib.Logic.Function.Basic

/-!
# `Singleton`

`Singleton<T>::instance` tests `_instance` without the lock, and only if it is null takes `_mutex`,
tests again, and constructs the object; the pointer it returns is read without the lock again. Any
number of threads may be anywhere in such calls, each as often as it likes. A step is one line of
the code, and is atomic; the constructor of `T` takes a step of its own, before the one that stores
the new pointer in `_instance`.

The two overloads differ in the constructor they call: `instance()` calls `T()`, and `instance(arg)`
calls `T(arg)`. An object goes by its number in the order of construction.
-/

namespace EventBus

open Transition

variable {Thread Arg : Type*}

/-- Where a thread stands in `instance`, named after what it does next. Until the object has been
constructed, the argument of the call goes with it, `none` for `instance()`. -/
inductive Place (Arg : Type*)
  /-- Not in a call. -/
  | idle
  /-- The unlocked `if(_instance.get() == NULL)` -/
  | firstTest (arg : Option Arg)
  /-- `_mutex.lock()` -/
  | lock (arg : Option Arg)
  /-- `if(_instance.get() == NULL)` under the lock -/
  | secondTest (arg : Option Arg)
  /-- `new T` or `new T(arg)` -/
  | construct (arg : Option Arg)
  /-- `_instance.reset(…)` with the new object -/
  | store (object : Nat)
  /-- `_mutex.unlock()` -/
  | unlock
  /-- `object = _instance.get()`, on either branch, and the return -/
  | finalRead
  deriving DecidableEq, Repr

/-- Between `_mutex.lock()` and `_mutex.unlock()`. -/
def Place.Inside : Place Arg → Prop
  | .secondTest _ | .construct _ | .store _ | .unlock => True
  | _ => False

structure Singleton (Thread Arg : Type*) where
  /-- What `_instance.get()` gives, `none` for the null pointer. -/
  get : Option Nat
  mutex : RecursiveMutex Thread
  /-- The objects constructed, each by the argument of its constructor. -/
  objects : List (Option Arg)
  /-- The objects `auto_ptr::reset` has deleted. -/
  deleted : List Nat
  place : Thread → Place Arg

namespace Singleton

inductive Action (Thread Arg : Type*)
  | call (thread : Thread) (arg : Option Arg)
  /-- The next step of a thread in its call. -/
  | step (thread : Thread)
  deriving DecidableEq, Repr

/-- Before the first call. -/
def initial : Singleton Thread Arg := ⟨none, .free, [], [], fun _ => .idle⟩

section
variable [DecidableEq Thread]

/-- A thread moves on. -/
def goto (s : Singleton Thread Arg) (i : Thread) (place : Place Arg) : Singleton Thread Arg :=
  { s with place := Function.update s.place i place }

/-- One step of thread `i` where it stands at a place. It waits where the result is `none`. -/
def instanceStep (s : Singleton Thread Arg) (i : Thread) :
    Place Arg → Option (Singleton Thread Arg)
  | .idle => none
  | .firstTest arg => some (s.goto i (if s.get = none then .lock arg else .finalRead))
  | .lock arg => (s.mutex.lock i).map fun m => { s.goto i (.secondTest arg) with mutex := m }
  | .secondTest arg => some (s.goto i (if s.get = none then .construct arg else .unlock))
  | .construct arg =>
      some { s.goto i (.store s.objects.length) with objects := s.objects ++ [arg] }
  | .store object =>
      some { s.goto i .unlock with
        get := some object
        deleted := s.deleted ++ s.get.toList }
  | .unlock => (s.mutex.unlock i).map fun m => { s.goto i .finalRead with mutex := m }
  | .finalRead => some (s.goto i .idle)

def next (s : Singleton Thread Arg) : Action Thread Arg → Option (Singleton Thread Arg)
  | .call i arg =>
      match s.place i with
      | .idle => some (s.goto i (.firstTest arg))
      | _ => none
  | .step i => s.instanceStep i (s.place i)

def Step (s : Singleton Thread Arg) (a : Action Thread Arg) (t : Singleton Thread Arg) : Prop :=
  s.next a = some t

end

/-- The pointer a call returns with this step, if it does return. -/
def returned (x : Taken (Singleton Thread Arg) (Action Thread Arg)) : Option (Option Nat) :=
  match x.label with
  | .call _ _ => none
  | .step i =>
      match x.pre.place i with
      | .finalRead => some x.pre.get
      | _ => none

/-! ## What holds in every state -/

/-- What a thread can rely on at a place. -/
def Holds (s : Singleton Thread Arg) : Place Arg → Prop
  | .construct _ => s.get = none ∧ s.objects = []
  | .store object => s.get = none ∧ object = 0 ∧ s.objects.length = 1
  | .unlock | .finalRead => s.get = some 0
  | _ => True

structure Inv (s : Singleton Thread Arg) : Prop where
  guards : s.mutex.Guards fun i => (s.place i).Inside
  holds : ∀ i, s.Holds (s.place i)
  /-- An object that is not yet in `_instance` is on its way there. -/
  unset : s.get = none → s.objects = [] ∨ ∃ i object, s.place i = .store object
  set : ∀ object, s.get = some object → object = 0 ∧ s.objects.length = 1
  deleted : s.deleted = []

theorem inv_initial : Inv (initial : Singleton Thread Arg) where
  guards := RecursiveMutex.guards_free fun _ h => h
  holds _ := trivial
  unset _ := Or.inl rfl
  set object h := by cases h
  deleted := rfl

section
variable {s : Singleton Thread Arg} {i : Thread} {place : Place Arg}

theorem Inv.holds_at (h : Inv s) (hi : s.place i = place) : s.Holds place := hi ▸ h.holds i

theorem inside_at (hi : s.place i = place) : (s.place i).Inside ↔ place.Inside := by rw [hi]

/-- Nobody constructs an object that is not needed. -/
theorem Inv.objects_le (h : Inv s) : s.objects.length ≤ 1 := by
  cases hget : s.get with
  | some object => exact Nat.le_of_eq (h.set object hget).2
  | none =>
      obtain hnil | ⟨i, object, hstore⟩ := h.unset hget
      · simp [hnil]
      · exact Nat.le_of_eq (h.holds_at hstore).2.2

/-- Outside, a thread relies only on what it is about to return. -/
theorem holds_of_outside (hout : ¬ place.Inside)
    (hread : place = .finalRead → s.get = some 0) : s.Holds place := by
  cases place with
  | finalRead => exact hread rfl
  | idle | firstTest | lock => trivial
  | _ => exact absurd trivial hout

end

section
variable [DecidableEq Thread] {s t : Singleton Thread Arg} {i : Thread} {old place : Place Arg}

theorem inside_others (j : Thread) (hj : j ≠ i) :
    (Function.update s.place i place j).Inside ↔ (s.place j).Inside := by
  rw [Function.update_of_ne hj]

/-- A thread that moves on inside, or outside. -/
theorem Inv.guards_goto (h : Inv s) (hi : s.place i = old) (hsame : place.Inside ↔ old.Inside) :
    s.mutex.Guards fun j => (Function.update s.place i place j).Inside := by
  apply h.guards.congr
  intro j
  by_cases hj : j = i
  · subst hj
    rw [Function.update_self, hsame, inside_at hi]
  · exact inside_others j hj

/-- A step that neither constructs nor stores. -/
theorem inv_goto (h : Inv s) (hi : s.place i = old) {m : RecursiveMutex Thread}
    (hguards : m.Guards fun j => (Function.update s.place i place j).Inside)
    (hholds : s.Holds place) (hstore : ∀ object, old ≠ .store object) :
    Inv { s.goto i place with mutex := m } where
  guards := hguards
  holds j := by
    show s.Holds (Function.update s.place i place j)
    by_cases hj : j = i
    · subst hj
      rw [Function.update_self]
      exact hholds
    · rw [Function.update_of_ne hj]
      exact h.holds j
  unset hget := by
    obtain hnil | ⟨j, object, hj⟩ := h.unset hget
    · exact Or.inl hnil
    · have hne : j ≠ i := fun hji => hstore object (hi.symm.trans (hji ▸ hj))
      refine Or.inr ⟨j, object, ?_⟩
      show Function.update s.place i place j = .store object
      rw [Function.update_of_ne hne, hj]
  set := h.set
  deleted := h.deleted

/-- While one thread is inside, no other relies on what it changes. -/
theorem holds_goto (h : Inv s) (hi : (s.place i).Inside)
    (hplace : t.place = Function.update s.place i place) (hown : t.Holds place)
    (hread : s.get = some 0 → t.get = some 0) : ∀ j, t.Holds (t.place j) := by
  intro j
  rw [hplace]
  by_cases hj : j = i
  · subst hj
    rw [Function.update_self]
    exact hown
  · rw [Function.update_of_ne hj]
    apply holds_of_outside
    · exact fun hj' => hj (h.guards.exclusive hj' hi)
    · intro hplace
      exact hread (h.holds_at hplace)

theorem inv_construct {arg : Option Arg} (h : Inv s) (hi : s.place i = .construct arg) :
    Inv { s.goto i (.store s.objects.length) with objects := s.objects ++ [arg] } := by
  have hinside : (s.place i).Inside := (inside_at hi).mpr trivial
  obtain ⟨hget, hnil⟩ := h.holds_at hi
  rw [hnil]
  constructor
  case guards => exact h.guards_goto hi Iff.rfl
  case holds => exact holds_goto h hinside rfl ⟨hget, rfl, rfl⟩ fun hset => hset
  case unset => exact fun _ => Or.inr ⟨i, 0, Function.update_self i _ s.place⟩
  case set =>
    intro object hset
    cases hget.symm.trans hset
  case deleted => exact h.deleted

theorem inv_store {object : Nat} (h : Inv s) (hi : s.place i = .store object) :
    Inv { s.goto i .unlock with get := some object, deleted := s.deleted ++ s.get.toList } := by
  have hinside : (s.place i).Inside := (inside_at hi).mpr trivial
  obtain ⟨hget, rfl, hone⟩ := h.holds_at hi
  constructor
  case guards => exact h.guards_goto hi Iff.rfl
  case holds => exact holds_goto h hinside rfl rfl fun _ => rfl
  case unset =>
    intro hnone
    cases hnone
  case set =>
    intro object hset
    cases hset
    exact ⟨rfl, hone⟩
  case deleted => rw [hget, h.deleted]; rfl

/-- One step of a thread in its call, place by place. -/
theorem inv_instanceStep (h : Inv s) (hi : s.place i = place)
    (hstep : s.instanceStep i place = some t) : Inv t := by
  cases place with
  | idle => cases hstep
  | firstTest arg =>
      cases hstep
      cases hget : s.get with
      | none => exact inv_goto h hi (h.guards_goto hi Iff.rfl) trivial (by simp)
      | some object =>
          obtain ⟨rfl, -⟩ := h.set object hget
          exact inv_goto h hi (h.guards_goto hi Iff.rfl) hget (by simp)
  | lock arg =>
      obtain ⟨m, hlock, rfl⟩ := Option.map_eq_some_iff.mp hstep
      have hout : ¬ (s.place i).Inside := mt (inside_at hi).mp id
      refine inv_goto h hi ?_ trivial (by simp)
      exact h.guards.enter hout hlock (by rw [Function.update_self]; trivial) inside_others
  | secondTest arg =>
      cases hstep
      cases hget : s.get with
      | none =>
          -- a stored or constructed object would have to be on its way to `_instance`, inside
          have hnil : s.objects = [] := by
            obtain hnil | ⟨j, object, hj⟩ := h.unset hget
            · exact hnil
            · have hij : i = j :=
                h.guards.exclusive ((inside_at hi).mpr trivial) ((inside_at hj).mpr trivial)
              cases hi.symm.trans (hij ▸ hj)
          exact inv_goto h hi (h.guards_goto hi Iff.rfl) ⟨hget, hnil⟩ (by simp)
      | some object =>
          obtain ⟨rfl, -⟩ := h.set object hget
          exact inv_goto h hi (h.guards_goto hi Iff.rfl) hget (by simp)
  | construct arg =>
      cases hstep
      exact inv_construct h hi
  | store object =>
      cases hstep
      exact inv_store h hi
  | unlock =>
      obtain ⟨m, hunlock, rfl⟩ := Option.map_eq_some_iff.mp hstep
      have hinside : (s.place i).Inside := (inside_at hi).mpr trivial
      have hget : s.get = some 0 := h.holds_at hi
      refine inv_goto h hi ?_ hget (by simp)
      exact h.guards.leave hinside hunlock (by rw [Function.update_self]; exact id) inside_others
  | finalRead =>
      cases hstep
      exact inv_goto h hi (h.guards_goto hi Iff.rfl) trivial (by simp)

theorem inv_step {a : Action Thread Arg} (h : Inv s) (hstep : Step s a t) : Inv t := by
  cases a with
  | call i arg =>
      unfold Step next at hstep
      cases hi : s.place i <;> simp only [hi] at hstep <;> cases hstep
      exact inv_goto h hi (h.guards_goto hi Iff.rfl) trivial (by simp)
  | step i => exact inv_instanceStep h rfl hstep

end

/-! ## Runs -/

theorem returned_eq {x : Taken (Singleton Thread Arg) (Action Thread Arg)} (h : Inv x.pre)
    {v : Option Nat} (hv : returned x = some v) : v = some 0 := by
  unfold returned at hv
  split at hv
  · cases hv
  · next i _ =>
      split at hv
      · next hplace =>
          cases hv
          exact h.holds_at hplace
      · cases hv

section
variable [DecidableEq Thread] {s : Singleton Thread Arg}
  {tr : List (Taken (Singleton Thread Arg) (Action Thread Arg))}

theorem inv_run (h : Run Step initial tr s) : (∀ x ∈ tr, Inv x.pre ∧ Inv x.post) ∧ Inv s :=
  h.invariant (I := Inv) (fun _ _ _ hstep hs => inv_step hs hstep) inv_initial

/-- **One object**: however the threads interleave in `instance`, at most one object is constructed,
it is never deleted, and every call that returns gives the same pointer, which is not null. -/
theorem instance_run (h : Run Step initial tr s) :
    s.objects.length ≤ 1 ∧ s.deleted = [] ∧
      ∃ object, ∀ x ∈ tr, ∀ v, returned x = some v → v = some object := by
  obtain ⟨hstates, hinv⟩ := inv_run h
  refine ⟨hinv.objects_le, hinv.deleted, 0, fun x hx v hv => ?_⟩
  exact returned_eq (hstates x hx).1 hv

end

/-- Both threads find `_instance` null before either takes the lock; the second one constructs
nothing and returns the object of the first. -/
theorem instance_run_race :
    ∃ tr s, tr.map Taken.label =
        [.call false none, .call true (some 7), .step false, .step true, .step false, .step false,
          .step false, .step false, .step false, .step true, .step true, .step true, .step false,
          .step true] ∧
      Run Step (initial : Singleton Bool Nat) tr s ∧ s.objects = [none] ∧
      tr.filterMap returned = [some 0, some 0] ∧ s.objects.length ≤ 1 ∧
      ∃ object, ∀ x ∈ tr, ∀ v, returned x = some v → v = some object := by
  have h : Run Step (initial : Singleton Bool Nat) _ _ :=
    .cons (i := Action.call false none) rfl (.cons (i := Action.call true (some 7)) rfl
      (.cons (i := Action.step false) rfl (.cons (i := Action.step true) rfl
        (.cons (i := Action.step false) rfl (.cons (i := Action.step false) rfl
          (.cons (i := Action.step false) rfl (.cons (i := Action.step false) rfl
            (.cons (i := Action.step false) rfl (.cons (i := Action.step true) rfl
              (.cons (i := Action.step true) rfl (.cons (i := Action.step true) rfl
                (.cons (i := Action.step false) rfl (.cons (i := Action.step true) rfl
                  .nil)))))))))))))
  obtain ⟨hone, -, hsame⟩ := instance_run h
  exact ⟨_, _, rfl, h, rfl, rfl, hone, hsame⟩

/-- **No deadlock**: a call can always go on, except that it waits for the lock while another thread
is inside. -/
theorem waits_run [DecidableEq Thread]
    {tr : List (Taken (Singleton Thread Arg) (Action Thread Arg))} {s : Singleton Thread Arg}
    (h : Run Step initial tr s) {i : Thread} (hi : s.place i ≠ .idle) :
    (∃ t, Step s (.step i) t) ∨
      ∃ arg j, s.place i = .lock arg ∧ (s.place j).Inside := by
  have hinv := (inv_run h).2
  have hgo : ∀ t, Step s (.step i) t ↔ s.instanceStep i (s.place i) = some t := fun _ => Iff.rfl
  simp only [hgo]
  cases hplace : s.place i with
  | idle => exact absurd hplace hi
  | lock arg =>
      cases hmutex : s.mutex with
      | free =>
          left
          simp [instanceStep, hmutex, RecursiveMutex.lock]
      | held j n =>
          right
          cases hinv.guards.once j n hmutex
          exact ⟨arg, j, rfl, (hinv.guards.held j).mpr hmutex⟩
  | unlock =>
      have hinside : (s.place i).Inside := (inside_at hplace).mpr trivial
      left
      simp [instanceStep, hinv.guards.unlock_eq hinside]
  | _ => exact Or.inl ⟨_, rfl⟩

end Singleton
end EventBus
