import EventBus.Transition.Run
import Mathlib.Data.List.Basic

/-!
# `MThread`: the owner and the loop

The owner calls `init`, `task_begin`, `task_stop` and `task_exit` in any order and then destroys the
object. Each `init` starts a detached thread that runs `_thread_run`; nobody joins it. The steps of
these threads and the actions of the owner interleave freely, each of them atomic.

`task_exit` only sets a flag, and a thread looks at the flag once per round. Until it has seen it the
thread needs the object and its client, so destruction is safe exactly if every thread has returned
from `_thread_run` by then.
-/

namespace EventBus

open Transition

/-- Where a thread stands in `_thread_run`, named after what it does next. -/
inductive Pc
  /-- `new EventClient()` -/
  | construct
  /-- `_thread_client = client`, `set_client(*client)`, `setup_thread()` -/
  | attach
  /-- `while(!mthread->_is_exit)` -/
  | testExit
  /-- `client->handle_event()` -/
  | handleEvent
  /-- `if(!mthread->_is_run)` -/
  | testRun
  /-- `sleep_for(20 ms)` -/
  | sleep
  /-- `mthread->thread_run()` -/
  | threadRun
  /-- `return NULL` -/
  | returned
  deriving DecidableEq, Repr

/-- Where a thread goes from here, by what the flags are when it reads them. -/
def Pc.after (isExit isRun : Bool) : Pc → Pc
  | .construct => .attach
  | .attach => .testExit
  | .testExit => if isExit then .returned else .handleEvent
  | .handleEvent => .testRun
  | .testRun => if isRun then .threadRun else .sleep
  | .sleep => .testExit
  | .threadRun => .testExit
  | .returned => .returned

theorem Pc.after_eq_returned {isExit isRun : Bool} {pc : Pc} :
    pc.after isExit isRun = .returned ↔ (pc = .testExit ∧ isExit = true) ∨ pc = .returned := by
  cases pc <;> cases isExit <;> cases isRun <;> simp [Pc.after]

/-- The object and its threads. The client a thread has constructed goes by the thread's number. -/
structure MThread where
  isRun : Bool
  isExit : Bool
  threadClient : Option Nat
  threads : List Pc
  /-- `~MThread` has run. -/
  destroyed : Bool
  /-- The client `~MThread` has deleted. -/
  deleted : Option Nat
  deriving DecidableEq, Repr

inductive Action
  | init
  | taskBegin
  | taskStop
  | taskExit
  | destroy
  /-- The next step of one of the threads. -/
  | loop (thread : Nat)
  deriving DecidableEq, Repr

namespace MThread

/-- After `MThread::MThread`. -/
def initial : MThread := ⟨false, false, none, [], false, none⟩

/-- A thread moves on. -/
def goto (s : MThread) (i : Nat) (pc : Pc) : MThread := { s with threads := s.threads.set i pc }

/-- One step of thread `i` in `_thread_run`. -/
def threadStep (s : MThread) (i : Nat) : Pc → Option MThread
  | .construct => some (s.goto i .attach)
  | .attach => some { s.goto i .testExit with threadClient := some i }
  | .testExit => some (s.goto i (if s.isExit then .returned else .handleEvent))
  | .handleEvent => some (s.goto i .testRun)
  | .testRun => some (s.goto i (if s.isRun then .threadRun else .sleep))
  | .sleep => some (s.goto i .testExit)
  | .threadRun => some (s.goto i .testExit)
  | .returned => none

/-- One action, where it is possible: the owner does nothing with an object it has destroyed, and a
thread that has returned takes no step. What a thread does with a destroyed object is of no account
beyond the step that first uses it. -/
def next (s : MThread) : Action → Option MThread
  | .init => if s.destroyed then none else some { s with threads := s.threads ++ [.construct] }
  | .taskBegin => if s.destroyed then none else some { s with isRun := true }
  | .taskStop => if s.destroyed then none else some { s with isRun := false }
  | .taskExit => if s.destroyed then none else some { s with isExit := true }
  | .destroy =>
      if s.destroyed then none
      else some { s with destroyed := true, deleted := s.threadClient }
  | .loop i => s.threads[i]?.bind (s.threadStep i)

theorem next_loop {s : MThread} {i : Nat} {pc : Pc} (hpc : s.threads[i]? = some pc) :
    s.next (.loop i) = s.threadStep i pc := by
  show s.threads[i]?.bind (s.threadStep i) = s.threadStep i pc
  rw [hpc, Option.bind_some]

def Step (s : MThread) (a : Action) (t : MThread) : Prop := s.next a = some t

/-! ## The property and its condition -/

/-- The step reads a flag of the object or calls its `thread_run`. -/
def UsesObject (pc : Pc) : Prop := pc = .testExit ∨ pc = .testRun ∨ pc = .threadRun

/-- A step of a thread uses the object only before its destructor has run, and calls `handle_event`
only on a client that has not been deleted. -/
def Safe (x : Taken MThread Action) : Prop :=
  ∀ i pc, x.label = .loop i → x.pre.threads[i]? = some pc →
    (UsesObject pc → x.pre.destroyed = false) ∧ (pc = .handleEvent → x.pre.deleted ≠ some i)

/-- If the step destroys the object, every thread has returned. -/
def Joined (x : Taken MThread Action) : Prop :=
  x.label = .destroy → ∀ pc ∈ x.pre.threads, pc = .returned

/-! ## What a step can do -/

theorem threadStep_spec {s t : MThread} {i : Nat} {pc : Pc} (h : s.threadStep i pc = some t) :
    pc ≠ .returned ∧ t.threads = s.threads.set i (pc.after s.isExit s.isRun) ∧
      t.isExit = s.isExit ∧ t.isRun = s.isRun ∧ t.destroyed = s.destroyed ∧
      t.deleted = s.deleted := by
  cases pc with
  | returned => cases h
  | _ =>
      cases h
      exact ⟨Pc.noConfusion, rfl, rfl, rfl, rfl, rfl⟩

/-- An action of the owner finds the object there; a step of a thread moves that thread, which
returns only from the test of `_is_exit`. -/
theorem step_cases {s t : MThread} {a : Action} (h : Step s a t) :
    (a = .destroy ∧ s.destroyed = false ∧ t.destroyed = true ∧ t.threads = s.threads) ∨
    (a ≠ .destroy ∧ (∀ i, a ≠ .loop i) ∧ s.destroyed = false ∧ t.destroyed = false ∧
      t.deleted = s.deleted) ∨
    ∃ i pc pc', a = .loop i ∧ s.threads[i]? = some pc ∧ pc ≠ .returned ∧
      t.threads = s.threads.set i pc' ∧ (pc' = .returned → pc = .testExit) ∧
      t.destroyed = s.destroyed ∧ t.deleted = s.deleted := by
  unfold Step next at h
  cases a with
  | loop i =>
      right; right
      obtain ⟨pc, hpc, hthread⟩ := Option.bind_eq_some_iff.mp h
      obtain ⟨hne, hthreads, -, -, hd, hdel⟩ := threadStep_spec hthread
      have hret : pc.after s.isExit s.isRun = .returned → pc = .testExit := by
        intro hret
        obtain ⟨htest, -⟩ | hreturned := Pc.after_eq_returned.mp hret
        · exact htest
        · exact absurd hreturned hne
      exact ⟨i, pc, _, rfl, hpc, hne, hthreads, hret, hd, hdel⟩
  | destroy =>
      left
      cases hd : s.destroyed <;> simp only [hd] at h <;> cases h
      exact ⟨rfl, rfl, rfl, rfl⟩
  | _ =>
      right; left
      cases hd : s.destroyed <;> simp only [hd] at h <;> cases h
      exact ⟨Action.noConfusion, fun _ => Action.noConfusion, rfl, rfl, rfl⟩

/-! ## Destroyed after the threads have returned -/

/-- As long as the object is there no client has been deleted, and after that no thread is left. -/
structure Inv (s : MThread) : Prop where
  alive : s.destroyed = false → s.deleted = none
  gone : s.destroyed = true → ∀ pc ∈ s.threads, pc = .returned

theorem inv_initial : Inv initial := ⟨fun _ => rfl, fun h => by cases h⟩

/-- Nobody acts on an object that was destroyed after its threads. -/
theorem not_step_of_destroyed {s t : MThread} {a : Action} (h : Inv s) (hd : s.destroyed = true) :
    ¬ Step s a t := by
  intro hstep
  obtain ⟨-, hd', -⟩ | ⟨-, -, hd', -⟩ | ⟨i, pc, -, -, hpc, hne, -⟩ := step_cases hstep
  · cases hd.symm.trans hd'
  · cases hd.symm.trans hd'
  · exact hne (h.gone hd pc (List.mem_of_getElem? hpc))

theorem safe_of_inv {s t : MThread} {a : Action} (h : Inv s) (hstep : Step s a t) :
    Safe ⟨s, a, t⟩ := by
  intro i pc _ _
  cases hd : s.destroyed with
  | true => exact absurd hstep (not_step_of_destroyed h hd)
  | false =>
      refine ⟨fun _ => rfl, fun _ => ?_⟩
      show s.deleted ≠ some i
      rw [h.alive hd]
      exact Option.some_ne_none i |>.symm

theorem inv_next {s t : MThread} {a : Action} (h : Inv s) (hstep : Step s a t)
    (hjoined : Joined ⟨s, a, t⟩) : Inv t := by
  obtain ⟨ha, hd, hd', hthreads⟩ | ⟨-, -, hd, hd', hdel⟩ | ⟨i, pc, pc', -, hpc, hne, -, -, hd, hdel⟩ :=
    step_cases hstep
  · refine ⟨fun hnot => ?_, fun _ => ?_⟩
    · cases hd'.symm.trans hnot
    · rw [hthreads]
      exact hjoined ha
  · refine ⟨fun _ => ?_, fun hnot => ?_⟩
    · rw [hdel]
      exact h.alive hd
    · cases hd'.symm.trans hnot
  · refine ⟨fun hnot => ?_, fun hnot => ?_⟩
    · rw [hdel]
      exact h.alive (hd.symm.trans hnot)
    · exact absurd (h.gone (hd.symm.trans hnot) pc (List.mem_of_getElem? hpc)) hne

/-! ## Destroyed under a running thread -/

/-- The object is gone and a thread is not. -/
def Orphaned (s : MThread) : Prop :=
  s.destroyed = true ∧ ∃ (i : Nat) (pc : Pc), s.threads[i]? = some pc ∧ pc ≠ .returned

/-- A thread that has been left behind gets out of the loop only by reading the flag. -/
theorem orphaned_next {s t : MThread} {a : Action} (h : Orphaned s) (hstep : Step s a t)
    (hsafe : Safe ⟨s, a, t⟩) : Orphaned t := by
  obtain ⟨hd, i, pc, hpc, hne⟩ := h
  obtain ⟨-, hd', -⟩ | ⟨-, -, hd', -⟩ | ⟨j, pc₁, pc₂, ha, hpc₁, -, hthreads, hret, hd', -⟩ :=
    step_cases hstep
  · cases hd.symm.trans hd'
  · cases hd.symm.trans hd'
  · refine ⟨hd'.trans hd, ?_⟩
    by_cases hij : j = i
    · subst hij
      refine ⟨j, pc₂, ?_, fun heq => ?_⟩
      · obtain ⟨hlt, -⟩ := List.getElem?_eq_some_iff.mp hpc
        rw [hthreads, List.getElem?_set_self hlt]
      · have huses := (hsafe j pc₁ ha hpc₁).1 (Or.inl (hret heq))
        cases hd.symm.trans huses
    · refine ⟨i, pc, ?_, hne⟩
      rw [hthreads, List.getElem?_set_ne hij]
      exact hpc

/-- Some way to go on from here is not safe. -/
def Doomed (s : MThread) : Prop := ∃ tr t, Run Step s tr t ∧ ∃ x ∈ tr, ¬ Safe x

theorem doomed_of_step {s t : MThread} {a : Action} (hstep : Step s a t) (h : Doomed t) :
    Doomed s := by
  obtain ⟨tr, u, hrun, x, hx, hunsafe⟩ := h
  exact ⟨_, u, .cons hstep hrun, x, List.mem_cons_of_mem _ hx, hunsafe⟩

theorem doomed_of_usesObject {s : MThread} {i : Nat} {pc : Pc} (hd : s.destroyed = true)
    (hpc : s.threads[i]? = some pc) (huses : UsesObject pc) : Doomed s := by
  obtain ⟨t, hstep⟩ : ∃ t, Step s (.loop i) t := by
    obtain rfl | rfl | rfl := huses <;> exact ⟨_, next_loop hpc⟩
  refine ⟨_, t, .cons hstep .nil, _, List.mem_cons_self, fun hsafe => ?_⟩
  have hnot := (hsafe i pc rfl hpc).1 huses
  cases hd.symm.trans hnot

/-- A thread that goes on where the object is gone. -/
theorem doomed_goto {s t : MThread} {i : Nat} {pc pc' : Pc} (hd : s.destroyed = true)
    (hpc : s.threads[i]? = some pc) (hstep : Step s (.loop i) t) (hd' : t.destroyed = s.destroyed)
    (hthreads : t.threads = s.threads.set i pc')
    (h : ∀ u : MThread, u.destroyed = true → u.threads[i]? = some pc' → Doomed u) : Doomed s := by
  apply doomed_of_step hstep
  apply h
  · exact hd'.trans hd
  · obtain ⟨hlt, -⟩ := List.getElem?_eq_some_iff.mp hpc
    rw [hthreads, List.getElem?_set_self hlt]

theorem doomed_of_orphaned {s : MThread} (h : Orphaned s) : Doomed s := by
  obtain ⟨hd, i, pc, hpc, hne⟩ := h
  -- each place leads to one at which the object is used
  have htestExit : ∀ u : MThread, u.destroyed = true → u.threads[i]? = some .testExit → Doomed u :=
    fun u hd hpc => doomed_of_usesObject hd hpc (Or.inl rfl)
  have htestRun : ∀ u : MThread, u.destroyed = true → u.threads[i]? = some .testRun → Doomed u :=
    fun u hd hpc => doomed_of_usesObject hd hpc (Or.inr (Or.inl rfl))
  have hattach : ∀ u : MThread, u.destroyed = true → u.threads[i]? = some .attach → Doomed u :=
    fun u hd hpc => doomed_goto hd hpc (next_loop hpc) rfl rfl htestExit
  cases pc with
  | construct => exact doomed_goto hd hpc (next_loop hpc) rfl rfl hattach
  | attach => exact hattach s hd hpc
  | testExit => exact htestExit s hd hpc
  | handleEvent => exact doomed_goto hd hpc (next_loop hpc) rfl rfl htestRun
  | testRun => exact htestRun s hd hpc
  | sleep => exact doomed_goto hd hpc (next_loop hpc) rfl rfl htestExit
  | threadRun => exact doomed_of_usesObject hd hpc (Or.inr (Or.inr rfl))
  | returned => exact absurd rfl hne

/-! ## Runs -/

theorem safe_run {s t : MThread} {tr : List (Taken MThread Action)} (h : Run Step s tr t)
    (hs : Inv s) (hjoined : ∀ x ∈ tr, Joined x) : (∀ x ∈ tr, Safe x) ∧ Inv t := by
  obtain ⟨hstates, hinv⟩ := (h.restrict hjoined).invariant (I := Inv)
    (fun _ _ _ hstep hs => inv_next hs hstep.1 hstep.2) hs
  refine ⟨fun x hx => ?_, hinv⟩
  exact safe_of_inv (hstates x hx).1 (h.step_of_mem hx)

theorem orphaned_run {s t : MThread} {tr : List (Taken MThread Action)} (h : Run Step s tr t)
    (hsafe : ∀ x ∈ tr, Safe x) (hs : Orphaned s) : Orphaned t :=
  ((h.restrict hsafe).invariant (I := Orphaned)
    (fun _ _ _ hstep hs => orphaned_next hs hstep.1 hstep.2) hs).2

theorem orphaned_of_not_joined {s t : MThread} {tr : List (Taken MThread Action)}
    (h : Run Step s tr t) (hsafe : ∀ x ∈ tr, Safe x) {x : Taken MThread Action} (hx : x ∈ tr)
    (hnot : ¬ Joined x) : Orphaned t := by
  obtain ⟨tr₁, tr₂, rfl⟩ := List.append_of_mem hx
  obtain ⟨-, hstep, hafter⟩ := h.split
  have hsafe₂ : ∀ y ∈ tr₂, Safe y :=
    fun y hy => hsafe y (List.mem_append_right _ (List.mem_cons_of_mem _ hy))
  apply orphaned_run hafter hsafe₂
  simp only [Joined, Classical.not_imp, not_forall] at hnot
  obtain ⟨hlabel, pc, hmem, hne⟩ := hnot
  rw [hlabel] at hstep
  obtain ⟨-, -, hd, hthreads⟩ | ⟨ha, -⟩ | ⟨i, -, -, ha, -⟩ := step_cases hstep
  · -- the thread that had not returned is left behind
    obtain ⟨i, hpc⟩ := List.getElem?_of_mem hmem
    exact ⟨hd, i, pc, hthreads ▸ hpc, hne⟩
  · exact absurd rfl ha
  · cases ha

/-- **When the loop never outlives what it uses**: in every run the threads use the object and its
client only while they exist, and go on doing so however the run continues once the object has been
destroyed, exactly if the object is destroyed after all its threads have returned. -/
theorem safe_run_iff {tr : List (Taken MThread Action)} {s : MThread}
    (h : Run Step initial tr s) :
    ((∀ x ∈ tr, Safe x) ∧
      (s.destroyed = true → ∀ tr' t, Run Step s tr' t → ∀ x ∈ tr', Safe x)) ↔
      ∀ x ∈ tr, Joined x := by
  constructor
  · intro hsafe x hx
    by_contra hnot
    have horphaned := orphaned_of_not_joined h hsafe.1 hx hnot
    obtain ⟨tr', t, hrun, y, hy, hunsafe⟩ := doomed_of_orphaned horphaned
    exact hunsafe (hsafe.2 horphaned.1 tr' t hrun y hy)
  · intro hjoined
    obtain ⟨hsafe, hinv⟩ := safe_run h inv_initial hjoined
    refine ⟨hsafe, fun hd tr' t hrun => ?_⟩
    cases hrun with
    | nil => simp
    | cons hstep _ => exact absurd hstep (not_step_of_destroyed hinv hd)

/-- The owner lets the only thread see `_is_exit` and return before it destroys the object. -/
theorem safe_run_iff_exit_first :
    ∃ tr s, tr.map Taken.label =
        [.init, .taskExit, .loop 0, .loop 0, .loop 0, .destroy] ∧ Run Step initial tr s ∧
      (((∀ x ∈ tr, Safe x) ∧
        (s.destroyed = true → ∀ tr' t, Run Step s tr' t → ∀ x ∈ tr', Safe x)) ↔
        ∀ x ∈ tr, Joined x) := by
  have h : Run Step initial _ _ :=
    .cons (i := Action.init) rfl (.cons (i := Action.taskExit) rfl (.cons (i := Action.loop 0) rfl
      (.cons (i := Action.loop 0) rfl (.cons (i := Action.loop 0) rfl
        (.cons (i := Action.destroy) rfl .nil)))))
  exact ⟨_, _, rfl, h, safe_run_iff h⟩

/-- The thread has passed the test when the owner sets `_is_exit` and destroys the object: its next
step is `handle_event` on the deleted client. -/
theorem not_safe_exit_unseen :
    ¬ ∀ tr s, Run Step initial tr s → ∀ x ∈ tr, Safe x := by
  intro h
  have hrun : Run Step initial _ _ :=
    .cons (i := Action.init) rfl (.cons (i := Action.loop 0) rfl (.cons (i := Action.loop 0) rfl
      (.cons (i := Action.loop 0) rfl (.cons (i := Action.taskExit) rfl
        (.cons (i := Action.destroy) rfl (.cons (i := Action.loop 0) rfl .nil))))))
  have hlast := h _ _ hrun _ (List.mem_of_getLast? rfl)
  exact (hlast 0 .handleEvent rfl rfl).2 rfl rfl

end MThread
end EventBus
