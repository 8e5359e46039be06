import EventBus.Thread.Lifetime

/-!
# Controlling a running `MThread`

`task_begin`, `task_stop` and `task_exit` each write one flag. The loop of `_thread_run` reads the
two flags at different places of a round, so a call can come too late for the round it finds the
thread in. How late is bounded: this file counts what the loop still starts after a call.

A call may come from anywhere. One that another thread makes is an action between any two steps; one
that a handler makes inside `handle_event`, or that `thread_run` makes itself, is an action between
the step that starts `handle_event` or `thread_run` and the next step of the same thread. The
`handle_event` that `handle_message` calls is not one the loop starts, and touches no flag.
-/

namespace EventBus

open Transition

theorem Pc.after_eq_handleEvent {isExit isRun : Bool} {pc : Pc} :
    pc.after isExit isRun = .handleEvent ↔ pc = .testExit ∧ isExit = false := by
  cases pc <;> cases isExit <;> cases isRun <;> simp [Pc.after]

theorem Pc.after_eq_testRun {isExit isRun : Bool} {pc : Pc} :
    pc.after isExit isRun = .testRun ↔ pc = .handleEvent := by
  cases pc <;> cases isExit <;> cases isRun <;> simp [Pc.after]

theorem Pc.after_eq_threadRun {isExit isRun : Bool} {pc : Pc} :
    pc.after isExit isRun = .threadRun ↔ pc = .testRun ∧ isRun = true := by
  cases pc <;> cases isExit <;> cases isRun <;> simp [Pc.after]

namespace MThread

/-- Where thread `i` stands. A thread that is yet to be started has everything before it. -/
def pc (s : MThread) (i : Nat) : Pc := s.threads[i]?.getD .construct

/-- The step is taken by thread `i` where it stands at `pc`. For `handleEvent` and `threadRun` that
is the start of the call. -/
def Starts (pc : Pc) (i : Nat) (x : Taken MThread Action) : Prop :=
  x.label = .loop i ∧ x.pre.pc i = pc

instance (pc : Pc) (i : Nat) : DecidablePred (Starts pc i) :=
  fun _ => inferInstanceAs (Decidable (_ ∧ _))

/-- The steps thread `i` has taken itself. -/
def stepsOf (i : Nat) (tr : List (Taken MThread Action)) : List (Taken MThread Action) :=
  tr.filter fun x => x.label = .loop i

/-! ## What a step does to the flags and to a thread -/

/-- A new thread begins where it was expected. -/
theorem pc_append (s : MThread) (i : Nat) :
    (s.threads ++ [.construct])[i]?.getD .construct = s.pc i := by
  unfold pc
  grind

section
variable {s t : MThread} {a : Action}

theorem step_loop {i : Nat} (h : Step s (.loop i) t) :
    s.pc i ≠ .returned ∧ t.threads = s.threads.set i ((s.pc i).after s.isExit s.isRun) ∧
      i < s.threads.length ∧ t.isExit = s.isExit ∧ t.isRun = s.isRun := by
  obtain ⟨pc, hpc, hstep⟩ := Option.bind_eq_some_iff.mp h
  obtain ⟨hlt, -⟩ := List.getElem?_eq_some_iff.mp hpc
  have hat : s.pc i = pc := by rw [MThread.pc, hpc, Option.getD_some]
  obtain ⟨hne, hthreads, hexit, hrun, -, -⟩ := threadStep_spec hstep
  rw [hat]
  exact ⟨hne, hthreads, hlt, hexit, hrun⟩

theorem isExit_step (h : Step s a t) : t.isExit = (s.isExit || a = .taskExit) := by
  cases a with
  | loop i => simp [(step_loop h).2.2.2.1]
  | _ =>
      unfold Step next at h
      cases hd : s.destroyed <;> simp only [hd] at h <;> cases h
      simp

theorem isRun_step (h : Step s a t) :
    t.isRun = (a = .taskBegin || s.isRun && a ≠ .taskStop) := by
  cases a with
  | loop i => simp [(step_loop h).2.2.2.2]
  | _ =>
      unfold Step next at h
      cases hd : s.destroyed <;> simp only [hd] at h <;> cases h
      simp

/-- Nobody but the thread itself moves it. -/
theorem pc_step (h : Step s a t) (i : Nat) :
    t.pc i = if a = .loop i then (s.pc i).after s.isExit s.isRun else s.pc i := by
  cases a with
  | loop j =>
      obtain ⟨-, hthreads, hlt, -⟩ := step_loop h
      by_cases hij : j = i
      · subst hij
        rw [if_pos rfl, pc, hthreads, List.getElem?_set_self hlt, Option.getD_some]
      · rw [if_neg (by simpa using hij), pc, hthreads, List.getElem?_set_ne hij, pc]
  | init =>
      rw [if_neg Action.noConfusion]
      unfold Step next at h
      cases hd : s.destroyed <;> simp only [hd] at h <;> cases h
      exact pc_append s i
  | _ =>
      rw [if_neg Action.noConfusion]
      unfold Step next at h
      cases hd : s.destroyed <;> simp only [hd] at h <;> cases h
      rfl

end

/-! ## What came before -/

theorem stepsOf_concat_self {i : Nat} {tr : List (Taken MThread Action)}
    {x : Taken MThread Action} (h : x.label = .loop i) :
    stepsOf i (tr ++ [x]) = stepsOf i tr ++ [x] := by
  rw [stepsOf, List.filter_append, List.filter_singleton, h, decide_eq_true rfl]
  rfl

theorem stepsOf_concat_of_ne {i : Nat} {tr : List (Taken MThread Action)}
    {x : Taken MThread Action} (h : x.label ≠ .loop i) : stepsOf i (tr ++ [x]) = stepsOf i tr := by
  rw [stepsOf, List.filter_append, List.filter_singleton, decide_eq_false h]
  exact List.append_nil _

/-- What the own steps of thread `i` were that led it to the second half of a round. -/
structure Round (i : Nat) (tr : List (Taken MThread Action)) (s : MThread) : Prop where
  testRun : s.pc i = .testRun →
    ∃ before y, stepsOf i tr = before ++ [y] ∧ Starts .handleEvent i y
  threadRun : s.pc i = .threadRun →
    ∃ before y z, stepsOf i tr = before ++ [y, z] ∧ Starts .handleEvent i y ∧
      Starts .testRun i z ∧ z.pre.isRun = true

theorem round_step {i : Nat} {tr : List (Taken MThread Action)} {s t : MThread} {a : Action}
    (hs : Round i tr s) (h : Step s a t) : Round i (tr ++ [⟨s, a, t⟩]) t := by
  have hpc := pc_step h i
  by_cases ha : a = .loop i
  · rw [if_pos ha] at hpc
    have hsteps : stepsOf i (tr ++ [⟨s, a, t⟩]) = stepsOf i tr ++ [⟨s, a, t⟩] :=
      stepsOf_concat_self ha
    refine ⟨fun hat => ?_, fun hat => ?_⟩
    · have hfrom := Pc.after_eq_testRun.mp (hpc.symm.trans hat)
      exact ⟨stepsOf i tr, _, hsteps, ha, hfrom⟩
    · obtain ⟨hfrom, hrun⟩ := Pc.after_eq_threadRun.mp (hpc.symm.trans hat)
      obtain ⟨before, y, hbefore, hy⟩ := hs.testRun hfrom
      refine ⟨before, y, ⟨s, a, t⟩, ?_, hy, ⟨ha, hfrom⟩, hrun⟩
      rw [hsteps, hbefore, List.append_assoc, List.singleton_append]
  · rw [if_neg ha] at hpc
    refine ⟨fun hat => ?_, fun hat => ?_⟩
    · rw [stepsOf_concat_of_ne ha]
      exact hs.testRun (hpc.symm.trans hat)
    · rw [stepsOf_concat_of_ne ha]
      exact hs.threadRun (hpc.symm.trans hat)

theorem round_run {i : Nat} {tr : List (Taken MThread Action)} {s : MThread}
    (h : Run Step initial tr s) : Round i tr s := by
  apply h.past (I := Round i)
  · exact ⟨fun hat => by (cases hat), fun hat => by (cases hat)⟩
  · exact fun _ _ _ _ hs hstep => round_step hs hstep

/-! ## What is still to come -/

/-- If each step of a thread pays for what it counts out of the weight of the place it leaves, no
more is counted than the thread begins with. -/
theorem countP_le_weight {P : Taken MThread Action → Prop} [DecidablePred P] (weight : Pc → Nat)
    {i : Nat} {s t : MThread} {tr : List (Taken MThread Action)} (h : Run Step s tr t)
    (hown : ∀ x, P x → x.label = .loop i)
    (hpays : ∀ x ∈ tr, x.label = .loop i → x.pre.pc i ≠ .returned →
      weight ((x.pre.pc i).after x.pre.isExit x.pre.isRun) + (if P x then 1 else 0) ≤
        weight (x.pre.pc i)) :
    tr.countP (fun x => P x) ≤ weight (s.pc i) := by
  have hcount : tr.countP (fun x => P x) + weight (t.pc i) ≤ weight (s.pc i) := by
    apply h.countP_le fun s => weight (s.pc i)
    intro x hx
    have hstep := h.step_of_mem hx
    simp only [pc_step hstep i]
    by_cases ha : x.label = .loop i
    · rw [if_pos ha]
      apply hpays x hx ha
      rw [ha] at hstep
      exact (step_loop hstep).1
    · rw [if_neg ha, if_neg (mt (hown x) ha)]
      exact Nat.le_refl _
  omega

/-- A thread starts `pc` once at most if `pc` is one of some places which it cannot enter from
outside, and the step from `pc` leaves them. -/
theorem countP_starts_le_one {pc : Pc} (near : Pc → Bool) (hpc : near pc = true) {i : Nat}
    {s t : MThread} {tr : List (Taken MThread Action)} (h : Run Step s tr t)
    (hleave : ∀ x ∈ tr, near ((x.pre.pc i).after x.pre.isExit x.pre.isRun) = true →
      near (x.pre.pc i) = true ∧ x.pre.pc i ≠ pc) :
    tr.countP (fun x => Starts pc i x) ≤ 1 := by
  have hcount : tr.countP (fun x => Starts pc i x) ≤ (near (s.pc i)).toNat := by
    apply countP_le_weight (fun pc => (near pc).toNat) h (fun x hx => hx.1)
    intro x hx _ _
    cases hnear : near ((x.pre.pc i).after x.pre.isExit x.pre.isRun) with
    | true =>
        obtain ⟨hfrom, hne⟩ := hleave x hx hnear
        rw [if_neg fun hstart => hne hstart.2, hfrom]
        exact Nat.le_refl _
    | false =>
        split
        · next hstart =>
            rw [hstart.2, hpc]
            exact Nat.le_refl _
        · exact Nat.zero_le _
  exact Nat.le_trans hcount (Bool.toNat_le _)

/-- `_is_run` stays off as long as nobody calls `task_begin`. -/
theorem isRun_run {s t : MThread} {tr : List (Taken MThread Action)} (h : Run Step s tr t)
    (hs : s.isRun = false) (hnot : ∀ x ∈ tr, x.label ≠ .taskBegin) :
    ∀ x ∈ tr, x.pre.isRun = false := by
  have hstates := ((h.restrict hnot).invariant (I := fun s => s.isRun = false)
    (fun s a t hstep hs => by simp [isRun_step hstep.1, hs, hstep.2]) hs).1
  exact fun x hx => (hstates x hx).1

/-- `_is_exit` is never reset. -/
theorem isExit_run {s t : MThread} {tr : List (Taken MThread Action)} (h : Run Step s tr t)
    (hs : s.isExit = true) : ∀ x ∈ tr, x.pre.isExit = true := by
  have hstates := (h.invariant (I := fun s => s.isExit = true)
    (fun s a t hstep hs => by simp [isExit_step hstep, hs]) hs).1
  exact fun x hx => (hstates x hx).1

/-- With `_is_run` off, `thread_run` is still called only by a thread that has passed the test. -/
theorem countP_threadRun_stopped {s t : MThread} {tr : List (Taken MThread Action)} {i : Nat}
    (h : Run Step s tr t) (hoff : ∀ x ∈ tr, x.pre.isRun = false) :
    tr.countP (fun x => Starts .threadRun i x) ≤ 1 := by
  apply countP_starts_le_one (fun pc => pc = .threadRun) (decide_eq_true rfl) h
  intro x hx hnear
  rw [decide_eq_true_eq, Pc.after_eq_threadRun, hoff x hx] at hnear
  cases hnear.2

/-- How many steps a thread has left once it finds `_is_exit` set. -/
def stepsLeft : Pc → Nat
  | .construct => 3
  | .attach => 2
  | .testExit => 1
  | .handleEvent => 4
  | .testRun => 3
  | .sleep => 2
  | .threadRun => 2
  | .returned => 0

section
variable {s t : MThread} {tr : List (Taken MThread Action)} {i : Nat}

theorem countP_handleEvent_exit (h : Run Step s tr t) (hset : ∀ x ∈ tr, x.pre.isExit = true) :
    tr.countP (fun x => Starts .handleEvent i x) ≤ 1 := by
  apply countP_starts_le_one (fun pc => pc = .handleEvent) (decide_eq_true rfl) h
  intro x hx hnear
  rw [decide_eq_true_eq, Pc.after_eq_handleEvent, hset x hx] at hnear
  cases hnear.2

/-- From the test of `_is_exit` on a thread can get to `thread_run` once. -/
theorem countP_threadRun_exit (h : Run Step s tr t) (hset : ∀ x ∈ tr, x.pre.isExit = true) :
    tr.countP (fun x => Starts .threadRun i x) ≤ 1 := by
  apply countP_starts_le_one (fun pc => pc = .handleEvent ∨ pc = .testRun ∨ pc = .threadRun)
    (by simp) h
  intro x hx hnear
  simp only [decide_eq_true_eq, Pc.after_eq_handleEvent, Pc.after_eq_testRun,
    Pc.after_eq_threadRun, hset x hx] at hnear ⊢
  grind

theorem countP_loop_exit (h : Run Step s tr t) (hset : ∀ x ∈ tr, x.pre.isExit = true) :
    tr.countP (fun x => x.label = .loop i) ≤ 4 := by
  have hcount : tr.countP (fun x => x.label = .loop i) ≤ stepsLeft (s.pc i) := by
    apply countP_le_weight stepsLeft h (fun x hx => hx)
    intro x hx ha hne
    rw [hset x hx, if_pos ha]
    cases hpc : x.pre.pc i <;> cases x.pre.isRun <;> simp_all [stepsLeft, Pc.after]
  apply Nat.le_trans hcount
  cases s.pc i <;> simp [stepsLeft]

end

/-! ## Runs -/

/-- **How far a running thread obeys**: it calls `thread_run` only after it has called `handle_event`
and then read `_is_run` as set; once the task is stopped, and not begun again, it calls `thread_run`
once more at most; once it has been told to exit, whatever else it is told, it calls each of
`handle_event` and `thread_run` once more at most and takes four steps in all. -/
theorem control_run {tr₁ tr₂ : List (Taken MThread Action)} {x : Taken MThread Action}
    {s : MThread} (h : Run Step initial (tr₁ ++ x :: tr₂) s) (i : Nat) :
    (Starts .threadRun i x → ∃ before y z, stepsOf i tr₁ = before ++ [y, z] ∧
      Starts .handleEvent i y ∧ Starts .testRun i z ∧ z.pre.isRun = true) ∧
    (x.label = .taskStop → (∀ y ∈ tr₂, y.label ≠ .taskBegin) →
      tr₂.countP (fun y => Starts .threadRun i y) ≤ 1) ∧
    (x.label = .taskExit → tr₂.countP (fun y => Starts .handleEvent i y) ≤ 1 ∧
      tr₂.countP (fun y => Starts .threadRun i y) ≤ 1 ∧
      tr₂.countP (fun y => y.label = .loop i) ≤ 4) := by
  obtain ⟨hbefore, hstep, hafter⟩ := h.split
  refine ⟨fun hx => (round_run hbefore).threadRun hx.2, fun hstop hnot => ?_, fun hexit => ?_⟩
  · have hoff : x.post.isRun = false := by simp [isRun_step hstep, hstop]
    exact countP_threadRun_stopped hafter (isRun_run hafter hoff hnot)
  · have hon : x.post.isExit = true := by simp [isExit_step hstep, hexit]
    have hset := isExit_run hafter hon
    exact ⟨countP_handleEvent_exit hafter hset, countP_threadRun_exit hafter hset,
      countP_loop_exit hafter hset⟩

/-- The thread has just passed the test of `_is_exit` when it is told to exit, and a handler stops
the task and begins it again: the round is finished, with `thread_run`, and is the last. -/
theorem control_run_exit_seen_late :
    ∃ tr₁ x tr₂ s, (tr₁ ++ x :: tr₂).map Taken.label =
        [.init, .loop 0, .loop 0, .taskBegin, .loop 0, .taskExit,
          .loop 0, .taskStop, .taskBegin, .loop 0, .loop 0, .loop 0] ∧
      x.label = .taskExit ∧ Run Step initial (tr₁ ++ x :: tr₂) s ∧
      1 ≤ tr₂.countP (fun y => Starts .handleEvent 0 y) ∧
      tr₂.countP (fun y => Starts .handleEvent 0 y) ≤ 1 ∧
      1 ≤ tr₂.countP (fun y => Starts .threadRun 0 y) ∧
      tr₂.countP (fun y => Starts .threadRun 0 y) ≤ 1 := by
  have h : Run Step initial ([_, _, _, _, _] ++ _ :: _) _ :=
    .cons (i := Action.init) rfl (.cons (i := Action.loop 0) rfl (.cons (i := Action.loop 0) rfl
      (.cons (i := Action.taskBegin) rfl (.cons (i := Action.loop 0) rfl
        (.cons (i := Action.taskExit) rfl (.cons (i := Action.loop 0) rfl
          (.cons (i := Action.taskStop) rfl (.cons (i := Action.taskBegin) rfl
            (.cons (i := Action.loop 0) rfl (.cons (i := Action.loop 0) rfl
              (.cons (i := Action.loop 0) rfl .nil)))))))))))
  obtain ⟨hhandle, hrun, -⟩ := (control_run h 0).2.2 rfl
  exact ⟨_, _, _, _, rfl, rfl, h, by decide, hhandle, by decide, hrun⟩

end MThread
end EventBus
