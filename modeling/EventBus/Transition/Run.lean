import Mathlib.Logic.Relation

/-!
# Runs of labelled transition systems

A step relation `step : σ → ι → σ → Prop` over any states `σ` and labels `ι`. A run is kept as the
list of the steps it takes, each with the state before and the state after, so that a statement
about a run can speak of every step (`∀ x ∈ tr, …`) and of every state it passes through.

These rules carry the results below:

* `Run.invariant` is induction along a run, and `Run.restrict` lets the induction step assume what
  is known of every step of the run;
* `Run.forall_iff` compares two properties of steps. Where they agree in every state that satisfies
  an invariant, and a step with the property re-establishes the invariant, a run has the first
  property at every step exactly if it has the second;
* `Run.conserve` adds up the steps: if none of them makes or loses anything, neither does the run;
* `Run.countP_le` bounds how often something happens by a potential it uses up;
* `Run.past` is induction along a run for what a state owes to the steps that led to it;
* `Run.project` is what one part of a system sees of a run.
-/

namespace EventBus.Transition

variable {σ ι : Type*}

/-- A step that has been taken. -/
structure Taken (σ ι : Type*) where
  pre : σ
  label : ι
  post : σ

/-- `Run step s tr u`: from `s`, taking exactly the steps `tr`, the system gets to `u`. -/
inductive Run (step : σ → ι → σ → Prop) : σ → List (Taken σ ι) → σ → Prop
  | nil {s} : Run step s [] s
  | cons {s i t tr u} : step s i t → Run step t tr u → Run step s (⟨s, i, t⟩ :: tr) u

variable {step : σ → ι → σ → Prop}

/-- A step of a run, between the run up to it and the run from it. -/
theorem Run.split {s u : σ} {tr₁ tr₂ : List (Taken σ ι)} {x : Taken σ ι}
    (h : Run step s (tr₁ ++ x :: tr₂) u) :
    Run step s tr₁ x.pre ∧ step x.pre x.label x.post ∧ Run step x.post tr₂ u := by
  induction tr₁ generalizing s with
  | nil =>
      cases h with
      | cons hstep hrun => exact ⟨.nil, hstep, hrun⟩
  | cons y tr₁ ih =>
      cases h with
      | cons hstep hrun =>
          obtain ⟨hbefore, hx, hafter⟩ := ih hrun
          exact ⟨.cons hstep hbefore, hx, hafter⟩

theorem Run.step_of_mem {s u : σ} {tr : List (Taken σ ι)} (h : Run step s tr u) {x : Taken σ ι}
    (hx : x ∈ tr) : step x.pre x.label x.post := by
  obtain ⟨tr₁, tr₂, rfl⟩ := List.append_of_mem hx
  exact h.split.2.1

theorem Run.concat {s t u : σ} {i : ι} {tr : List (Taken σ ι)} (h : Run step s tr t)
    (hstep : step t i u) : Run step s (tr ++ [⟨t, i, u⟩]) u := by
  induction h with
  | nil => exact .cons hstep .nil
  | cons hfirst _ ih => exact .cons hfirst (ih hstep)

/-- A run whose steps all have a property is a run of the steps that have it. -/
theorem Run.restrict {P : Taken σ ι → Prop} {s u : σ} {tr : List (Taken σ ι)}
    (h : Run step s tr u) (hP : ∀ x ∈ tr, P x) :
    Run (fun s i t => step s i t ∧ P ⟨s, i, t⟩) s tr u := by
  induction h with
  | nil => exact .nil
  | cons hst _ ih =>
      obtain ⟨hhead, htail⟩ := List.forall_mem_cons.mp hP
      exact .cons ⟨hst, hhead⟩ (ih htail)

/-- **Induction along a run**: what every step preserves holds before and after every step, and at
the end. -/
theorem Run.invariant {I : σ → Prop} (hstep : ∀ s i t, step s i t → I s → I t)
    {s u : σ} {tr : List (Taken σ ι)} (h : Run step s tr u) (hs : I s) :
    (∀ x ∈ tr, I x.pre ∧ I x.post) ∧ I u := by
  induction h with
  | nil => exact ⟨by simp, hs⟩
  | @cons s i t tr u hst _ ih =>
      have ht := hstep s i t hst hs
      obtain ⟨htr, hu⟩ := ih ht
      exact ⟨List.forall_mem_cons.mpr ⟨⟨hs, ht⟩, htr⟩, hu⟩

/-- Two properties of steps that agree under an invariant hold along the same runs. The step has to
restore the invariant only when the property holds. -/
theorem Run.forall_iff {I : σ → Prop} {P Q : Taken σ ι → Prop}
    (hiff : ∀ s i t, step s i t → I s → (P ⟨s, i, t⟩ ↔ Q ⟨s, i, t⟩))
    (hinv : ∀ s i t, step s i t → I s → Q ⟨s, i, t⟩ → I t)
    {s u : σ} {tr : List (Taken σ ι)} (h : Run step s tr u) (hs : I s) :
    (∀ x ∈ tr, P x) ↔ ∀ x ∈ tr, Q x := by
  induction h with
  | nil => simp
  | @cons s i t tr u hst _ ih =>
      rw [List.forall_mem_cons, List.forall_mem_cons, hiff s i t hst hs]
      exact and_congr_right fun hq => ih (hinv s i t hst hs hq)

/-- **Accounting along a run**: if at every step what comes out and what is left is what was there
and what goes in, so it is for the whole run. -/
theorem Run.conserve {β : Type*} {out into : Taken σ ι → List β} {stock : σ → List β}
    {s u : σ} {tr : List (Taken σ ι)} (h : Run step s tr u)
    (hstep : ∀ x ∈ tr, out x ++ stock x.post = stock x.pre ++ into x) :
    tr.flatMap out ++ stock u = stock s ++ tr.flatMap into := by
  induction h with
  | nil => simp
  | @cons s i t tr u _ _ ih =>
      obtain ⟨hhead, htail⟩ := List.forall_mem_cons.mp hstep
      calc (⟨s, i, t⟩ :: tr).flatMap out ++ stock u
          = out ⟨s, i, t⟩ ++ (tr.flatMap out ++ stock u) := by
            rw [List.flatMap_cons, List.append_assoc]
        _ = (out ⟨s, i, t⟩ ++ stock t) ++ tr.flatMap into := by
            rw [ih htail, List.append_assoc]
        _ = stock s ++ (⟨s, i, t⟩ :: tr).flatMap into := by
            rw [hhead, List.append_assoc, List.flatMap_cons]

/-- **A potential bounds how often something happens**: if every step with the property lowers the
potential and no step raises it, the run has no more such steps than there is potential. -/
theorem Run.countP_le {P : Taken σ ι → Prop} [DecidablePred P] (potential : σ → Nat)
    {s u : σ} {tr : List (Taken σ ι)} (h : Run step s tr u)
    (hstep : ∀ x ∈ tr, potential x.post + (if P x then 1 else 0) ≤ potential x.pre) :
    tr.countP (fun x => P x) + potential u ≤ potential s := by
  induction h with
  | nil => simp
  | @cons s i t tr u _ _ ih =>
      obtain ⟨hhead, htail⟩ := List.forall_mem_cons.mp hstep
      calc (⟨s, i, t⟩ :: tr).countP (fun x => P x) + potential u
          = tr.countP (fun x => P x) + potential u + (if P ⟨s, i, t⟩ then 1 else 0) := by
            simp only [List.countP_cons, decide_eq_true_eq]
            omega
        _ ≤ potential t + (if P ⟨s, i, t⟩ then 1 else 0) := Nat.add_le_add_right (ih htail) _
        _ ≤ potential s := hhead

/-- **Induction along the past of a state**: what holds of the start without a past, and goes on
holding when a step is added to the past, holds at the end of the whole run. -/
theorem Run.past {I : List (Taken σ ι) → σ → Prop} {s u : σ} {tr : List (Taken σ ι)}
    (h : Run step s tr u) (hs : I [] s)
    (hstep : ∀ tr t i t', I tr t → step t i t' → I (tr ++ [⟨t, i, t'⟩]) t') : I tr u := by
  have hfrom : ∀ before, I before s → I (before ++ tr) u := by
    clear hs
    induction h with
    | nil =>
        intro before hbefore
        rw [List.append_nil]
        exact hbefore
    | cons hst _ ih =>
        intro before hbefore
        rw [List.append_cons]
        exact ih _ (hstep _ _ _ _ hbefore hst)
  exact hfrom [] hs

/-- **A run seen from one side**: if every step is a step of another system, or leaves what is seen of
the state as it is, the steps that are seen are a run of that system. -/
theorem Run.project {τ κ : Type*} {step' : τ → κ → τ → Prop} (view : σ → τ)
    (seen : Taken σ ι → Option (Taken τ κ))
    (hstep : ∀ s i t, step s i t → match seen ⟨s, i, t⟩ with
      | none => view s = view t
      | some y => y.pre = view s ∧ y.post = view t ∧ step' y.pre y.label y.post)
    {s u : σ} {tr : List (Taken σ ι)} (h : Run step s tr u) :
    Run step' (view s) (tr.filterMap seen) (view u) := by
  induction h with
  | nil => exact .nil
  | @cons s i t tr u hst _ ih =>
      have hs := hstep s i t hst
      rw [List.filterMap_cons]
      cases hseen : seen ⟨s, i, t⟩ with
      | none =>
          rw [hseen] at hs
          rwa [show view s = view t from hs]
      | some y =>
          rw [hseen] at hs
          obtain ⟨pre, j, post⟩ := y
          obtain ⟨rfl, rfl, hy⟩ := hs
          exact .cons hy ih

/-! ## Deterministic systems -/

/-- The steps taken on a list of labels when each label determines the next state. -/
def trace (next : σ → ι → σ) : σ → List ι → List (Taken σ ι)
  | _, [] => []
  | s, i :: is => ⟨s, i, next s i⟩ :: trace next (next s i) is

theorem run_trace (next : σ → ι → σ) (s : σ) (is : List ι) :
    Run (fun s i t => t = next s i) s (trace next s is) (is.foldl next s) := by
  induction is generalizing s with
  | nil => exact .nil
  | cons i is ih => exact .cons rfl (ih (next s i))

theorem trace_concat (next : σ → ι → σ) (s : σ) (is : List ι) (i : ι) :
    trace next s (is ++ [i]) =
      trace next s is ++ [⟨is.foldl next s, i, next (is.foldl next s) i⟩] := by
  induction is generalizing s with
  | nil => rfl
  | cons j is ih => rw [List.cons_append, trace, ih, trace, List.foldl_cons, List.cons_append]

/-- The steps taken on a list of labels when each label determines the next state if it is possible
there, and the state they lead to. -/
def attempt (next : σ → ι → Option σ) : σ → List ι → Option (List (Taken σ ι) × σ)
  | s, [] => some ([], s)
  | s, i :: is => (next s i).bind fun t =>
      (attempt next t is).map fun r => (⟨s, i, t⟩ :: r.1, r.2)

theorem run_attempt {next : σ → ι → Option σ} {s u : σ} {is : List ι} {tr : List (Taken σ ι)}
    (h : attempt next s is = some (tr, u)) :
    Run (fun s i t => next s i = some t) s tr u ∧ tr.map Taken.label = is := by
  induction is generalizing s tr with
  | nil =>
      cases h
      exact ⟨.nil, rfl⟩
  | cons i is ih =>
      obtain ⟨t, hnext, h⟩ := Option.bind_eq_some_iff.mp h
      obtain ⟨⟨tr', u'⟩, hrest, h⟩ := Option.map_eq_some_iff.mp h
      cases h
      obtain ⟨hrun, hlabels⟩ := ih hrest
      exact ⟨.cons hnext hrun, by rw [List.map_cons, hlabels]⟩

end EventBus.Transition
