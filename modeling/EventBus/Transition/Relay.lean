import Mathlib.Data.List.Basic
import Mathlib.Logic.Relation

/-!
# A lossy relay

How messages get from one sender to one receiver through two queues in a row. Both queues are FIFO.
A message may be lost when it would enter a queue, and may be thrown away when it leaves the second
one. However the steps interleave, what is delivered is a subsequence of what was sent.
-/

namespace EventBus.Transition

variable {α : Type*}

structure Relay (α : Type*) where
  sent : List α
  first : List α
  second : List α
  delivered : List α

namespace Relay

inductive Step : Relay α → Relay α → Prop
  | send (r : Relay α) (a : α) (kept : Bool) :
      Step r { r with sent := r.sent ++ [a], first := r.first ++ if kept then [a] else [] }
  | forward {r : Relay α} {a : α} {as : List α} (kept : Bool) (h : r.first = a :: as) :
      Step r { r with first := as, second := r.second ++ if kept then [a] else [] }
  | discard {r : Relay α} {a : α} {as : List α} (h : r.second = a :: as) :
      Step r { r with second := as }
  | deliver {r : Relay α} {a : α} {as : List α} (h : r.second = a :: as) :
      Step r { r with second := as, delivered := r.delivered ++ [a] }

/-- Some steps, or none. -/
abbrev Steps : Relay α → Relay α → Prop := Relation.ReflTransGen Step

/-- What was delivered, what is in the second queue and what is in the first were sent in this
order, perhaps with others in between. -/
def InOrder (r : Relay α) : Prop := (r.delivered ++ (r.second ++ r.first)).Sublist r.sent

theorem Step.inOrder {r r' : Relay α} (hstep : Step r r') (h : r.InOrder) : r'.InOrder := by
  unfold InOrder at h ⊢
  cases hstep with
  | send a kept =>
      have hkept : (if kept then [a] else []).Sublist [a] := by
        cases kept <;> simp
      have happend := h.append hkept
      rwa [List.append_assoc, List.append_assoc] at happend
  | @forward a as kept hfirst =>
      apply List.Sublist.trans _ h
      rw [hfirst, List.append_assoc]
      apply List.Sublist.append_left
      apply List.Sublist.append_left
      cases kept
      · exact List.sublist_cons_self a as
      · exact List.Sublist.refl _
  | @discard a as hsecond =>
      apply List.Sublist.trans _ h
      rw [hsecond]
      apply List.Sublist.append_left
      exact List.sublist_cons_self a _
  | @deliver a as hsecond =>
      rw [hsecond] at h
      simpa using h

/-- **What a relay delivers is a subsequence of what was sent**, if it was so before. -/
theorem Steps.inOrder {r r' : Relay α} (hsteps : Steps r r') (h : r.InOrder) : r'.InOrder := by
  induction hsteps with
  | refl => exact h
  | tail _ hstep ih => exact hstep.inOrder ih

theorem InOrder.sublist {r : Relay α} (h : r.InOrder) : r.delivered.Sublist r.sent :=
  (List.sublist_append_left _ _).trans h

/-- Throwing away several messages at the end of the second queue. -/
theorem steps_discard {r : Relay α} {as bs : List α} (h : r.second = as ++ bs) :
    Steps r { r with second := bs } := by
  induction as generalizing r with
  | nil =>
      have hr : { r with second := bs } = r := by
        rw [List.nil_append] at h
        rw [← h]
      rw [hr]
  | cons a as ih =>
      apply Relation.ReflTransGen.head (Step.discard h)
      exact ih (r := { r with second := as ++ bs }) rfl

end Relay
end EventBus.Transition
