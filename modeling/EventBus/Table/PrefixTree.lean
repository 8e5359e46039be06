import EventBus.Table.Window
import Mathlib.Algebra.GroupWithZero.Nat
import Mathlib.Data.List.Infix
import Mathlib.Data.List.Lex
import Mathlib.Order.Fin.Basic

/-!
# Prefix trees with windows of children

A tree that stores a value under every key `List (Fin n)`: one edge for each element of the key, the
children of a node being a window. The value `default` stands for nothing stored, and a node is
*redundant* when it has this value and no children. Operations walk down a key, do something at its
end, and on the way back prune what has become redundant; they have no result where an assertion on
the way fails.

A tree is *sound* when every window in it is compact and no node below the root is redundant. The
rules below say that on a sound tree the operations do not fail, that they give a sound tree again,
and that they change what is stored under one key only.
-/

namespace EventBus.Table

/-- A node: a value, and a window of children. -/
inductive PrefixTree (β : Type*)
  | node (value : β) (next : Window (PrefixTree β))

namespace PrefixTree
variable {β γ : Type*} {n : Nat}

def value : PrefixTree β → β
  | .node value _ => value

def next : PrefixTree β → Window (PrefixTree β)
  | .node _ next => next

section Stored
variable [Inhabited β]

/-- A node that has just been created. -/
def fresh : PrefixTree β := .node default .empty

/-- What is stored under a key. -/
def lookup : PrefixTree β → List (Fin n) → β
  | .node value _, [] => value
  | .node _ next, c :: key =>
      match next.get c with
      | some t => lookup t key
      | none => default

@[simp] theorem lookup_nil (value : β) (next : Window (PrefixTree β)) :
    lookup (.node value next) ([] : List (Fin n)) = value := rfl

@[simp] theorem lookup_fresh (key : List (Fin n)) : lookup (fresh : PrefixTree β) key = default := by
  cases key <;> simp [fresh, lookup]

variable [DecidableEq β]

/-- Nothing is stored here and there are no children. -/
def isRedundant (t : PrefixTree β) : Bool := t.value == default && t.next.live == 0

/-! ## The operations -/

/-- Walks down a key, creating the nodes that are missing, and changes the value at the end by `f`.
The window a node has been added to has to satisfy `ok`. -/
def addWith (f : β → γ × β) (ok : Window (PrefixTree β) → Bool) :
    List (Fin n) → PrefixTree β → Option (γ × PrefixTree β)
  | [], .node value next => some ((f value).1, .node (f value).2 next)
  | c :: key, .node value next =>
      let next := next.reach c
      match next.get c with
      | some child =>
          (addWith f ok key child).map fun r => (r.1, .node value (next.put c (some r.2)))
      | none =>
          let next := { next with live := next.live + 1 }
          if ok next then
            (addWith f ok key fresh).map fun r => (r.1, .node value (next.put c (some r.2)))
          else none

/-- Walks down a key as far as there are nodes, changes the value at the end by `f`, and prunes the
nodes this makes redundant. -/
def rmWith (f : β → Option (γ × β)) (miss : γ)
    (prune : Nat → Window (PrefixTree β) → Option (Window (PrefixTree β))) :
    List (Fin n) → PrefixTree β → Option (γ × PrefixTree β)
  | [], .node value next => (f value).map fun r => (r.1, .node r.2 next)
  | c :: key, .node value next =>
      match next.get c with
      | none => some (miss, .node value next)
      | some child =>
          (rmWith f miss prune key child).bind fun r =>
            if r.2.isRedundant then
              (prune c (next.put c (some r.2))).map fun next => (r.1, .node value next)
            else some (r.1, .node value (next.put c (some r.2)))

end Stored

mutual

/-- The keys under which a value with the property is stored, `buff` being the way to the node. -/
def collectFrom [NeZero n] (p : β → Bool) (buff : List (Fin n)) :
    PrefixTree β → Option (List (List (Fin n)))
  | .node value ⟨min, _, slots⟩ =>
      let here := if p value then [buff] else []
      match slots with
      | [] => some here
      | [none] => none
      | slots => (collectTable p buff min slots).map (here ++ ·)

def collectTable [NeZero n] (p : β → Bool) (buff : List (Fin n)) (min : Nat) :
    List (Option (PrefixTree β)) → Option (List (List (Fin n)))
  | [] => some []
  | none :: slots => collectTable p buff (min + 1) slots
  | some t :: slots =>
      (collectFrom p (buff ++ [Fin.ofNat n min]) t).bind fun ks =>
        (collectTable p buff (min + 1) slots).map (ks ++ ·)

end

/-! ## Lists of keys -/

/-- The keys with some property, each once and in order. -/
def Listed (ks : List (List (Fin n))) (stored : List (Fin n) → Prop) : Prop :=
  ks.Pairwise (· < ·) ∧ ∀ k, k ∈ ks ↔ stored k

/-- The same keys, told in another way. -/
theorem Listed.congr {ks : List (List (Fin n))} {stored stored' : List (Fin n) → Prop}
    (h : Listed ks stored) (hiff : ∀ k, stored k ↔ stored' k) : Listed ks stored' :=
  ⟨h.1, fun k => (h.2 k).trans (hiff k)⟩

/-- The keys below one element, followed by keys above it. -/
theorem Listed.branch {c : Fin n} {ks₀ ks : List (List (Fin n))}
    {stored₀ stored : List (Fin n) → Prop} (h₀ : Listed ks₀ stored₀) (h : Listed ks stored)
    (habove : ∀ k, stored k → ∃ d key, k = d :: key ∧ c < d) :
    Listed (ks₀.map (c :: ·) ++ ks) fun k => (∃ key, k = c :: key ∧ stored₀ key) ∨ stored k := by
  refine ⟨List.pairwise_append.mpr ⟨?_, h.1, ?_⟩, fun k => ?_⟩
  · exact List.pairwise_map.mpr (h₀.1.imp fun hlt => List.Lex.cons hlt)
  · intro k hk k' hk'
    obtain ⟨key, -, rfl⟩ := List.mem_map.mp hk
    obtain ⟨d, key', rfl, hlt⟩ := habove k' ((h.2 k').mp hk')
    exact List.Lex.rel hlt
  · rw [List.mem_append, h.2, List.mem_map]
    constructor
    · rintro (⟨key, hkey, rfl⟩ | hk)
      · exact .inl ⟨key, rfl, (h₀.2 key).mp hkey⟩
      · exact .inr hk
    · rintro (⟨key, rfl, hkey⟩ | hk)
      · exact .inl ⟨key, (h₀.2 key).mpr hkey, rfl⟩
      · exact .inr hk

/-- The empty key, where it belongs there, before all others. -/
theorem Listed.root {here : Prop} [Decidable here] {ks : List (List (Fin n))}
    {stored : List (Fin n) → Prop} (h : Listed ks stored) (hne : ¬ stored []) :
    Listed ((if here then [[]] else []) ++ ks) fun k => (k = [] ∧ here) ∨ stored k := by
  refine ⟨List.pairwise_append.mpr ⟨by split <;> simp, h.1, ?_⟩, fun k => ?_⟩
  · intro k hk k' hk'
    have hk' := (h.2 k').mp hk'
    split at hk
    · cases List.mem_singleton.mp hk
      cases k' with
      | nil => exact absurd hk' hne
      | cons d key => exact List.Lex.nil
    · cases hk
  · rw [List.mem_append, h.2]
    split <;> simp [*]

/-- The keys that begin in a table, by the child their first element leads to. -/
def Below (w : Window (PrefixTree β)) (stored : PrefixTree β → List (Fin n) → Prop)
    (k : List (Fin n)) : Prop :=
  ∃ c key, k = c :: key ∧ ∃ t, w.get c.val = some t ∧ stored t key

/-- A window, slot by slot. -/
theorem get_cons (min live : Nat) (s : Option (PrefixTree β))
    (slots : List (Option (PrefixTree β))) (c : Nat) :
    Window.get ⟨min, live, s :: slots⟩ c =
      if c = min then s else Window.get ⟨min + 1, live, slots⟩ c := by
  unfold Window.get
  grind

/-- An empty slot has no keys. -/
theorem below_skip {min live : Nat} {slots : List (Option (PrefixTree β))}
    {stored : PrefixTree β → List (Fin n) → Prop} (k : List (Fin n)) :
    Below ⟨min, live, none :: slots⟩ stored k ↔ Below ⟨min + 1, live, slots⟩ stored k := by
  unfold Below
  simp only [get_cons]
  refine exists_congr fun c => exists_congr fun key => and_congr_right fun _ =>
    exists_congr fun t => and_congr_left fun _ => ?_
  split
  · rename_i hc
    rw [Window.get_of_not_covers]
    simp [Window.Covers, hc]
  · rfl

/-- The keys of the first child, and those of the rest. -/
theorem below_step {min live : Nat} {c : Fin n} (hc : c.val = min) {t : PrefixTree β}
    {slots : List (Option (PrefixTree β))} {stored : PrefixTree β → List (Fin n) → Prop}
    (k : List (Fin n)) :
    Below ⟨min, live, some t :: slots⟩ stored k ↔
      (∃ key, k = c :: key ∧ stored t key) ∨ Below ⟨min + 1, live, slots⟩ stored k := by
  subst hc
  unfold Below
  simp only [get_cons]
  constructor
  · rintro ⟨d, key, rfl, u, hget, hstored⟩
    split at hget
    · rename_i hd
      cases hget
      exact .inl ⟨key, by rw [Fin.ext hd], hstored⟩
    · exact .inr ⟨d, key, rfl, u, hget, hstored⟩
  · rintro (⟨key, rfl, hstored⟩ | ⟨d, key, rfl, u, hget, hstored⟩)
    · exact ⟨c, key, rfl, t, if_pos rfl, hstored⟩
    · have hle : c.val + 1 ≤ d.val := (Window.covers_of_get hget).1
      exact ⟨d, key, rfl, u, by rw [if_neg (by omega), hget], hstored⟩

/-- The keys of the rest come after all of those. -/
theorem below_above {min live : Nat} {c : Fin n} (hc : c.val = min)
    {slots : List (Option (PrefixTree β))} {stored : PrefixTree β → List (Fin n) → Prop} (k : List (Fin n))
    (h : Below ⟨min + 1, live, slots⟩ stored k) : ∃ d key, k = d :: key ∧ c < d := by
  obtain ⟨d, key, rfl, u, hget, -⟩ := h
  have hle : min + 1 ≤ d.val := (Window.covers_of_get hget).1
  exact ⟨d, key, rfl, Fin.lt_def.mpr (by omega)⟩

/-- The empty key is that of the node itself. -/
theorem not_below_nil {w : Window (PrefixTree β)} {stored : PrefixTree β → List (Fin n) → Prop} :
    ¬ Below w stored [] := by
  rintro ⟨c, key, hk, -⟩
  cases hk

/-! ## Sound trees -/

section Sound
variable [Inhabited β] [DecidableEq β]

/-- Every window of children is compact, and no node is there in vain. -/
inductive Sound (n : Nat) : PrefixTree β → Prop
  | node {value : β} {next : Window (PrefixTree β)} (compact : next.Compact)
      (bound : next.min + next.count ≤ n) (children : ∀ c t, next.get c = some t → Sound n t)
      (needed : ∀ c t, next.get c = some t → t.isRedundant = false) : Sound n (.node value next)

/-- A node that has just been created is sound, but redundant. -/
theorem sound_fresh : Sound n (fresh : PrefixTree β) :=
  .node Window.compact_empty (Nat.zero_le _) (fun c t h => by simp at h) fun c t h => by simp at h

/-- A sound node is needed exactly if something is stored in its part of the tree. -/
theorem isRedundant_iff {t : PrefixTree β} (h : t.Sound n) :
    t.isRedundant ↔ ∀ key : List (Fin n), t.lookup key = default := by
  induction h with
  | @node value next compact bound children needed ih =>
      have hred : (node value next).isRedundant ↔ value = default ∧ next.live = 0 := by
        simp [isRedundant, PrefixTree.value, PrefixTree.next]
      rw [hred]
      constructor
      -- No children, so there is only the value of the node.
      · rintro ⟨hvalue, hlive⟩ key
        cases key with
        | nil => exact hvalue
        | cons c key =>
            cases hget : next.get c with
            | none => simp [lookup, hget]
            | some t => exact absurd (Window.live_pos_of_get compact.counted hget) (by omega)
      · intro hall
        refine ⟨hall [], ?_⟩
        -- A child is not redundant, so something would be stored below it.
        by_contra hlive
        obtain ⟨c, t, hget⟩ :=
          Window.exists_get_of_live compact.counted (Nat.pos_of_ne_zero hlive)
        refine absurd ((ih c t hget).mpr fun key => ?_) (by simp [needed c t hget])
        obtain ⟨hmin, hlt⟩ := Window.covers_of_get hget
        have hkey := hall (⟨c, by omega⟩ :: key)
        rwa [lookup, hget] at hkey

/-- A node with another child under one element. -/
theorem sound_replace {value value' : β} {next next' : Window (PrefixTree β)}
    (h : Sound n (.node value next)) (compact : next'.Compact)
    (bound : next'.min + next'.count ≤ n) {c : Nat}
    (hother : ∀ d, d ≠ c → next'.get d = next.get d)
    (hc : ∀ t, next'.get c = some t → t.Sound n ∧ t.isRedundant = false) :
    Sound n (.node value' next') := by
  cases h with
  | node _ _ children needed =>
      have hall : ∀ d t, next'.get d = some t → t.Sound n ∧ t.isRedundant = false := by
        intro d t hget
        by_cases hd : d = c
        · subst hd
          exact hc t hget
        · rw [hother d hd] at hget
          exact ⟨children d t hget, needed d t hget⟩
      exact .node compact bound (fun d t hget => (hall d t hget).1) fun d t hget => (hall d t hget).2

omit [DecidableEq β] in
/-- What a node stores when the child under one element has changed at one key. -/
theorem lookup_replace {value b : β} {next next' : Window (PrefixTree β)} {c : Fin n}
    {key : List (Fin n)} (hother : ∀ d, d ≠ c.val → next'.get d = next.get d)
    (hc : ∀ k, lookup (.node value next') (c :: k) =
      if k = key then b else lookup (.node value next) (c :: k)) (k : List (Fin n)) :
    lookup (.node value next') k = if k = c :: key then b else lookup (.node value next) k := by
  cases k with
  | nil => simp
  | cons d k =>
      by_cases hd : d = c
      · subst hd
        simp [hc]
      · have hval : d.val ≠ c.val := fun he => hd (Fin.ext he)
        simp [lookup, hother d hval, hd]

/-! ## Adding -/

/-- **Adding** stores the new value under the key. It must not be the value for nothing. -/
theorem addWith_spec {f : β → γ × β} {ok : Window (PrefixTree β) → Bool}
    (hok : ∀ (w : Window (PrefixTree β)) c, w.Compact → w.get c = none →
      ok { w.reach c with live := w.live + 1 })
    {t : PrefixTree β} (h : t.Sound n) (key : List (Fin n)) (hf : (f (t.lookup key)).2 ≠ default) :
    ∃ t', addWith f ok key t = some ((f (t.lookup key)).1, t') ∧ t'.Sound n ∧
      t'.isRedundant = false ∧
      ∀ k, t'.lookup k = if k = key then (f (t.lookup key)).2 else t.lookup k := by
  induction key generalizing t with
  | nil =>
      cases h with
      | @node value next compact bound children needed =>
          refine ⟨.node (f value).2 next, rfl, .node compact bound children needed, ?_, ?_⟩
          · have hne : (f value).2 ≠ default := hf
            simp [isRedundant, PrefixTree.value, hne]
          · intro k
            cases k <;> simp [lookup]
  | cons c key ih =>
      obtain ⟨value, next⟩ := t
      have hsound := h
      cases h with
      | node compact bound children needed =>
          cases hget : next.get c with
          | some child =>
              have hlookup : lookup (.node value next) (c :: key) = child.lookup key := by
                simp [lookup, hget]
              rw [hlookup] at hf ⊢
              -- There is a child, and it is replaced.
              obtain ⟨child', hadd, hchild, hneeded, hlookup'⟩ := ih (children c child hget) hf
              have hput := Window.get_put (Window.covers_of_get hget) (some child')
              have hother : ∀ d, d ≠ c.val → (next.put c (some child')).get d = next.get d :=
                fun d hd => by rw [hput, if_neg hd]
              have hself : (next.put c (some child')).get c = some child' := by simp [hput]
              refine ⟨.node value (next.put c (some child')), ?_, ?_, ?_, ?_⟩
              · simp [addWith, Window.reach_of_get hget, hget, hadd]
              · refine sound_replace hsound (compact.put hget child') (by simpa using bound) hother ?_
                intro u hu
                rw [hself] at hu
                cases hu
                exact ⟨hchild, hneeded⟩
              · have hlive := Window.live_pos_of_get compact.counted hget
                have hne : next.live ≠ 0 := by omega
                simp [isRedundant, PrefixTree.next, hne]
              · exact lookup_replace hother fun k => by simp [lookup, hself, hget, hlookup']
          | none =>
              have hlookup : lookup (.node value next) (c :: key) = default := by
                simp [lookup, hget]
              rw [hlookup] at hf ⊢
              obtain ⟨child', hadd, hchild, hneeded, hlookup'⟩ :=
                ih (t := fresh) sound_fresh (by simpa using hf)
              rw [lookup_fresh] at hadd hlookup'
              -- There is none: the window is widened as far as the new one.
              let next' : Window (PrefixTree β) :=
                { (next.reach c).put c (some child') with live := (next.reach c).live + 1 }
              have hput : ∀ d, next'.get d = if d = c then some child' else next.get d := by
                intro d
                have := Window.get_put (Window.covers_reach c.val next) (some child') d
                rwa [Window.get_reach] at this
              have hother : ∀ d, d ≠ c.val → next'.get d = next.get d :=
                fun d hd => by rw [hput, if_neg hd]
              have hself : next'.get c = some child' := by simp [hput]
              refine ⟨.node value next', ?_, ?_, ?_, ?_⟩
              · simp only [addWith, Window.get_reach, hget, Window.live_reach]
                rw [if_pos (hok next c compact hget), hadd]
                simp [next', Window.put]
              · refine sound_replace hsound (compact.insert hget child') ?_ hother ?_
                · have hbound := Window.bound_reach bound c.isLt
                  simpa [next', Window.count, Window.put] using hbound
                · intro u hu
                  rw [hself] at hu
                  cases hu
                  exact ⟨hchild, hneeded⟩
              · simp [isRedundant, PrefixTree.next, next']
              · exact lookup_replace hother fun k => by simp [lookup, hself, hget, hlookup']

/-! ## Removing -/

/-- Pruning takes one key out of a compact window, and nothing else. -/
def Prunes (n : Nat) (prune : Nat → Window (PrefixTree β) → Option (Window (PrefixTree β))) : Prop :=
  ∀ ⦃w : Window (PrefixTree β)⦄ ⦃c : Nat⦄ ⦃t : PrefixTree β⦄, w.Compact → w.min + w.count ≤ n →
    w.get c = some t → ∃ w', prune c w = some w' ∧ w'.Compact ∧ w'.min + w'.count ≤ n ∧
      ∀ k, w'.get k = if k = c then none else w.get k

omit [Inhabited β] [DecidableEq β] in
/-- What a window says of pruning is enough for a tree. -/
theorem Prunes.of_pruned {prune : Nat → Window (PrefixTree β) → Option (Window (PrefixTree β))}
    (h : ∀ (w : Window (PrefixTree β)) (c : Nat) (t : PrefixTree β), w.Compact →
      w.min + w.count ≤ n → w.get c = some t → ∃ w', prune c w = some w' ∧ w.Pruned n c w') :
    Prunes n prune := by
  intro w c t hcompact hbound hget
  obtain ⟨w', hres, hpruned⟩ := h w c t hcompact hbound hget
  exact ⟨w', hres, hpruned.compact, hpruned.bound, hpruned.get⟩

/-- **Removing** changes the value under the key. Where nothing is stored it must do nothing. -/
theorem rmWith_spec {f : β → Option (γ × β)} {miss g : γ} {b : β}
    {prune : Nat → Window (PrefixTree β) → Option (Window (PrefixTree β))} (hprune : Prunes n prune)
    (hmiss : f default = some (miss, default)) {t : PrefixTree β} (h : t.Sound n) (key : List (Fin n))
    (hf : f (t.lookup key) = some (g, b)) :
    ∃ t', rmWith f miss prune key t = some (g, t') ∧ t'.Sound n ∧
      ∀ k, t'.lookup k = if k = key then b else t.lookup k := by
  induction key generalizing t with
  | nil =>
      cases h with
      | @node value next compact bound children needed =>
          rw [lookup_nil] at hf
          refine ⟨.node b next, by simp [rmWith, hf], .node compact bound children needed, ?_⟩
          intro k
          cases k <;> simp [lookup]
  | cons c key ih =>
      obtain ⟨value, next⟩ := t
      have hsound := h
      cases h with
      | node compact bound children needed =>
          cases hget : next.get c with
          | none =>
              have hlookup : lookup (.node value next) (c :: key) = default := by
                simp [lookup, hget]
              rw [hlookup, hmiss] at hf
              obtain ⟨rfl, rfl⟩ := Prod.mk.inj (Option.some.inj hf)
              -- Nothing is stored under the key, and nothing is done.
              refine ⟨.node value next, by simp [rmWith, hget], hsound, fun k => ?_⟩
              split
              · rename_i hk
                rw [hk, hlookup]
              · rfl
          | some child =>
              have hlookup : lookup (.node value next) (c :: key) = child.lookup key := by
                simp [lookup, hget]
              rw [hlookup] at hf
              obtain ⟨child', hrm, hchild, hlookup'⟩ := ih (children c child hget) hf
              have hput := Window.get_put (Window.covers_of_get hget) (some child')
              have hother : ∀ d, d ≠ c.val → (next.put c (some child')).get d = next.get d :=
                fun d hd => by rw [hput, if_neg hd]
              have hself : (next.put c (some child')).get c = some child' := by simp [hput]
              cases hred : child'.isRedundant with
              | false =>
                  refine ⟨.node value (next.put c (some child')), ?_, ?_, ?_⟩
                  · simp [rmWith, hget, hrm, hred]
                  · refine sound_replace hsound (compact.put hget child') (by simpa using bound)
                      hother ?_
                    intro u hu
                    rw [hself] at hu
                    cases hu
                    exact ⟨hchild, hred⟩
                  · exact lookup_replace hother fun k => by simp [lookup, hself, hget, hlookup']
              | true =>
                  -- The child has become redundant, so its slot is given up.
                  obtain ⟨next', hnext, hcompact, hbound, hget'⟩ :=
                    hprune (compact.put hget child') (by simpa using bound) hself
                  have hother' : ∀ d, d ≠ c.val → next'.get d = next.get d :=
                    fun d hd => by rw [hget', if_neg hd, hother d hd]
                  have hself' : next'.get c = none := by simp [hget']
                  refine ⟨.node value next', ?_, ?_, ?_⟩
                  · simp [rmWith, hget, hrm, hred, hnext]
                  · refine sound_replace hsound hcompact hbound hother' ?_
                    intro u hu
                    rw [hself'] at hu
                    cases hu
                  · refine lookup_replace hother' fun k => ?_
                    have hzero := (isRedundant_iff hchild).mp hred k
                    rw [hlookup'] at hzero
                    simp [lookup, hself', hget, hzero]

/-! ## Going through all keys -/

omit [DecidableEq β] in
/-- What the keys of a node are, by the keys of its children. -/
theorem lookup_iff_below {P : β → Prop} (hP : ¬ P default) (value : β) (next : Window (PrefixTree β))
    (k : List (Fin n)) :
    P ((node value next).lookup k) ↔
      (k = [] ∧ P value) ∨ Below next (fun t key => P (t.lookup key)) k := by
  cases k with
  | nil => simp [Below]
  | cons c key =>
      cases hget : next.get c with
      | none => simp [lookup, Below, hget, hP]
      | some t => simp [lookup, Below, hget]

section Collect
variable [NeZero n] {p : β → Bool}

omit [DecidableEq β] in
/-- The loop over a table, on its slots. -/
private theorem collectTable_spec (buff : List (Fin n)) (slots : List (Option (PrefixTree β)))
    (min live : Nat) (hbound : min + slots.length ≤ n)
    (hall : ∀ c t, Window.get ⟨min, live, slots⟩ c = some t → ∀ buff : List (Fin n),
      ∃ ks, collectFrom p buff t = some (ks.map (buff ++ ·)) ∧
        Listed ks fun k => p (t.lookup k)) :
    ∃ ks, collectTable p buff min slots = some (ks.map (buff ++ ·)) ∧
      Listed ks (Below ⟨min, live, slots⟩ fun t key => p (t.lookup key)) := by
  induction slots generalizing min with
  | nil => exact ⟨[], rfl, List.Pairwise.nil, fun k => by simp [Below, Window.get]⟩
  | cons s slots ih =>
      have hlen : min + 1 + slots.length ≤ n := by
        rw [List.length_cons] at hbound
        omega
      have hval : (Fin.ofNat n min).val = min := Nat.mod_eq_of_lt (by omega)
      obtain ⟨ks, hks, hlisted⟩ := ih (min + 1) hlen fun c t hc => hall c t (by
        have hle : min + 1 ≤ c := (Window.covers_of_get hc).1
        rw [get_cons, if_neg (by omega), hc])
      cases s with
      | none => exact ⟨ks, by rw [collectTable, hks], hlisted.congr fun k => (below_skip k).symm⟩
      | some t =>
          obtain ⟨ks₀, hks₀, hlisted₀⟩ :=
            hall min t (by rw [get_cons, if_pos rfl]) (buff ++ [Fin.ofNat n min])
          refine ⟨ks₀.map (Fin.ofNat n min :: ·) ++ ks, ?_, ?_⟩
          · rw [collectTable, hks₀, hks]
            simp [Function.comp_def]
          · exact (hlisted₀.branch hlisted (below_above hval)).congr fun k => by
              rw [below_step hval]

/-- **Going through a tree** finds every key with the property once, in order. -/
theorem collectFrom_spec (hp : p default = false) {t : PrefixTree β} (h : t.Sound n)
    (buff : List (Fin n)) :
    ∃ ks, collectFrom p buff t = some (ks.map (buff ++ ·)) ∧ Listed ks fun k => p (t.lookup k) := by
  induction h generalizing buff with
  | @node value next compact bound children needed ih =>
      obtain ⟨min, live, slots⟩ := next
      obtain ⟨ks, hks, hlisted⟩ :=
        collectTable_spec buff slots min live bound fun c t hc buff => ih c t hc buff
      have hhere : (if p value then [buff] else []) =
          (if p value then [([] : List (Fin n))] else []).map (buff ++ ·) := by
        split <;> simp
      refine ⟨(if p value then [[]] else []) ++ ks, ?_, ?_⟩
      · rw [List.map_append, ← hhere]
        match slots, compact with
        | [], _ =>
            rw [collectTable] at hks
            have hnil : ks = [] := by simpa using hks.symm
            simp [collectFrom, hnil]
        | [none], compact =>
            -- A compact window does not consist of an empty slot.
            have := compact.first Nat.one_pos
            simp [Window.get] at this
        | some t :: slots, _ => simp [collectFrom, hks]
        | none :: s :: slots, compact =>
            have := compact.first (Nat.succ_pos _)
            simp [Window.get] at this
      · exact (hlisted.root not_below_nil).congr fun k =>
          (lookup_iff_below (P := fun b => p b = true) (by simp [hp]) value
            ⟨min, live, slots⟩ k).symm

end Collect

end Sound
end PrefixTree

/-- For keys that are byte strings. -/
theorem neZero_byte : NeZero 256 := ⟨by decide⟩

end EventBus.Table
