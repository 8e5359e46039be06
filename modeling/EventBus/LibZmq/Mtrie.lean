import EventBus.Client.Basic
import EventBus.Table.PrefixTree
import Mathlib.Data.Finset.Basic

/-!
# `generic_mtrie_t`

The subscriptions of an XPUB socket: a prefix tree where the node of a topic has the set of pipes
that asked for it, or no set at all. As in `Trie`, an operation has no result where an assertion
fails or a null pointer is followed.

`add` and `rm` with a prefix walk down one key. `rm` with a pipe goes through the whole tree, takes
the pipe out everywhere, calls a function for the topics concerned, and prunes and compacts the
tables on its way back.
-/

namespace EventBus

open MZmq Table

attribute [local instance] neZero_byte

/-- The value at a node is `pipes`: a null pointer or a set. -/
abbrev Mtrie (ι : Type) := PrefixTree (Option (Finset ι))

/-- What `rm` has found under the prefix. -/
inductive RmResult
  | not_found | last_value_removed | values_remain
  deriving DecidableEq, Repr

namespace Mtrie
variable {ι : Type} [DecidableEq ι]

/-- `generic_mtrie_t::generic_mtrie_t ()` -/
def empty : Mtrie ι := .fresh

/-! ## The operations on one prefix -/

/-- The first pipe under a prefix is reported. -/
def addPipe (pipe : ι) (pipes : Option (Finset ι)) : Bool × Option (Finset ι) :=
  (pipes.isNone, some (insert pipe (pipes.getD ∅)))

/-- `add` asserts nothing about the children. -/
def anyLive (_ : Window (Mtrie ι)) : Bool := true

def add (key : Bytes) (pipe : ι) (t : Mtrie ι) : Option (Bool × Mtrie ι) :=
  PrefixTree.addWith (addPipe pipe) anyLive key t

/-- Where the set is empty afterwards, the pipe must have been in it. -/
def rmPipe (pipe : ι) : Option (Finset ι) → Option (RmResult × Option (Finset ι))
  | none => some (.not_found, none)
  | some pipes =>
      let left := pipes.erase pipe
      if left = ∅ then if pipe ∈ pipes then some (.last_value_removed, none) else none
      else some (if pipe ∈ pipes then .values_remain else .not_found, some left)

/-- What `rm` does to the children of a node when the one under `c` is deleted. -/
def prune {α : Type} (c : Nat) (next : Window α) : Option (Window α) :=
  if next.count = 1 then
    if next.live = 1 then some { next with live := 0, slots := [] } else none
  else
    let slots := next.slots.set (c - next.min) none
    let live := next.live - 1
    if ¬ next.live > 1 then none
    else if live = 1 then
      (firstFrom 0 slots).map fun i => ⟨(next.min + i) % 256, live, [slots[i]?.join]⟩
    else if c = next.min then
      (firstFrom 1 slots).map fun i => ⟨(next.min + i) % 256, live, slots.drop i⟩
    else if c = next.min + next.count - 1 then
      (firstFrom 1 slots.reverse).map fun i => ⟨next.min, live, slots.take (next.count - i)⟩
    else some ⟨next.min, live, slots⟩

def rm (key : Bytes) (pipe : ι) (t : Mtrie ι) : Option (RmResult × Mtrie ι) :=
  PrefixTree.rmWith (rmPipe pipe) .not_found prune key t

/-! ## Removing a pipe everywhere -/

/-- The pipe is taken out of one set; an empty set is deleted. -/
def dropPipe (pipe : ι) (pipes : Option (Finset ι)) : Option (Finset ι) :=
  pipes.bind fun pipes =>
    if pipe ∈ pipes then if pipes.erase pipe = ∅ then none else some (pipes.erase pipe)
    else some pipes

/-- The function is called for a node the pipe is taken out of; with `call_on_uniq` only if it was
the last one. -/
def isCalled (pipe : ι) (callOnUniq : Bool) (pipes : Option (Finset ι)) : Bool :=
  pipes.any fun pipes => pipe ∈ pipes && (!callOnUniq || pipes.erase pipe = ∅)

/-- What the loop over a table keeps. -/
structure Sweep where
  live : Nat
  newMin : Nat
  newMax : Nat

/-- What becomes of a table after the loop. -/
def settle {α : Type} (min : Nat) (slots : List (Option α)) (s : Sweep) : Option (Window α) :=
  if s.live = 0 then some ⟨min, 0, []⟩
  else if s.live = 1 then
    if s.newMin = s.newMax ∧ min ≤ s.newMin ∧ s.newMin < min + slots.length then
      match slots[s.newMin - min]?.join with
      | some t => some ⟨s.newMin, 1, [some t]⟩
      | none => none
    else none
  else if s.newMin > min ∨ s.newMax < min + slots.length - 1 then
    if s.newMax - s.newMin + 1 > 1 ∧ s.newMin ≥ min ∧ s.newMax ≤ min + slots.length - 1 ∧
        s.newMax - s.newMin + 1 < slots.length then
      some ⟨s.newMin, s.live,
        (slots.drop (s.newMin - min)).take (s.newMax - s.newMin + 1)⟩
    else none
  else some ⟨min, s.live, slots⟩

mutual

/-- `rm_helper` for a pipe: the keys the function is called with, and the tree that is left. -/
def rmFrom (pipe : ι) (callOnUniq : Bool) (buff : Bytes) : Mtrie ι → Option (List Bytes × Mtrie ι)
  | .node pipes ⟨min, live, slots⟩ =>
      let here := if isCalled pipe callOnUniq pipes then [buff] else []
      let pipes := dropPipe pipe pipes
      match slots with
      | [] => some (here, .node pipes ⟨min, live, []⟩)
      | [none] => none
      | [some t] =>
          (rmFrom pipe callOnUniq (buff ++ [Fin.ofNat 256 min]) t).bind fun r =>
            if r.2.isRedundant then
              if live = 1 then some (here ++ r.1, .node pipes ⟨min, 0, []⟩) else none
            else some (here ++ r.1, .node pipes ⟨min, live, [some r.2]⟩)
      | slots =>
          (rmTable pipe callOnUniq buff min ⟨live, min + slots.length - 1, min⟩ slots).bind fun r =>
            (settle min r.2.1 r.2.2).map fun next => (here ++ r.1, .node pipes next)

/-- The loop of `rm_helper` over a table, from the slot of `c` on. -/
def rmTable (pipe : ι) (callOnUniq : Bool) (buff : Bytes) (c : Nat) (s : Sweep) :
    List (Option (Mtrie ι)) → Option (List Bytes × List (Option (Mtrie ι)) × Sweep)
  | [] => some ([], [], s)
  | none :: slots =>
      (rmTable pipe callOnUniq buff (c + 1) s slots).map fun r => (r.1, none :: r.2.1, r.2.2)
  | some t :: slots =>
      (rmFrom pipe callOnUniq (buff ++ [Fin.ofNat 256 c]) t).bind fun r =>
        if r.2.isRedundant then
          if s.live > 0 then
            (rmTable pipe callOnUniq buff (c + 1) { s with live := s.live - 1 } slots).map fun q =>
              (r.1 ++ q.1, none :: q.2.1, q.2.2)
          else none
        else
          let s : Sweep :=
            ⟨s.live, if c < s.newMin then c else s.newMin, if c > s.newMax then c else s.newMax⟩
          (rmTable pipe callOnUniq buff (c + 1) s slots).map fun q =>
            (r.1 ++ q.1, some r.2 :: q.2.1, q.2.2)

end

/-- `rm` for a pipe. -/
def rmAll (pipe : ι) (callOnUniq : Bool) (t : Mtrie ι) : Option (List Bytes × Mtrie ι) :=
  rmFrom pipe callOnUniq [] t

/-! ## Matching -/

/-- The sets of pipes that `match` signals, from the root on. -/
def matchPipes : Bytes → Mtrie ι → Option (List (Finset ι))
  | [], .node pipes _ => some pipes.toList
  | c :: data, .node pipes next =>
      let rest :=
        if next.count = 0 then some []
        else if next.count = 1 then
          if c.val ≠ next.min then some []
          else match next.get c with
            | some t => matchPipes data t
            | none => none
        else if ¬ next.Covers c then some []
        else match next.get c with
          | some t => matchPipes data t
          | none => some []
      rest.map (pipes.toList ++ ·)

/-! ## What the operations do -/

/-- The pipes under a topic. -/
def table (t : Mtrie ι) (topic : Bytes) : Finset ι := (t.lookup topic).getD ∅

/-- The tree is sound, and no set in it is empty. -/
structure Sound (t : Mtrie ι) : Prop where
  tree : PrefixTree.Sound 256 t
  full : ∀ topic : Bytes, t.lookup topic ≠ some ∅

/-- What is stored, by the set of pipes. -/
theorem lookup_eq {t : Mtrie ι} (h : Sound t) (topic : Bytes) :
    t.lookup topic = if table t topic = ∅ then none else some (table t topic) := by
  have hfull := h.full topic
  unfold table
  -- No set is empty, so nothing is stored exactly where there are no pipes.
  cases hlookup : t.lookup topic with
  | none => rfl
  | some pipes =>
      have hne : pipes ≠ ∅ := fun he => hfull (by rw [hlookup, he])
      simp [hne]

theorem sound_empty : Sound (empty : Mtrie ι) :=
  ⟨PrefixTree.sound_fresh, fun topic => by simp [empty]⟩

omit [DecidableEq ι] in
@[simp] theorem table_empty (topic : Bytes) : table (empty : Mtrie ι) topic = ∅ := by
  have hlookup : (empty : Mtrie ι).lookup topic = none := PrefixTree.lookup_fresh topic
  simp [table, hlookup]

/-- A tree in which one set has been replaced. -/
private theorem sound_update {t t' : Mtrie ι} (h : Sound t) (ht' : PrefixTree.Sound 256 t') {key : Bytes}
    {pipes : Option (Finset ι)} (hpipes : pipes ≠ some ∅)
    (hlookup : ∀ k : Bytes, t'.lookup k = if k = key then pipes else t.lookup k) :
    Sound t' ∧ ∀ k, table t' k = if k = key then pipes.getD ∅ else table t k := by
  refine ⟨⟨ht', fun k => ?_⟩, fun k => ?_⟩
  · rw [hlookup]
    split
    · exact hpipes
    · exact h.full k
  · unfold table
    rw [hlookup]
    split <;> rfl

/-- **Adding** does not fail, and tells whether the topic is new. -/
theorem add_spec {t : Mtrie ι} (h : Sound t) (key : Bytes) (pipe : ι) :
    ∃ t', add key pipe t = some (decide (table t key = ∅), t') ∧ Sound t' ∧
      ∀ k, table t' k = if k = key then insert pipe (table t key) else table t k := by
  have hadd : addPipe pipe (t.lookup key) =
      (decide (table t key = ∅), some (insert pipe (table t key))) := by
    rw [lookup_eq h]
    unfold addPipe
    split <;> simp [*]
  have hok : ∀ (w : Window (Mtrie ι)) (c : Nat), w.Compact → w.get c = none →
      anyLive { w.reach c with live := w.live + 1 } := fun _ _ _ _ => rfl
  obtain ⟨t', hres, hsound, -, hlookup⟩ :=
    PrefixTree.addWith_spec hok h.tree key (f := addPipe pipe) (by
      rw [hadd]
      exact Option.some_ne_none _)
  rw [hadd] at hres hlookup
  obtain ⟨hsound', htable⟩ := sound_update h hsound
    (fun he => Finset.insert_ne_empty _ _ (Option.some.inj he)) hlookup
  exact ⟨t', hres, hsound', htable⟩

/-- `rm` cuts the children down to those that are left. -/
theorem prune_spec {α : Type} {w : Window α} (h : w.Compact) (hbound : w.min + w.count ≤ 256)
    {c : Nat} {t : α} (hc : w.get c = some t) :
    ∃ w', prune c w = some w' ∧ w.Pruned 256 c w' := by
  have hslots : w.slots.set (c - w.min) none = (w.erase c).slots := rfl
  unfold prune
  by_cases hone : w.count = 1
  · rw [if_pos hone, if_pos (h.live_of_count_one hone)]
    exact ⟨_, rfl, Window.pruned_cleared h hbound hc hone⟩
  · have hcount : 1 < w.count := by
      have := Window.count_pos_of_get hc
      omega
    have hlive := h.two_le_live hcount
    rw [if_neg hone]
    simp only [hslots]
    rw [if_neg (not_not.mpr hlive)]
    by_cases hlive1 : w.live - 1 = 1
    · -- whatever the search finds is the only one left
      obtain ⟨d, a, hd⟩ := Window.exists_get_of_live (Window.counted_erase h.counted hc)
        (by rw [Window.live_erase]; omega)
      obtain ⟨-, hslot⟩ := Window.get_eq_some_iff.mp hd
      obtain ⟨i, hi⟩ := firstFrom_isSome (Nat.zero_le _) hslot
      obtain ⟨-, ⟨b, hb⟩, -⟩ := firstFrom_eq_some hi
      have hib : (w.erase c).get (w.min + i) = some b := Window.get_eq_some_iff.mpr
        ⟨Nat.le_add_right _ _, by rwa [Window.min_erase, Nat.add_sub_cancel_left]⟩
      obtain ⟨hin, hpruned⟩ := Window.pruned_single h hbound hc hlive1 hib
      rw [if_pos hlive1, hi, Option.map_some, hb, Nat.mod_eq_of_lt hin, hlive1]
      exact ⟨_, rfl, hpruned⟩
    · rw [if_neg hlive1]
      by_cases hfirst : c = w.min
      · obtain ⟨i, hfind, -, hlt, hpruned⟩ := Window.pruned_left h hbound hc hcount hfirst
        have hmod : (w.min + i) % 256 = w.min + i := Nat.mod_eq_of_lt (by omega)
        rw [if_pos hfirst, hfind, Option.map_some, hmod]
        exact ⟨_, rfl, hpruned⟩
      · rw [if_neg hfirst]
        by_cases hlast : c = w.min + w.count - 1
        · obtain ⟨i, hfind, -, -, hpruned⟩ := Window.pruned_right h hbound hc hcount hlast
          rw [if_pos hlast, hfind, Option.map_some]
          exact ⟨_, rfl, hpruned⟩
        · rw [if_neg hlast]
          exact ⟨_, rfl, Window.pruned_inside h hbound hc hfirst hlast⟩

/-- **Removing** a pipe from a topic tells what has become of its set. -/
theorem rm_spec {t : Mtrie ι} (h : Sound t) (key : Bytes) (pipe : ι) :
    ∃ t', rm key pipe t = some (if pipe ∉ table t key then .not_found
        else if (table t key).erase pipe = ∅ then .last_value_removed else .values_remain, t') ∧
      Sound t' ∧ ∀ k, table t' k = if k = key then (table t key).erase pipe else table t k := by
  let left := (table t key).erase pipe
  have hrm : rmPipe pipe (t.lookup key) = some (if pipe ∉ table t key then .not_found
      else if left = ∅ then .last_value_removed else .values_remain,
      if left = ∅ then none else some left) := by
    rw [lookup_eq h]
    -- No set, a set without the pipe, and a set with it.
    by_cases hempty : table t key = ∅
    · simp [hempty, left, rmPipe]
    · by_cases hmem : pipe ∈ table t key
      · by_cases hleft : left = ∅
        · simp [hempty, hmem, rmPipe, hleft, show (table t key).erase pipe = ∅ from hleft]
        · simp [hempty, hmem, rmPipe, hleft, left]
      · simp [hempty, hmem, rmPipe, left]
  have hprune : PrefixTree.Prunes 256 (prune : Nat → Window (Mtrie ι) → _) :=
    .of_pruned fun _ _ _ hcompact hbound hget => prune_spec hcompact hbound hget
  obtain ⟨t', hres, hsound, hlookup⟩ := PrefixTree.rmWith_spec hprune rfl h.tree key hrm
  obtain ⟨hsound', htable⟩ := sound_update h hsound (by split <;> simp [*]) hlookup
  refine ⟨t', hres, hsound', fun k => ?_⟩
  rw [htable]
  split
  · split
    · exact (by assumption : left = ∅).symm
    · rfl
  · rfl

/-! ## Removing a pipe -/

/-- What `rm_helper` does to a tree. -/
def Swept (pipe : ι) (callOnUniq : Bool) (t : Mtrie ι) : Prop :=
  ∀ buff : Bytes, ∃ ks t', rmFrom pipe callOnUniq buff t = some (ks.map (buff ++ ·), t') ∧
    PrefixTree.Sound 256 t' ∧ (∀ k : Bytes, t'.lookup k = dropPipe pipe (t.lookup k)) ∧
    PrefixTree.Listed ks fun k => isCalled pipe callOnUniq (t.lookup k)

/-- The numbers the loop keeps, against the slots it leaves. -/
structure Sweep.Fits (s s' : Sweep) (w w' : Window (Mtrie ι)) : Prop where
  live : s'.live + w.slots.countP Option.isSome = s.live + w'.slots.countP Option.isSome
  below : s'.newMin ≤ s.newMin ∧ ∀ d, (w'.get d).isSome → s'.newMin ≤ d
  above : s.newMax ≤ s'.newMax ∧ ∀ d, (w'.get d).isSome → d ≤ s'.newMax
  min : s'.newMin = s.newMin ∨ (w'.get s'.newMin).isSome
  max : s'.newMax = s.newMax ∨ (w'.get s'.newMax).isSome

/-- What the loop makes of a table. -/
structure Loop (pipe : ι) (callOnUniq : Bool) (ks : List Bytes) (w w' : Window (Mtrie ι)) : Prop where
  count : w'.count = w.count
  children : ∀ d t, w'.get d = some t → PrefixTree.Sound 256 t ∧ t.isRedundant = false
  lookup : ∀ (d : Byte) (k : Bytes), PrefixTree.lookup (.node none w') (d :: k) =
    dropPipe pipe (PrefixTree.lookup (.node none w) (d :: k))
  called : PrefixTree.Listed ks (PrefixTree.Below w fun t k => isCalled pipe callOnUniq (t.lookup k))

omit [DecidableEq ι] in
/-- An empty slot in front shows nothing. -/
private theorem get_skip (c : Nat) (slots : List (Option (Mtrie ι))) (d : Nat) :
    Window.get ⟨c, 0, none :: slots⟩ d = Window.get ⟨c + 1, 0, slots⟩ d := by
  rw [PrefixTree.get_cons]
  split
  · rename_i hd
    rw [Window.get_of_not_covers]
    simp [Window.Covers, hd]
  · rfl

section Loop
variable {pipe : ι} {callOnUniq : Bool} {c : Nat} {slots slots' : List (Option (Mtrie ι))}
  {ks called : List Bytes} {s s' : Sweep}

/-- The loop comes past an empty slot, ... -/
private theorem Loop.skip (h : Loop pipe callOnUniq ks ⟨c + 1, 0, slots⟩ ⟨c + 1, 0, slots'⟩) :
    Loop pipe callOnUniq ks ⟨c, 0, none :: slots⟩ ⟨c, 0, none :: slots'⟩ where
  count := by simpa [Window.count] using h.count
  children d t ht := h.children d t (by rwa [get_skip] at ht)
  lookup d k := by
    have := h.lookup d k
    simpa only [PrefixTree.lookup, get_skip] using this
  called := h.called.congr fun k => (PrefixTree.below_skip k).symm

/-- ... and past a child, of which something is left or not. -/
private theorem Loop.step {t : Mtrie ι} {slot : Option (Mtrie ι)} {ks₀ : List Bytes} {b : Byte}
    (hb : b.val = c) (h : Loop pipe callOnUniq ks ⟨c + 1, 0, slots⟩ ⟨c + 1, 0, slots'⟩)
    (hslot : ∀ u, slot = some u → PrefixTree.Sound 256 u ∧ u.isRedundant = false)
    (hlookup : ∀ k : Bytes, (slot.bind fun u => u.lookup k) = dropPipe pipe (t.lookup k))
    (hlisted : PrefixTree.Listed ks₀ fun k => isCalled pipe callOnUniq (t.lookup k)) :
    Loop pipe callOnUniq (ks₀.map (b :: ·) ++ ks) ⟨c, 0, some t :: slots⟩ ⟨c, 0, slot :: slots'⟩ where
  count := by simpa [Window.count] using h.count
  children d u hu := by
    rw [PrefixTree.get_cons] at hu
    split at hu
    · exact hslot u hu
    · exact h.children d u hu
  lookup d k := by
    have hrest := h.lookup d k
    simp only [PrefixTree.lookup, PrefixTree.get_cons] at hrest ⊢
    -- The child under `c`, and the others.
    by_cases hd : d.val = c
    · rw [if_pos hd, if_pos hd, ← hlookup]
      cases slot <;> rfl
    · rw [if_neg hd, if_neg hd]
      exact hrest
  called := (hlisted.branch h.called (PrefixTree.below_above hb)).congr fun k => by
    rw [PrefixTree.below_step hb]

omit [DecidableEq ι] in
/-- The numbers stay as they are at an empty slot. -/
private theorem Sweep.Fits.skip (h : s.Fits s' ⟨c + 1, 0, slots⟩ ⟨c + 1, 0, slots'⟩) :
    s.Fits s' ⟨c, 0, none :: slots⟩ ⟨c, 0, none :: slots'⟩ where
  live := by simpa using h.live
  below := by simpa only [get_skip] using h.below
  above := by simpa only [get_skip] using h.above
  min := by simpa only [get_skip] using h.min
  max := by simpa only [get_skip] using h.max

omit [DecidableEq ι] in
/-- One slot less if the child is gone. -/
private theorem Sweep.Fits.drop {t : Mtrie ι} (hlive : 0 < s.live)
    (h : Sweep.Fits { s with live := s.live - 1 } s' ⟨c + 1, 0, slots⟩ ⟨c + 1, 0, slots'⟩) :
    s.Fits s' ⟨c, 0, some t :: slots⟩ ⟨c, 0, none :: slots'⟩ where
  live := by
    have := h.live
    simp at this ⊢
    omega
  below := by simpa only [get_skip] using h.below
  above := by simpa only [get_skip] using h.above
  min := by simpa only [get_skip] using h.min
  max := by simpa only [get_skip] using h.max

omit [DecidableEq ι] in
/-- A child that stays may be the first one or the last one. -/
private theorem Sweep.Fits.keep {t t' : Mtrie ι}
    (h : Sweep.Fits ⟨s.live, if c < s.newMin then c else s.newMin,
      if c > s.newMax then c else s.newMax⟩ s' ⟨c + 1, 0, slots⟩ ⟨c + 1, 0, slots'⟩) :
    s.Fits s' ⟨c, 0, some t :: slots⟩ ⟨c, 0, some t' :: slots'⟩ := by
  obtain ⟨hlive, ⟨hmin, hbelow⟩, ⟨hmax, habove⟩, hmin', hmax'⟩ := h
  have hget : ∀ d, Window.get ⟨c, 0, some t' :: slots'⟩ d =
      if d = c then some t' else Window.get ⟨c + 1, 0, slots'⟩ d :=
    fun d => PrefixTree.get_cons c 0 _ _ d
  refine ⟨by simp at hlive ⊢; omega, ⟨?_, fun d hd => ?_⟩, ⟨?_, fun d hd => ?_⟩, ?_, ?_⟩
  all_goals simp only [hget] at *
  all_goals grind

/-- **The loop over a table**, on its slots. -/
private theorem rmTable_spec (buff : Bytes) (slots : List (Option (Mtrie ι))) (c : Nat) (s : Sweep)
    (hbound : c + slots.length ≤ 256) (hlive : slots.countP Option.isSome ≤ s.live)
    (hall : ∀ d t, Window.get ⟨c, 0, slots⟩ d = some t → Swept pipe callOnUniq t) :
    ∃ ks slots' s', rmTable pipe callOnUniq buff c s slots =
        some (ks.map (buff ++ ·), slots', s') ∧
      Loop pipe callOnUniq ks ⟨c, 0, slots⟩ ⟨c, 0, slots'⟩ ∧
      s.Fits s' ⟨c, 0, slots⟩ ⟨c, 0, slots'⟩ := by
  induction slots generalizing c s with
  | nil =>
      have hnone : ∀ d, Window.get (⟨c, 0, []⟩ : Window (Mtrie ι)) d = none := by
        intro d
        simp [Window.get]
      have hlookup : ∀ (d : Byte) (k : Bytes),
          PrefixTree.lookup (.node none (⟨c, 0, []⟩ : Window (Mtrie ι))) (d :: k) = none := by
        intro d k
        simp only [PrefixTree.lookup, hnone]
        rfl
      refine ⟨[], [], s, rfl, ⟨rfl, ?_, ?_, List.Pairwise.nil, fun k => ?_⟩,
        ⟨rfl, ⟨Nat.le_refl _, ?_⟩, ⟨Nat.le_refl _, ?_⟩, .inl rfl, .inl rfl⟩⟩
      all_goals simp [hnone, hlookup, dropPipe, PrefixTree.Below]
  | cons slot slots ih =>
      have hlen : c + 1 + slots.length ≤ 256 := by
        rw [List.length_cons] at hbound
        omega
      have hval : (Fin.ofNat 256 c).val = c := Nat.mod_eq_of_lt (by omega)
      have hrest : ∀ d t, Window.get ⟨c + 1, 0, slots⟩ d = some t → Swept pipe callOnUniq t := by
        intro d t ht
        have hle : c + 1 ≤ d := (Window.covers_of_get ht).1
        exact hall d t (by rw [PrefixTree.get_cons, if_neg (by omega), ht])
      cases slot with
      | none =>
          obtain ⟨ks, slots', s', hres, hloop, hfits⟩ :=
            ih (c + 1) s hlen (by simpa using hlive) hrest
          exact ⟨ks, none :: slots', s', by simp [rmTable, hres], hloop.skip, hfits.skip⟩
      | some t =>
          obtain ⟨ks₀, t', hres₀, hsound, hlookup, hlisted⟩ :=
            hall c t (by rw [PrefixTree.get_cons, if_pos rfl]) (buff ++ [Fin.ofNat 256 c])
          simp only [List.countP_cons, Option.isSome_some, if_true] at hlive
          cases hred : t'.isRedundant with
          | true =>
              -- Nothing is left of the child: its slot is emptied.
              obtain ⟨ks, slots', s', hres, hloop, hfits⟩ :=
                ih (c + 1) { s with live := s.live - 1 } hlen (Nat.le_sub_one_of_lt hlive) hrest
              have hpos : 0 < s.live := by omega
              refine ⟨_, none :: slots', s', ?_, hloop.step hval (by simp) (fun k => ?_) hlisted,
                hfits.drop hpos⟩
              · rw [rmTable, hres₀, Option.bind_some, if_pos hred, if_pos hpos, hres]
                simp [Function.comp_def]
              · rw [← hlookup]
                exact ((PrefixTree.isRedundant_iff hsound).mp hred k).symm
          | false =>
              -- It stays, and the ends are moved if it is outside them.
              obtain ⟨ks, slots', s', hres, hloop, hfits⟩ :=
                ih (c + 1) ⟨s.live, if c < s.newMin then c else s.newMin,
                  if c > s.newMax then c else s.newMax⟩ hlen (by simp; omega) hrest
              refine ⟨_, some t' :: slots', s', ?_, hloop.step hval ?_ hlookup hlisted, hfits.keep⟩
              · rw [rmTable, hres₀, Option.bind_some, if_neg (by simp [hred])]
                simp [hres, Function.comp_def]
              · rintro u ⟨⟩
                exact ⟨hsound, hred⟩

omit [DecidableEq ι] in
/-- The numbers the loop ends with are those of the table it leaves. -/
private theorem Sweep.Fits.ends {min live : Nat}
    (h : Sweep.Fits ⟨live, min + slots.length - 1, min⟩ s' ⟨min, 0, slots⟩ ⟨min, 0, slots'⟩)
    (hcount : slots'.length = slots.length) (hlive : live = slots.countP Option.isSome) :
    Window.Counted ⟨min, s'.live, slots'⟩ ∧
      (0 < s'.live → Window.Ends ⟨min, s'.live, slots'⟩ s'.newMin s'.newMax) := by
  have hcounted : Window.Counted ⟨min, s'.live, slots'⟩ := by
    have := h.live
    unfold Window.Counted
    simp only at this ⊢
    omega
  refine ⟨hcounted, fun hpos => ?_⟩
  obtain ⟨d, t, hd⟩ := Window.exists_get_of_live hcounted hpos
  have hsome : (Window.get ⟨min, 0, slots'⟩ d).isSome := Option.isSome_iff_exists.mpr ⟨t, hd⟩
  have hfirst := h.below.2 d hsome
  have hlast := h.above.2 d hsome
  obtain ⟨hlo, hhi⟩ : min ≤ d ∧ d < min + slots'.length := Window.covers_of_get hd
  refine ⟨?_, ?_, fun k hk => ⟨h.below.2 k hk, h.above.2 k hk⟩⟩
  -- a number the loop has not changed is that of the only slot left
  · rcases h.min with heq | hnewMin
    · have hsame : s'.newMin = d := by
        simp only at heq
        omega
      rw [hsame]
      exact hsome
    · exact hnewMin
  · rcases h.max with heq | hnewMax
    · have hsame : s'.newMax = d := by
        simp only at heq
        omega
      rw [hsame]
      exact hsome
    · exact hnewMax

/-- The table after the loop is cut down to what is left in it. -/
private theorem settle_spec {α : Type} {w : Window α} (hw : w.Counted)
    (hbound : w.min + w.count ≤ 256) (hlive : s.live = w.live)
    (hends : 0 < w.live → w.Ends s.newMin s.newMax) :
    ∃ next, settle w.min w.slots s = some next ∧ next.Compact ∧ next.min + next.count ≤ 256 ∧
      ∀ d, next.get d = w.get d := by
  have hlen : w.slots.length = w.count := rfl
  unfold settle
  rw [hlive, hlen]
  by_cases hzero : w.live = 0
  · rw [if_pos hzero]
    refine ⟨_, rfl, ⟨rfl, by simp [Window.count], by simp [Window.count]⟩,
      Nat.le_trans (Nat.le_add_right _ _) hbound, fun d => ?_⟩
    cases hd : w.get d with
    | none => simp [Window.get]
    | some t =>
        have := Window.live_pos_of_get hw hd
        omega
  · have hends := hends (Nat.pos_of_ne_zero hzero)
    obtain ⟨hlo, hle, hhi⟩ := hends.covers
    obtain ⟨hcompact, hcut, hget⟩ := hends.cut hw hbound
    rw [if_neg hzero]
    by_cases hone : w.live = 1
    -- One slot is left, which is at both ends.
    · have hsame := hends.eq_of_live_one hw hone
      obtain ⟨a, ha⟩ := Option.isSome_iff_exists.mp hends.first
      obtain ⟨-, hslot⟩ := Window.get_eq_some_iff.mp ha
      have hfirst : w.min + (s.newMin - w.min) = s.newMin := Nat.add_sub_cancel' hlo
      obtain ⟨hcompact, hall⟩ := Window.compact_single hw hone (by rw [hfirst, ha])
      rw [hfirst] at hcompact hall
      rw [if_pos hone, if_pos ⟨hsame, hlo, by omega⟩, hslot]
      exact ⟨_, rfl, hcompact, by simp only [Window.count, List.length_singleton]; omega, hall⟩
    -- More are left: the table is cut down if there are empty slots at an end.
    · have hlt := hends.lt_of_live hw (by omega)
      rw [if_neg hone]
      by_cases hcut' : s.newMin > w.min ∨ s.newMax < w.min + w.count - 1
      · rw [if_pos hcut', if_pos (by omega)]
        exact ⟨_, rfl, hcompact, hcut, hget⟩
      · rw [if_neg hcut']
        exact ⟨w, rfl, hends.compact hw (by omega) (by omega), hbound, fun _ => rfl⟩

/-- With two slots or more the loop is run, and then the table is cut down. -/
private theorem rmFrom_table (buff : Bytes) (pipes : Option (Finset ι)) (min live : Nat)
    (s₁ s₂ : Option (Mtrie ι)) :
    rmFrom pipe callOnUniq buff (.node pipes ⟨min, live, s₁ :: s₂ :: slots⟩) =
      (rmTable pipe callOnUniq buff min ⟨live, min + (s₁ :: s₂ :: slots).length - 1, min⟩
        (s₁ :: s₂ :: slots)).bind fun r => (settle min r.2.1 r.2.2).map fun next =>
          ((if isCalled pipe callOnUniq pipes then [buff] else []) ++ r.1,
            .node (dropPipe pipe pipes) next) := by
  cases s₁ <;> rfl

/-- At a node with one slot `rm_helper` does what the loop does. -/
private theorem rmFrom_single (buff : Bytes) (pipes : Option (Finset ι)) (min : Nat) (t : Mtrie ι)
    (ht : Swept pipe callOnUniq t)
    (hres : rmTable pipe callOnUniq buff min ⟨1, min, min⟩ [some t] = some (called, slots', s'))
    (hbound : min + 1 ≤ 256) :
    ∃ next, rmFrom pipe callOnUniq buff (.node pipes ⟨min, 1, [some t]⟩) =
        some ((if isCalled pipe callOnUniq pipes then [buff] else []) ++ called,
          .node (dropPipe pipe pipes) next) ∧ next.Compact ∧ next.min + next.count ≤ 256 ∧
      ∀ d, next.get d = Window.get ⟨min, 0, slots'⟩ d := by
  obtain ⟨ks₀, t', hres₀, -, -, -⟩ := ht (buff ++ [Fin.ofNat 256 min])
  rw [rmTable, hres₀, Option.bind_some] at hres
  cases hred : t'.isRedundant with
  | true =>
      -- Nothing is left of the child, and the node has no children any more.
      rw [if_pos hred, if_pos Nat.one_pos, rmTable, Option.map_some] at hres
      obtain ⟨rfl, hrest⟩ := Prod.mk.inj (Option.some.inj hres)
      obtain ⟨rfl, -⟩ := Prod.mk.inj hrest
      refine ⟨⟨min, 0, []⟩, ?_, ⟨rfl, by simp [Window.count], by simp [Window.count]⟩,
        Nat.le_trans (Nat.le_add_right _ _) hbound, fun d => ?_⟩
      · rw [rmFrom, hres₀, Option.bind_some, if_pos hred, if_pos rfl, List.append_nil]
      · rw [get_skip]
        simp [Window.get]
  | false =>
      rw [if_neg (by simp [hred])] at hres
      simp only [rmTable, Option.map_some] at hres
      obtain ⟨rfl, hrest⟩ := Prod.mk.inj (Option.some.inj hres)
      obtain ⟨rfl, -⟩ := Prod.mk.inj hrest
      refine ⟨⟨min, 1, [some t']⟩, ?_, ⟨rfl, fun _ => ?_, fun _ => ?_⟩, hbound, fun d => rfl⟩
      · rw [rmFrom, hres₀, Option.bind_some, if_neg (by simp [hred]), List.append_nil]
      · simp [Window.get]
      · simp [Window.get, Window.count]

/-- What becomes of a node is told by the loop over its table, whatever the number of slots. -/
private theorem rmFrom_node (buff : Bytes) (pipes : Option (Finset ι)) {min live : Nat}
    (compact : Window.Compact ⟨min, live, slots⟩) (bound : min + slots.length ≤ 256)
    (hall : ∀ d t, Window.get ⟨min, live, slots⟩ d = some t → Swept pipe callOnUniq t)
    (hres : rmTable pipe callOnUniq buff min ⟨live, min + slots.length - 1, min⟩ slots =
      some (called, slots', s'))
    (hcount : slots'.length = slots.length)
    (hfits : Sweep.Fits ⟨live, min + slots.length - 1, min⟩ s' ⟨min, 0, slots⟩ ⟨min, 0, slots'⟩) :
    ∃ next, rmFrom pipe callOnUniq buff (.node pipes ⟨min, live, slots⟩) =
        some ((if isCalled pipe callOnUniq pipes then [buff] else []) ++ called,
          .node (dropPipe pipe pipes) next) ∧ next.Compact ∧ next.min + next.count ≤ 256 ∧
      ∀ d, next.get d = Window.get ⟨min, 0, slots'⟩ d := by
  match slots, compact with
  | [], compact =>
      rw [rmTable] at hres
      obtain ⟨rfl, hrest⟩ := Prod.mk.inj (Option.some.inj hres)
      obtain ⟨rfl, -⟩ := Prod.mk.inj hrest
      exact ⟨⟨min, live, []⟩, by rw [rmFrom, List.append_nil], compact, bound, fun d => rfl⟩
  | [none], compact =>
      -- A compact window does not consist of an empty slot.
      have := compact.first Nat.one_pos
      simp [Window.get] at this
  | [some t], compact =>
      obtain rfl : live = 1 := compact.live_of_count_one rfl
      exact rmFrom_single buff pipes min t (hall min t (by simp [Window.get])) hres bound
  | s₁ :: s₂ :: slots, compact =>
      obtain ⟨hcounted, hends⟩ := hfits.ends hcount compact.counted
      obtain ⟨next, hsettle, hcompact, hbound, hget⟩ :=
        settle_spec hcounted (by rwa [← hcount] at bound) rfl hends
      refine ⟨next, ?_, hcompact, hbound, hget⟩
      rw [rmFrom_table, hres, Option.bind_some, hsettle]
      rfl

/-- **Removing a pipe** from a sound tree takes it out of every set, and calls the function for the
topics concerned, each once and in order. -/
theorem rmFrom_spec (pipe : ι) (callOnUniq : Bool) {t : Mtrie ι} (h : PrefixTree.Sound 256 t) :
    Swept pipe callOnUniq t := by
  induction h with
  | @node pipes next compact bound children needed ih =>
      intro buff
      obtain ⟨min, live, slots⟩ := next
      obtain ⟨ks, slots', s', hres, hloop, hfits⟩ := rmTable_spec buff slots min
        ⟨live, min + slots.length - 1, min⟩ bound (Nat.le_of_eq compact.counted.symm) ih
      obtain ⟨next', hres', hcompact, hbound, hget⟩ :=
        rmFrom_node buff pipes compact bound ih hres hloop.count hfits
      refine ⟨(if isCalled pipe callOnUniq pipes then [[]] else []) ++ ks,
        .node (dropPipe pipe pipes) next', ?_, ?_, ?_, ?_⟩
      · rw [hres', List.map_append]
        split <;> simp
      · exact .node hcompact hbound (fun d t ht => (hloop.children d t (by rwa [← hget])).1)
          fun d t ht => (hloop.children d t (by rwa [← hget])).2
      · intro k
        cases k with
        | nil => rfl
        | cons d k =>
            have hlookup := hloop.lookup d k
            simp only [PrefixTree.lookup] at hlookup ⊢
            rw [hget]
            exact hlookup
      · have hnone : ¬ isCalled pipe callOnUniq none = true := Bool.false_ne_true
        exact (hloop.called.root PrefixTree.not_below_nil).congr fun k =>
          (PrefixTree.lookup_iff_below (P := fun b => isCalled pipe callOnUniq b = true) hnone
            pipes ⟨min, live, slots⟩ k).symm

end Loop

/-- Removing a pipe, told by the topics. -/
theorem rmAll_spec {t : Mtrie ι} (h : Sound t) (pipe : ι) (callOnUniq : Bool) :
    ∃ ks t', rmAll pipe callOnUniq t = some (ks, t') ∧ Sound t' ∧
      (∀ k, table t' k = (table t k).erase pipe) ∧
      PrefixTree.Listed ks fun k => pipe ∈ table t k ∧ (callOnUniq → (table t k).erase pipe = ∅) := by
  obtain ⟨ks, t', hres, hsound, hlookup, hlisted⟩ := rmFrom_spec pipe callOnUniq h.tree []
  have hdrop : ∀ k : Bytes, dropPipe pipe (t.lookup k) =
      if (table t k).erase pipe = ∅ then none else some ((table t k).erase pipe) := by
    intro k
    rw [lookup_eq h]
    by_cases hempty : table t k = ∅
    · simp [hempty, dropPipe]
    · by_cases hmem : pipe ∈ table t k
      · simp [hempty, hmem, dropPipe]
      · simp [hempty, hmem, dropPipe]
  refine ⟨ks, t', by simpa [rmAll] using hres, ⟨hsound, fun k => ?_⟩, fun k => ?_,
    hlisted.congr fun k => ?_⟩
  · rw [hlookup, hdrop]
    split <;> simp [*]
  · show (t'.lookup k).getD ∅ = _
    rw [hlookup, hdrop]
    split <;> simp [*]
  · rw [lookup_eq h]
    by_cases hempty : table t k = ∅
    · simp [hempty, isCalled]
    · cases callOnUniq <;> simp [hempty, isCalled]

/-! ## Matching a message -/

omit [DecidableEq ι] in
/-- `match` signals the sets of all topics that are prefixes of the data. -/
theorem matchPipes_eq [DecidableEq ι] {t : Mtrie ι} (h : PrefixTree.Sound 256 t) (data : Bytes) :
    matchPipes data t = some (data.inits.filterMap fun topic => t.lookup topic) := by
  induction data generalizing t with
  | nil =>
      obtain ⟨pipes, next⟩ := t
      cases pipes <;> rfl
  | cons c data ih =>
      cases h with
      | @node pipes next compact bound children needed =>
          let below := data.inits.filterMap fun topic =>
            PrefixTree.lookup (.node pipes next) (c :: topic)
          -- The set at the root, and then the sets below one child.
          have hsplit : ((c :: data).inits.filterMap fun topic =>
              PrefixTree.lookup (.node pipes next) topic) = pipes.toList ++ below := by
            rw [List.inits_cons, List.filterMap_cons, List.filterMap_map]
            cases pipes <;> rfl
          rw [hsplit, matchPipes]
          cases hget : next.get c with
          | some child =>
              have hbelow : matchPipes data child = some below := by
                rw [ih (children c child hget)]
                simp [below, PrefixTree.lookup, hget]
              have hcovers := Window.covers_of_get hget
              -- A lone child is found without a look at the table.
              have hmin : next.count = 1 → c.val = next.min := by
                unfold Window.Covers at hcovers
                omega
              have hpos : next.count ≠ 0 := by
                unfold Window.Covers at hcovers
                omega
              by_cases hone : next.count = 1
              · simp [hone, hmin hone, hbelow]
              · simp [hpos, hone, hcovers, hbelow]
          | none =>
              have hbelow : below = [] := by
                simp only [below, PrefixTree.lookup, hget, List.filterMap_eq_nil_iff]
                exact fun _ _ => rfl
              have hmin : next.count = 1 → c.val ≠ next.min := by
                intro hone he
                have hsome := compact.first (by omega)
                rw [← he, hget] at hsome
                cases hsome
              by_cases hone : next.count = 1
              · simp [hone, hmin hone, hbelow]
              · simp [hone, hbelow]

end Mtrie
end EventBus
