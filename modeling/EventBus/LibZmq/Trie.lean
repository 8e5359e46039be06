import EventBus.Client.Basic
import EventBus.Table.PrefixTree

/-!
# `trie_t`

The subscriptions of an XSUB socket: a prefix tree whose nodes count how often the key that leads to
them has been added. The children of a node are a window: `next.node` where there is one slot,
`next.table` where there are more. What the code asserts is asserted here too: an operation that
runs into a failed assertion or a null pointer has no result.

`trie_t` keeps `Trie.refs`, a number for every key (`add_spec`, `rm_spec`). As long as no count
reaches 2³² nothing fails, and `check` and `apply` give what these numbers say.
-/

namespace EventBus

open MZmq Table

attribute [local instance] neZero_byte

/-- The value at a node is `refcnt`. -/
abbrev Trie := PrefixTree Nat

namespace Trie

/-- `trie_t::trie_t ()` -/
def empty : Trie := .fresh

/-! ## The operations -/

/-- `refcnt` is a `uint32_t`. -/
def addRef (refcnt : Nat) : Bool × Nat :=
  let refcnt := (refcnt + 1) % 2 ^ 32
  (refcnt == 1, refcnt)

/-- What `add` asserts when it has created a node. -/
def liveOk (next : Window Trie) : Bool := if next.count = 1 then next.live = 1 else next.live > 1

def add (key : Bytes) (t : Trie) : Option (Bool × Trie) := PrefixTree.addWith addRef liveOk key t

/-- A count of zero stays, and nothing is reported. -/
def rmRef (refcnt : Nat) : Option (Bool × Nat) :=
  some (if refcnt = 0 then (false, refcnt) else (refcnt - 1 == 0, refcnt - 1))

/-- What `rm` does to the children of a node when the one under `c` is deleted. -/
def prune {α : Type} (c : Nat) (next : Window α) : Option (Window α) :=
  if next.count = 1 then
    if next.live = 1 then some { next with live := 0, slots := [] } else none
  else
    let slots := next.slots.set (c - next.min) none
    let live := next.live - 1
    if ¬ next.live > 1 then none
    else if live = 1 then
      if c = next.min then
        -- the right-most node is kept
        match slots[next.count - 1]?.join with
        | some t => some ⟨(next.min + (next.count - 1)) % 256, live, [some t]⟩
        | none => none
      else if c = next.min + next.count - 1 then
        match slots[0]?.join with
        | some t => some ⟨next.min, live, [some t]⟩
        | none => none
      else none
    else if c = next.min then
      match firstFrom 1 slots with
      | some i =>
          let newMin := (i + next.min) % 256
          if newMin ≠ next.min ∧ newMin > next.min ∧ next.count > newMin - next.min then
            some ⟨newMin, live, slots.drop (newMin - next.min)⟩
          else none
      | none => none
    else if c = next.min + next.count - 1 then
      match firstFrom 1 slots.reverse with
      | some i =>
          let newCount := next.count - i
          if newCount ≠ next.count then some ⟨next.min, live, slots.take newCount⟩ else none
      | none => none
    else some ⟨next.min, live, slots⟩

def rm (key : Bytes) (t : Trie) : Option (Bool × Trie) := PrefixTree.rmWith rmRef false prune key t

/-- Whether a key of the trie is a prefix of the data. -/
def check : Bytes → Trie → Option Bool
  | [], .node refcnt _ => some (refcnt != 0)
  | c :: data, .node refcnt next =>
      if refcnt ≠ 0 then some true
      else if ¬ next.Covers c then some false
      else match next.get c with
        | some child => check data child
        -- `check` goes on at a lone child without looking whether there is one
        | none => if next.count = 1 then none else some false

/-- The keys the function of `apply` is called with, in this order. -/
def apply (t : Trie) : Option (List Bytes) := PrefixTree.collectFrom (fun refcnt => refcnt != 0) [] t

/-! ## What the operations do -/

/-- How often a key is in the trie. -/
def refs (t : Trie) (key : Bytes) : Nat := t.lookup key

abbrev Sound (t : Trie) : Prop := PrefixTree.Sound 256 t

theorem sound_empty : Sound empty := PrefixTree.sound_fresh

@[simp] theorem refs_empty (key : Bytes) : refs empty key = 0 := PrefixTree.lookup_fresh key

/-- **Adding** does not fail while the count fits, and reports the first reference. -/
theorem add_spec {t : Trie} (h : Sound t) (key : Bytes) (hlt : refs t key + 1 < 2 ^ 32) :
    ∃ t', add key t = some (refs t key == 0, t') ∧ Sound t' ∧
      ∀ k, refs t' k = if k = key then refs t key + 1 else refs t k := by
  -- The count does not wrap around.
  have hmod : (refs t key + 1) % 2 ^ 32 = refs t key + 1 := Nat.mod_eq_of_lt hlt
  have hadd : addRef (refs t key) = (refs t key == 0, refs t key + 1) := by
    unfold addRef
    rw [hmod]
    grind
  have hok : ∀ (w : Window Trie) c, w.Compact → w.get c = none →
      liveOk { w.reach c with live := w.live + 1 } := by
    intro w c hcompact hget
    -- A lone slot is that of the new child; in a table there are others.
    have hcount := Window.count_reach_eq_one_iff hcompact hget
    unfold liveOk Window.count at *
    grind
  obtain ⟨t', hres, hsound, -, hlookup⟩ := PrefixTree.addWith_spec hok h key
    (f := addRef) (by
      show (addRef (refs t key)).2 ≠ 0
      rw [hadd]
      exact Nat.succ_ne_zero _)
  have hstored : t.lookup key = refs t key := rfl
  rw [hstored, hadd] at hres hlookup
  exact ⟨t', hres, hsound, hlookup⟩

/-- `rm` cuts the children down to those that are left. -/
theorem prune_spec {α : Type} {w : Window α} (h : w.Compact) (hbound : w.min + w.count ≤ 256)
    {c : Nat} {t : α} (hc : w.get c = some t) :
    ∃ w', prune c w = some w' ∧ w.Pruned 256 c w' := by
  have hpos : 0 < w.count := Window.count_pos_of_get hc
  have hget := Window.get_erase (Window.covers_of_get hc)
  have hslots : w.slots.set (c - w.min) none = (w.erase c).slots := rfl
  have hjoin : ∀ i : Nat, (w.erase c).slots[i]?.join = (w.erase c).get (w.min + i) := by
    intro i
    simp [Window.get]
  unfold prune
  by_cases hone : w.count = 1
  · rw [if_pos hone, if_pos (h.live_of_count_one hone)]
    exact ⟨_, rfl, Window.pruned_cleared h hbound hc hone⟩
  · have hcount : 1 < w.count := by omega
    have hlive := h.two_le_live hcount
    rw [if_neg hone]
    simp only [hslots, hjoin]
    rw [if_neg (not_not.mpr hlive)]
    by_cases hlive1 : w.live - 1 = 1
    · -- of two keys the one at the other end is left
      rw [if_pos hlive1, hlive1]
      by_cases hfirst : c = w.min
      · obtain ⟨b, hb⟩ : ∃ b, (w.erase c).get (w.min + (w.count - 1)) = some b := by
          rw [hget, if_neg (by omega), ← Nat.add_sub_assoc hpos]
          exact Option.isSome_iff_exists.mp (h.last hpos)
        obtain ⟨hin, hpruned⟩ := Window.pruned_single h hbound hc hlive1 hb
        rw [if_pos hfirst, hb, Nat.mod_eq_of_lt hin]
        exact ⟨_, rfl, hpruned⟩
      · obtain ⟨b, hb⟩ : ∃ b, (w.erase c).get (w.min + 0) = some b := by
          rw [Nat.add_zero, hget, if_neg (Ne.symm hfirst)]
          exact Option.isSome_iff_exists.mp (h.first hpos)
        obtain ⟨-, hpruned⟩ := Window.pruned_single h hbound hc hlive1 hb
        -- It is at the other end, or the window would have three slots in use.
        have hlast : c = w.min + w.count - 1 := by
          by_contra hlast
          have := (Window.pruned_inside h hbound hc hfirst hlast).compact.two_le_live
            (by rwa [Window.count_erase])
          rw [Window.live_erase] at this
          omega
        rw [if_neg hfirst, if_pos hlast, hb]
        exact ⟨_, rfl, hpruned⟩
    · rw [if_neg hlive1]
      by_cases hfirst : c = w.min
      -- The search from the left finds the new first slot, and the assertions hold of it.
      · obtain ⟨i, hfind, hi, hlt, hpruned⟩ := Window.pruned_left h hbound hc hcount hfirst
        have hmod : (i + w.min) % 256 = w.min + i := by
          rw [Nat.add_comm]
          exact Nat.mod_eq_of_lt (by omega)
        rw [if_pos hfirst]
        simp only [hfind, hmod, Nat.add_sub_cancel_left]
        rw [if_pos (by omega)]
        exact ⟨_, rfl, hpruned⟩
      · by_cases hlast : c = w.min + w.count - 1
        -- From the right, the new last one.
        · obtain ⟨i, hfind, hi, hlt, hpruned⟩ := Window.pruned_right h hbound hc hcount hlast
          rw [if_neg hfirst, if_pos hlast]
          simp only [hfind]
          rw [if_pos (by omega)]
          exact ⟨_, rfl, hpruned⟩
        · rw [if_neg hfirst, if_neg hlast]
          exact ⟨_, rfl, Window.pruned_inside h hbound hc hfirst hlast⟩

/-- **Removing** reports the last one. -/
theorem rm_spec {t : Trie} (h : Sound t) (key : Bytes) :
    ∃ t', rm key t = some (refs t key == 1, t') ∧ Sound t' ∧
      ∀ k, refs t' k = if k = key then refs t key - 1 else refs t k := by
  have hrm : rmRef (refs t key) = some (refs t key == 1, refs t key - 1) := by
    cases refs t key <;> simp [rmRef]
  have hprune : PrefixTree.Prunes 256 (prune : Nat → Window Trie → _) :=
    .of_pruned fun _ _ _ hcompact hbound hget => prune_spec hcompact hbound hget
  exact PrefixTree.rmWith_spec hprune rfl h key hrm

/-! ## Looking up a message -/

/-- `check` looks for a key that is a prefix of the data. -/
theorem check_eq {t : Trie} (h : Sound t) (data : Bytes) :
    check data t = some (data.inits.any fun key => 0 < refs t key) := by
  induction data generalizing t with
  | nil =>
      obtain ⟨refcnt, next⟩ := t
      have hany : (([] : Bytes).inits.any fun key => 0 < refs (.node refcnt next) key) =
          decide (0 < refcnt) :=
        Bool.or_false _
      have hbool : (refcnt != 0) = decide (0 < refcnt) := by grind
      rw [hany, check, hbool]
  | cons c data ih =>
      cases h with
      | @node refcnt next compact bound children needed =>
          -- The key that ends here, and those that go on with `c`.
          have hsplit : ((c :: data).inits.any fun key => 0 < refs (.node refcnt next) key) =
              (decide (0 < refcnt) ||
                data.inits.any fun key => 0 < refs (.node refcnt next) (c :: key)) := by
            rw [List.inits_cons, List.any_cons, List.any_map]
            rfl
          rw [hsplit, check]
          by_cases hzero : refcnt = 0
          · rw [if_neg (by simp [hzero])]
            cases hget : next.get c with
            | some child =>
                rw [if_neg (by simp [Window.covers_of_get hget])]
                simp [ih (children c child hget), hzero, refs, PrefixTree.lookup, hget]
                rfl
            | none =>
                have hnone : (data.inits.any fun key => 0 < refs (.node refcnt next) (c :: key)) =
                    false := by
                  simp [refs, PrefixTree.lookup, hget]
                rw [hnone]
                split
                · simp [hzero]
                · rename_i hcovers
                  have hcovers : next.Covers c := not_not.mp hcovers
                  -- a lone slot is not empty
                  have hcount : next.count ≠ 1 := by
                    intro hone
                    have hsome := compact.first (by omega)
                    have hmin : next.min = c := by
                      unfold Window.Covers at hcovers
                      omega
                    rw [hmin, hget] at hsome
                    cases hsome
                  simp [hcount, hzero]
          · simp [hzero, Nat.pos_of_ne_zero hzero]


/-- **Going through the trie**: every key with references, each once and in order. -/
theorem apply_spec {t : Trie} (h : Sound t) :
    ∃ ks, apply t = some ks ∧ PrefixTree.Listed ks fun key => 0 < refs t key := by
  obtain ⟨ks, hks, hlisted⟩ :=
    PrefixTree.collectFrom_spec (n := 256) (p := fun refcnt => refcnt != 0) rfl h []
  refine ⟨ks, by simpa [apply] using hks, hlisted.congr fun k => ?_⟩
  simp [refs, Nat.pos_iff_ne_zero]

end Trie
end EventBus
