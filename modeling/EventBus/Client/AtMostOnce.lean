import EventBus.Client.Reentrant
import EventBus.Multimap.Walk
import Mathlib.Data.Finset.Card

/-!
# Each observer at most once

Handlers that leave the entries of both iterators alone cannot make the loop of `handle_event` use a
lost iterator, but they can keep it going: an entry registered under the title lands between the two
iterators, so two observers that unregister and register each other in turn are called for ever.
What a handler must not do is put an observer in front of the loop that the loop has called or will
call anyway. Then each observer is called at most once, and as the observers are finitely many the
loop comes to its end.
-/

namespace EventBus

open MZmq Transition

namespace EventClient
variable {Target : Type} [DecidableEq Target]

open Registry

/-! ## The rounds of one loop -/

/-- The loop of `handle_event` after `k` rounds, where `handlers j` are the calls the handler makes
in round `j`. -/
def loopAfter (c : EventClient Target) (title : EventType)
    (handlers : Nat → List (ClientCall Target)) (k : Nat) : LoopState Target :=
  ((List.range k).map handlers).foldl (round (c.eventObjectMap.equalRange title).2)
    ⟨c, (c.eventObjectMap.equalRange title).1⟩

/-- The observers called in the first `k` rounds. -/
def calledAfter (c : EventClient Target) (title : EventType)
    (handlers : Nat → List (ClientCall Target)) (k : Nat) : List Target :=
  ((handleEventRounds c title ((List.range k).map handlers)).flatMap
    (called (c.eventObjectMap.equalRange title).2)).map Node.val

/-- What a loop at `it` still visits behind the entry it stands at, if the map stays as it is. -/
def stretch (c : EventClient Target) (it last : Iter) : List (Node EventType Target) :=
  c.eventObjectMap.range (c.eventObjectMap.next it) last

/-- Where a call of the handler adds an entry to the stretch, its observer is not one of those
`seen` and has no entry there yet. -/
def AddsNewOnly (seen : List Target) (it last : Iter) :
    EventClient Target → List (ClientCall Target) → Prop
  | _, [] => True
  | c, call :: calls =>
      (∀ n ∈ (c.exec call).stretch it last, n ∉ c.eventObjectMap.nodes →
        n.val ∉ seen ∧ ∀ n' ∈ c.stretch it last, n'.val ≠ n.val) ∧
      AddsNewOnly seen it last (c.exec call) calls

/-! ## What the calls of a handler do to the stretch -/

/-- The observers of the entries are different ones, and none of them has been seen. -/
structure Unseen (seen : List Target) (w : List (Node EventType Target)) : Prop where
  nodup : (w.map Node.val).Nodup
  unseen : ∀ n ∈ w, n.val ∉ seen

section
variable {c : EventClient Target} {call : ClientCall Target} {calls : List (ClientCall Target)}
  {a : Node EventType Target} {w : List (Node EventType Target)} {last : Iter}
  {seen : List Target}

omit [DecidableEq Target] in
theorem Unseen.sublist {w' : List (Node EventType Target)} (h : Unseen seen w)
    (hsub : w'.Sublist w) : Unseen seen w' :=
  ⟨h.nodup.sublist (hsub.map _), fun n hn => h.unseen n (hsub.subset hn)⟩

omit [DecidableEq Target] in
/-- Once the first of them has been called, the others are still unseen. -/
theorem Unseen.tail (h : Unseen seen (a :: w)) : Unseen (seen ++ [a.val]) w := by
  obtain ⟨ha, hw⟩ := List.nodup_cons.mp h.nodup
  refine ⟨hw, fun n hn hmem => ?_⟩
  rcases List.mem_append.mp hmem with hmem | hmem
  · exact h.unseen n (List.mem_cons_of_mem a hn) hmem
  · rw [List.mem_singleton] at hmem
    exact ha (hmem ▸ List.mem_map_of_mem hn)

omit [DecidableEq Target] in
theorem stretch_of_visits (h : c.eventObjectMap.Visits a w last) :
    c.stretch (some a.id) last = w := h.range

/-- A call that keeps both iterators keeps the stretch, takes entries out of it, or puts a new one
in. -/
theorem visits_exec (h : c.eventObjectMap.Visits a w last) (ha : ¬ Hits c.eventObjectMap call a)
    (hlast : ∀ b ∈ c.eventObjectMap.nodes, some b.id = last → ¬ Hits c.eventObjectMap call b) :
    ∃ w', (c.exec call).eventObjectMap.Visits a w' last ∧
      (w'.Sublist w ∨ ∃ n, n ∉ c.eventObjectMap.nodes ∧ w'.Perm (n :: w)) := by
  rcases exec_cases c call with ⟨hmap, -⟩ | ⟨k, v, -, hmap⟩ | ⟨k, v, e, rest, hop, hpair, hmap⟩
  · rw [hmap]
    exact ⟨w, h, Or.inl (List.Sublist.refl w)⟩
  · rw [hmap]
    obtain ⟨w', hw', rfl | hperm⟩ := h.insert k v
    · exact ⟨w', hw', Or.inl (List.Sublist.refl w')⟩
    · exact ⟨w', hw', Or.inr ⟨_, c.eventObjectMap.fresh_not_mem k v, hperm⟩⟩
  · obtain ⟨he, rfl, rfl⟩ := Multimap.mem_entriesOf.mp (hpair ▸ List.mem_cons_self)
    have hhits : Hits c.eventObjectMap call e := ⟨hop, Multimap.ahead_head hpair⟩
    rw [hmap]
    refine ⟨_, h.erase (i := e.id) (fun hid => ?_) (fun hid => ?_), Or.inl List.filter_sublist⟩
    · rw [c.eventObjectMap.eq_of_id_eq h.mem he hid] at ha
      exact ha hhits
    · exact hlast e he hid.symm hhits

theorem unseen_exec (h : c.eventObjectMap.Visits a w last) (hunseen : Unseen seen w)
    (ha : ¬ Hits c.eventObjectMap call a)
    (hlast : ∀ b ∈ c.eventObjectMap.nodes, some b.id = last → ¬ Hits c.eventObjectMap call b)
    (hnew : ∀ n ∈ (c.exec call).stretch (some a.id) last, n ∉ c.eventObjectMap.nodes →
      n.val ∉ seen ∧ ∀ n' ∈ c.stretch (some a.id) last, n'.val ≠ n.val) :
    ∃ w', (c.exec call).eventObjectMap.Visits a w' last ∧ Unseen seen w' := by
  obtain ⟨w', hw', hsub | ⟨n, hn, hperm⟩⟩ := visits_exec h ha hlast
  · exact ⟨w', hw', hunseen.sublist hsub⟩
  · rw [stretch_of_visits hw', stretch_of_visits h] at hnew
    obtain ⟨hseen, hother⟩ := hnew n (hperm.mem_iff.mpr List.mem_cons_self) hn
    refine ⟨w', hw', ?_, ?_⟩
    · rw [(hperm.map Node.val).nodup_iff, List.map_cons, List.nodup_cons]
      refine ⟨fun hmem => ?_, hunseen.nodup⟩
      obtain ⟨n', hn', hval⟩ := List.mem_map.mp hmem
      exact hother n' hn' hval
    · intro n' hn'
      rcases List.mem_cons.mp (hperm.mem_iff.mp hn') with rfl | hn'
      · exact hseen
      · exact hunseen.unseen n' hn'

theorem unseen_execs (h : c.eventObjectMap.Visits a w last) (hunseen : Unseen seen w)
    (ha : ¬ Unregisters c.eventObjectMap calls a)
    (hlast : ∀ b ∈ c.eventObjectMap.nodes, some b.id = last →
      ¬ Unregisters c.eventObjectMap calls b)
    (hnew : AddsNewOnly seen (some a.id) last c calls) :
    ∃ w', (c.execs calls).eventObjectMap.Visits a w' last ∧ Unseen seen w' := by
  induction calls generalizing c w with
  | nil => exact ⟨w, h, hunseen⟩
  | cons call calls ih =>
      have hmissa : ¬ Hits c.eventObjectMap call a := mt unregisters_of_hits ha
      have hmissb : ∀ b ∈ c.eventObjectMap.nodes, some b.id = last →
          ¬ Hits c.eventObjectMap call b :=
        fun b hb hid => mt unregisters_of_hits (hlast b hb hid)
      obtain ⟨hhead, htail⟩ := hnew
      obtain ⟨w', hw', hunseen'⟩ := unseen_exec h hunseen hmissa hmissb hhead
      apply ih hw' hunseen' _ _ htail
      · rwa [← unregisters_cons h.mem hmissa]
      · intro b hb hid
        -- the entry at the end is the one it was before the call
        obtain ⟨b', hb', hsame⟩ := h.valid_last b.id hid.symm
        have hmiss := hmissb b' hb' (hsame ▸ hid)
        have hkept := (exec_of_not_hits hb' hmiss).1
        rw [(c.exec call).eventObjectMap.eq_of_id_eq hb hkept hsame.symm,
          ← unregisters_cons hb' hmiss]
        exact hlast b' hb' (hsame ▸ hid)

end

/-! ## The whole loop -/

theorem loopAfter_succ (c : EventClient Target) (title : EventType)
    (handlers : Nat → List (ClientCall Target)) (k : Nat) :
    c.loopAfter title handlers (k + 1) =
      round (c.eventObjectMap.equalRange title).2 (c.loopAfter title handlers k) (handlers k) := by
  simp [loopAfter, List.range_succ]

theorem calledAfter_succ (c : EventClient Target) (title : EventType)
    (handlers : Nat → List (ClientCall Target)) (k : Nat) :
    c.calledAfter title handlers (k + 1) = c.calledAfter title handlers k ++
      (called (c.eventObjectMap.equalRange title).2 ⟨c.loopAfter title handlers k, handlers k,
        c.loopAfter title handlers (k + 1)⟩).map Node.val := by
  rw [loopAfter_succ, calledAfter, handleEventRounds, List.range_succ, List.map_append,
    List.map_singleton, trace_concat, List.flatMap_append, List.map_append]
  simp only [List.flatMap_cons, List.flatMap_nil, List.append_nil]
  rfl

/-- What holds between two rounds: nobody has been called twice, and whoever is still to come is
new. -/
structure Proceeds (observers : Finset Target) (last : Iter) (seen : List Target)
    (s : LoopState Target) : Prop where
  nodup : seen.Nodup
  known : ∀ x ∈ seen, x ∈ observers
  entries : ∀ n ∈ s.client.eventObjectMap.nodes, n.val ∈ observers
  onTheWay : s.it = last ∨ ∃ a w, s.it = some a.id ∧ s.client.eventObjectMap.Visits a w last ∧
    Unseen seen (a :: w)

section
variable {observers : Finset Target} {last : Iter} {seen : List Target} {s : LoopState Target}
  {calls : List (ClientCall Target)} {t : LoopState Target}

theorem entries_execs {c : EventClient Target}
    (h : ∀ n ∈ c.eventObjectMap.nodes, n.val ∈ observers)
    (hcalls : ∀ call ∈ calls, ∀ type object, call.op = .register type object →
      object ∈ observers) :
    ∀ n ∈ (c.execs calls).eventObjectMap.nodes, n.val ∈ observers := by
  induction calls generalizing c with
  | nil => exact h
  | cons call calls ih =>
      obtain ⟨hcall, hrest⟩ := List.forall_mem_cons.mp hcalls
      apply ih _ hrest
      intro n hn
      rcases mem_nodes_exec hn with hn | ⟨-, hop⟩
      · exact h n hn
      · exact hcall n.key n.val hop

omit [DecidableEq Target] in
theorem called_of_visits {a : Node EventType Target} {w : List (Node EventType Target)}
    (hit : s.it = some a.id) (h : s.client.eventObjectMap.Visits a w last) :
    called last ⟨s, calls, t⟩ = [a] := by
  have hne : s.it ≠ last := hit ▸ h.ne_last
  rw [called, if_neg hne, hit, Multimap.deref_of_mem h.mem]
  rfl

omit [DecidableEq Target] in
/-- A round that has not arrived calls one observer more. -/
theorem Proceeds.length_called (h : Proceeds observers last seen s) (hne : s.it ≠ last) :
    ((called last ⟨s, calls, t⟩).map Node.val).length = 1 := by
  rcases h.onTheWay with heq | ⟨a, w, hit, hvisits, -⟩
  · exact absurd heq hne
  · rw [called_of_visits hit hvisits]
    rfl

theorem Proceeds.round (h : Proceeds observers last seen s)
    (hcalls : ∀ call ∈ calls, ∀ type object, call.op = .register type object →
      object ∈ observers)
    (hkeep : KeepsIterators last ⟨s, calls, round last s calls⟩)
    (hnew : s.it ≠ last → AddsNewOnly
      (seen ++ (called last ⟨s, calls, round last s calls⟩).map Node.val) s.it last s.client
        calls) :
    Proceeds observers last (seen ++ (called last ⟨s, calls, round last s calls⟩).map Node.val)
      (round last s calls) := by
  rcases h.onTheWay with heq | ⟨a, w, hit, hvisits, hunseen⟩
  · have hround : EventClient.round last s calls = s := if_pos heq
    have hcalled : called last ⟨s, calls, EventClient.round last s calls⟩ = [] := if_pos heq
    rw [hcalled, hround, List.map_nil, List.append_nil]
    exact h
  · have hne : s.it ≠ last := hit ▸ hvisits.ne_last
    have hnew := hnew hne
    rw [called_of_visits hit hvisits, hit] at hnew
    rw [called_of_visits hit hvisits, EventClient.round, if_neg hne, hit]
    obtain ⟨w', hvisits', hunseen'⟩ := unseen_execs hvisits hunseen.tail
      (hkeep hne a hvisits.mem (Or.inl hit.symm))
      (fun b hb hid => hkeep hne b hb (Or.inr hid)) hnew
    refine ⟨?_, ?_, entries_execs h.entries hcalls, ?_⟩
    · rw [List.map_singleton, ← List.concat_eq_append]
      exact h.nodup.concat (hunseen.unseen a List.mem_cons_self)
    · intro x hx
      rcases List.mem_append.mp hx with hx | hx
      · exact h.known x hx
      · rw [List.map_singleton, List.mem_singleton] at hx
        rw [hx]
        exact h.entries a hvisits.mem
    · cases w' with
      | nil => exact Or.inl hvisits'.next_nil
      | cons b w' =>
          obtain ⟨hnext, hvisits'⟩ := hvisits'.next_cons
          exact Or.inr ⟨b, w', hnext, hvisits', hunseen'⟩

end

omit [DecidableEq Target] in
/-- The loop over a title starts with all its observers ahead. -/
theorem proceeds_start {c : EventClient Target} {reg : List (EventType × Target)}
    (h : Represents c.eventObjectMap reg) {observers : Finset Target}
    (hmap : ∀ n ∈ c.eventObjectMap.nodes, n.val ∈ observers) (title : EventType) :
    Proceeds observers (c.eventObjectMap.equalRange title).2 []
      ⟨c, (c.eventObjectMap.equalRange title).1⟩ := by
  refine ⟨.nil, by simp, hmap, ?_⟩
  cases hunder : c.eventObjectMap.under title with
  | nil =>
      left
      show c.eventObjectMap.lowerBound title = c.eventObjectMap.upperBound title
      rw [Multimap.lowerBound_eq, Multimap.upperBound_eq, hunder, List.nil_append]
  | cons a w =>
      obtain ⟨hit, hvisits⟩ := Multimap.visits_equalRange hunder
      have hnodup := observers_nodup h.nodup title
      rw [← h.under title, hunder] at hnodup
      exact Or.inr ⟨a, w, hit, hvisits, hnodup, by simp⟩

/-- As long as the handlers do what is asked of them, every round leaves the loop as the first one
found it. -/
theorem proceeds_after {c : EventClient Target} {title : EventType}
    {handlers : Nat → List (ClientCall Target)} {observers : Finset Target}
    (hstart : Proceeds observers (c.eventObjectMap.equalRange title).2 []
      ⟨c, (c.eventObjectMap.equalRange title).1⟩)
    (hcalls : ∀ k, ∀ call ∈ handlers k, ∀ type object, call.op = .register type object →
      object ∈ observers)
    (hkeep : ∀ k, KeepsIterators (c.eventObjectMap.equalRange title).2
      ⟨c.loopAfter title handlers k, handlers k, c.loopAfter title handlers (k + 1)⟩)
    (hnew : ∀ k, (c.loopAfter title handlers k).it ≠ (c.eventObjectMap.equalRange title).2 →
      AddsNewOnly (c.calledAfter title handlers (k + 1)) (c.loopAfter title handlers k).it
        (c.eventObjectMap.equalRange title).2 (c.loopAfter title handlers k).client (handlers k))
    (k : Nat) :
    Proceeds observers (c.eventObjectMap.equalRange title).2 (c.calledAfter title handlers k)
      (c.loopAfter title handlers k) := by
  induction k with
  | zero => exact hstart
  | succ k ih =>
      have hkeep := hkeep k
      have hnew := hnew k
      rw [calledAfter_succ, loopAfter_succ] at hnew ⊢
      rw [loopAfter_succ] at hkeep
      exact ih.round (hcalls k) hkeep hnew

/-- As long as the loop has not arrived, every round calls one observer more. -/
theorem length_calledAfter {c : EventClient Target} {title : EventType}
    {handlers : Nat → List (ClientCall Target)} {observers : Finset Target} {m : Nat}
    (hproceeds : ∀ k, Proceeds observers (c.eventObjectMap.equalRange title).2
      (c.calledAfter title handlers k) (c.loopAfter title handlers k))
    (hne : ∀ k < m, (c.loopAfter title handlers k).it ≠ (c.eventObjectMap.equalRange title).2) :
    (c.calledAfter title handlers m).length = m := by
  induction m with
  | zero => rfl
  | succ m ih =>
      have hbefore := ih fun k hk => hne k (Nat.lt_succ_of_lt hk)
      rw [calledAfter_succ, List.length_append, hbefore,
        (hproceeds m).length_called (hne m (Nat.lt_succ_self m))]

/-- **At most once, and an end**: whatever title is received, whoever is registered, and whatever
calls the handlers make, if none of them unregisters the entry being dispatched or the one at the
end of the range, nor adds an entry to the stretch ahead for an observer that the loop has called or
that has one there, then the loop of `handle_event` arrives after no more rounds than there are
observers, and calls no observer twice. -/
theorem handleEvent_terminates (history : List (ClientCall Target)) (title : EventType)
    (handlers : Nat → List (ClientCall Target)) (observers : Finset Target)
    (hmap : ∀ n ∈ (run history).eventObjectMap.nodes, n.val ∈ observers)
    (hcalls : ∀ k, ∀ call ∈ handlers k, ∀ type object, call.op = .register type object →
      object ∈ observers)
    (hkeep : ∀ k, KeepsIterators ((run history).eventObjectMap.equalRange title).2
      ⟨(run history).loopAfter title handlers k, handlers k,
        (run history).loopAfter title handlers (k + 1)⟩)
    (hnew : ∀ k, ((run history).loopAfter title handlers k).it ≠
        ((run history).eventObjectMap.equalRange title).2 →
      AddsNewOnly ((run history).calledAfter title handlers (k + 1))
        ((run history).loopAfter title handlers k).it
        ((run history).eventObjectMap.equalRange title).2
        ((run history).loopAfter title handlers k).client (handlers k)) :
    (∃ k ≤ observers.card, ((run history).loopAfter title handlers k).it =
      ((run history).eventObjectMap.equalRange title).2) ∧
    ∀ k, ((run history).calledAfter title handlers k).Nodup := by
  have hproceeds : ∀ k, Proceeds observers ((run history).eventObjectMap.equalRange title).2
      ((run history).calledAfter title handlers k)
      ((run history).loopAfter title handlers k) :=
    proceeds_after (proceeds_start (represents_run history) hmap title) hcalls hkeep hnew
  refine ⟨?_, fun k => (hproceeds k).nodup⟩
  by_contra hnever
  simp only [not_exists, not_and] at hnever
  -- then more observers have been called than there are
  have hlength := length_calledAfter hproceeds fun k hk => hnever k (Nat.le_of_lt_succ hk)
  have hcard : ((run history).calledAfter title handlers (observers.card + 1)).toFinset.card ≤
      observers.card := by
    apply Finset.card_le_card
    intro x hx
    exact (hproceeds _).known x (List.mem_toFinset.mp hx)
  rw [List.toFinset_card_of_nodup (hproceeds _).nodup, hlength] at hcard
  exact absurd hcard (Nat.not_succ_le_self _)

/-- Observer 0 registers observer 1, which is called in the same loop. -/
theorem handleEvent_terminates_witness :
    (∃ k ≤ ({0, 1} : Finset Nat).card,
      ((run [⟨.register [1] 0, none⟩]).loopAfter [1]
          (fun k => if k = 0 then [⟨.register [1] 1, none⟩] else []) k).it =
        ((run [⟨.register [1] 0, none⟩]).eventObjectMap.equalRange [1]).2) ∧
    ∀ k, ((run [⟨.register [1] 0, none⟩]).calledAfter [1]
      (fun k => if k = 0 then [⟨.register [1] 1, none⟩] else []) k).Nodup := by
  apply handleEvent_terminates
  · decide
  · intro k call hcall type object hop
    split at hcall
    · rw [List.mem_singleton] at hcall
      rw [hcall] at hop
      cases hop
      decide
    · cases hcall
  · intro k _ n _ _ hun
    unfold Unregisters at hun
    split at hun
    · simp at hun
    · cases hun
  · intro k _
    split
    · next hk =>
      subst hk
      exact ⟨by decide, trivial⟩
    · trivial

/-! ## Two observers that keep a loop going -/

/-- The calls of a handler that unregisters an observer and registers it again. -/
def swap (type : EventType) (x : Nat) : List (ClientCall Nat) :=
  [⟨.unregister type x, none⟩, ⟨.register type x, none⟩]

/-- Observers 0 and 1, called in turn, put each other at the end of the range. -/
def swaps (type : EventType) (k : Nat) : List (ClientCall Nat) := swap type ((k + 1) % 2)

def twoObservers (type : EventType) : EventClient Nat :=
  run [⟨.register type 0, none⟩, ⟨.register type 1, none⟩]

theorem nodes_swap {c : EventClient Nat} {type : EventType} {i j x y : Nat} (hne : x ≠ y)
    (hnodes : c.eventObjectMap.nodes = [⟨i, type, x⟩, ⟨j, type, y⟩]) :
    (c.execs (swap type x)).eventObjectMap.nodes =
      [⟨j, type, y⟩, ⟨c.eventObjectMap.fresh, type, x⟩] := by
  have hids : j ≠ i := by
    have hnodup := c.eventObjectMap.nodup
    rw [hnodes] at hnodup
    simp at hnodup
    omega
  have hpair : c.eventObjectMap.entriesOf type x = [⟨i, type, x⟩] := by
    simp [Multimap.entriesOf, hnodes, hne.symm]
  have herased : (c.exec ⟨.unregister type x, none⟩).eventObjectMap.nodes = [⟨j, type, y⟩] ∧
      (c.exec ⟨.unregister type x, none⟩).eventObjectMap.fresh = c.eventObjectMap.fresh := by
    show (unregisterObserver none type x c).2.eventObjectMap.nodes = _ ∧
      (unregisterObserver none type x c).2.eventObjectMap.fresh = _
    rw [unregisterObserver_cons hpair]
    split <;> simp [Multimap.erase, hnodes, hids]
  obtain ⟨hleft, hfresh⟩ := herased
  have hfind : (c.exec ⟨.unregister type x, none⟩).eventObjectMap.find type ≠ none := by
    rw [Ne, Multimap.find_eq_none, Multimap.under, hleft]
    simp
  show (registerObserver none type x (c.exec ⟨.unregister type x, none⟩)).2.eventObjectMap.nodes = _
  rw [registerObserver_found hfind, if_neg]
  · rw [← hfresh]
    simp [Multimap.insert, hleft]
  · rw [alreadyObserved_iff, Multimap.suffix_find]
    simp [Multimap.under, Multimap.above, hleft, hne.symm]

theorem nodes_swaps (k : Nat) : ∃ i j,
    ((twoObservers [1]).loopAfter [1] (swaps [1]) (k + 1)).it = some j ∧
    ((twoObservers [1]).loopAfter [1] (swaps [1]) (k + 1)).client.eventObjectMap.nodes =
      [⟨i, [1], k % 2⟩, ⟨j, [1], (k + 1) % 2⟩] := by
  induction k with
  | zero => exact ⟨0, 2, by decide, by decide⟩
  | succ k ih =>
      obtain ⟨i, j, hit, hnodes⟩ := ih
      have hlast : ((twoObservers [1]).eventObjectMap.equalRange [1]).2 = none := by decide
      have hne : k % 2 ≠ (k + 1) % 2 := by omega
      have hsame : (k + 1 + 1) % 2 = k % 2 := by omega
      have hswapped := nodes_swap hne hnodes
      rw [loopAfter_succ, hlast, round, if_neg (by simp [hit]), swaps, hsame]
      refine ⟨j, _, ?_, hswapped⟩
      rw [hit]
      exact Multimap.next_of_split (hswapped.trans (List.nil_append _).symm)

/-- The loop is always at an entry of the observer whose turn it is. -/
theorem at_swaps (k : Nat) :
    ∃ n ∈ ((twoObservers [1]).loopAfter [1] (swaps [1]) k).client.eventObjectMap.nodes,
      ((twoObservers [1]).loopAfter [1] (swaps [1]) k).it = some n.id ∧ n.val = k % 2 := by
  cases k with
  | zero => exact ⟨⟨0, [1], 0⟩, by decide, by decide, rfl⟩
  | succ k =>
      obtain ⟨i, j, hit, hnodes⟩ := nodes_swaps k
      exact ⟨⟨j, [1], (k + 1) % 2⟩, by simp [hnodes], hit, rfl⟩

/-- No round touches an iterator, and yet the loop never arrives and calls an observer again. -/
theorem not_handleEvent_terminates :
    (∀ k, KeepsIterators ((twoObservers [1]).eventObjectMap.equalRange [1]).2
      ⟨(twoObservers [1]).loopAfter [1] (swaps [1]) k, swaps [1] k,
        (twoObservers [1]).loopAfter [1] (swaps [1]) (k + 1)⟩) ∧
    (∀ k, ((twoObservers [1]).loopAfter [1] (swaps [1]) k).it ≠
      ((twoObservers [1]).eventObjectMap.equalRange [1]).2) ∧
    ¬ ((twoObservers [1]).calledAfter [1] (swaps [1]) 3).Nodup := by
  have hlast : ((twoObservers [1]).eventObjectMap.equalRange [1]).2 = none := by decide
  refine ⟨fun k => ?_, fun k => ?_, by decide⟩
  · intro _ n hn hid
    obtain ⟨n', hn', hit, hval⟩ := at_swaps k
    have hsame : n = n' := by
      rcases hid with hid | hid
      · exact Multimap.eq_of_id_eq _ hn hn' (Option.some.inj (hid.trans hit))
      · cases hid.trans hlast
    have hother : (k + 1) % 2 ≠ n.val := by
      rw [hsame, hval]
      omega
    simp [Unregisters, swaps, swap, hother]
  · obtain ⟨n, -, hit, -⟩ := at_swaps k
    rw [hit, hlast]
    exact Option.some_ne_none _

end EventClient
end EventBus
