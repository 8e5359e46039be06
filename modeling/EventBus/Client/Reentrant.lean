import EventBus.Client.Registry
import EventBus.Transition.Run

/-!
# Dispatch loops whose handlers change the map

A handler may call `register_observer` and `unregister_observer` on the client that is dispatching.
Both loops then go on with an iterator taken before the change, and `handle_event` also keeps the
end iterator it took before the loop; `publish_loc_event` asks for `end()` anew each time.

One round of a loop is: compare `it` with the end, dereference it and call the handler, increment
it. An iterator lost to the handler is used when the round increments it, or at the comparison that
follows. Erasing any other entry, and inserting, leaves both iterators valid and in order, so a
round goes wrong exactly if the handler unregisters the entry of one of the two. Nothing is assumed
of the map: where it holds a pair more than once, `unregister_observer` erases the first entry.
-/

namespace EventBus

open MZmq Transition

namespace EventClient
variable {Target : Type} [DecidableEq Target]

open Registry

/-! ## What the calls of a handler do to an entry -/

/-- One call leaves the map alone, inserts a pair, or erases the first entry of its pair. -/
theorem exec_cases (c : EventClient Target) (call : ClientCall Target) :
    ((c.exec call).eventObjectMap = c.eventObjectMap ∧
      ∀ n ∈ c.eventObjectMap.nodes, call.op ≠ .unregister n.key n.val) ∨
    (∃ type object, call.op = .register type object ∧
      (c.exec call).eventObjectMap = c.eventObjectMap.insert type object) ∨
    ∃ type object e rest, call.op = .unregister type object ∧
      c.eventObjectMap.entriesOf type object = e :: rest ∧
      (c.exec call).eventObjectMap = c.eventObjectMap.erase e.id := by
  obtain ⟨op, o⟩ := call
  cases op with
  | register type object =>
      show ((registerObserver o type object c).2.eventObjectMap = _ ∧ _) ∨
        (∃ _ _, _ ∧ (registerObserver o type object c).2.eventObjectMap = _) ∨ _
      by_cases hfind : c.eventObjectMap.find type = none
      · rw [registerObserver_not_found hfind]
        exact Or.inr (Or.inl ⟨type, object, rfl, rfl⟩)
      · rw [registerObserver_found hfind]
        split
        · exact Or.inl ⟨rfl, by simp⟩
        · exact Or.inr (Or.inl ⟨type, object, rfl, rfl⟩)
  | unregister type object =>
      show ((unregisterObserver o type object c).2.eventObjectMap = _ ∧ _) ∨ _ ∨
        ∃ _ _ _ _, _ ∧ _ ∧ (unregisterObserver o type object c).2.eventObjectMap = _
      cases hpair : c.eventObjectMap.entriesOf type object with
      | nil =>
          rw [unregisterObserver_nil hpair]
          refine Or.inl ⟨rfl, ?_⟩
          intro n hn hop
          injection hop with hkey hval
          have hmem := Multimap.mem_entriesOf.mpr ⟨hn, hkey.symm, hval.symm⟩
          rw [hpair] at hmem
          cases hmem
      | cons e rest =>
          rw [unregisterObserver_cons hpair]
          refine Or.inr (Or.inr ⟨type, object, e, rest, rfl, hpair, ?_⟩)
          split <;> rfl

/-- A call adds at most the entry it registers, under the next number. -/
theorem mem_nodes_exec {c : EventClient Target} {call : ClientCall Target}
    {n : Node EventType Target} (hn : n ∈ (c.exec call).eventObjectMap.nodes) :
    n ∈ c.eventObjectMap.nodes ∨
      n.id = c.eventObjectMap.fresh ∧ call.op = .register n.key n.val := by
  rcases exec_cases c call with ⟨hmap, -⟩ | ⟨k, v, hop, hmap⟩ | ⟨k, v, e, rest, -, -, hmap⟩
  · rw [hmap] at hn
    exact Or.inl hn
  · rw [hmap] at hn
    rcases Multimap.mem_insert.mp hn with rfl | hn
    · exact Or.inr ⟨rfl, hop⟩
    · exact Or.inl hn
  · rw [hmap] at hn
    exact Or.inl (Multimap.mem_erase.mp hn).1

/-- Several calls in a row, as a handler makes them. -/
def execs (c : EventClient Target) (calls : List (ClientCall Target)) : EventClient Target :=
  calls.foldl exec c

/-- The calls unregister the pair of an entry more often than there are entries of that pair ahead
of it. In a map without repetitions this means that they unregister the pair at all. -/
def Unregisters (m : Multimap EventType Target) (calls : List (ClientCall Target))
    (n : Node EventType Target) : Prop :=
  m.ahead n < calls.countP (fun call => call.op = .unregister n.key n.val)

theorem unregisters_iff {m : Multimap EventType Target} {reg : List (EventType × Target)}
    (h : Represents m reg) {n : Node EventType Target} (hn : n ∈ m.nodes)
    (calls : List (ClientCall Target)) :
    Unregisters m calls n ↔ ∃ call ∈ calls, call.op = .unregister n.key n.val := by
  have hahead : m.ahead n = 0 := by
    cases hpair : m.entriesOf n.key n.val with
    | nil =>
        have hmem := Multimap.mem_entriesOf.mpr ⟨hn, rfl, rfl⟩
        rw [hpair] at hmem
        cases hmem
    | cons e rest =>
        obtain ⟨he, hkey, hval⟩ := Multimap.mem_entriesOf.mp (hpair ▸ List.mem_cons_self)
        rw [h.eq_of_pair_eq he hn hkey hval] at hpair
        exact Multimap.ahead_head hpair
  rw [Unregisters, hahead, List.countP_pos_iff]
  simp only [decide_eq_true_eq]

section
variable {c : EventClient Target} {call : ClientCall Target} {calls : List (ClientCall Target)}
  {n a b : Node EventType Target}

/-- The call erases the entry: it unregisters the pair, and no other entry of it is ahead. -/
def Hits (m : Multimap EventType Target) (call : ClientCall Target)
    (n : Node EventType Target) : Prop :=
  call.op = .unregister n.key n.val ∧ m.ahead n = 0

/-- Identities are not handed out twice, so what is gone stays gone. -/
theorem gone_exec (call : ClientCall Target) {i : Nat} (hi : i < c.eventObjectMap.fresh)
    (hgone : ¬ c.eventObjectMap.Valid (some i)) :
    i < (c.exec call).eventObjectMap.fresh ∧ ¬ (c.exec call).eventObjectMap.Valid (some i) := by
  rcases exec_cases c call with ⟨hmap, -⟩ | ⟨k, v, -, hmap⟩ | ⟨k, v, e, rest, -, -, hmap⟩
  · rw [hmap]
    exact ⟨hi, hgone⟩
  · rw [hmap]
    refine ⟨Nat.lt_succ_of_lt hi, fun hvalid => ?_⟩
    obtain ⟨a, ha, hid⟩ := hvalid i rfl
    rcases Multimap.mem_insert.mp ha with rfl | ha
    · exact absurd hid (Nat.ne_of_gt hi)
    · subst hid
      exact hgone (Multimap.valid_of_mem ha)
  · rw [hmap]
    refine ⟨hi, fun hvalid => ?_⟩
    obtain ⟨a, ha, rfl⟩ := hvalid i rfl
    exact hgone (Multimap.valid_of_mem (Multimap.mem_erase.mp ha).1)

theorem gone_execs {i : Nat} (hi : i < c.eventObjectMap.fresh)
    (hgone : ¬ c.eventObjectMap.Valid (some i)) :
    ¬ (c.execs calls).eventObjectMap.Valid (some i) := by
  induction calls generalizing c with
  | nil => exact hgone
  | cons call calls ih =>
      obtain ⟨hi', hgone'⟩ := gone_exec call hi hgone
      exact ih hi' hgone'

/-- A call that hits the entry erases it. -/
theorem exec_of_hits (hn : n ∈ c.eventObjectMap.nodes) (hhits : Hits c.eventObjectMap call n) :
    (c.exec call).eventObjectMap = c.eventObjectMap.erase n.id := by
  obtain ⟨hop, hahead⟩ := hhits
  rcases exec_cases c call with ⟨-, hno⟩ | ⟨k, v, hop', -⟩ | ⟨k, v, e, rest, hop', hpair, hmap⟩
  · exact absurd hop (hno n hn)
  · cases hop.symm.trans hop'
  · injection hop.symm.trans hop' with hkey hval
    subst hkey hval
    have he : e = n := by
      by_contra hne
      rw [Multimap.ahead_erase_head hpair hne] at hahead
      cases hahead
    rw [hmap, he]

/-- A call that does not hit the entry leaves it where it is, and uses up one entry ahead of it if
it unregisters the pair. -/
theorem exec_of_not_hits (hn : n ∈ c.eventObjectMap.nodes)
    (hmiss : ¬ Hits c.eventObjectMap call n) :
    n ∈ (c.exec call).eventObjectMap.nodes ∧ c.eventObjectMap.ahead n =
      (c.exec call).eventObjectMap.ahead n +
        if call.op = .unregister n.key n.val then 1 else 0 := by
  rcases exec_cases c call with ⟨hmap, hno⟩ | ⟨k, v, hop, hmap⟩ | ⟨k, v, e, rest, hop, hpair, hmap⟩
  · rw [hmap, if_neg (hno n hn)]
    exact ⟨hn, rfl⟩
  · rw [hmap, hop, Multimap.mem_insert, Multimap.ahead_insert hn]
    exact ⟨Or.inr hn, by simp⟩
  · obtain ⟨he, hkey, hval⟩ := Multimap.mem_entriesOf.mp (hpair ▸ List.mem_cons_self)
    rw [hmap, hop, Multimap.mem_erase]
    by_cases hsame : k = n.key ∧ v = n.val
    · obtain ⟨rfl, rfl⟩ := hsame
      have hne : e ≠ n := by
        rintro rfl
        exact hmiss ⟨hop, Multimap.ahead_head hpair⟩
      refine ⟨⟨hn, fun hid => hne (c.eventObjectMap.eq_of_id_eq he hn hid.symm)⟩, ?_⟩
      rw [if_pos rfl]
      exact Multimap.ahead_erase_head hpair hne
    · have hother : ¬ (e.key = n.key ∧ e.val = n.val) := by rwa [hkey, hval]
      refine ⟨⟨hn, fun hid => hother ?_⟩, ?_⟩
      · rw [c.eventObjectMap.eq_of_id_eq hn he hid]
        exact ⟨rfl, rfl⟩
      · rw [Multimap.ahead_erase_of_ne he hother, if_neg (by simpa using hsame)]
        rfl

theorem precedes_exec (hab : c.eventObjectMap.Precedes a b) (ha : ¬ Hits c.eventObjectMap call a)
    (hb : ¬ Hits c.eventObjectMap call b) : (c.exec call).eventObjectMap.Precedes a b := by
  rcases exec_cases c call with ⟨hmap, -⟩ | ⟨k, v, -, hmap⟩ | ⟨k, v, e, rest, hop, hpair, hmap⟩
  · rw [hmap]
    exact hab
  · rw [hmap]
    exact hab.insert k v
  · obtain ⟨he, rfl, rfl⟩ := Multimap.mem_entriesOf.mp (hpair ▸ List.mem_cons_self)
    have hne : ∀ x ∈ c.eventObjectMap.nodes, ¬ Hits c.eventObjectMap call x → x.id ≠ e.id := by
      intro x hx hmiss hid
      rw [c.eventObjectMap.eq_of_id_eq hx he hid] at hmiss
      exact hmiss ⟨hop, Multimap.ahead_head hpair⟩
    rw [hmap]
    exact hab.erase (hne a (hab.subset (by simp)) ha) (hne b hab.mem_right hb)

theorem unregisters_of_hits (hhits : Hits c.eventObjectMap call n) :
    Unregisters c.eventObjectMap (call :: calls) n := by
  unfold Unregisters
  rw [hhits.2, List.countP_cons_of_pos (by simpa using hhits.1)]
  exact Nat.succ_pos _

theorem unregisters_cons (hn : n ∈ c.eventObjectMap.nodes)
    (hmiss : ¬ Hits c.eventObjectMap call n) :
    Unregisters c.eventObjectMap (call :: calls) n ↔
      Unregisters (c.exec call).eventObjectMap calls n := by
  have hahead := (exec_of_not_hits hn hmiss).2
  unfold Unregisters
  rw [List.countP_cons]
  simp only [decide_eq_true_eq]
  omega

/-- **An iterator survives a handler exactly if** the handler does not unregister its entry. -/
theorem valid_execs_iff (hn : n ∈ c.eventObjectMap.nodes) :
    (c.execs calls).eventObjectMap.Valid (some n.id) ↔
      ¬ Unregisters c.eventObjectMap calls n := by
  induction calls generalizing c with
  | nil => exact iff_of_true (Multimap.valid_of_mem hn) (by simp [Unregisters])
  | cons call calls ih =>
      by_cases hhits : Hits c.eventObjectMap call n
      · refine iff_of_false ?_ (not_not.mpr (unregisters_of_hits hhits))
        have herase := exec_of_hits hn hhits
        apply gone_execs (c := c.exec call)
        · rw [herase]
          exact c.eventObjectMap.bound n hn
        · intro hvalid
          rw [herase] at hvalid
          obtain ⟨a, ha, hid⟩ := hvalid n.id rfl
          exact (Multimap.mem_erase.mp ha).2 hid
      · rw [unregisters_cons hn hhits]
        exact ih (exec_of_not_hits hn hhits).1

theorem mem_execs (hn : n ∈ c.eventObjectMap.nodes)
    (hkeep : ¬ Unregisters c.eventObjectMap calls n) :
    n ∈ (c.execs calls).eventObjectMap.nodes := by
  induction calls generalizing c with
  | nil => exact hn
  | cons call calls ih =>
      have hmiss : ¬ Hits c.eventObjectMap call n := mt unregisters_of_hits hkeep
      apply ih (exec_of_not_hits hn hmiss).1
      rwa [← unregisters_cons hn hmiss]

theorem precedes_execs (hab : c.eventObjectMap.Precedes a b)
    (ha : ¬ Unregisters c.eventObjectMap calls a) (hb : ¬ Unregisters c.eventObjectMap calls b) :
    (c.execs calls).eventObjectMap.Precedes a b := by
  induction calls generalizing c with
  | nil => exact hab
  | cons call calls ih =>
      have hmissa : ¬ Hits c.eventObjectMap call a := mt unregisters_of_hits ha
      have hmissb : ¬ Hits c.eventObjectMap call b := mt unregisters_of_hits hb
      apply ih (precedes_exec hab hmissa hmissb)
      · rwa [← unregisters_cons (hab.subset (by simp)) hmissa]
      · rwa [← unregisters_cons hab.mem_right hmissb]

end

/-! ## Rounds of a loop -/

/-- A dispatch loop between two rounds. -/
structure LoopState (Target : Type) where
  client : EventClient Target
  it : Iter

/-- One round: at the end nothing happens any more; else the handler of the entry makes its calls
and the iterator is incremented. -/
def round (last : Iter) (s : LoopState Target) (calls : List (ClientCall Target)) :
    LoopState Target :=
  if s.it = last then s
  else
    let client := s.client.execs calls
    ⟨client, client.eventObjectMap.next s.it⟩

/-- No iterator is used after its entry has been erased: not in the comparison, not when it is
dereferenced, not when it is incremented, and not in the comparison after that. -/
structure SafeRound (last : Iter) (x : Taken (LoopState Target) (List (ClientCall Target))) :
    Prop where
  compared : x.pre.client.eventObjectMap.Valid x.pre.it ∧ x.pre.client.eventObjectMap.Valid last
  dereferenced : x.pre.it ≠ last → ∃ n ∈ x.pre.client.eventObjectMap.nodes, x.pre.it = some n.id
  incremented : x.pre.it ≠ last → x.post.client.eventObjectMap.Valid x.pre.it
  comparedAgain :
    x.post.client.eventObjectMap.Valid x.post.it ∧ x.post.client.eventObjectMap.Valid last

/-- The handler unregisters neither the entry it is called for nor that of the end iterator. -/
def KeepsIterators (last : Iter) (x : Taken (LoopState Target) (List (ClientCall Target))) : Prop :=
  x.pre.it ≠ last → ∀ n ∈ x.pre.client.eventObjectMap.nodes,
    some n.id = x.pre.it ∨ some n.id = last →
      ¬ Unregisters x.pre.client.eventObjectMap x.label n

/-- What holds between two rounds as long as the iterators are kept. -/
def OnTheWay (last : Iter) (s : LoopState Target) : Prop :=
  s.client.eventObjectMap.Reaches s.it last

section
variable {last : Iter} {s : LoopState Target} {calls : List (ClientCall Target)}

theorem onTheWay_round (h : OnTheWay last s)
    (hkeep : KeepsIterators last ⟨s, calls, round last s calls⟩) :
    OnTheWay last (round last s calls) := by
  unfold round
  split
  · exact h
  · next hne =>
      obtain ⟨heq, -⟩ | ⟨a, ha, hit, hlast⟩ := h
      · exact absurd heq hne
      · have hkeepa := hkeep hne a ha (Or.inl hit.symm)
        unfold OnTheWay
        rw [hit]
        apply Multimap.reaches_next (mem_execs ha hkeepa)
        intro j hj
        obtain ⟨b, hb, hab⟩ := hlast j hj
        have hkeepb := hkeep hne b hab.mem_right (Or.inr (by rw [hj, hb]))
        exact ⟨b, hb, precedes_execs hab hkeepa hkeepb⟩

theorem safeRound_iff (h : OnTheWay last s) :
    SafeRound last ⟨s, calls, round last s calls⟩ ↔
      KeepsIterators last ⟨s, calls, round last s calls⟩ := by
  constructor
  · intro hsafe hne n hn hid hun
    have hgone : ¬ (s.client.execs calls).eventObjectMap.Valid (some n.id) := by
      rw [valid_execs_iff hn]
      exact not_not.mpr hun
    have hpost : (round last s calls).client = s.client.execs calls := by
      unfold round
      rw [if_neg hne]
    apply hgone
    rw [← hpost]
    rcases hid with hid | hid
    · rw [hid]
      exact hsafe.incremented hne
    · rw [hid]
      exact hsafe.comparedAgain.2
  · intro hkeep
    refine ⟨Multimap.Reaches.valid h, fun hne => ?_, fun hne => ?_,
      (Multimap.Reaches.valid (onTheWay_round h hkeep))⟩
    · obtain ⟨heq, -⟩ | ⟨a, ha, hit, -⟩ := h
      · exact absurd heq hne
      · exact ⟨a, ha, hit⟩
    · obtain ⟨heq, -⟩ | ⟨a, ha, hit, -⟩ := h
      · exact absurd heq hne
      · have hkeepa := hkeep hne a ha (Or.inl hit.symm)
        show (round last s calls).client.eventObjectMap.Valid s.it
        unfold round
        rw [if_neg hne, hit]
        exact (valid_execs_iff ha).mpr hkeepa

end

/-! ## The two loops -/

/-- The rounds of the loop of `handle_event`, one for each list of calls: the end is the upper
bound of the title, taken before the loop. -/
def handleEventRounds (c : EventClient Target) (title : EventType)
    (handlers : List (List (ClientCall Target))) :
    List (Taken (LoopState Target) (List (ClientCall Target))) :=
  trace (round (c.eventObjectMap.equalRange title).2)
    ⟨c, (c.eventObjectMap.equalRange title).1⟩ handlers

/-- The rounds of the loop of `publish_loc_event`, whose end is `end()`. -/
def publishLocEventRounds (c : EventClient Target) (type : EventType)
    (handlers : List (List (ClientCall Target))) :
    List (Taken (LoopState Target) (List (ClientCall Target))) :=
  trace (round none) ⟨c, c.eventObjectMap.find type⟩ handlers

/-- The entry a round calls a handler for. -/
def called (last : Iter) (x : Taken (LoopState Target) (List (ClientCall Target))) :
    List (Node EventType Target) :=
  if x.pre.it = last then [] else (x.pre.client.eventObjectMap.deref x.pre.it).toList

theorem called_at_end {last : Iter} (c : EventClient Target)
    (handlers : List (List (ClientCall Target))) :
    (trace (round last) ⟨c, last⟩ handlers).flatMap (called last) = [] := by
  induction handlers with
  | nil => rfl
  | cons calls handlers ih =>
      have hround : round last ⟨c, last⟩ calls = ⟨c, last⟩ := if_pos rfl
      rw [trace, List.flatMap_cons, hround, ih]
      simp [called]

/-- With handlers that leave the map alone, the rounds from the head of a tail of the list of
entries call that tail up to the end. -/
theorem called_quiet {last : Iter} (c : EventClient Target) {l₁ l₂ : List (Node EventType Target)}
    (hsplit : c.eventObjectMap.nodes = l₁ ++ l₂) {k : Nat} (hk : l₂.length ≤ k) :
    (trace (round last) ⟨c, l₂.head?.map Node.id⟩ (List.replicate k [])).flatMap (called last) =
      l₂.takeWhile (fun n => some n.id ≠ last) := by
  induction k generalizing l₁ l₂ with
  | zero =>
      rw [List.length_eq_zero_iff.mp (Nat.le_zero.mp hk)]
      rfl
  | succ k ih =>
      cases l₂ with
      | nil =>
          -- `end()` may be reached before the end of the rounds
          have hround : round last ⟨c, none⟩ [] = ⟨c, none⟩ := by
            unfold round
            split <;> rfl
          have hcalled : called last ⟨⟨c, none⟩, [], ⟨c, none⟩⟩ = [] := by
            simp [called, Multimap.deref]
          have hrest := ih hsplit (Nat.zero_le k)
          simp only [List.replicate_succ, trace, List.flatMap_cons, List.head?_nil,
            Option.map_none, hround, hcalled] at hrest ⊢
          exact hrest
      | cons a l₃ =>
          by_cases hlast : some a.id = last
          · subst hlast
            rw [List.takeWhile_cons, if_neg (by simp)]
            exact called_at_end c _
          · have hsplit' : c.eventObjectMap.nodes = (l₁ ++ [a]) ++ l₃ := by simp [hsplit]
            have hround : round last ⟨c, some a.id⟩ [] = ⟨c, l₃.head?.map Node.id⟩ := by
              unfold round
              rw [if_neg hlast, ← Multimap.next_of_split hsplit]
              rfl
            have hcalled : called last ⟨⟨c, some a.id⟩, [], ⟨c, l₃.head?.map Node.id⟩⟩ = [a] := by
              have hmem : a ∈ c.eventObjectMap.nodes := by simp [hsplit]
              simp [called, hlast, Multimap.deref_of_mem hmem]
            have hrest := ih hsplit' (Nat.le_of_succ_le_succ hk)
            simp only [List.replicate_succ, trace, List.flatMap_cons, List.head?_cons,
              Option.map_some, hround, hcalled, hrest]
            rw [List.takeWhile_cons, if_pos (by simpa using hlast), List.singleton_append]

theorem called_range (c : EventClient Target) {it last : Iter}
    (hit : c.eventObjectMap.Valid it) {k : Nat} (hk : c.eventObjectMap.nodes.length ≤ k) :
    (trace (round last) ⟨c, it⟩ (List.replicate k [])).flatMap (called last) =
      c.eventObjectMap.range it last := by
  obtain ⟨l₁, l₂, hsplit, hhead⟩ :
      ∃ l₁ l₂, c.eventObjectMap.nodes = l₁ ++ l₂ ∧ it = l₂.head?.map Node.id := by
    cases it with
    | none => exact ⟨c.eventObjectMap.nodes, [], by simp, rfl⟩
    | some i =>
        obtain ⟨a, ha, rfl⟩ := hit i rfl
        obtain ⟨l₁, l₂, hsplit⟩ := List.append_of_mem ha
        exact ⟨l₁, a :: l₂, hsplit, rfl⟩
  have hlen : l₂.length ≤ k := by
    rw [hsplit, List.length_append] at hk
    omega
  rw [hhead, called_quiet c hsplit hlen, Multimap.range, Multimap.suffix_head _ hsplit]

theorem trace_safeRound_iff {last : Iter} {s : LoopState Target} (h : OnTheWay last s)
    (handlers : List (List (ClientCall Target))) :
    (∀ x ∈ trace (round last) s handlers, SafeRound last x) ↔
      ∀ x ∈ trace (round last) s handlers, KeepsIterators last x := by
  apply Run.forall_iff _ _ (run_trace (round last) s handlers) h
  · intro s calls t ht hs
    subst ht
    exact safeRound_iff hs
  · intro s calls t ht hs hkeep
    subst ht
    exact onTheWay_round hs hkeep

/-- With handlers that leave the map alone, the two loops make the calls of `dispatchTitle` and
`publishLocEvent`. -/
theorem dispatch_called_quiet (c : EventClient Target) (type : EventType) (content : EventContent)
    {k : Nat} (hk : c.eventObjectMap.nodes.length ≤ k) :
    dispatch type content ((handleEventRounds c type (List.replicate k [])).flatMap
        (called (c.eventObjectMap.equalRange type).2)) = c.dispatchTitle type content ∧
      dispatch type content ((publishLocEventRounds c type (List.replicate k [])).flatMap
        (called none)) = c.publishLocEvent type content := by
  constructor
  · have hvalid := (Multimap.reaches_equalRange c.eventObjectMap type).valid.1
    rw [handleEventRounds, called_range c hvalid hk]
    rfl
  · have hvalid := (Multimap.reaches_find c.eventObjectMap type).valid.1
    have hall : c.eventObjectMap.range (c.eventObjectMap.find type) none =
        c.eventObjectMap.suffix (c.eventObjectMap.find type) := by
      simp [Multimap.range]
    rw [publishLocEventRounds, called_range c hvalid hk, hall]
    rfl

/-- **When dispatch is safe under re-entrant changes**: for every observer map, every type, and every
behaviour of the handlers, no round of either loop uses an iterator whose entry has been erased,
exactly if no handler unregisters the entry it is called for nor, in `handle_event`, the entry the
end iterator points to. -/
theorem dispatch_rounds_safe_iff (c : EventClient Target) (type : EventType)
    (handlers : List (List (ClientCall Target))) :
    ((∀ x ∈ handleEventRounds c type handlers,
        SafeRound (c.eventObjectMap.equalRange type).2 x) ↔
      ∀ x ∈ handleEventRounds c type handlers,
        KeepsIterators (c.eventObjectMap.equalRange type).2 x) ∧
    ((∀ x ∈ publishLocEventRounds c type handlers, SafeRound none x) ↔
      ∀ x ∈ publishLocEventRounds c type handlers, KeepsIterators none x) := by
  constructor
  · have hstart : OnTheWay (c.eventObjectMap.equalRange type).2
        ⟨c, (c.eventObjectMap.equalRange type).1⟩ := Multimap.reaches_equalRange _ type
    exact trace_safeRound_iff hstart handlers
  · have hstart : OnTheWay none ⟨c, c.eventObjectMap.find type⟩ := Multimap.reaches_find _ type
    exact trace_safeRound_iff hstart handlers

/-- An observer that unregisters itself breaks both loops; one that unregisters the first entry of
the next type breaks the loop of `handle_event`. -/
theorem dispatch_rounds_unsafe :
    (¬ ∀ x ∈ handleEventRounds (run [⟨.register [1] 0, none⟩]) [1] [[⟨.unregister [1] 0, none⟩]],
      SafeRound ((run [⟨.register [1] 0, none⟩]).eventObjectMap.equalRange [1]).2 x) ∧
    (¬ ∀ x ∈ publishLocEventRounds (run [⟨.register [1] 0, none⟩]) [1]
        [[⟨.unregister [1] 0, none⟩]], SafeRound none x) ∧
    ¬ ∀ x ∈ handleEventRounds (run [⟨.register [1] 0, none⟩, ⟨.register [2] 1, none⟩]) [1]
        [[⟨.unregister [2] 1, none⟩]],
      SafeRound ((run [⟨.register [1] 0, none⟩,
        ⟨.register [2] 1, none⟩]).eventObjectMap.equalRange [1]).2 x := by
  refine ⟨fun h => ?_, fun h => ?_, fun h => ?_⟩
  · have hvalid := (h _ List.mem_cons_self).incremented (by decide)
    revert hvalid
    decide
  · have hvalid := (h _ List.mem_cons_self).incremented (by decide)
    revert hvalid
    decide
  · have hvalid := (h _ List.mem_cons_self).comparedAgain.2
    revert hvalid
    decide

end EventClient
end EventBus
