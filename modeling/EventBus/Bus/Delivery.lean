import EventBus.Bus.Tables

/-!
# Nothing is lost once a subscription has got through

`Bus/Safety` says that no client dispatches more than was published. Here is the other half, for
runs in which no pipe loses a message and every `zmq_setsockopt` goes through. Fix a publisher `p`, a
client `c` and a type `t`. From the moment the subscription of `c` has reached `p`, and as long as
`c` has an observer `o` of `t`, the bus keeps account of the events of type `t` from `p`: what `o`
gets and what is still in the pipes is what was in the pipes before and what has been published.
When the pipes are empty, `o` has got everything.
-/

namespace EventBus

open Framing MZmq Transition

theorem prefixMatch_self {topic : EventType → Bool} {title : EventType} (h : topic title = true) :
    prefixMatch topic title = true := by
  apply List.any_eq_true.mpr
  exact ⟨title, (List.mem_inits title title).mpr (List.prefix_refl title), h⟩

/-- The contents of the events of one type. -/
def under (t : EventType) (events : List (EventType × EventContent)) : List EventContent :=
  (events.filter fun e => e.1 = t).map Prod.snd

theorem under_append (t : EventType) (es es' : List (EventType × EventContent)) :
    under t (es ++ es') = under t es ++ under t es' := by
  unfold under
  rw [List.filter_append, List.map_append]

theorem under_singleton (t : EventType) (e : EventType × EventContent) :
    under t [e] = if e.1 = t then [e.2] else [] := by
  by_cases he : e.1 = t <;> simp [under, he]

theorem under_eq_nil {t : EventType} {es : List (EventType × EventContent)}
    (h : ∀ e ∈ es, e.1 ≠ t) : under t es = [] := by
  unfold under
  rw [List.map_eq_nil_iff, List.filter_eq_nil_iff]
  simpa using h

namespace Registry
variable {Target : Type} [DecidableEq Target]

/-- One observer of the type is owed one call. -/
theorem owed_filter {reg : List (EventType × Target)} (hreg : reg.Nodup) {t : EventType}
    {o : Target} (ho : (t, o) ∈ reg) (title : EventType) (content : EventContent) :
    (owed reg title content).filter (fun call => call.target = o ∧ call.type = t) =
      (under t [(title, content)]).map (Call.mk o t) := by
  rw [under_singleton, owed, List.filter_map]
  by_cases ht : title = t
  · subst ht
    have hone : (observers reg title).filter (fun x => x = o) = [o] := by
      rw [List.filter_eq, (observers_nodup hreg title).count, if_pos (mem_observers.mpr ho)]
      rfl
    simp only [Function.comp_def, and_true, hone, if_true, List.map_cons, List.map_nil]
  · simp [Function.comp_def, ht]

end Registry

namespace Bus
variable {ι Target : Type} [DecidableEq ι]

/-! ## What is in the pipes, what goes in and what comes out -/

/-- The contents of the events of type `t` from `p` in the pipes towards `c`, the oldest first. -/
def inFlight (p c : ι) (t : EventType) (s : Bus ι Target) : List EventContent :=
  under t (eventsFrom p (s.subPipe c) ++ (s.pubPipe p).map eventOf)

/-- The content a step publishes at `p` under the type. -/
def publishedUnder (p : ι) (t : EventType) (x : Taken (Bus ι Target) (Act ι Target)) :
    List EventContent :=
  under t (published p x).toList

/-- The calls a step makes to the observer `o` of `c` for events of type `t` from `p`. -/
def given [DecidableEq Target] (p c : ι) (t : EventType) (o : Target)
    (x : Taken (Bus ι Target) (Act ι Target)) : List (Call Target) :=
  (delivered c x).toList.flatMap fun d =>
    if d.src = p then d.dispatch.calls.filter fun call => call.target = o ∧ call.type = t else []

theorem inFlight_eq (p c : ι) (t : EventType) (s : Bus ι Target) :
    inFlight p c t s =
      under t (eventsFrom p (s.subPipe c)) ++ under t ((s.pubPipe p).map eventOf) :=
  under_append ..

theorem inFlight_same {s u : Bus ι Target} {p c : ι} (t : EventType)
    (hsub : u.subPipe c = s.subPipe c) (hpub : u.pubPipe p = s.pubPipe p) :
    inFlight p c t u = inFlight p c t s := by
  unfold inFlight
  rw [hsub, hpub]

/-! ## One step -/

section
variable {s u : Bus ι Target} {p c : ι} {t : EventType}

theorem inFlight_publish (hwf : WellFormed s) (ht : t ∈ s.pubTopics p) (q : ι) (type : EventType)
    (content : EventContent) :
    inFlight p c t (s.publish q type content true) =
      inFlight p c t s ++ under t (if q = p then some (type, content) else none).toList := by
  by_cases hq : q = p
  · subst hq
    obtain ⟨-, hnew⟩ := publish_eq hwf q type content
    have hpipe : (s.publish q type content true).pubPipe q = s.pubPipe q ++
        if prefixMatch (fun t => t ∈ s.pubTopics q) type then [⟨type, [content]⟩] else [] := by
      show Function.update s.pubPipe q _ q = _
      rw [Function.update_self, hnew, List.filter_cons]
      simp
    have hentered : under t ((if prefixMatch (fun t => t ∈ s.pubTopics q) type
        then [(⟨type, [content]⟩ : Message Bytes)] else []).map eventOf) =
          under t [(type, content)] := by
      split
      · rfl
      · next hno =>
          -- only what is not under `t` is filtered out
          have hne : type ≠ t := by
            rintro rfl
            exact hno (prefixMatch_self (decide_eq_true ht))
          rw [under_singleton, if_neg hne]
          rfl
    rw [inFlight_eq, inFlight_eq, hpipe, List.map_append, under_append, hentered, if_pos rfl,
      Option.toList_some, List.append_assoc]
    rfl
  · have hpub : (s.publish q type content true).pubPipe p = s.pubPipe p :=
      Function.update_of_ne (Ne.symm hq) _ _
    have hsub : (s.publish q type content true).subPipe c = s.subPipe c := rfl
    rw [inFlight_same t hsub hpub, if_neg hq]
    exact (List.append_nil _).symm

theorem inFlight_proxyEvent (hc : c ∈ s.xpubTable t) {q : ι} {kept : ι → Bool}
    (hkept : ∀ c, kept c = true) (hstep : s.proxyEvent q kept = some u) :
    inFlight p c t u = inFlight p c t s := by
  obtain ⟨m, ms, hpipe, rfl⟩ := proxyEvent_cases hstep
  by_cases hq : q = p
  · subst hq
    have hentered : under t (eventsFrom q (if prefixMatch (fun t => c ∈ s.xpubTable t) m.first &&
        kept c then [⟨q, m⟩] else [])) = under t [eventOf m] := by
      split
      · rw [eventsFrom_cons, if_pos rfl]
        rfl
      · next hno =>
          have hne : (eventOf m).1 ≠ t := by
            rintro rfl
            apply hno
            have hmatch : prefixMatch (fun t => c ∈ s.xpubTable t) m.first = true :=
              prefixMatch_self (decide_eq_true hc)
            rw [hmatch, hkept c]
            rfl
          rw [under_singleton, if_neg hne]
          rfl
    rw [inFlight_eq, inFlight_eq, hpipe]
    show under t (eventsFrom q (s.subPipe c ++ _)) ++
      under t ((Function.update s.pubPipe q ms q).map eventOf) = _
    rw [Function.update_self, eventsFrom_append, under_append, hentered, List.append_assoc,
      ← under_append]
    rfl
  · have hother : eventsFrom p (if prefixMatch (fun t => c ∈ s.xpubTable t) m.first && kept c
        then [⟨q, m⟩] else []) = [] := by
      split <;> simp [eventsFrom, hq]
    have hpub : Function.update s.pubPipe q ms p = s.pubPipe p :=
      Function.update_of_ne (Ne.symm hq) _ _
    unfold inFlight
    simp only [hpub, eventsFrom_append, hother, List.append_nil]

/-- The messages the SUB socket throws away are not under a type it has a reference to. -/
theorem under_waiting (hrefs : 0 < (s.client c).subSocket.refs t) :
    under t (eventsFrom p (s.subPipe c)) = under t (eventsFrom p (s.waiting c)) := by
  have hsplit : s.subPipe c = (s.subPipe c).takeWhile (fun k =>
      !prefixMatch (fun t => 0 < (s.client c).subSocket.refs t) k.message.first) ++ s.waiting c :=
    List.takeWhile_append_dropWhile.symm
  have hskipped : under t (eventsFrom p ((s.subPipe c).takeWhile fun k =>
      !prefixMatch (fun t => 0 < (s.client c).subSocket.refs t) k.message.first)) = [] := by
    apply under_eq_nil
    intro e he
    obtain ⟨k, hk, rfl⟩ := List.mem_map.mp he
    have hno := List.mem_takeWhile_imp (List.mem_filter.mp hk).1
    rintro rfl
    have hmatch : prefixMatch (fun t => 0 < (s.client c).subSocket.refs t) k.message.first = true :=
      prefixMatch_self (decide_eq_true hrefs)
    rw [hmatch] at hno
    cases hno
  rw [hsplit, eventsFrom_append, under_append, hskipped, List.nil_append]

variable [DecidableEq Target] {o : Target}

/-- What the observer gets in a call of `handle_event` is what leaves the pipes. -/
theorem given_handle (hwf : WellFormed s) (h : Tables s)
    (ho : (t, o) ∈ (s.client c).eventObjectMap.entries) (hstep : Step s (.handle c) u) :
    given p c t o ⟨s, .handle c, u⟩ ++ (inFlight p c t u).map (Call.mk o t) =
      (inFlight p c t s).map (Call.mk o t) := by
  have hu : (s.handle c).1 = u := Option.some.inj hstep
  obtain ⟨reg, hreg⟩ := h.inStep c
  have hdelivered : delivered c ⟨s, .handle c, u⟩ = (s.handle c).2 := if_pos rfl
  unfold given
  rw [hdelivered, inFlight_eq p c t s, under_waiting (hreg.refs_pos ho), ← hu]
  cases hwaiting : s.waiting c with
  | nil =>
      rw [handle_of_not_waiting hwaiting, inFlight_eq]
      show (under t (eventsFrom p (Function.update s.subPipe c [] c)) ++ _).map _ = _
      rw [Function.update_self]
  | cons k ks =>
      have hmem : (t, o) ∈ reg := hreg.represents.mem_entries.mp ho
      have hcalls : (if k.src = p then ((s.client c).dispatchTitle (eventOf k.message).1
            (eventOf k.message).2).filter (fun call => call.target = o ∧ call.type = t) else []) =
          (under t (if k.src = p then [eventOf k.message] else [])).map (Call.mk o t) := by
        split
        · rw [EventClient.dispatchTitle_eq hreg.represents,
            Registry.owed_filter hreg.represents.nodup hmem]
        · rfl
      rw [handle_of_waiting hwf hwaiting, inFlight_eq, Option.toList_some, List.flatMap_singleton,
        hcalls, ← List.map_append, eventsFrom_cons, under_append, List.append_assoc]
      show (_ ++ (under t (eventsFrom p (Function.update s.subPipe c ks c)) ++ _)).map _ = _
      rw [Function.update_self]

/-- **One step keeps account**: what `o` gets and what is left in the pipes is what was in the pipes
and what is published. -/
theorem given_next {a : Act ι Target} (hwf : WellFormed s) (h : Tables s) (hr : Reached s p c t)
    (ho : (t, o) ∈ (s.client c).eventObjectMap.entries) (hstep : Step s a u)
    (hlossless : Lossless a) :
    given p c t o ⟨s, a, u⟩ ++ (inFlight p c t u).map (Call.mk o t) =
      (inFlight p c t s).map (Call.mk o t) ++
        (publishedUnder p t ⟨s, a, u⟩).map (Call.mk o t) := by
  obtain ⟨hxpub, hpub⟩ := hr.tables h
  have hidle : given p c t o ⟨s, a, u⟩ = [] → publishedUnder p t ⟨s, a, u⟩ = [] →
      inFlight p c t u = inFlight p c t s →
        given p c t o ⟨s, a, u⟩ ++ (inFlight p c t u).map (Call.mk o t) =
          (inFlight p c t s).map (Call.mk o t) ++
            (publishedUnder p t ⟨s, a, u⟩).map (Call.mk o t) := by
    intro hgiven hpublished hsame
    rw [hgiven, hpublished, hsame]
    simp
  cases a with
  | publish q type content kept =>
      cases hlossless
      cases hstep
      have hgiven : given p c t o ⟨s, .publish q type content true,
          s.publish q type content true⟩ = [] := rfl
      rw [hgiven, List.nil_append, inFlight_publish hwf hpub, List.map_append]
      rfl
  | proxyEvent q kept => exact hidle rfl rfl (inFlight_proxyEvent hxpub hlossless hstep)
  | handle c' =>
      by_cases hc : c' = c
      · subst hc
        rw [given_handle hwf h ho hstep]
        exact (List.append_nil _).symm
      · have hgiven : given p c t o ⟨s, .handle c', u⟩ = [] := by simp [given, delivered, hc]
        obtain ⟨revents, ks, -, hu⟩ := handle_fst hwf c'
        cases (Option.some.inj hstep).symm.trans hu
        exact hidle hgiven rfl (inFlight_same t (Function.update_of_ne (Ne.symm hc) _ _) rfl)
  | call c' call =>
      cases hstep
      exact hidle rfl rfl rfl
  | proxySub =>
      have hsame := proxySub_same hstep
      exact hidle rfl rfl (inFlight_same t (congrFun hsame.subPipe c) (congrFun hsame.pubPipe p))
  | xpubRead c' =>
      have hsame := xpubRead_same hstep
      exact hidle rfl rfl (inFlight_same t (congrFun hsame.subPipe c) (congrFun hsame.pubPipe p))
  | pubRead q =>
      have hsame := pubRead_same hstep
      exact hidle rfl rfl (inFlight_same t (congrFun hsame.subPipe c) (congrFun hsame.pubPipe p))

end

/-! ## Runs -/

section
variable [DecidableEq Target] {s u : Bus ι Target} {tr : List (Taken (Bus ι Target) (Act ι Target))}
  {p c : ι} {t : EventType} {o : Target}

/-- **The bus keeps account** of what an observer is to get, as long as it stays registered. -/
theorem given_run (h : Run Step s tr u) (hwf : WellFormed s) (htab : Tables s)
    (hr : Reached s p c t) (hsteps : ∀ x ∈ tr, Short x.label ∧ Lossless x.label)
    (hbefore : (t, o) ∈ (s.client c).eventObjectMap.entries)
    (hstay : ∀ x ∈ tr, (t, o) ∈ (x.post.client c).eventObjectMap.entries) :
    tr.flatMap (given p c t o) ++ (inFlight p c t u).map (Call.mk o t) =
      (inFlight p c t s ++ tr.flatMap (publishedUnder p t)).map (Call.mk o t) := by
  have hreached := (reached_run h hwf htab hr hsteps fun x hx => ⟨o, hstay x hx⟩).1
  have hpre : ∀ x ∈ tr, (t, o) ∈ (x.pre.client c).eventObjectMap.entries := by
    have hregistered := (h.restrict hstay).invariant
      (I := fun s => (t, o) ∈ (s.client c).eventObjectMap.entries)
      (fun _ _ _ hstep _ => hstep.2) hbefore
    exact fun x hx => (hregistered.1 x hx).1
  rw [List.map_append, List.map_flatMap]
  apply h.conserve
  intro x hx
  obtain ⟨hwf, htab, hr⟩ := hreached x hx
  exact given_next hwf htab hr (hpre x hx) (h.step_of_mem hx) (hsteps x hx).2

/-- **No loss**: let the subscription of `c` for `t` have reached `p` at some point of a run that
loses nothing, let `c` have an observer of `t` ever since, and let `p` then publish an event of type
`t`. If `o` stays registered at `c` under `t` from there on and the pipes between `p` and `c` are
empty in the end, then `o` has got the events that were still in the pipes at the time of the
publish, the event, and all that `p` has published under `t` after it, each in one call. -/
theorem given_exactly_once {tr₀ tr₁ tr₂ : List (Taken (Bus ι Target) (Act ι Target))}
    {x : Taken (Bus ι Target) (Act ι Target)} {content : EventContent}
    (h₀ : Run Step initial tr₀ s) (h : Run Step s (tr₁ ++ x :: tr₂) u)
    (hsteps : ∀ y ∈ tr₀ ++ (tr₁ ++ x :: tr₂), Short y.label ∧ Lossless y.label)
    (hreached : Reached s p c t) (hobs : ∀ y ∈ tr₁, Observes y.post c t)
    (hx : x.label = .publish p t content true)
    (hstay : ∀ y ∈ x :: tr₂, (t, o) ∈ (y.post.client c).eventObjectMap.entries)
    (hpub : u.pubPipe p = []) (hsub : u.subPipe c = []) :
    (x :: tr₂).flatMap (given p c t o) =
      (inFlight p c t x.pre ++ content :: tr₂.flatMap (publishedUnder p t)).map (Call.mk o t) := by
  obtain ⟨hsteps₀, hsteps'⟩ := List.forall_mem_append.mp hsteps
  obtain ⟨hsteps₁, hsteps₂⟩ := List.forall_mem_append.mp hsteps'
  obtain ⟨hbefore, hstep, hafter⟩ := h.split
  obtain ⟨hwf, htab⟩ := tables_run h₀ wellFormed_initial tables_initial hsteps₀
  obtain ⟨hwf₁, htab₁⟩ := tables_run hbefore hwf htab hsteps₁
  have hreached₁ := (reached_run hbefore hwf htab hreached hsteps₁ hobs).2
  -- a publish does not change who observes what
  have hmap : (x.post.client c).eventObjectMap = (x.pre.client c).eventObjectMap := by
    apply eventObjectMap_next hwf₁ hstep
    simp [operation, hx]
  have hpre : (t, o) ∈ (x.pre.client c).eventObjectMap.entries :=
    hmap ▸ hstay x List.mem_cons_self
  have hrun : Run Step x.pre (x :: tr₂) u := .cons hstep hafter
  have hgiven := given_run hrun hwf₁ htab₁ hreached₁ hsteps₂ hpre hstay
  have hempty : inFlight p c t u = [] := by
    unfold inFlight
    rw [hpub, hsub]
    rfl
  have hcontent : publishedUnder p t x = [content] := by
    simp [publishedUnder, published, hx, under_singleton]
  rw [hempty, List.map_nil, List.append_nil] at hgiven
  rw [hgiven, List.flatMap_cons, hcontent, List.singleton_append]

end

/-- A run in which another client subscribes and unsubscribes after the subscription has got through
and before the event is published. -/
theorem given_exactly_once_two_clients :
    ∃ (s u : Bus Bool Nat) (tr₀ tr₁ tr₂ : List (Taken (Bus Bool Nat) (Act Bool Nat)))
      (x : Taken (Bus Bool Nat) (Act Bool Nat)),
      Run Step initial tr₀ s ∧ Run Step s (tr₁ ++ x :: tr₂) u ∧ Reached s true false [1] ∧
      x.label = .publish true [1] [2] true ∧
      (x :: tr₂).flatMap (given true false [1] 7) =
        (inFlight true false [1] x.pre ++ [2] :: tr₂.flatMap (publishedUnder true [1])).map
          (Call.mk 7 [1]) := by
  obtain ⟨first, hfirst⟩ : ∃ first : List (Act Bool Nat), first =
      [.call false ⟨.register [1] 7, none⟩, .xpubRead false, .proxySub, .pubRead true] := ⟨_, rfl⟩
  obtain ⟨others, hothers⟩ : ∃ others : List (Act Bool Nat), others =
      [.call true ⟨.register [1] 8, none⟩, .xpubRead true, .call true ⟨.unregister [1] 8, none⟩,
        .xpubRead true] := ⟨_, rfl⟩
  obtain ⟨last, hlast⟩ : ∃ last : List (Act Bool Nat), last =
      [.call false ⟨.register [1, 1] 7, none⟩, .proxyEvent true fun _ => true, .handle false] :=
    ⟨_, rfl⟩
  have hcheck : ((attempt next (initial : Bus Bool Nat) first).bind fun r₀ =>
      (attempt next r₀.2 (others ++ .publish true [1] [2] true :: last)).map fun r =>
        decide (([1], 7) ∈ (r₀.2.client false).eventObjectMap.entries ∧
          (∀ msg ∈ (r₀.2.client false).subSocket.upstream, msg.topic ≠ [1]) ∧
          (∀ msg ∈ r₀.2.xpubPending, msg.topic ≠ [1]) ∧ (∀ msg ∈ r₀.2.pubUp true, msg.topic ≠ [1]) ∧
          (∀ y ∈ r.1, ([1], 7) ∈ (y.post.client false).eventObjectMap.entries) ∧
          r.2.pubPipe true = [] ∧ (r.2.subPipe false).isEmpty)) = some true := by
    rw [hfirst, hothers, hlast]
    rfl
  have hlabels : ∀ a ∈ first ++ (others ++ .publish true [1] [2] true :: last),
      Short a ∧ Lossless a := by
    rw [hfirst, hothers, hlast]
    simp [Short, Lossless]
  obtain ⟨⟨tr₀, s⟩, hattempt₀, hcheck⟩ := Option.bind_eq_some_iff.mp hcheck
  obtain ⟨⟨tr, u⟩, hattempt, hcheck⟩ := Option.map_eq_some_iff.mp hcheck
  obtain ⟨ho, hup, hpending, hpubUp, hstay, hpub, hsub⟩ := of_decide_eq_true hcheck
  obtain ⟨h₀, htr₀⟩ := run_attempt hattempt₀
  obtain ⟨h, htr⟩ := run_attempt hattempt
  obtain ⟨tr₁, tr', rfl, htr₁, htr'⟩ := List.map_eq_append_iff.mp htr
  obtain ⟨x, tr₂, rfl, hx, htr₂⟩ := List.map_eq_cons_iff.mp htr'
  have hsteps : ∀ y ∈ tr₀ ++ (tr₁ ++ x :: tr₂), Short y.label ∧ Lossless y.label := by
    intro y hy
    apply hlabels
    rw [← htr₀, ← htr, ← List.map_append]
    exact List.mem_map_of_mem hy
  obtain ⟨hstay₁, hstay₂⟩ := List.forall_mem_append.mp hstay
  have hreached : Reached s true false [1] := ⟨⟨7, ho⟩, hup, hpending, hpubUp⟩
  exact ⟨s, u, tr₀, tr₁, tr₂, x, h₀, h, hreached, hx,
    given_exactly_once h₀ h hsteps hreached (fun y hy => ⟨7, hstay₁ y hy⟩) hx hstay₂ hpub
      (List.isEmpty_iff.mp hsub)⟩

end Bus
end EventBus
