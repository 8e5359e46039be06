import EventBus.Center.Basic

/-!
# When the center holds live clients of live threads only

The center is right as long as no client is destroyed before the center itself, and as long as an id
under which a client was constructed neither starts another thread nor constructs another client.
The first event that breaks this rule shows at once: a destroyed client stays in the pool, a new
thread finds the client of an earlier one, and a second client is never entered, so that nobody
deletes it.
-/

namespace EventBus

open Transition

namespace Process

/-! ## The property and its condition -/

/-- The center knows only clients that exist, by the threads that built them. -/
structure Sound (s : Process) : Prop where
  /-- A running thread finds no client, or the one client it built in its current life, which has
  not been destroyed. -/
  own : ∀ id life client, s.running id = some life → s.attach id = some client →
    client ∈ s.remaining ∧ s.builders[client]? = some life ∧
      ∀ client', s.builders[client']? = some life → client' = client
  /-- `~ClientCenter` deletes every remaining client once, and no other. -/
  deletes : s.center.deletes.Nodup ∧ ∀ client, client ∈ s.center.deletes ↔ client ∈ s.remaining

/-- No client is destroyed, and an id that has constructed a client neither constructs another one
nor is started again. -/
def Tame (events : List Event) : Prop :=
  (∀ e ∈ events, ∀ client, e ≠ .destroy client) ∧
    events.Pairwise fun e e' => ∀ id, e = .construct id → e' ≠ .construct id ∧ e' ≠ .start id

/-- One event that keeps to the rule, by what the center has under its id. -/
def Allowed (s : Process) (e : Event) : Prop :=
  (∀ client, e ≠ .destroy client) ∧
    ∀ id, s.center.findClient id ≠ none → e ≠ .construct id ∧ e ≠ .start id

/-! ## What holds as long as the rule is kept -/

structure Inv (s : Process) : Prop where
  own : ∀ id life client, s.running id = some life →
    (s.center.findClient id = some client ↔ s.builders[client]? = some life)
  deletes : s.center.deletes.Nodup ∧ ∀ client, client ∈ s.center.deletes ↔ client ∈ s.remaining
  nodup : s.remaining.Nodup
  built : ∀ client ∈ s.remaining, client < s.builders.length
  past : ∀ life ∈ s.builders, life < s.lives
  begun : ∀ id life, s.running id = some life → life < s.lives
  apart : ∀ id id' life, s.running id = some life → s.running id' = some life → id = id'

theorem Inv.sound {s : Process} (h : Inv s) : Sound s where
  own := by
    intro id life client hrun hfind
    refine ⟨?_, (h.own id life client hrun).mp hfind, ?_⟩
    · exact (h.deletes.2 client).mp (ClientCenter.mem_deletes_of_findClient hfind)
    · intro client' hbuilt
      have hfind' := (h.own id life client' hrun).mpr hbuilt
      exact Option.some.inj (hfind'.symm.trans hfind)
  deletes := h.deletes

theorem inv_initial : Inv initial where
  own := by
    intro id life client hrun
    cases hrun
  deletes := ⟨.nil, by intro client; exact iff_of_false (by intro h; cases h) (by intro h; cases h)⟩
  nodup := .nil
  built := by
    intro client h
    cases h
  past := by
    intro life h
    cases h
  begun := by
    intro id life h
    cases h
  apart := by
    intro id id' life h
    cases h

/-! ## One event -/

section
variable {s t : Process}

theorem step_start {id : ThreadId} : Step s (.start id) t ↔ s.running id = none ∧
    t = { s with
      running := Function.update s.running id (some s.lives), lives := s.lives + 1 } := by
  unfold Step next
  by_cases hfree : s.running id = none <;> simp [hfree, eq_comm]

theorem step_exit {id : ThreadId} : Step s (.exit id) t ↔ s.running id ≠ none ∧
    t = { s with running := Function.update s.running id none } := by
  unfold Step next
  by_cases hfree : s.running id = none <;> simp [hfree, eq_comm]

theorem step_construct {id : ThreadId} : Step s (.construct id) t ↔
    ∃ life, s.running id = some life ∧ t = { s with
      center := (s.center.registerClient id s.builders.length).2
      builders := s.builders ++ [life]
      remaining := s.remaining ++ [s.builders.length] } := by
  unfold Step next
  cases hrun : s.running id <;> simp [hrun, eq_comm]

theorem step_destroy {client : ClientRef} : Step s (.destroy client) t ↔ client ∈ s.remaining ∧
    t = { s with remaining := s.remaining.erase client } := by
  unfold Step next
  by_cases hmem : client ∈ s.remaining <;> simp [hmem, eq_comm]

/-- What runs under an id after one id has changed. -/
theorem running_update {running : ThreadId → Option Nat} {id id' : ThreadId} {new : Option Nat}
    {life : Nat} (h : Function.update running id new id' = some life) :
    (id' = id ∧ new = some life) ∨ (id' ≠ id ∧ running id' = some life) := by
  by_cases hid : id' = id
  · subst hid
    rw [Function.update_self] at h
    exact Or.inl ⟨rfl, h⟩
  · rw [Function.update_of_ne hid] at h
    exact Or.inr ⟨hid, h⟩

theorem inv_start {id : ThreadId} (h : Inv s) (hnew : s.center.findClient id = none) :
    Inv { s with
      running := Function.update s.running id (some s.lives), lives := s.lives + 1 } := by
  have hrunning : ∀ id' life, Function.update s.running id (some s.lives) id' = some life →
      (id' = id ∧ life = s.lives) ∨ (id' ≠ id ∧ s.running id' = some life) := by
    intro id' life hrun
    obtain ⟨hid, hlife⟩ | hold := running_update hrun
    · exact Or.inl ⟨hid, (Option.some.inj hlife).symm⟩
    · exact Or.inr hold
  refine ⟨?_, h.deletes, h.nodup, h.built, ?_, ?_, ?_⟩
  · intro id' life client hrun
    show s.center.findClient id' = some client ↔ s.builders[client]? = some life
    obtain ⟨rfl, rfl⟩ | ⟨-, hrun⟩ := hrunning id' life hrun
    · -- the new life has built nothing yet
      refine iff_of_false (by simp [hnew]) ?_
      intro hbuilt
      exact absurd (h.past _ (List.mem_of_getElem? hbuilt)) (Nat.lt_irrefl _)
    · exact h.own id' life client hrun
  · intro life hlife
    exact Nat.lt_succ_of_lt (h.past life hlife)
  · intro id' life hrun
    obtain ⟨-, rfl⟩ | ⟨-, hrun⟩ := hrunning id' life hrun
    · exact Nat.lt_succ_self _
    · exact Nat.lt_succ_of_lt (h.begun id' life hrun)
  · intro id₁ id₂ life h₁ h₂
    rcases hrunning id₁ life h₁ with ⟨hid₁, hlife⟩ | ⟨-, hold₁⟩
    · rcases hrunning id₂ life h₂ with ⟨hid₂, -⟩ | ⟨-, hold₂⟩
      · exact hid₁.trans hid₂.symm
      · exact absurd (hlife ▸ h.begun id₂ life hold₂) (Nat.lt_irrefl _)
    · rcases hrunning id₂ life h₂ with ⟨-, hlife⟩ | ⟨-, hold₂⟩
      · exact absurd (hlife ▸ h.begun id₁ life hold₁) (Nat.lt_irrefl _)
      · exact h.apart id₁ id₂ life hold₁ hold₂

theorem inv_exit {id : ThreadId} (h : Inv s) :
    Inv { s with running := Function.update s.running id none } := by
  have hrunning : ∀ id' life, Function.update s.running id none id' = some life →
      s.running id' = some life := by
    intro id' life hrun
    obtain ⟨-, hnone⟩ | ⟨-, hold⟩ := running_update hrun
    · cases hnone
    · exact hold
  exact
    { own := fun id' life client hrun => h.own id' life client (hrunning id' life hrun)
      deletes := h.deletes
      nodup := h.nodup
      built := h.built
      past := h.past
      begun := fun id' life hrun => h.begun id' life (hrunning id' life hrun)
      apart := fun id₁ id₂ life h₁ h₂ =>
        h.apart id₁ id₂ life (hrunning id₁ life h₁) (hrunning id₂ life h₂) }

/-- The lives of the clients, after one more was built. -/
theorem getElem?_builders_concat {builders : List Nat} {life life' : Nat} {client : ClientRef} :
    (builders ++ [life])[client]? = some life' ↔
      builders[client]? = some life' ∨ (client = builders.length ∧ life = life') := by
  rcases Nat.lt_trichotomy client builders.length with hlt | heq | hgt
  · rw [List.getElem?_append_left hlt]
    exact (or_iff_left fun h => absurd h.1 (Nat.ne_of_lt hlt)).symm
  · subst heq
    simp
  · have hlen : (builders ++ [life]).length ≤ client := by
      rw [List.length_append, List.length_singleton]
      exact hgt
    rw [List.getElem?_eq_none hlen, List.getElem?_eq_none hgt.le]
    simp [Nat.ne_of_gt hgt]

/-- The next client is none of those there are. -/
theorem Inv.next_not_remaining (h : Inv s) : s.builders.length ∉ s.remaining :=
  fun hmem => absurd (h.built _ hmem) (Nat.lt_irrefl _)

theorem inv_construct {id : ThreadId} {life : Nat} (h : Inv s) (hrun : s.running id = some life)
    (hnew : s.center.findClient id = none) :
    Inv { s with
      center := (s.center.registerClient id s.builders.length).2
      builders := s.builders ++ [life]
      remaining := s.remaining ++ [s.builders.length] } where
  own := by
    intro id' life' client hrun'
    by_cases hid : id = id'
    · subst hid
      cases hrun.symm.trans hrun'
      -- the thread had built nothing in this life
      have hnone : s.builders[client]? ≠ some life := by
        intro hbuilt
        rw [(h.own id life client hrun).mpr hbuilt] at hnew
        cases hnew
      show (s.center.registerClient id s.builders.length).2.findClient id = some client ↔ _
      rw [ClientCenter.findClient_registerClient_self _ hnew, getElem?_builders_concat,
        or_iff_right hnone, Option.some_inj]
      exact ⟨fun heq => ⟨heq.symm, rfl⟩, fun heq => heq.1.symm⟩
    · have hlife : life' ≠ life := by
        intro heq
        subst heq
        exact hid (h.apart id id' life' hrun hrun')
      have hown := h.own id' life' client hrun'
      show (s.center.registerClient id s.builders.length).2.findClient id' = some client ↔ _
      rw [ClientCenter.findClient_registerClient_of_ne _ hnew hid, hown, getElem?_builders_concat]
      exact (or_iff_left fun heq => hlife heq.2.symm).symm
  deletes := by
    have hperm := ClientCenter.deletes_registerClient s.builders.length hnew
    have hnot : s.builders.length ∉ s.center.deletes :=
      fun hmem => h.next_not_remaining ((h.deletes.2 _).mp hmem)
    refine ⟨hperm.nodup_iff.mpr (List.nodup_cons.mpr ⟨hnot, h.deletes.1⟩), fun client => ?_⟩
    rw [hperm.mem_iff, List.mem_cons, h.deletes.2, List.mem_append, List.mem_singleton]
    exact or_comm
  nodup := by
    show (s.remaining ++ [s.builders.length]).Nodup
    rw [← List.concat_eq_append]
    exact h.nodup.concat h.next_not_remaining
  built := by
    intro client hmem
    rw [List.length_append, List.length_singleton]
    rcases List.mem_append.mp hmem with hmem | hmem
    · exact Nat.lt_succ_of_lt (h.built client hmem)
    · rw [List.mem_singleton.mp hmem]
      exact Nat.lt_succ_self _
  past := by
    intro life' hmem
    rcases List.mem_append.mp hmem with hmem | hmem
    · exact h.past life' hmem
    · rw [List.mem_singleton.mp hmem]
      exact h.begun id life hrun
  begun := h.begun
  apart := h.apart

/-- An allowed event keeps the invariant. -/
theorem inv_next {e : Event} (h : Inv s) (hstep : Step s e t) (hallowed : Allowed s e) : Inv t := by
  obtain ⟨hdestroy, hid⟩ := hallowed
  cases e with
  | start id =>
      obtain ⟨-, rfl⟩ := step_start.mp hstep
      have hnew : s.center.findClient id = none := by
        by_contra hfound
        exact (hid id hfound).2 rfl
      exact inv_start h hnew
  | exit id =>
      obtain ⟨-, rfl⟩ := step_exit.mp hstep
      exact inv_exit h
  | construct id =>
      obtain ⟨life, hrun, rfl⟩ := step_construct.mp hstep
      have hnew : s.center.findClient id = none := by
        by_contra hfound
        exact (hid id hfound).1 rfl
      exact inv_construct h hrun hnew
  | destroy client => exact absurd rfl (hdestroy client)

/-- After an event that is not allowed the center is wrong. -/
theorem not_sound_next {e : Event} (h : Inv s) (hstep : Step s e t) (hnot : ¬ Allowed s e) :
    ¬ Sound t := by
  intro hsound
  apply hnot
  refine ⟨fun client he => ?_, fun id hfound => ⟨fun he => ?_, fun he => ?_⟩⟩
  · -- the destroyed client is still in the pool
    subst he
    obtain ⟨hmem, rfl⟩ := step_destroy.mp hstep
    have hgone := (hsound.deletes.2 client).mp ((h.deletes.2 client).mpr hmem)
    exact h.nodup.not_mem_erase hgone
  · -- the second client of a thread is not in the pool
    subst he
    obtain ⟨life, -, rfl⟩ := step_construct.mp hstep
    have hpooled := (hsound.deletes.2 s.builders.length).mpr (by simp)
    rw [ClientCenter.registerClient_again _ hfound] at hpooled
    exact h.next_not_remaining ((h.deletes.2 _).mp hpooled)
  · -- the new thread finds the client of an earlier one
    subst he
    obtain ⟨-, rfl⟩ := step_start.mp hstep
    obtain ⟨client, hclient⟩ := Option.ne_none_iff_exists'.mp hfound
    have hown := hsound.own id s.lives client (Function.update_self ..) hclient
    exact absurd (h.past _ (List.mem_of_getElem? hown.2.1)) (Nat.lt_irrefl _)

/-! ## Runs -/

/-- Which ids have a client in the pool afterwards. -/
theorem findClient_next {e : Event} (hstep : Step s e t) (id : ThreadId) :
    t.center.findClient id ≠ none ↔ s.center.findClient id ≠ none ∨ e = .construct id := by
  cases e with
  | start id' =>
      obtain ⟨-, rfl⟩ := step_start.mp hstep
      simp
  | exit id' =>
      obtain ⟨-, rfl⟩ := step_exit.mp hstep
      simp
  | destroy client =>
      obtain ⟨-, rfl⟩ := step_destroy.mp hstep
      simp
  | construct id' =>
      obtain ⟨life, -, rfl⟩ := step_construct.mp hstep
      rw [ClientCenter.findClient_registerClient_ne_none, Event.construct.injEq]

/-- Every event of a run is allowed exactly if the events are tame, and none of them starts or
constructs under an id that already had a client. -/
theorem allowed_run_iff {tr : List (Taken Process Event)} (h : Run Step s tr t) :
    (∀ x ∈ tr, Allowed x.pre x.label) ↔ Tame (tr.map Taken.label) ∧
      ∀ e ∈ tr.map Taken.label, ∀ id, s.center.findClient id ≠ none →
        e ≠ .construct id ∧ e ≠ .start id := by
  induction h with
  | nil => simp [Tame]
  | @cons s e u tr t hstep _ ih =>
      rw [List.forall_mem_cons, ih]
      simp only [findClient_next hstep, List.map_cons, Tame, List.pairwise_cons,
        List.forall_mem_cons, Allowed]
      grind

end

/-- **When the center holds live clients of live threads only**: in every run, each state is sound
exactly if no client is destroyed and no id that has constructed a client is started again or
constructs another one. -/
theorem sound_run_iff {tr : List (Taken Process Event)} {s : Process}
    (h : Run Step initial tr s) :
    (∀ x ∈ tr, Sound x.pre ∧ Sound x.post) ↔ Tame (tr.map Taken.label) := by
  have hrun : (∀ x ∈ tr, Sound x.pre ∧ Sound x.post) ↔ ∀ x ∈ tr, Allowed x.pre x.label := by
    apply Run.forall_iff (I := Inv) _ _ h inv_initial
    · intro s e t hstep hinv
      constructor
      · intro hsound
        by_contra hnot
        exact not_sound_next hinv hstep hnot hsound.2
      · intro hallowed
        exact ⟨hinv.sound, (inv_next hinv hstep hallowed).sound⟩
    · intro s e t hstep hinv hallowed
      exact inv_next hinv hstep hallowed
  rw [hrun, allowed_run_iff h]
  refine and_iff_left ?_
  intro e _ id hfound
  exact absurd rfl hfound

/-- A thread that starts and constructs its client. -/
theorem sound_run_iff_one_thread :
    ∃ tr s, tr.map Taken.label = [.start 1, .construct 1] ∧ Run Step initial tr s ∧
      ((∀ x ∈ tr, Sound x.pre ∧ Sound x.post) ↔ Tame (tr.map Taken.label)) := by
  have h : Run Step initial _ _ :=
    .cons (i := Event.start 1) rfl (.cons (i := Event.construct 1) rfl .nil)
  exact ⟨_, _, rfl, h, sound_run_iff h⟩

/-- The client that `~MThread` has deleted is still in the pool, and `~ClientCenter` deletes it
again. -/
theorem not_sound_destroyed :
    ¬ ∀ tr s, Run Step initial tr s → ∀ x ∈ tr, Sound x.pre ∧ Sound x.post := by
  intro h
  have hrun : Run Step initial _ _ := .cons (i := Event.start 1) rfl
    (.cons (i := Event.construct 1) rfl (.cons (i := Event.destroy 0) rfl .nil))
  have hlast := (h _ _ hrun _ (List.mem_cons_of_mem _ (List.mem_cons_of_mem _ List.mem_cons_self))).2
  have hgone := (hlast.deletes.2 0).mp List.mem_cons_self
  cases hgone

end Process
end EventBus
