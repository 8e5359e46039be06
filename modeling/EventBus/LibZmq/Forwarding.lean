import EventBus.LibZmq.Collection
import EventBus.LibZmq.Distribution
import EventBus.LibZmq.Proxy

/-!
# Messages through the proxy

The proof of `proxy_run`. What `Subscriber` says of the frontend and `Publisher` of the backend is put
together: the frames that the one is given are the frames that the other has received, so the
messages that reach a subscriber are some of those that the publishers have sent.
-/

namespace EventBus.LibZmq

open Framing Transition

/-! ## Frames put together -/

section
variable {α : Type}

/-- A message is what it has been before its last part, closed by this part. -/
theorem Message.exists_close (m : Message α) : ∃ parts d, m = Message.close parts d := by
  obtain ⟨a, as⟩ := m
  rcases List.eq_nil_or_concat as with rfl | ⟨as, d, rfl⟩
  · exact ⟨[], a, rfl⟩
  · exact ⟨a :: as, d, by rw [List.concat_eq_append]; rfl⟩

/-- The messages that a sequence of frames is, and the parts of the one that has begun. -/
def assembled (fs : List (Frame α)) : Written α :=
  (fs.map Transfer.wrote).foldl Written.after ⟨[], []⟩

/-- It does not matter where a stream is cut. -/
theorem assembled_append (fs fs' : List (Frame α)) :
    assembled (fs ++ fs') = (fs'.map Transfer.wrote).foldl Written.after (assembled fs) := by
  rw [assembled, List.map_append, List.foldl_append]
  rfl

/-- Frame by frame, as if they were written to a pipe. -/
theorem assembled_concat (fs : List (Frame α)) (f : Frame α) :
    assembled (fs ++ [f]) = (assembled fs).after (.wrote f) := assembled_append fs [f]

/-- More frames add messages and change none. -/
theorem assembled_mono {fs fs' : List (Frame α)} (h : fs <+: fs') :
    (assembled fs).messages <+: (assembled fs').messages := by
  -- On the frames that are added.
  obtain ⟨rest, rfl⟩ := h
  induction rest using List.reverseRecOn with
  | nil => rw [List.append_nil]
  | append_singleton rest f ih =>
      rw [← List.append_assoc, assembled_concat]
      exact ih.trans (Written.messages_after _ _)

/-- Parts that are not the last one only make the message longer. -/
theorem assembled_parts (fs : List (Frame α)) (ds : List α) :
    assembled (fs ++ ds.map fun d => ⟨d, true⟩) =
      ⟨(assembled fs).openParts ++ ds, (assembled fs).messages⟩ := by
  induction ds using List.reverseRecOn with
  | nil => simp
  | append_singleton ds d ih =>
      rw [List.map_append, ← List.append_assoc, List.map_singleton, assembled_concat, ih]
      simp [Written.after]

/-- Whole messages are put together again. -/
theorem assembled_wire (ms : List (Message α)) : assembled (wire ms) = ⟨[], ms⟩ := by
  induction ms using List.reverseRecOn with
  | nil => rfl
  | append_singleton ms m ih =>
      -- the parts of the last message but its last one, and then this one
      obtain ⟨parts, d, rfl⟩ := Message.exists_close m
      rw [wire_append, wire_cons, wire_nil, List.append_nil, close_frames, ← List.append_assoc,
        assembled_concat, assembled_parts, ih]
      simp [Written.after]

/-- The messages in the first part of a stream are the first messages of it. -/
theorem prefix_of_wire {ms ms' : List (Message α)} {fs : List (Frame α)}
    (h : wire ms ++ fs <+: wire ms') : ms <+: ms' := by
  have hle := assembled_mono ((List.prefix_append (wire ms) fs).trans h)
  rwa [assembled_wire, assembled_wire] at hle

end

/-! ## What comes from the frontend -/

namespace Subscriber
variable {ι α : Type} [DecidableEq ι]

/-- The frames of a pipe are told apart one by one. -/
theorem fetchedFrom_concat (p : ι) (es es' : List (Fetched ι α)) :
    fetchedFrom p (es ++ es') = fetchedFrom p es ++ fetchedFrom p es' := by
  rw [fetchedFrom, List.filter_append, List.map_append]
  rfl

/-- Nobody is given a frame but by `xrecv` and `xhas_in`. -/
theorem next_quiet {t t' : Subscriber ι α} {a : SubscriberAct ι α} {o : Outcome ι α}
    (h : t.next a = some (o, t')) (hcall : ∀ polls, a ≠ .call polls) (hfetch : a ≠ .fetch) :
    o.received = none ∧ t'.place = t.place ∧ t'.message = t.message ∧ t'.more = t.more := by
  unfold next at h
  split at h
  · cases h
  · cases a with
    | call polls => exact absurd rfl (hcall polls)
    | fetch => exact absurd rfl hfetch
    -- The other steps leave all that has to do with a message.
    | attach p =>
        obtain ⟨fq, -, h⟩ := Option.map_eq_some_iff.mp h
        cases h
        exact ⟨rfl, rfl, rfl, rfl⟩
    | filter accepts =>
        cases h
        exact ⟨rfl, rfl, rfl, rfl⟩
    | peer p a =>
        obtain ⟨r, -, h⟩ := Option.map_eq_some_iff.mp h
        cases h
        exact ⟨rfl, rfl, rfl, rfl⟩
    | own p a =>
        cases a with
        | processCommand =>
            obtain ⟨fq, -, h⟩ := Option.bind_eq_some_iff.mp h
            obtain ⟨r, -, h⟩ := Option.map_eq_some_iff.mp h
            cases h
            exact ⟨rfl, rfl, rfl, rfl⟩
        | _ =>
            obtain ⟨r, -, h⟩ := Option.map_eq_some_iff.mp h
            cases h
            exact ⟨rfl, rfl, rfl, rfl⟩

/-- `recvpipe` has to do with the queue and the pipes only. -/
theorem recvpipe_same {n : Nat} {t : Subscriber ι α} {r : Option (ι × Frame α) × Subscriber ι α}
    (h : t.recvpipe n = some r) :
    r.2.place = t.place ∧ r.2.message = t.message ∧ r.2.more = t.more := by
  induction n generalizing t with
  | zero => cases h
  | succ n ih =>
      rw [recvpipe] at h
      -- On the rounds: a round ends with a frame or goes on with another pipe.
      split at h
      · obtain ⟨p, -, h⟩ := Option.bind_eq_some_iff.mp h
        obtain ⟨⟨e, q⟩, -, h⟩ := Option.bind_eq_some_iff.mp h
        cases e with
        | got f =>
            cases h
            exact ⟨rfl, rfl, rfl⟩
        | _ =>
            dsimp only at h
            split at h
            · cases h
            · obtain ⟨fq, -, h⟩ := Option.bind_eq_some_iff.mp h
              have hsame := ih h
              exact hsame
      · cases h
        exact ⟨rfl, rfl, rfl⟩

/-- A call begins with no other call under way, ... -/
theorem next_call {t t' : Subscriber ι α} {polls : Bool} {o : Outcome ι α}
    (h : t.next (.call polls) = some (o, t')) : t.place = .idle ∧ t.call polls = (o, t') := by
  unfold next at h
  split at h
  · cases h
  · rename_i hmay
    exact ⟨idle_of_call (by simpa using hmay), Option.some.inj h⟩

/-- ... and only a call that is under way fetches. -/
theorem next_fetch {t t' : Subscriber ι α} {o : Outcome ι α} (h : t.next .fetch = some (o, t')) :
    t.place ≠ .idle := by
  unfold next at h
  split at h
  · cases h
  · rename_i hmay
    exact (place_of_fetch (by simpa using hmay)).1

/-- While `xhas_in` looks for a message, the user is given nothing. -/
theorem fetch_polls {t t' : Subscriber ι α} {o : Outcome ι α} (h : t.next .fetch = some (o, t'))
    (hplace : t.place ≠ .loops false ∧ t.place ≠ .pops false) :
    o.received = none ∧ (t'.place ≠ .loops false ∧ t'.place ≠ .pops false) ∧ t'.more = t.more := by
  unfold next at h
  split at h
  · cases h
  · have h : t.fetch = some (o, t') := h
    unfold fetch at h
    -- `xrecv` is excluded, so it is in one of the two loops of `xhas_in`
    cases hp : t.place with
    | idle =>
        rw [hp] at h
        cases h
    | loops polls =>
        rw [hp] at h
        obtain ⟨⟨r, u⟩, hr, h⟩ := Option.map_eq_some_iff.mp h
        obtain ⟨-, -, hmore⟩ := recvpipe_same hr
        cases polls with
        | false => exact absurd hp hplace.1
        | true =>
            cases r with
            -- Nothing to read ends the call, and a frame is kept or leads to the rest of its
            -- message.
            | none =>
                cases h
                exact ⟨rfl, by simp, hmore⟩
            | some e =>
                dsimp only at h
                split at h
                · cases h
                  exact ⟨rfl, by simp, hmore⟩
                · cases h
                  refine ⟨rfl, ?_, hmore⟩
                  cases hm : e.2.more <;> simp
    | pops polls =>
        rw [hp] at h
        obtain ⟨⟨r, u⟩, hr, h⟩ := Option.bind_eq_some_iff.mp h
        obtain ⟨-, -, hmore⟩ := recvpipe_same hr
        cases polls with
        | false => exact absurd hp hplace.2
        | true =>
            cases r with
            | none => cases h
            | some e =>
                cases h
                refine ⟨rfl, ?_, hmore⟩
                cases hm : e.2.more <;> simp

/-- The rest of a message is there, and it is given to the user. -/
theorem Inv.fetch_middle {hwms : ι → Bool → Nat} {A S : Set ι} {cur : Option ι}
    {t t' : Subscriber ι α} {tr : List (Taken (Subscriber ι α) (SubscriberAct ι α))}
    {o : Outcome ι α} (h : Inv hwms tr A S cur t) (hplace : t.place = .loops false)
    (hmore : t.more = true) (hnext : t.next .fetch = some (o, t')) :
    ∃ f, o.received = some f ∧ t'.place = .idle ∧ t'.message = none ∧ t'.more = f.more := by
  have hstage := h.stage
  have hmessage : t.message = none := h.message_of_place (by simp [hplace])
  rw [Stage, hplace, hmessage] at hstage
  -- both the user and the fair queue are in the middle of it
  have hmid : t.fq.more = true := hstage.1.symm.trans hmore
  unfold next at hnext
  split at hnext
  · cases hnext
  · rename_i hmay
    obtain ⟨-, hbusy⟩ := place_of_fetch (by simpa using hmay)
    obtain ⟨r, fq, pipes, S', cur', hrecv, hcases⟩ := h.recv_spec hbusy
    rcases hcases with ⟨-, hbetween, -⟩ | ⟨p, f, rfl, -⟩
    · rw [hmid] at hbetween
      cases hbetween
    -- `xrecv` asks no filter in the middle of a message.
    · have hfetch : t.fetch = some (⟨some ⟨p, f, t.accepts f.data, true⟩, some f⟩,
          { t with fq, pipes, more := f.more, place := .idle }) := by
        rw [fetch, hplace]
        simp [hrecv, hmore]
      obtain ⟨rfl, rfl⟩ := Prod.mk.inj (Option.some.inj (hfetch.symm.trans hnext))
      exact ⟨f, rfl, rfl, hmessage, rfl⟩

/-- A message that has been fetched, where it came from and whether it is for the user. -/
theorem messages_of_groups {groups : List (List (Fetched ι α))} (h : ∀ g ∈ groups, OneMessage g) :
    ∃ ms : List (Bool × ι × Message α),
      (∀ p, fetchedFrom p groups.flatten =
        wire ((ms.filter fun x => x.2.1 = p).map fun x => x.2.2)) ∧
      (groups.flatten.filter Fetched.passed).map Fetched.frame =
        wire ((ms.filter Prod.fst).map fun x => x.2.2) := by
  -- each group is one message; it counts for its pipe, and for the user if it has passed
  induction groups with
  | nil => exact ⟨[], fun _ => rfl, rfl⟩
  | cons g groups ih =>
      obtain ⟨hg, hgroups⟩ := List.forall_mem_cons.mp h
      obtain ⟨pipe, passed, hall, -, m, hm⟩ := hg
      obtain ⟨ms, hfrom, hpassed⟩ := ih hgroups
      -- All frames of a group say the same of it.
      refine ⟨(passed, pipe, m) :: ms, fun p => ?_, ?_⟩
      · rw [List.flatten_cons, fetchedFrom_concat, hfrom p]
        by_cases hp : pipe = p
        · have hg : fetchedFrom p g = m.frames := by
            rw [fetchedFrom, List.filter_eq_self.mpr fun e he => by simp [(hall e he).1, hp], hm]
          simp [hg, hp]
        · have hg : fetchedFrom p g = [] := by
            rw [fetchedFrom, List.filter_eq_nil_iff.mpr fun e he => by simp [(hall e he).1, hp]]
            rfl
          simp [hg, hp]
      · rw [List.flatten_cons, List.filter_append, List.map_append, hpassed]
        cases passed with
        | true =>
            rw [List.filter_eq_self.mpr fun e he => (hall e he).2, hm]
            simp
        | false =>
            rw [List.filter_eq_nil_iff.mpr fun e he => by simp [(hall e he).2]]
            simp

/-- **What the user is given**, from the first message to the frame that came last: the messages
that pass, of each pipe in the order in which they have been written. -/
theorem messages_of_run {accepts : α → Bool} {hwms : ι → Bool → Nat} {t : Subscriber ι α}
    {tr : List (Taken (Subscriber ι α) (SubscriberAct ι α))} (h : Run Step (new accepts hwms) tr t)
    (hund : ∀ x ∈ tr, Undisturbed x) :
    ∃ ms : List (ι × Message α),
      (∀ p, ((ms.filter fun x => x.1 = p).map Prod.snd).Sublist (writtenAt p tr).messages) ∧
      (assembled (received tr ++ t.message.toList)).messages = ms.map Prod.snd := by
  obtain ⟨A, S, cur, ht⟩ := inv_run h hund
  obtain ⟨groups, rest, hfetched, hgroups, hrest⟩ := ht.collected
  obtain ⟨ms, hfrom, hpassed⟩ := messages_of_groups hgroups
  -- the message that has begun adds nothing
  have hopen : ∀ es : List (Frame α), (∀ e ∈ rest, e.frame.more = true) →
      (assembled (es ++ (rest.filter Fetched.passed).map Fetched.frame)).messages =
        (assembled es).messages := by
    intro es hmore
    have hmap : (rest.filter Fetched.passed).map Fetched.frame =
        ((rest.filter Fetched.passed).map fun e => e.frame.data).map fun d => ⟨d, true⟩ := by
      rw [List.map_map]
      refine List.map_congr_left fun e he => ?_
      rw [← hmore e (List.mem_filter.mp he).1]
      rfl
    rw [hmap, assembled_parts]
  -- none of its frames is the last one
  have hmore : ∀ e ∈ rest, e.frame.more = true := by
    cases hbegun : t.begun cur with
    | none =>
        rw [hbegun] at hrest
        obtain rfl : rest = [] := hrest
        simp
    | some b =>
        rw [hbegun] at hrest
        have hrest : Begun b.1 b.2 rest := hrest
        exact fun e he => (hrest.2.1 e he).2.2
  refine ⟨(ms.filter Prod.fst).map Prod.snd, fun p => ?_, ?_⟩
  -- all messages fetched from the pipe are the first ones written to it, and some of them have
  -- passed
  · have hle : (ms.filter fun x => x.2.1 = p).map (fun x => x.2.2) <+:
        (writtenAt p tr).messages := by
      have hin := (ht.supplied.pipes p).inOrder
      rw [hfetched, fetchedFrom_concat, hfrom p] at hin
      exact prefix_of_wire hin
    refine List.Sublist.trans ?_ hle.sublist
    rw [List.filter_map, List.map_map]
    have hsub : (ms.filter Prod.fst).Sublist ms := List.filter_sublist
    exact (hsub.filter fun x => x.2.1 = p).map fun x => x.2.2
  -- What the user has been given is what has passed, put together.
  · rw [ht.passed, hfetched, List.filter_append, List.map_append, hopen _ hmore, hpassed,
      assembled_wire, List.map_map]
    rfl

end Subscriber

/-! ## What is given to the backend -/

namespace Publisher
variable {ι α : Type} [DecidableEq ι]

/-- The frames that have been sent. -/
def given (tr : List (Taken (Publisher ι α) (PublisherAct ι α))) : List (Frame α) :=
  tr.filterMap fun x => match x.label with
    | .xsend f _ => some f
    | _ => none

/-- The flag says whether the last frame that was sent has been the last one of its message. -/
theorem next_more {t t' : Publisher ι α} {a : PublisherAct ι α} (h : t.next a = some t') :
    (∀ f marked, a = .xsend f marked → t'.more = f.more) ∧
      ((∀ f marked, a ≠ .xsend f marked) → t'.more = t.more) := by
  unfold next at h
  split at h
  · cases h
  · cases a with
    | attach p =>
        obtain ⟨d, -, rfl⟩ := Option.map_eq_some_iff.mp h
        exact ⟨by simp, fun _ => rfl⟩
    | peer p a =>
        obtain ⟨r, -, rfl⟩ := Option.map_eq_some_iff.mp h
        exact ⟨by simp, fun _ => rfl⟩
    | own p a =>
        refine ⟨by simp, fun _ => ?_⟩
        cases a with
        | processCommand =>
            obtain ⟨d, -, h⟩ := Option.bind_eq_some_iff.mp h
            obtain ⟨r, -, rfl⟩ := Option.map_eq_some_iff.mp h
            rfl
        | _ =>
            obtain ⟨r, -, rfl⟩ := Option.map_eq_some_iff.mp h
            rfl
    -- `xsend` sets the flag, and nothing else does.
    | xsend f marked =>
        obtain ⟨d, -, h⟩ := Option.bind_eq_some_iff.mp h
        obtain ⟨t₁, -, rfl⟩ := Option.map_eq_some_iff.mp h
        exact ⟨fun _ _ heq => by cases heq; rfl, fun hnot => absurd rfl (hnot f marked)⟩

/-- What is sent to a pipe are messages that are given, and the beginning of the one that is being
given now. -/
def Follows (fs : List (Frame α)) (r : Reception α) : Prop :=
  r.messages.Sublist (assembled fs).messages ∧
    ∀ parts, r.parts = some parts → parts = (assembled fs).openParts

section
variable {fs : List (Frame α)} {r : Reception α} {f : Frame α}

/-- A pipe may come in, or stay out, between two messages. -/
theorem Follows.start (h : Follows fs r) (hnil : (assembled fs).openParts = [])
    (marked room : Bool) : Follows fs (r.start marked room) := by
  refine ⟨h.1, fun parts hparts => ?_⟩
  -- If it is in, no part of the message has been sent before.
  have hget := Reception.getD_start marked room r
  rw [hparts] at hget
  exact hget.trans hnil.symm

/-- It may be dropped at any time, and then it has no part in the message. -/
theorem Follows.drop (h : Follows fs r) : Follows (fs ++ [f]) r.drop :=
  ⟨h.1.trans (assembled_mono (List.prefix_append fs [f])).sublist, by simp [Reception.drop]⟩

/-- While it is in, it gets every frame. -/
theorem Follows.take (h : Follows fs r) (hsome : r.parts.isSome = true) :
    Follows (fs ++ [f]) (r.take f) := by
  obtain ⟨parts, hparts⟩ := Option.isSome_iff_exists.mp hsome
  have hopen := h.2 parts hparts
  rw [Follows, assembled_concat]
  cases hmore : f.more with
  | true => simpa [Reception.take, Written.after, hmore, hparts, hopen] using h.1
  -- The last frame finishes the message at the pipe as well.
  | false =>
      have hsub := h.1.append_right [Message.close parts f.data]
      simpa [Reception.take, Written.after, hmore, hparts, ← hopen] using hsub

end

omit [DecidableEq ι] in
/-- What a trace says, step by step. -/
theorem given_append (tr : List (Taken (Publisher ι α) (PublisherAct ι α)))
    (x : Taken (Publisher ι α) (PublisherAct ι α)) : given (tr ++ [x]) = given tr ++ given [x] := by
  rw [given, List.filterMap_append]
  rfl

/-- **A pipe gets some of the messages** that are sent, in the order in which they are sent. -/
theorem sentTo_follows {hwms : ι → Bool → Nat} {t : Publisher ι α}
    {tr : List (Taken (Publisher ι α) (PublisherAct ι α))} (h : Run Step (new hwms) tr t) (p : ι) :
    Follows (given tr) (sentTo p tr) ∧
      (t.more = false → (assembled (given tr)).openParts = []) := by
  -- On the run: only `xsend` gives anything, and it gives a frame to all pipes.
  refine h.past (I := fun tr t => Follows (given tr) (sentTo p tr) ∧
    (t.more = false → (assembled (given tr)).openParts = []))
    ⟨⟨.slnil, by simp [sentTo]⟩, fun _ => rfl⟩ ?_
  rintro tr t a t' ⟨hfollows, hbetween⟩ hstep
  obtain ⟨hsent, hsame⟩ := next_more hstep
  rw [sentTo_append, given_append]
  cases a with
  | xsend f marked =>
      rw [show given [⟨t, .xsend f marked, t'⟩] = [f] from rfl, hsent f marked rfl]
      refine ⟨?_, fun hmore => by rw [assembled_concat]; simp [Written.after, hmore]⟩
      -- whether the pipe is in is settled by the first frame, and whether it stays in by every
      -- frame
      let own := ((t.pipes p).ends true)
      have hstart : Follows (given tr) (if t.more then sentTo p tr
          else (sentTo p tr).start (p ∈ marked) own.checkHwm) := by
        cases hmore : t.more with
        | true => exact hfollows
        | false => exact hfollows.start (hbetween hmore) _ _
      have hafter : ∀ r : Reception α, Follows (given tr) r → Follows (given tr ++ [f])
          (if r.parts.isSome && decide (own.state = .active) then r.take f else r.drop) := by
        intro r hr
        split
        · rename_i hboth
          exact hr.take (Bool.and_eq_true_iff.mp hboth).1
        · exact hr.drop
      exact hafter _ hstart
  | attach | peer | own =>
      rw [show given [⟨t, _, t'⟩] = [] from rfl, List.append_nil, hsame (by simp)]
      exact ⟨hfollows, hbetween⟩

end Publisher

/-! ## Runs -/

namespace Proxy
variable {ι κ α : Type} [DecidableEq ι] [DecidableEq κ] {t t' : Proxy ι κ α} {a : ProxyAct ι κ α}
  {tr : List (Taken (Proxy ι κ α) (ProxyAct ι κ α))} {accepts : α → Bool} {hwms : ι → Bool → Nat}
  {hwms' : κ → Bool → Nat}

/-- All that a step can do. -/
theorem step_cases : Step t a t' → match a with
    | .frontend a => t.mayAct (.frontend a) = true ∧ ∃ o,
        t.frontend.next a = some (o, t'.frontend) ∧ t'.backend = t.backend ∧
        t'.place = o.received.elim t.place .sends
    | .backend a => (∀ f marked, a ≠ .xsend f marked) ∧ t.backend.next a = some t'.backend ∧
        t'.frontend = t.frontend ∧ t'.place = t.place
    | .forward => t.place = .polls ∧ t.frontend.place = .idle ∧
        t.frontend.message.isSome = true ∧ t' = { t with place := .receives }
    | .send marked => ∃ msg, t.place = .sends msg ∧
        t.backend.next (.xsend msg marked) = some t'.backend ∧ t'.frontend = t.frontend ∧
        t'.place = if msg.more then .receives else .polls := by
  intro h
  unfold Step next at h
  split at h
  · cases h
  · rename_i hmay
    have hmay : t.mayAct a = true := by simpa using hmay
    cases a with
    | frontend a =>
        obtain ⟨r, hr, rfl⟩ := Option.map_eq_some_iff.mp h
        exact ⟨hmay, r.1, hr, rfl, rfl⟩
    | backend a =>
        obtain ⟨r, hr, rfl⟩ := Option.map_eq_some_iff.mp h
        refine ⟨?_, hr, rfl, rfl⟩
        rintro f marked rfl
        cases hmay
    -- `forward` begins with a message that the poll has found.
    | forward =>
        cases h
        cases hplace : t.place with
        | polls =>
            rw [mayAct, hplace] at hmay
            obtain ⟨hidle, hmessage⟩ := Bool.and_eq_true_iff.mp hmay
            exact ⟨rfl, of_decide_eq_true hidle, hmessage, rfl⟩
        | _ =>
            rw [mayAct, hplace] at hmay
            cases hmay
    -- It sends what it has in its hands.
    | send marked =>
        cases hplace : t.place with
        | sends msg =>
            simp only [hplace] at h
            obtain ⟨r, hr, rfl⟩ := Option.map_eq_some_iff.mp h
            exact ⟨msg, rfl, hr, rfl, rfl⟩
        | _ =>
            rw [mayAct, hplace] at hmay
            cases hmay

/-- A run of the proxy is a run of its frontend ... -/
theorem frontend_run (h : Run Step t tr t') :
    Run Subscriber.Step t.frontend (tr.filterMap onFrontend) t'.frontend := by
  refine h.project Proxy.frontend onFrontend fun t a t' hstep => ?_
  have hcases := step_cases hstep
  cases a with
  | frontend a =>
      obtain ⟨-, o, hnext, -⟩ := hcases
      exact ⟨rfl, rfl, by rw [Subscriber.Step, hnext]; rfl⟩
  | backend a => exact hcases.2.2.1.symm
  | forward =>
      obtain ⟨-, -, -, rfl⟩ := hcases
      rfl
  | send marked =>
      obtain ⟨_, -, -, hsame, -⟩ := hcases
      exact hsame.symm

/-- ... and one of its backend. -/
theorem backend_run (h : Run Step t tr t') :
    Run Publisher.Step t.backend (tr.filterMap onBackend) t'.backend := by
  refine h.project Proxy.backend onBackend fun t a t' hstep => ?_
  have hcases := step_cases hstep
  cases a with
  | frontend a =>
      obtain ⟨-, o, -, hsame, -⟩ := hcases
      exact hsame.symm
  | backend a => exact ⟨rfl, rfl, hcases.2.1⟩
  | forward =>
      obtain ⟨-, -, -, rfl⟩ := hcases
      rfl
  -- The frame that is sent is the one in the hands of the thread.
  | send marked =>
      obtain ⟨msg, hplace, hnext, -⟩ := hcases
      have hseen : onBackend ⟨t, .send marked, t'⟩ =
          some ⟨t.backend, .xsend msg marked, t'.backend⟩ := by simp [onBackend, hplace]
      rw [hseen]
      exact ⟨rfl, rfl, hnext⟩

/-- Where the thread is, and what the frontend knows of the message it is in the middle of. -/
def Fits (t : Proxy ι κ α) : Prop :=
  match t.place with
  | .polls => t.frontend.more = false ∧ t.frontend.place ≠ .loops false ∧
      t.frontend.place ≠ .pops false
  | .receives =>
      t.frontend.place = .idle ∧ (t.frontend.message.isSome = true ∨ t.frontend.more = true) ∨
        t.frontend.place = .loops false ∧ t.frontend.more = true
  | .sends msg =>
      t.frontend.place = .idle ∧ t.frontend.message = none ∧ t.frontend.more = msg.more

/-- The frame that the thread has in its hands. -/
def held : ProxyPlace α → List (Frame α)
  | .polls | .receives => []
  | .sends msg => [msg]

omit [DecidableEq κ] in
/-- The thread polls, or it receives the frame that the poll has found or the next one of the
message. -/
theorem fits_call (h : t.Fits) {polls : Bool} {o : Outcome ι α}
    (hmay : t.mayAct (.frontend (.call polls)) = true)
    (hnext : t.frontend.next (.call polls) = some (o, t'.frontend))
    (hplace : t'.place = o.received.elim t.place .sends) :
    t'.Fits ∧ held t'.place = held t.place ++ o.received.toList := by
  obtain ⟨hidle, hcall⟩ := Subscriber.next_call hnext
  cases hp : t.place with
  | polls =>
      -- `xhas_in`, which gives nothing to anybody
      rw [Fits, hp] at h
      rw [mayAct, hp] at hmay
      obtain rfl : polls = true := hmay
      have hquiet : o.received = none ∧ t'.frontend.more = false ∧
          t'.frontend.place ≠ .loops false ∧ t'.frontend.place ≠ .pops false := by
        rw [Subscriber.call, if_pos rfl, h.1, Bool.false_or] at hcall
        split at hcall
        · obtain ⟨rfl, hsame⟩ := Prod.mk.inj hcall
          rw [← hsame]
          exact ⟨rfl, h⟩
        · obtain ⟨rfl, hsame⟩ := Prod.mk.inj hcall
          rw [← hsame]
          exact ⟨rfl, rfl, by simp⟩
      rw [hquiet.1, hp] at hplace
      rw [Fits, hplace, hquiet.1]
      exact ⟨hquiet.2, rfl⟩
  | receives =>
      rw [Fits, hp] at h
      rw [mayAct, hp] at hmay
      obtain rfl : polls = false := by simpa using hmay
      obtain ⟨-, hthere⟩ | ⟨hloops, -⟩ := h
      · rw [Subscriber.call, if_neg (by simp)] at hcall
        -- The message is there already, or it has to be fetched.
        cases hmessage : t.frontend.message with
        | some f =>
            rw [hmessage] at hcall
            obtain ⟨rfl, hsame⟩ := Prod.mk.inj hcall
            have hplace : t'.place = .sends f := hplace
            rw [Fits, hplace, ← hsame]
            exact ⟨⟨hidle, rfl, rfl⟩, rfl⟩
        | none =>
            rw [hmessage] at hcall
            obtain ⟨rfl, hsame⟩ := Prod.mk.inj hcall
            have hplace : t'.place = .receives := hplace.trans hp
            rw [Fits, hplace, ← hsame]
            refine ⟨.inr ⟨rfl, ?_⟩, rfl⟩
            simpa [hmessage] using hthere
      · rw [hidle] at hloops
        cases hloops
  | sends msg =>
      rw [mayAct, hp] at hmay
      cases hmay

omit [DecidableEq κ] in
/-- Only `xrecv` brings the thread something, and it does so in the middle of a message. -/
theorem fits_fetch (h : t.Fits) {o : Outcome ι α}
    (hinv : ∃ tr A S cur, Subscriber.Inv hwms tr A S cur t.frontend)
    (hnext : t.frontend.next .fetch = some (o, t'.frontend))
    (hplace : t'.place = o.received.elim t.place .sends) :
    t'.Fits ∧ held t'.place = held t.place ++ o.received.toList := by
  obtain ⟨tr, A, S, cur, hinv⟩ := hinv
  cases hp : t.place with
  | polls =>
      -- A fetch belongs to a call that is under way: of `xhas_in` here, ...
      rw [Fits, hp] at h
      obtain ⟨hnone, hpolls, hmore⟩ := Subscriber.fetch_polls hnext h.2
      rw [hnone, hp] at hplace
      rw [Fits, hplace, hnone]
      exact ⟨⟨hmore.trans h.1, hpolls⟩, rfl⟩
  | receives =>
      -- ... and of `xrecv` here, where the rest of the message is there.
      rw [Fits, hp] at h
      rcases h with ⟨hidle, -⟩ | ⟨hloops, hmore⟩
      · exact absurd hidle (Subscriber.next_fetch hnext)
      · obtain ⟨f, hsome, hfits⟩ := hinv.fetch_middle hloops hmore hnext
        rw [hsome] at hplace
        rw [Fits, hplace, hsome]
        exact ⟨hfits, rfl⟩
  | sends msg =>
      rw [Fits, hp] at h
      exact absurd h.1 (Subscriber.next_fetch hnext)

omit [DecidableEq κ] in
/-- What a step of the frontend does: a frame that it is given goes into the hands of the thread. -/
theorem fits_frontend (h : t.Fits) {a : SubscriberAct ι α} {o : Outcome ι α}
    (hinv : ∃ tr A S cur, Subscriber.Inv hwms tr A S cur t.frontend)
    (hmay : t.mayAct (.frontend a) = true) (hnext : t.frontend.next a = some (o, t'.frontend))
    (hplace : t'.place = o.received.elim t.place .sends) :
    t'.Fits ∧ held t'.place = held t.place ++ o.received.toList := by
  cases a with
  | call polls => exact fits_call h hmay hnext hplace
  | fetch => exact fits_fetch h hinv hnext hplace
  -- in all other steps nothing that matters here is changed
  | attach | peer | own | filter =>
      obtain ⟨hnone, hsame, hmessage, hmore⟩ := Subscriber.next_quiet hnext (by simp) (by simp)
      rw [hnone] at hplace
      refine ⟨?_, ?_⟩
      · unfold Fits at h ⊢
        rw [hplace, hsame, hmessage, hmore]
        exact h
      · rw [hplace, hnone]
        exact (List.append_nil _).symm

/-- **The frames that the backend is given** are those that the frontend has received, but for the
one that the thread has in its hands. -/
structure Handed (tr : List (Taken (Proxy ι κ α) (ProxyAct ι κ α))) (t : Proxy ι κ α) : Prop where
  fits : t.Fits
  given : Publisher.given (tr.filterMap onBackend) ++ held t.place =
    Subscriber.received (tr.filterMap onFrontend)

omit [DecidableEq κ] in
/-- At first there are no frames at all. -/
theorem handed_new : Handed [] (new accepts hwms hwms' : Proxy ι κ α) :=
  ⟨⟨rfl, by simp [new, Subscriber.new]⟩, rfl⟩

/-- One step, by the four things that the thread and its peers can do. -/
theorem Handed.step (h : Handed tr t)
    (hinv : ∃ tr A S cur, Subscriber.Inv hwms tr A S cur t.frontend) (hstep : Step t a t') :
    Handed (tr ++ [⟨t, a, t'⟩]) t' := by
  obtain ⟨hfits, hgiven⟩ := h
  have hcases := step_cases hstep
  cases a with
  | frontend a =>
      obtain ⟨hmay, o, hnext, hback, hplace⟩ := hcases
      obtain ⟨hfits', hheld⟩ := fits_frontend hfits hinv hmay hnext hplace
      refine ⟨hfits', ?_⟩
      have hseen : [⟨t, .frontend a, t'⟩].filterMap onFrontend =
          [⟨t.frontend, a, t'.frontend⟩] := rfl
      have hunseen : [(⟨t, .frontend a, t'⟩ : Taken (Proxy ι κ α) (ProxyAct ι κ α))].filterMap
          onBackend = [] := rfl
      rw [List.filterMap_append, List.filterMap_append, hseen, hunseen, List.append_nil, hheld,
        Subscriber.received_append, Subscriber.outcome_eq hnext, ← hgiven, List.append_assoc]
  | backend a =>
      obtain ⟨hnot, -, hfront, hplace⟩ := hcases
      -- What the backend does on its own is not `xsend`.
      have hnone : Publisher.given [⟨t.backend, a, t'.backend⟩] = [] := by
        cases a with
        | xsend f marked => exact absurd rfl (hnot f marked)
        | _ => rfl
      have hseen : [(⟨t, .backend a, t'⟩ : Taken (Proxy ι κ α) (ProxyAct ι κ α))].filterMap
          onBackend = [⟨t.backend, a, t'.backend⟩] := rfl
      have hunseen : [(⟨t, .backend a, t'⟩ : Taken (Proxy ι κ α) (ProxyAct ι κ α))].filterMap
          onFrontend = [] := rfl
      refine ⟨?_, ?_⟩
      · unfold Fits at hfits ⊢
        rw [hplace, hfront]
        exact hfits
      · rw [List.filterMap_append, List.filterMap_append, hseen, hunseen,
          Publisher.given_append, hnone, List.append_nil, List.append_nil, hplace, hgiven]
  | forward =>
      -- the poll has found a frame, and `xrecv` will take it
      obtain ⟨hp, hidle, hmessage, rfl⟩ := hcases
      refine ⟨.inl ⟨hidle, .inl hmessage⟩, ?_⟩
      rw [hp] at hgiven
      have hunseen : ∀ t', [(⟨t, .forward, t'⟩ : Taken (Proxy ι κ α) (ProxyAct ι κ α))].filterMap
          onFrontend = [] ∧ [(⟨t, .forward, t'⟩ : Taken (Proxy ι κ α) (ProxyAct ι κ α))].filterMap
            onBackend = [] := fun _ => ⟨rfl, rfl⟩
      rw [List.filterMap_append, List.filterMap_append, (hunseen _).1, (hunseen _).2,
        List.append_nil, List.append_nil]
      exact hgiven
  | send marked =>
      -- the frame goes from the hands of the thread to the backend
      obtain ⟨msg, hp, -, hfront, hplace⟩ := hcases
      rw [Fits, hp] at hfits
      obtain ⟨hidle, -, hmore⟩ := hfits
      have hseen : [(⟨t, .send marked, t'⟩ : Taken (Proxy ι κ α) (ProxyAct ι κ α))].filterMap
          onBackend = [⟨t.backend, .xsend msg marked, t'.backend⟩] := by simp [onBackend, hp]
      have hunseen : [(⟨t, .send marked, t'⟩ : Taken (Proxy ι κ α) (ProxyAct ι κ α))].filterMap
          onFrontend = [] := rfl
      have hheld : held t'.place = [] := by
        rw [hplace]
        cases msg.more <;> rfl
      refine ⟨?_, ?_⟩
      · rw [Fits, hplace, hfront]
        -- After the last frame the thread polls again.
        cases hm : msg.more with
        | true => exact .inl ⟨hidle, .inr (hmore.trans hm)⟩
        | false => exact ⟨hmore.trans hm, by simp [hidle]⟩
      · rw [hp] at hgiven
        rw [List.filterMap_append, List.filterMap_append, hseen, hunseen, Publisher.given_append,
          hheld, List.append_nil, List.append_nil]
        exact hgiven

omit [DecidableEq ι] [DecidableEq κ] in
/-- What is said of the whole run is said of the first part of it. -/
theorem undisturbed_append {tr tr' : List (Taken (Proxy ι κ α) (ProxyAct ι κ α))}
    (h : ∀ y ∈ (tr ++ tr').filterMap onFrontend, Subscriber.Undisturbed y) :
    ∀ y ∈ tr.filterMap onFrontend, Subscriber.Undisturbed y := by
  intro y hy
  refine h y ?_
  rw [List.filterMap_append]
  exact List.mem_append_left _ hy

/-- **The run lemma.** What is known of the frontend is known of the run so far. -/
theorem handed_run (h : Run Step (new accepts hwms hwms') tr t)
    (hund : ∀ y ∈ tr.filterMap onFrontend, Subscriber.Undisturbed y) : Handed tr t := by
  -- The run is kept with it, for what the frontend knows after each step.
  have hpast : Run Step (new accepts hwms hwms') tr t ∧
      ((∀ y ∈ tr.filterMap onFrontend, Subscriber.Undisturbed y) → Handed tr t) := by
    refine h.past (I := fun tr t => Run Step (new accepts hwms hwms') tr t ∧
      ((∀ y ∈ tr.filterMap onFrontend, Subscriber.Undisturbed y) → Handed tr t))
      ⟨.nil, fun _ => handed_new⟩ ?_
    rintro tr t a t' ⟨hrun, hbefore⟩ hstep
    refine ⟨hrun.concat hstep, fun hund => ?_⟩
    have hund := undisturbed_append hund
    exact (hbefore hund).step ⟨_, Subscriber.inv_run (frontend_run hrun) hund⟩ hstep
  exact hpast.2 hund

/-- The proxy adds no step that could fail to those of its two sockets. -/
theorem isSome_next {A S : Set ι} {cur : Option ι} {A' M E : Set κ}
    {tr : List (Taken (Subscriber ι α) (SubscriberAct ι α))}
    {tr' : List (Taken (Publisher κ α) (PublisherAct κ α))}
    (h : Subscriber.Inv hwms tr A S cur t.frontend) (h' : Publisher.Inv hwms' tr' A' M E t.backend)
    (a : ProxyAct ι κ α) : (t.next a).isSome = t.ready a := by
  unfold next ready
  cases hmay : t.mayAct a with
  | false => rfl
  | true =>
      cases a with
      | frontend a => exact (Option.isSome_map ..).trans (h.isSome_next a)
      | backend a => exact (Option.isSome_map ..).trans (h'.isSome_next a)
      | forward => rfl
      | send marked =>
          cases hp : t.place with
          | sends msg => simpa using h'.isSome_next (.xsend msg marked)
          | _ =>
              rw [mayAct, hp] at hmay
              cases hmay

/-- **From the publishers to the subscribers**, in every run of the proxy and of all threads at the
other ends of its pipes. Nothing goes wrong, and in the middle of a message `forward` never waits
for the next frame. What a subscriber gets are whole messages that the publishers have written: of
every publisher some of its messages, in the order in which it has written them, and every
subscriber some of these, in the same order for all of them. -/
theorem proxy_run (h : Run Step (new accepts hwms hwms') tr t)
    (hund : ∀ y ∈ tr.filterMap onFrontend, Subscriber.Undisturbed y) :
    (∀ a, (t.next a).isSome = t.ready a) ∧
      (∀ x ∈ tr, x.pre.place = .receives → x.label = .frontend .fetch →
        ∃ msg, x.post.place = .sends msg) ∧
      ∃ ms : List (ι × Message α),
        (∀ p, ((ms.filter fun x => x.1 = p).map Prod.snd).Sublist
          (Subscriber.writtenAt p (tr.filterMap onFrontend)).messages) ∧
        ∀ q, ((t.backend.pipes q).ends false).freed = false → ∃ ms', List.Sublist ms' ms ∧
          Publisher.readAt q (tr.filterMap onBackend) ++
            frames ((t.backend.pipes q).inpipe false).fifo.ready = wire (ms'.map Prod.snd) := by
  have hfront := frontend_run h
  have hback := backend_run h
  obtain ⟨A, S, cur, ht⟩ := Subscriber.inv_run hfront hund
  obtain ⟨A', M, E, ht'⟩ := Publisher.inv_run hback
  refine ⟨isSome_next ht ht', fun x hx hplace hlabel => ?_, ?_⟩
  -- The state before the step is the end of a run of its own.
  · obtain ⟨tr₁, tr₂, rfl⟩ := List.append_of_mem hx
    obtain ⟨hrun, hstep, -⟩ := h.split
    have hund := undisturbed_append hund
    have hfits := (handed_run hrun hund).fits
    obtain ⟨_, _, _, hinv⟩ := Subscriber.inv_run (frontend_run hrun) hund
    have hcases := step_cases hstep
    rw [hlabel] at hcases
    obtain ⟨-, o, hnext, -, hplace'⟩ := hcases
    rw [Fits, hplace] at hfits
    rcases hfits with ⟨hidle, -⟩ | ⟨hloops, hmore⟩
    · exact absurd hidle (Subscriber.next_fetch hnext)
    · obtain ⟨f, hsome, -⟩ := hinv.fetch_middle hloops hmore hnext
      rw [hsome] at hplace'
      exact ⟨f, hplace'⟩
  -- The order of messages is the one in which the frontend has been given them.
  · obtain ⟨ms, hwritten, hgiven⟩ := Subscriber.messages_of_run hfront hund
    refine ⟨ms, hwritten, fun q hfreed => ?_⟩
    have hhanded := (handed_run h hund).given
    obtain ⟨⟨hsub, -⟩, -⟩ := Publisher.sentTo_follows hback q
    -- what has been given to the backend is the beginning of what has come from the frontend
    have hle := assembled_mono ((List.prefix_append (Publisher.given (tr.filterMap onBackend))
      (held t.place)).trans (List.prefix_append _ t.frontend.message.toList))
    rw [hhanded, hgiven] at hle
    obtain ⟨ms', hms', heq⟩ := List.sublist_map_iff.mp (hsub.trans hle.sublist)
    exact ⟨ms', hms', by rw [ht'.reads q hfreed, heq]⟩

/-- One message of two parts goes to one of two subscribers. -/
theorem proxy_run_whole :
    ∃ (tr : List (Taken (Proxy Nat Nat Nat) (ProxyAct Nat Nat Nat))) (t : Proxy Nat Nat Nat),
      Run Step (new (fun d => d < 100) (fun _ _ => 0) fun _ _ => 1) tr t ∧
      (∀ y ∈ tr.filterMap onFrontend, Subscriber.Undisturbed y) ∧
      frames ((t.backend.pipes 1).inpipe false).fifo.ready = [⟨1, true⟩, ⟨2, false⟩] ∧
      (∀ a, (t.next a).isSome = t.ready a) ∧
      (∀ x ∈ tr, x.pre.place = .receives → x.label = .frontend .fetch →
        ∃ msg, x.post.place = .sends msg) ∧
      ∃ ms : List (Nat × Message Nat),
        (∀ p, ((ms.filter fun x => x.1 = p).map Prod.snd).Sublist
          (Subscriber.writtenAt p (tr.filterMap onFrontend)).messages) ∧
        ∀ q, ((t.backend.pipes q).ends false).freed = false → ∃ ms', List.Sublist ms' ms ∧
          Publisher.readAt q (tr.filterMap onBackend) ++
            frames ((t.backend.pipes q).inpipe false).fifo.ready = wire (ms'.map Prod.snd) := by
  have hrun : (attempt Proxy.next
      (new (fun d => d < 100) (fun _ _ => 0) fun _ _ => 1 : Proxy Nat Nat Nat)
      [.backend (.attach 0), .backend (.attach 1), .frontend (.attach 0),
        .frontend (.peer 0 (.write ⟨1, true⟩)), .frontend (.peer 0 (.write ⟨2, false⟩)),
        .frontend (.peer 0 .flush), .frontend (.call true), .frontend .fetch, .forward,
        .frontend (.call false), .send [1], .frontend (.call false), .frontend .fetch,
        .send []]).map
      (fun r => frames ((r.2.backend.pipes 1).inpipe false).fifo.ready) =
        some [⟨1, true⟩, ⟨2, false⟩] := rfl
  obtain ⟨⟨tr, t⟩, hattempt, hready⟩ := Option.map_eq_some_iff.mp hrun
  obtain ⟨h, hlabels⟩ := run_attempt hattempt
  have hund : ∀ y ∈ tr.filterMap onFrontend, Subscriber.Undisturbed y := by
    intro y hy
    obtain ⟨x, hx, hseen⟩ := List.mem_filterMap.mp hy
    refine Subscriber.undisturbed_of_label fun p a heq => ?_
    have hmem := List.mem_map_of_mem (f := Taken.label) hx
    rw [hlabels] at hmem
    obtain ⟨u, b, u'⟩ := x
    cases b with
    | frontend b =>
        cases hseen
        obtain rfl : b = .own p a := heq
        simp at hmem
    | _ => cases hseen
  exact ⟨tr, t, h, hund, hready, proxy_run h hund⟩

end Proxy
end EventBus.LibZmq
