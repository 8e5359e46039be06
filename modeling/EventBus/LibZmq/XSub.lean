import EventBus.Bus.Basic
import EventBus.LibZmq.PipeOwner
import EventBus.LibZmq.Trie

/-!
# `xsub_t`: subscriptions

An XSUB or SUB socket is told about subscriptions by messages: a 1 or a 0, followed by the topic. It
enters them in its trie and hands on to `dist_t::send_to_all` what the pipes have to know. The bus
speaks of the reference counts of a socket; `xsend_all` says that the trie holds just these, in every
socket and after any messages, so that `check` filters by them. A pipe that is attached later is
sent every topic once, in order, until it is full: `send_subscription` drops what the pipe does not
take.
-/

namespace EventBus

open Framing LibZmq MZmq

attribute [local instance] Table.neZero_byte

namespace SubMsg

/-- The data of a subscription message, as `sub_t::xsetsockopt` makes it. -/
def data : SubMsg → Bytes
  | .subscribe topic => 1 :: topic
  | .unsubscribe topic => 0 :: topic

end SubMsg

namespace XSub

/-- `xsub_t::xsend`: the trie afterwards, and what `dist_t::send_to_all` is given. -/
def xsend (data : Bytes) (subscriptions : Trie) : Option (Trie × List Bytes) :=
  match data with
  | [] => some (subscriptions, [data])
  | c :: topic =>
      if c = 1 then (subscriptions.add topic).map fun r => (r.2, [data])
      else if c = 0 then (subscriptions.rm topic).map fun r => (r.2, if r.1 then [data] else [])
      -- a user message sent upstream
      else some (subscriptions, [data])

/-- `send_subscription`: the message is dropped if there is no room for it in the pipe. -/
def sendSubscription (topic : EventType) (p : PipePair Bytes) : Option (PipePair Bytes) :=
  (p.next true (.write ⟨1 :: topic, false⟩)).map Prod.snd

def sendSubscriptions : List EventType → PipePair Bytes → Option (PipePair Bytes)
  | [], p => some p
  | topic :: topics, p => (sendSubscription topic p).bind (sendSubscriptions topics)

/-- What `xattach_pipe` does to the new pipe, of which the socket has the end `true`. -/
def xattachPipe (subscriptions : Trie) (p : PipePair Bytes) : Option (PipePair Bytes) :=
  subscriptions.apply.bind fun topics =>
    (sendSubscriptions topics p).bind fun p => (p.next true .flush).map Prod.snd

/-- One message after the other. -/
def xsendAll : List Bytes → Trie → Option (Trie × List Bytes)
  | [], t => some (t, [])
  | data :: rest, t =>
      (xsend data t).bind fun r => (xsendAll rest r.1).map fun q => (q.1, r.2 ++ q.2)

end XSub

/-- One subscription message after the other, on the reference counts. -/
def xsubSendAll : List SubMsg → (EventType → Nat) → (EventType → Nat) × List SubMsg
  | [], refs => (refs, [])
  | msg :: msgs, refs =>
      let r := xsubSend msg refs
      let q := xsubSendAll msgs r.1
      (q.1, r.2 ++ q.2)

namespace XSub

theorem xsend_spec {t : Trie} (h : Trie.Sound t) (msg : SubMsg)
    (hlt : ∀ topic, t.refs topic + 1 < 2 ^ 32) :
    ∃ t', xsend msg.data t = some (t', (xsubSend msg t.refs).2.map SubMsg.data) ∧
      Trie.Sound t' ∧ t'.refs = (xsubSend msg t.refs).1 := by
  cases msg with
  | subscribe topic =>
      obtain ⟨t', hadd, hsound, hrefs⟩ := Trie.add_spec h topic (hlt topic)
      refine ⟨t', ?_, hsound, ?_⟩
      · simp [xsend, SubMsg.data, hadd, xsubSend]
      · funext k
        rw [hrefs]
        simp only [xsubSend, Function.update_apply]
  | unsubscribe topic =>
      obtain ⟨t', hrm, hsound, hrefs⟩ := Trie.rm_spec h topic
      refine ⟨t', ?_, hsound, ?_⟩
      · by_cases hone : t.refs topic = 1 <;> simp [xsend, SubMsg.data, hrm, xsubSend, hone]
      · funext k
        rw [hrefs]
        simp only [xsubSend, Function.update_apply]

theorem xsubSend_le (msg : SubMsg) (refs : EventType → Nat) (topic : EventType) :
    (xsubSend msg refs).1 topic ≤ refs topic + 1 := by
  cases msg <;> simp only [xsubSend, Function.update_apply] <;> grind

/-- The messages, as long as no reference count can overflow. -/
theorem xsendAll_spec (msgs : List SubMsg) {t : Trie} (h : Trie.Sound t) {n : Nat}
    (hrefs : ∀ topic, t.refs topic ≤ n) (hlt : n + msgs.length < 2 ^ 32) :
    ∃ t', xsendAll (msgs.map SubMsg.data) t =
        some (t', (xsubSendAll msgs t.refs).2.map SubMsg.data) ∧
      Trie.Sound t' ∧ t'.refs = (xsubSendAll msgs t.refs).1 := by
  induction msgs generalizing t n with
  | nil => exact ⟨t, rfl, h, rfl⟩
  | cons msg msgs ih =>
      rw [List.length_cons] at hlt
      obtain ⟨t₁, hsend, hsound₁, hrefs₁⟩ := xsend_spec h msg fun topic => by
        have := hrefs topic
        omega
      have hle : ∀ topic, t₁.refs topic ≤ n + 1 := by
        intro topic
        rw [hrefs₁]
        exact Nat.le_trans (xsubSend_le msg t.refs topic) (Nat.succ_le_succ (hrefs topic))
      obtain ⟨t₂, hrest, hsound₂, hrefs₂⟩ := ih hsound₁ hle (by omega)
      rw [hrefs₁] at hrest hrefs₂
      refine ⟨t₂, ?_, hsound₂, hrefs₂⟩
      rw [List.map_cons, xsendAll, hsend, Option.bind_some, hrest, xsubSendAll]
      simp

/-! ## A pipe that is attached later -/

/-- As many of the topics as a new pipe has room for. A high watermark of `0` is none. -/
def admitted (hwm : Nat) (topics : List EventType) : List EventType :=
  if hwm = 0 then topics else topics.take hwm

theorem admitted_of_room {hwm : Nat} {topics : List EventType} (h : hwm = 0 ∨ topics.length ≤ hwm) :
    admitted hwm topics = topics := by
  unfold admitted
  split
  · rfl
  · exact List.take_of_length_le (by omega)

theorem admitted_of_full {hwm : Nat} {topics : List EventType} (more : List EventType)
    (hpos : 0 < hwm) (h : hwm ≤ topics.length) :
    admitted hwm (topics ++ more) = topics.take hwm := by
  rw [admitted, if_neg (by omega), List.take_append_of_le_length h]

/-- A new pipe to which `topics` have been sent, in this order. -/
structure Told (hwms : Bool → Nat) (topics : List EventType) (p : PipePair Bytes) : Prop where
  past : p.Past hwms true
    ⟨[], (admitted (hwms true) topics).map fun topic => ⟨1 :: topic, []⟩⟩ []
  own : p.ends true = { PipeEnd.new (hwms false) (hwms true) with
    msgsWritten := (admitted (hwms true) topics).length, outActive := (p.ends true).outActive }
  /-- The end does not stop before it is full. -/
  stopped : (p.ends true).outActive = false → 0 < hwms true ∧ hwms true ≤ topics.length

section
variable {hwms : Bool → Nat} {topics : List EventType} {p : PipePair Bytes}

/-- One more topic. It is dropped if the pipe is full, and the pipe stays as it is. -/
theorem Told.step (h : Told hwms topics p) (topic : EventType) :
    ∃ p', sendSubscription topic p = some p' ∧ Told hwms (topics ++ [topic]) p' := by
  have hfreed : (p.ends true).freed = false := by rw [h.own]; rfl
  have hclosing : (p.ends true).closing = false := by rw [h.own]; rfl
  have hstate : (p.ends true).state = .active := by rw [h.own]; rfl
  have hroom : (p.ends true).checkHwm = true ↔
      ¬ (0 < hwms true ∧ hwms true ≤ (admitted (hwms true) topics).length) := by
    rw [h.own, PipeEnd.checkHwm, Bool.not_eq_true', decide_eq_false_iff_not]
    rfl
  obtain ⟨ok, p', hnext, hok, hpast, -, htaken, hrefused⟩ :=
    h.past.write hfreed hclosing ⟨1 :: topic, false⟩
  have hsend : sendSubscription topic p = some p' := by rw [sendSubscription, hnext]; rfl
  by_cases hfull : 0 < hwms true ∧ hwms true ≤ topics.length
  · have hbefore : admitted (hwms true) topics = topics.take (hwms true) := by
      simpa using admitted_of_full [] hfull.1 hfull.2
    have hafter := admitted_of_full [topic] hfull.1 hfull.2
    obtain rfl : ok = false := by
      rw [← Bool.not_eq_true, hok, hroom, hbefore, List.length_take, Nat.min_eq_left hfull.2]
      simp [hfull.1]
    obtain ⟨hown, -⟩ := hrefused rfl
    refine ⟨p', hsend, ?_, ?_, fun _ => ⟨hfull.1, by simp; omega⟩⟩
    · rw [hafter, ← hbefore]
      exact hpast
    · rw [hown, h.own, hafter, hbefore]
  · have hbefore : admitted (hwms true) topics = topics := admitted_of_room (by omega)
    have hafter : admitted (hwms true) (topics ++ [topic]) = topics ++ [topic] :=
      admitted_of_room (by rw [List.length_append, List.length_singleton]; omega)
    have hout : (p.ends true).outActive = true := by
      cases hout : (p.ends true).outActive with
      | true => rfl
      | false => exact absurd (h.stopped hout) hfull
    obtain rfl : ok = true := hok.mpr ⟨hstate, hout, hroom.mpr (by rwa [hbefore])⟩
    obtain ⟨hown, -⟩ := htaken rfl
    refine ⟨p', hsend, ?_, ?_, fun hstop => ?_⟩
    · rw [hbefore] at hpast
      rw [hafter, List.map_append]
      exact hpast
    · rw [hown, h.own, hafter, hbefore, List.length_append]
      rfl
    · rw [hown] at hstop
      exact absurd (h.stopped hstop) hfull

theorem Told.sendSubscriptions_spec (h : Told hwms topics p) (more : List EventType) :
    ∃ p', sendSubscriptions more p = some p' ∧ Told hwms (topics ++ more) p' := by
  induction more generalizing topics p with
  | nil => exact ⟨p, rfl, by simpa using h⟩
  | cons topic more ih =>
      obtain ⟨p₁, hsend, h₁⟩ := h.step topic
      obtain ⟨p', hrest, h'⟩ := ih h₁
      exact ⟨p', by rw [sendSubscriptions, hsend]; exact hrest, by simpa using h'⟩

/-- A new pipe is sent the topics, and they are flushed. -/
theorem xattachPipe_spec {t : Trie} (happly : t.apply = some topics)
    (hpast : p.Past hwms true ⟨[], []⟩ [])
    (hnew : p.ends true = .new (hwms false) (hwms true)) :
    ∃ p', xattachPipe t p = some p' ∧ frames (p'.inpipe false).fifo.ready =
      (admitted (hwms true) topics).map fun topic => ⟨(SubMsg.subscribe topic).data, false⟩ := by
  have hnone : admitted (hwms true) [] = [] := admitted_of_room (.inr (Nat.zero_le _))
  have htold : Told hwms [] p := by
    refine ⟨?_, ?_, fun hstop => ?_⟩
    · rw [hnone]
      exact hpast
    · rw [hnone, hnew]
      rfl
    · rw [hnew] at hstop
      cases hstop
  obtain ⟨p₁, hsend, h₁⟩ := htold.sendSubscriptions_spec topics
  rw [List.nil_append] at h₁
  have hstate : (p₁.ends true).state = .active := by rw [h₁.own]; rfl
  have hfreed : (p₁.ends true).freed = false := by rw [h₁.own]; rfl
  obtain ⟨p', hflush, hpast', hown, hpeer, hcomplete⟩ :=
    h₁.past.flush hfreed (by rw [h₁.own]; rfl) hstate
  have hthere := hpast'.peer_not_freed (by rw [hown]; exact hstate) (by rw [hown]; exact hfreed)
  refine ⟨p', by rw [xattachPipe, happly]; simp [hsend, hflush], ?_⟩
  have hwire := hpast'.wire_eq hthere hcomplete
  rw [List.nil_append] at hwire
  refine hwire.trans ?_
  have hsingles := wire_singles ((admitted (hwms true) topics).map fun topic => 1 :: topic)
  rw [List.map_map, List.map_map] at hsingles
  exact hsingles

end

/-- **The trie of a socket holds its reference counts.** Whatever subscription messages a socket has
been given, no assertion fails, `dist_t` is given the same messages to pass on as by the counts, and
`check` lets a message through exactly if a topic with references is a prefix of it. The topics
with references, each once and in order, are what is sent to a pipe that is attached later, and as
many of them are there for its peer as the pipe has room for. -/
theorem xsend_all (msgs : List SubMsg) (hlt : msgs.length < 2 ^ 32) :
    ∃ t, xsendAll (msgs.map SubMsg.data) .empty =
        some (t, (xsubSendAll msgs fun _ => 0).2.map SubMsg.data) ∧
      (∀ title, t.check title =
        some (prefixMatch (fun topic => 0 < (xsubSendAll msgs fun _ => 0).1 topic) title)) ∧
      ∃ topics : List EventType, topics.Pairwise (· < ·) ∧
        (∀ topic, topic ∈ topics ↔ 0 < (xsubSendAll msgs fun _ => 0).1 topic) ∧
        ∀ (hwms : Bool → Nat) (p : PipePair Bytes), p.Past hwms true ⟨[], []⟩ [] →
          p.ends true = .new (hwms false) (hwms true) →
          ∃ p', xattachPipe t p = some p' ∧ frames (p'.inpipe false).fifo.ready =
            (admitted (hwms true) topics).map fun topic =>
              ⟨(SubMsg.subscribe topic).data, false⟩ := by
  have hzero : Trie.refs .empty = fun _ => 0 := funext Trie.refs_empty
  obtain ⟨t, hsend, hsound, hrefs⟩ := xsendAll_spec msgs Trie.sound_empty (n := 0)
    (fun topic => by simp) (by omega)
  rw [hzero] at hsend hrefs
  obtain ⟨topics, happly, hsorted, hmem⟩ := Trie.apply_spec hsound
  refine ⟨t, hsend, fun title => ?_, topics, hsorted, fun topic => ?_,
    fun hwms p hpast hnew => xattachPipe_spec happly hpast hnew⟩
  · rw [Trie.check_eq hsound, hrefs]
    rfl
  · rw [hmem, hrefs]

/-- Subscriptions to three topics, one of which is given up, and a pipe with room for one. -/
theorem xsend_all_shared : ∃ t p,
    xsendAll ([.subscribe [5, 7], .subscribe [5], .subscribe [9], .subscribe [5, 7],
      .unsubscribe [5]].map SubMsg.data) .empty =
        some (t, [[1, 5, 7], [1, 5], [1, 9], [1, 5, 7], [0, 5]]) ∧
      t.check [5, 7, 9] = some true ∧ t.check [5, 9] = some false ∧
      xattachPipe t (.new fun _ => 1) = some p ∧
      frames (p.inpipe false).fifo.ready = [⟨[1, 5, 7], false⟩] := by
  obtain ⟨t, hsend, hcheck, topics, hsorted, hmem, hattach⟩ :=
    xsend_all [.subscribe [5, 7], .subscribe [5], .subscribe [9], .subscribe [5, 7],
      .unsubscribe [5]] (by simp)
  obtain ⟨p, hp, hready⟩ := hattach (fun _ => 1) (.new fun _ => 1) PipePair.past_new rfl
  have htopics : topics = [[5, 7], [9]] := by
    refine List.Perm.eq_of_pairwise (fun _ _ _ _ h h' => absurd h (lt_asymm h')) hsorted
      (by decide) ?_
    refine (List.perm_ext_iff_of_nodup (hsorted.imp ne_of_lt) (by decide)).mpr fun topic => ?_
    rw [hmem]
    simp only [xsubSendAll, xsubSend, Function.update_apply]
    grind
  rw [htopics] at hready
  exact ⟨t, p, hsend, (hcheck [5, 7, 9]).trans (by decide), (hcheck [5, 9]).trans (by decide), hp,
    hready⟩

end XSub
end EventBus
