import EventBus.MZmq.RoundTrip

/-!
# The string senders

`SendMsgStrings` and `Send3PartStrings` put a single zero byte in the place of an empty content, and
nothing in the place of an empty middle part. Neither substitution is undone or marked: a receiver
cannot tell an empty content from one zero byte, nor a message of three parts without its middle
from one of two.
-/

namespace EventBus.MZmq

open Framing

/-! ## What the senders put on the wire -/

/-- The message of a title and a content. -/
def stringsMessage (title content : Bytes) : Message Bytes := ⟨title, [stringPayload content]⟩

/-- The message of a title, a middle part and a content. -/
def threePartMessage (title title1 content : Bytes) : Message Bytes :=
  ⟨title, (if title1.isEmpty then [] else [title1]) ++ [stringPayload content]⟩

theorem sendMsgStrings_ok (title content : Bytes) (ms : List (Message Bytes)) :
    sendMsgStrings none none title content ⟨[], ms⟩ =
      (↑(msgSize (stringPayload content)), ⟨[], ms ++ [stringsMessage title content]⟩) := by
  have hrc : ¬ ((msgSize title : Int) < 0) := by omega
  simp [sendMsgStrings, sendFrames, zmqMsgSend, hrc, Message.close, stringsMessage]

theorem send3PartStrings_ok (title title1 content : Bytes) (ms : List (Message Bytes)) :
    send3PartStrings none none none title title1 content ⟨[], ms⟩ =
      (↑(msgSize (stringPayload content)), ⟨[], ms ++ [threePartMessage title title1 content]⟩) := by
  have hrc : ¬ ((msgSize title : Int) < 0) := by omega
  have hrc₁ : ¬ ((msgSize title1 : Int) < 0) := by omega
  cases title1 with
  | nil =>
      simp [send3PartStrings, sendFrames, zmqMsgSend, hrc, Message.close, threePartMessage]
  | cons b bs =>
      simp [send3PartStrings, sendFrames, zmqMsgSend, hrc, hrc₁, Message.close, threePartMessage]

/-- Two contents that look alike on the wire are the same, or one is empty and the other is a single
zero byte. -/
theorem stringPayload_eq_iff {content content' : Bytes} :
    stringPayload content = stringPayload content' ↔
      content = content' ∨ (content = [] ∧ content' = [0]) ∨ (content = [0] ∧ content' = []) := by
  cases content with
  | nil =>
      cases content' with
      | nil => simp
      | cons b bs => simp [stringPayload, eq_comm]
  | cons b bs =>
      cases content' with
      | nil => simp [stringPayload]
      | cons b' bs' => simp [stringPayload]

/-! ## `RecvMsgString` after `SendMsgStrings` -/

/-- Successful `SendMsgStrings` calls in a row. -/
def sendStringsAll (pairs : List (Bytes × Bytes)) (s : SendSocket) : SendSocket :=
  pairs.foldl (fun s e => (sendMsgStrings none none e.1 e.2 s).2) s

/-- A `RecvMsgString` call both of whose `zmq_msg_recv` calls go through if a frame is there. -/
def recvString : RecvCall := ⟨.msgString, none, none⟩

/-- What as many `RecvMsgString` calls return for the pairs sent. -/
def arrived (pairs : List (Bytes × Bytes)) : List (Bytes × Bytes) :=
  (recvCalls (List.replicate pairs.length recvString)
    (.ofMessages (sendStringsAll pairs .fresh).messages)).map (fun r => (r.title, r.content))

theorem sendStringsAll_eq (pairs : List (Bytes × Bytes)) (ms : List (Message Bytes)) :
    sendStringsAll pairs ⟨[], ms⟩ = ⟨[], ms ++ pairs.map (fun e => stringsMessage e.1 e.2)⟩ := by
  induction pairs generalizing ms with
  | nil => simp [sendStringsAll]
  | cons e es ih =>
      show sendStringsAll es (sendMsgStrings none none e.1 e.2 ⟨[], ms⟩).2 = _
      rw [sendMsgStrings_ok, ih]
      simp

theorem recvString_exec (title content : Bytes) (ms : List (Message Bytes)) :
    recvString.exec (.ofMessages (stringsMessage title content :: ms)) =
      ⟨msgSize (stringPayload content), title.take (msgSize title), stringPayload content,
        .ofMessages ms⟩ := by
  have hframes : (RecvSocket.ofMessages (stringsMessage title content :: ms)).frames =
      ⟨title, true⟩ :: ⟨stringPayload content, false⟩ :: wire ms := by
    simp [RecvSocket.ofMessages, stringsMessage, Message.frames, framesOf]
  exact recvTwoFrames_pair hframes rfl

/-- Each pair arrives with its content as it went over the wire. -/
theorem recvCalls_strings {pairs : List (Bytes × Bytes)}
    (hshort : ∀ e ∈ pairs, e.1.length < 2 ^ 31) :
    (recvCalls (List.replicate pairs.length recvString)
        (.ofMessages (pairs.map (fun e => stringsMessage e.1 e.2)))).map
          (fun r => (r.title, r.content)) =
      pairs.map (fun e => (e.1, stringPayload e.2)) := by
  induction pairs with
  | nil => rfl
  | cons e es ih =>
      have htitle : e.1.take (msgSize e.1) = e.1 :=
        take_msgSize_of_lt (hshort e List.mem_cons_self)
      have hnext : recvString.next (.ofMessages ((e :: es).map
          (fun e => stringsMessage e.1 e.2))) =
            .ofMessages (es.map (fun e => stringsMessage e.1 e.2)) := by
        rw [RecvCall.next, List.map_cons, recvString_exec]
      rw [List.length_cons, List.replicate_succ, recvCalls, hnext, List.map_cons,
        ih fun e' he' => hshort e' (List.mem_cons_of_mem e he'), List.map_cons, recvString_exec,
        htitle, List.map_cons]

theorem arrived_eq {pairs : List (Bytes × Bytes)} (hshort : ∀ e ∈ pairs, e.1.length < 2 ^ 31) :
    arrived pairs = pairs.map (fun e => (e.1, stringPayload e.2)) := by
  rw [arrived, SendSocket.fresh, sendStringsAll_eq, List.nil_append, recvCalls_strings hshort]

/-- A content that is neither empty nor one zero byte is the only one that looks as it does. -/
theorem eq_of_stringPayload_eq {content content' : Bytes} (hne : content ≠ [])
    (hzero : content ≠ [0]) (h : stringPayload content = stringPayload content') :
    content = content' := by
  rcases stringPayload_eq_iff.mp h with heq | ⟨hnil, -⟩ | ⟨h0, -⟩
  · exact heq
  · exact absurd hnil hne
  · exact absurd h0 hzero

/-- The content that looks the same on the wire although it is another one. -/
theorem exists_ne_stringPayload_eq {content : Bytes} (h : content = [] ∨ content = [0]) :
    ∃ content' : Bytes, content'.length ≤ 1 ∧ content' ≠ content ∧
      stringPayload content' = stringPayload content := by
  rcases h with rfl | rfl
  · exact ⟨[0], by decide, by decide, rfl⟩
  · exact ⟨[], by decide, by decide, rfl⟩

/-- What arrives for such contents arrives for nothing else. -/
theorem eq_of_map_payload_eq {pairs pairs' : List (Bytes × Bytes)}
    (h : ∀ e ∈ pairs, e.2 ≠ [] ∧ e.2 ≠ [0])
    (hmap : pairs'.map (fun e => (e.1, stringPayload e.2)) =
      pairs.map (fun e => (e.1, stringPayload e.2))) : pairs' = pairs := by
  induction pairs generalizing pairs' with
  | nil => exact List.map_eq_nil_iff.mp hmap
  | cons e es ih =>
      obtain ⟨e', es', rfl, hhead, htail⟩ := List.map_eq_cons_iff.mp hmap
      obtain ⟨⟨hne, hzero⟩, hrest⟩ := List.forall_mem_cons.mp h
      obtain ⟨htitle, hpayload⟩ := Prod.mk.inj hhead
      have hcontent : e.2 = e'.2 := eq_of_stringPayload_eq hne hzero hpayload.symm
      rw [ih hrest htail, Prod.ext htitle hcontent.symm]

theorem map_payload_eq_self {pairs : List (Bytes × Bytes)} :
    pairs.map (fun e => (e.1, stringPayload e.2)) = pairs ↔ ∀ e ∈ pairs, e.2 ≠ [] := by
  constructor
  · intro h e he hnil
    have hfix : (e.1, stringPayload e.2) = e := by
      have hid : pairs.map (fun e => (e.1, stringPayload e.2)) = pairs.map id := by
        rw [List.map_id, h]
      exact List.map_inj_left.mp hid e he
    have hpayload : stringPayload e.2 = e.2 := congrArg Prod.snd hfix
    rw [hnil] at hpayload
    cases hpayload
  · intro h
    calc pairs.map (fun e => (e.1, stringPayload e.2))
        = pairs.map id := by
          refine List.map_congr_left fun e he => ?_
          rw [stringPayload, if_neg (by simpa using h e he)]
          rfl
      _ = pairs := List.map_id pairs

/-- A list with a content that looks like another one looks like another list: the same one with
that content replaced. -/
theorem exists_ne_map_payload_eq {pairs : List (Bytes × Bytes)}
    (hshort : ∀ e ∈ pairs, e.1.length < 2 ^ 31 ∧ e.2.length < 2 ^ 31) {e : Bytes × Bytes}
    (he : e ∈ pairs) (hblank : e.2 = [] ∨ e.2 = [0]) :
    ∃ pairs' : List (Bytes × Bytes),
      (∀ e ∈ pairs', e.1.length < 2 ^ 31 ∧ e.2.length < 2 ^ 31) ∧ pairs' ≠ pairs ∧
      pairs'.map (fun e => (e.1, stringPayload e.2)) =
        pairs.map (fun e => (e.1, stringPayload e.2)) := by
  obtain ⟨content', hlen, hne, hsame⟩ := exists_ne_stringPayload_eq hblank
  obtain ⟨before, after, rfl⟩ := List.append_of_mem he
  refine ⟨before ++ (e.1, content') :: after, ?_, ?_, by simp [hsame]⟩
  · intro e' he'
    rcases List.mem_append.mp he' with he' | he'
    · exact hshort e' (List.mem_append_left _ he')
    · rcases List.mem_cons.mp he' with rfl | he'
      · exact ⟨(hshort e he).1, Nat.lt_of_le_of_lt hlen (by decide)⟩
      · exact hshort e' (List.mem_append_right _ (List.mem_cons_of_mem _ he'))
  · intro hreplaced
    have hsecond := List.append_cancel_left hreplaced
    exact hne (congrArg Prod.snd (List.cons.inj hsecond).1)

/-- **`RecvMsgString` undoes `SendMsgStrings` exactly on** the lists without an empty content; and
what arrives tells a list from every other list exactly if no content is empty or a single zero
byte. -/
theorem arrived_eq_self_iff (pairs : List (Bytes × Bytes))
    (hshort : ∀ e ∈ pairs, e.1.length < 2 ^ 31 ∧ e.2.length < 2 ^ 31) :
    (arrived pairs = pairs ↔ ∀ e ∈ pairs, e.2 ≠ []) ∧
    ((∀ pairs' : List (Bytes × Bytes),
        (∀ e ∈ pairs', e.1.length < 2 ^ 31 ∧ e.2.length < 2 ^ 31) →
        arrived pairs' = arrived pairs → pairs' = pairs) ↔
      ∀ e ∈ pairs, e.2 ≠ [] ∧ e.2 ≠ [0]) := by
  have harrived := arrived_eq fun e he => (hshort e he).1
  constructor
  · rw [harrived]
    exact map_payload_eq_self
  · constructor
    · intro h e he
      by_contra hbad
      have hblank : e.2 = [] ∨ e.2 = [0] := by grind
      obtain ⟨pairs', hshort', hne, hsame⟩ := exists_ne_map_payload_eq hshort he hblank
      apply hne
      apply h pairs' hshort'
      rw [harrived, arrived_eq fun e' he' => (hshort' e' he').1, hsame]
    · intro h pairs' hshort' harr
      rw [harrived, arrived_eq fun e he => (hshort' e he).1] at harr
      exact eq_of_map_payload_eq h harr

theorem arrived_eq_self_iff_witness :
    arrived [([], [1]), ([2], [0])] = [([], [1]), ([2], [0])] :=
  (arrived_eq_self_iff [([], [1]), ([2], [0])] (by decide)).1.mpr (by decide)

/-- An empty content arrives as a single zero byte, and so does a single zero byte. -/
theorem not_arrived_eq_self :
    arrived [([1], [])] ≠ [([1], [])] ∧ arrived [([1], [])] = arrived [([1], [0])] := by
  decide

/-! ## `Send3PartStrings` as an encoding -/

/-- The frames a successful `SendMsgStrings` call sends. -/
def stringsFrames (title content : Bytes) : List (Frame Bytes) :=
  wire (sendMsgStrings none none title content .fresh).2.messages

/-- The frames a successful `Send3PartStrings` call sends. -/
def threePartFrames (title title1 content : Bytes) : List (Frame Bytes) :=
  wire (send3PartStrings none none none title title1 content .fresh).2.messages

theorem stringsFrames_eq (title content : Bytes) :
    stringsFrames title content = (stringsMessage title content).frames := by
  rw [stringsFrames, SendSocket.fresh, sendMsgStrings_ok]
  simp

theorem threePartFrames_eq (title title1 content : Bytes) :
    threePartFrames title title1 content = (threePartMessage title title1 content).frames := by
  rw [threePartFrames, SendSocket.fresh, send3PartStrings_ok]
  simp

/-- The triple can be read off the frames sent for it, which are one message of three parts and not
what `SendMsgStrings` sends for any pair. -/
def Unambiguous (title title1 content : Bytes) : Prop :=
  (∀ title' title1' content', threePartFrames title' title1' content' =
      threePartFrames title title1 content →
    title' = title ∧ title1' = title1 ∧ content' = content) ∧
  (∃ m : Message Bytes, threePartFrames title title1 content = m.frames ∧ m.parts.length = 3) ∧
  ∀ title' content', threePartFrames title title1 content ≠ stringsFrames title' content'

theorem threePartMessage_nil (title content : Bytes) :
    threePartMessage title [] content = stringsMessage title content := rfl

theorem threePartMessage_of_ne {title1 : Bytes} (h : title1 ≠ []) (title content : Bytes) :
    threePartMessage title title1 content = ⟨title, [title1, stringPayload content]⟩ := by
  rw [threePartMessage, if_neg (by simpa using h)]
  rfl

/-- **`Send3PartStrings` is unambiguous exactly on** the triples whose middle part is not empty and
whose content is neither empty nor a single zero byte. -/
theorem unambiguous_iff (title title1 content : Bytes) :
    Unambiguous title title1 content ↔ title1 ≠ [] ∧ content ≠ [] ∧ content ≠ [0] := by
  constructor
  · rintro ⟨hinj, -, hstrings⟩
    refine ⟨?_, not_or.mp ?_⟩
    · rintro rfl
      apply hstrings title content
      rw [threePartFrames_eq, stringsFrames_eq, threePartMessage_nil]
    · intro hbad
      obtain ⟨content', -, hne, hsame⟩ := exists_ne_stringPayload_eq hbad
      apply hne
      refine (hinj title title1 content' ?_).2.2
      rw [threePartFrames_eq, threePartFrames_eq, threePartMessage, threePartMessage, hsame]
  · rintro ⟨hne₁, hne, hzero⟩
    have hframes : threePartFrames title title1 content =
        Message.frames ⟨title, [title1, stringPayload content]⟩ := by
      rw [threePartFrames_eq, threePartMessage_of_ne hne₁]
    refine ⟨?_, ⟨_, hframes, rfl⟩, ?_⟩
    · intro title' title1' content' heq
      rw [hframes, threePartFrames_eq] at heq
      have hmessage := frames_injective heq
      cases title1' with
      | nil =>
          -- two parts on one side, three on the other
          cases congrArg (fun m => m.rest.length) hmessage
      | cons b bs =>
          rw [threePartMessage_of_ne (List.cons_ne_nil b bs)] at hmessage
          simp only [Message.mk.injEq, List.cons.injEq, and_true] at hmessage
          obtain ⟨htitle, htitle1, hpayload⟩ := hmessage
          exact ⟨htitle, htitle1, (eq_of_stringPayload_eq hne hzero hpayload.symm).symm⟩
    · intro title' content' heq
      rw [hframes, stringsFrames_eq] at heq
      cases congrArg (fun m => m.rest.length) (frames_injective heq)

/-- Without its middle part a triple is sent as the pair of the other two; and an empty content is
sent as a single zero byte is. -/
theorem not_unambiguous : ¬ Unambiguous [1] [] [2] ∧ ¬ Unambiguous [1] [2] [] := by
  constructor
  · rintro ⟨-, -, hstrings⟩
    exact hstrings [1] [2] (by decide)
  · rintro ⟨hinj, -⟩
    exact absurd (hinj [1] [2] [0] (by decide)).2.2 (by decide)

end EventBus.MZmq
