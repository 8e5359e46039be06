import EventBus.MZmq.RoundTrip

/-!
# What a receiver tells its caller

The return value of the two single-message receivers is a size, a would-block or an error, all in
one `int`: a content of no bytes and an empty queue are both `0`. And the number of bytes that are
copied is that `int` as well, except for the content of `RecvMsgString`: a frame of more than
`INT_MAX` bytes is cut.
-/

namespace EventBus.MZmq

open Framing

/-! ## The three outcomes of a call -/

inductive Verdict
  | received | nothing | error
  deriving DecidableEq, Repr

/-- What became of a call: two frames were read, or none was there to read, or it failed. -/
def RecvCall.verdict (c : RecvCall) (s : RecvSocket) : Verdict :=
  match zmqMsgRecv c.first s with
  | .error e => if e = .EAGAIN then .nothing else .error
  | .ok (_, s₁) =>
      if s₁.rcvmore then
        match zmqMsgRecv c.second s₁ with
        | .error _ => .error
        | .ok _ => .received
      else .error

/-- The call reads a title `title` and a content `content`. -/
def RecvCall.Reads (c : RecvCall) (s : RecvSocket) (title content : Bytes) : Prop :=
  c.first = none ∧ c.second = none ∧
    ∃ more fs, s.frames = ⟨title, true⟩ :: ⟨content, more⟩ :: fs

section
variable {c c' : RecvCall} {s s' : RecvSocket} {title content : Bytes}

theorem RecvCall.Reads.exec (h : c.Reads s title content) :
    (c.exec s).rc = msgSize content ∧ (c.exec s).title = title.take (msgSize title) ∧
      (c.exec s).content = c.receiver.copy content := by
  obtain ⟨hfirst, hsecond, more, fs, hs⟩ := h
  rw [RecvCall.exec_eq, hfirst, hsecond, recvTwoFrames_pair hs rfl]
  exact ⟨rfl, rfl, rfl⟩

theorem verdict_eq_received_iff :
    c.verdict s = .received ↔ ∃ title content, c.Reads s title content := by
  obtain ⟨receiver, first, second⟩ := c
  obtain ⟨frames, rcvmore⟩ := s
  constructor
  · intro h
    cases first with
    | some e =>
        simp only [RecvCall.verdict, zmqMsgRecv] at h
        split at h <;> cases h
    | none =>
        cases frames with
        | nil => cases h
        | cons f fs =>
            obtain ⟨title, more⟩ := f
            cases more with
            | false => cases h
            | true =>
                cases second with
                | some e => cases h
                | none =>
                    cases fs with
                    | nil => cases h
                    | cons g fs => exact ⟨title, g.data, rfl, rfl, g.more, fs, rfl⟩
  · rintro ⟨title, content, hfirst, hsecond, more, fs, hs⟩
    simp only at hfirst hsecond hs
    rw [hfirst, hsecond, hs]
    rfl

theorem exec_of_nothing (h : c.verdict s = .nothing) : c.exec s = ⟨0, [], [], s⟩ := by
  rw [RecvCall.exec_eq]
  unfold RecvCall.verdict at h
  cases hrecv : zmqMsgRecv c.first s with
  | error e =>
      rw [hrecv] at h
      have he : e = .EAGAIN := by
        by_contra hne
        simp [hne] at h
      rw [recvTwoFrames_of_error hrecv, if_pos he]
  | ok r =>
      rw [hrecv] at h
      grind

theorem exec_rc_of_error (h : c.verdict s = .error) : (c.exec s).rc = -1 := by
  rw [RecvCall.exec_eq, recvTwoFrames]
  unfold RecvCall.verdict at h
  cases hrecv : zmqMsgRecv c.first s with
  | error e =>
      rw [hrecv] at h
      grind
  | ok r =>
      rw [hrecv] at h
      grind

end

/-! ## Telling the outcomes apart -/

/-- The caller can tell the two calls apart: different outcomes show different return values, and
what was received does not look like nothing. -/
def ToldApart (c : RecvCall) (s : RecvSocket) (c' : RecvCall) (s' : RecvSocket) : Prop :=
  (c.verdict s ≠ c'.verdict s' → (c.exec s).rc ≠ (c'.exec s').rc) ∧
  (c.verdict s = .received → c'.verdict s' = .nothing →
    ((c.exec s).rc, (c.exec s).title, (c.exec s).content) ≠
      ((c'.exec s').rc, (c'.exec s').title, (c'.exec s').content))

/-- One call receives an empty content and the other finds no message. -/
def LooksLikeNothing (c : RecvCall) (s : RecvSocket) (c' : RecvCall) (s' : RecvSocket) : Prop :=
  (∃ title, c.Reads s title []) ∧ zmqMsgRecv c'.first s' = .error .EAGAIN

theorem verdict_eq_nothing_iff {c : RecvCall} {s : RecvSocket} :
    c.verdict s = .nothing ↔ zmqMsgRecv c.first s = .error .EAGAIN := by
  unfold RecvCall.verdict
  cases zmqMsgRecv c.first s with
  | error e => simp
  | ok r => grind

/-- A call that received something returned a size, which is `0` only for an empty content. -/
theorem rc_of_received {c : RecvCall} {s : RecvSocket} (h : c.verdict s = .received) :
    0 ≤ (c.exec s).rc ∧ ((c.exec s).rc = 0 → ∃ title, c.Reads s title []) := by
  obtain ⟨title, content, hreads⟩ := verdict_eq_received_iff.mp h
  rw [hreads.exec.1]
  refine ⟨by simp, fun hzero => ⟨title, ?_⟩⟩
  have hlen : content.length = 0 := by
    unfold msgSize INT_MAX at hzero
    omega
  rwa [List.eq_nil_of_length_eq_zero hlen] at hreads

theorem rc_of_nothing {c : RecvCall} {s : RecvSocket} (h : c.verdict s = .nothing) :
    (c.exec s).rc = 0 := congrArg Received.rc (exec_of_nothing h)

theorem rc_of_looksLikeNothing {c c' : RecvCall} {s s' : RecvSocket}
    (h : LooksLikeNothing c s c' s') :
    c.verdict s = .received ∧ c'.verdict s' = .nothing ∧ (c.exec s).rc = (c'.exec s').rc := by
  obtain ⟨⟨title, hreads⟩, hnothing⟩ := h
  have hnothing := verdict_eq_nothing_iff.mpr hnothing
  refine ⟨verdict_eq_received_iff.mpr ⟨title, [], hreads⟩, hnothing, ?_⟩
  rw [hreads.exec.1, rc_of_nothing hnothing]
  rfl

/-- A message and its absence show the same return value only for an empty content. -/
theorem looksLikeNothing_of_rc_eq {c c' : RecvCall} {s s' : RecvSocket}
    (hv : c.verdict s = .received) (hv' : c'.verdict s' = .nothing)
    (hsame : (c.exec s).rc = (c'.exec s').rc) : LooksLikeNothing c s c' s' := by
  obtain ⟨-, hzero⟩ := rc_of_received hv
  exact ⟨hzero (hsame.trans (rc_of_nothing hv')), verdict_eq_nothing_iff.mp hv'⟩

/-- No call that fails shows what a call shows that does not. -/
theorem rc_ne_of_error {c c' : RecvCall} {s s' : RecvSocket} (h : c.verdict s = .error)
    (h' : c'.verdict s' ≠ .error) : (c.exec s).rc ≠ (c'.exec s').rc := by
  rw [exec_rc_of_error h]
  cases hv' : c'.verdict s' with
  | received =>
      obtain ⟨hpos, -⟩ := rc_of_received hv'
      omega
  | nothing =>
      rw [rc_of_nothing hv']
      decide
  | error => exact absurd hv' h'

/-- **Two calls can be told apart exactly if** it is not the case that one of them receives an empty
content while the other finds no message. -/
theorem toldApart_iff (c c' : RecvCall) (s s' : RecvSocket) :
    ToldApart c s c' s' ↔ ¬ LooksLikeNothing c s c' s' ∧ ¬ LooksLikeNothing c' s' c s := by
  constructor
  · rintro ⟨hrc, -⟩
    constructor
    · intro hbad
      obtain ⟨hv, hv', hsame⟩ := rc_of_looksLikeNothing hbad
      exact hrc (by simp [hv, hv']) hsame
    · intro hbad
      obtain ⟨hv', hv, hsame⟩ := rc_of_looksLikeNothing hbad
      exact hrc (by simp [hv, hv']) hsame.symm
  · rintro ⟨hbad, hbad'⟩
    have hrc : c.verdict s ≠ c'.verdict s' → (c.exec s).rc ≠ (c'.exec s').rc := by
      intro hne hsame
      cases hv : c.verdict s with
      | received =>
          cases hv' : c'.verdict s' with
          | received => exact hne (hv.trans hv'.symm)
          | nothing => exact hbad (looksLikeNothing_of_rc_eq hv hv' hsame)
          | error => exact rc_ne_of_error hv' (by simp [hv]) hsame.symm
      | nothing =>
          cases hv' : c'.verdict s' with
          | received => exact hbad' (looksLikeNothing_of_rc_eq hv' hv hsame.symm)
          | nothing => exact hne (hv.trans hv'.symm)
          | error => exact rc_ne_of_error hv' (by simp [hv]) hsame.symm
      | error => exact rc_ne_of_error hv (fun hv' => hne (hv.trans hv'.symm)) hsame
    refine ⟨hrc, fun hv hv' hsame => hrc ?_ (congrArg Prod.fst hsame)⟩
    rw [hv, hv']
    decide

/-- An event without title and content is received as if there had been none. -/
theorem not_toldApart_empty_event :
    ¬ ToldApart recvEvent (.ofMessages (publishEvent none none [] [] .fresh).messages)
      recvEvent (.ofMessages []) := by
  rintro ⟨-, htriple⟩
  exact htriple (by decide) (by decide) (by decide)

/-! ## Frames of `2 ^ 31` bytes and more -/

/-- `RecvEventEntity` and `RecvMsgString` do the same with what is waiting, and hand back whole
frames if they succeed. -/
def AgreeWhole (o₁ o₂ : Outcome) (s : RecvSocket) : Prop :=
  recvEventEntity o₁ o₂ s = recvMsgString o₁ o₂ s ∧
  ∀ receiver title content, (RecvCall.mk receiver o₁ o₂).Reads s title content →
    ((RecvCall.mk receiver o₁ o₂).exec s).title = title ∧
      ((RecvCall.mk receiver o₁ o₂).exec s).content = content

theorem take_msgSize_ne_of_gt {msg : Bytes} (h : INT_MAX < msg.length) :
    msg.take (msgSize msg) ≠ msg := by
  intro hsame
  have hlen := congrArg List.length hsame
  rw [List.length_take] at hlen
  unfold msgSize at hlen
  omega

theorem take_msgSize_of_le {msg : Bytes} (h : msg.length ≤ INT_MAX) :
    msg.take (msgSize msg) = msg :=
  take_msgSize_of_lt (by unfold INT_MAX at h; omega)

/-- The two receivers differ at most in the content, and only if they read one. -/
theorem recvTwoFrames_congr {copy copy' : Bytes → Bytes} {o₁ o₂ : Outcome} {s : RecvSocket}
    (h : ∀ title content, (RecvCall.mk .eventEntity o₁ o₂).Reads s title content →
      copy content = copy' content) :
    recvTwoFrames copy o₁ o₂ s = recvTwoFrames copy' o₁ o₂ s := by
  cases hv : (RecvCall.mk .eventEntity o₁ o₂).verdict s with
  | received =>
      obtain ⟨title, content, hreads⟩ := verdict_eq_received_iff.mp hv
      have hcopy := h title content hreads
      obtain ⟨rfl, rfl, more, fs, hs⟩ := hreads
      rw [recvTwoFrames_pair hs rfl, recvTwoFrames_pair hs rfl, hcopy]
  | nothing =>
      rw [recvTwoFrames_of_error (verdict_eq_nothing_iff.mp hv),
        recvTwoFrames_of_error (verdict_eq_nothing_iff.mp hv)]
  | error =>
      unfold RecvCall.verdict at hv
      unfold recvTwoFrames
      grind

/-- **The two receivers agree and deliver whole frames exactly if** neither of the two frames they
read is longer than `INT_MAX` bytes. -/
theorem agreeWhole_iff (o₁ o₂ : Outcome) (s : RecvSocket) :
    AgreeWhole o₁ o₂ s ↔
      ∀ title content, (RecvCall.mk .eventEntity o₁ o₂).Reads s title content →
        title.length ≤ INT_MAX ∧ content.length ≤ INT_MAX := by
  constructor
  · rintro ⟨-, hwhole⟩ title content hreads
    obtain ⟨htitle, hcontent⟩ := hwhole .eventEntity title content hreads
    rw [hreads.exec.2.1] at htitle
    rw [hreads.exec.2.2] at hcontent
    exact ⟨by_contra fun hlt => take_msgSize_ne_of_gt (by omega) htitle,
      by_contra fun hlt => take_msgSize_ne_of_gt (by omega) hcontent⟩
  · intro hshort
    refine ⟨recvTwoFrames_congr fun title content hreads => ?_, ?_⟩
    · exact take_msgSize_of_le (hshort title content hreads).2
    · intro receiver title content hreads
      obtain ⟨htitle, hcontent⟩ := hshort title content hreads
      refine ⟨hreads.exec.2.1.trans (take_msgSize_of_le htitle), hreads.exec.2.2.trans ?_⟩
      cases receiver with
      | eventEntity => exact take_msgSize_of_le hcontent
      | msgString => rfl

/-- A content of `2 ^ 31` zero bytes: `RecvEventEntity` drops the last one. -/
theorem not_agreeWhole_large :
    ¬ AgreeWhole none none ⟨[⟨[], true⟩, ⟨List.replicate (2 ^ 31) 0, false⟩], false⟩ := by
  rintro ⟨-, hwhole⟩
  have hreads : (RecvCall.mk .eventEntity none none).Reads
      ⟨[⟨[], true⟩, ⟨List.replicate (2 ^ 31) 0, false⟩], false⟩ [] (List.replicate (2 ^ 31) 0) :=
    ⟨rfl, rfl, false, [], rfl⟩
  have hcontent := (hwhole .eventEntity _ _ hreads).2
  rw [hreads.exec.2.2] at hcontent
  refine take_msgSize_ne_of_gt ?_ hcontent
  rw [List.length_replicate]
  decide

end EventBus.MZmq
