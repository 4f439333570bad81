import NoSpam.Mail.Frame
import NoSpam.Mail.Requeue
import NoSpam.Mail.Session

/-!
# Reply and disposition

What a request does that cannot be undone: the envelopes written to a qmail-queue that takes the
mail, and the lines printed.  Once the envelope is written the queue goes on by itself, whatever
becomes of the request.  The prefork daemon gives a request 300 seconds; when they are over,
`process_request` prints a reply of its own after whatever the request has done by then.  An alarm
that goes off inside one of the engines' own `eval` blocks only makes that engine fail.
-/

namespace NoSpam

open Text Perl Conf

/-- Something that cannot be undone: the envelope of a mail that qmail-queue takes has been written
to it, or a line has been printed. -/
inductive Effect
  | taken (envelope : Bytes)
  | printed (line : Bytes)
  deriving DecidableEq

/-- The lines printed. -/
def linesOf (es : List Effect) : List Bytes :=
  es.filterMap fun
    | .printed line => some line
    | .taken _ => none

/-- The envelopes taken. -/
def takenOf (es : List Effect) : List Bytes :=
  es.filterMap fun
    | .taken envelope => some envelope
    | .printed _ => none

/-- The reply says that the mail was refused: its exit code is not 0. -/
def Refusal (lines : List Bytes) : Prop := lines[2]? ≠ some (bytes "0\n")

/-- The lines are one reply. -/
def IsReply (lines : List Bytes) : Prop := ∃ code info exit, lines = replyLines code info exit

theorem IsReply.length {lines : List Bytes} (h : IsReply lines) : lines.length = 3 := by
  obtain ⟨code, info, exit, rfl⟩ := h
  rfl

namespace Mail

/-- The effects of `net_process_ex` in their order. -/
def effects (m : Mail) (r : Request) : List Effect :=
  ((m.netProcessEx r).sent.drop m.sent.length).map .taken ++
    (sendMailInfoEx (m.netProcessEx r).aka.resp).map .printed

/-- The reply of `process_request` after a timeout. -/
def timeoutResp : Resp := ⟨bytes "443", bytes "引擎超时", bytes "150"⟩

/-- `process_request`, when its alarm goes off after so many effects of the request, or not at
all. -/
def processRequest (m : Mail) (r : Request) : Option ℕ → List Effect
  | none => m.effects r
  | some k => (m.effects r).take k ++ (sendMailInfoEx timeoutResp).map .printed

/-- The lines that `net_process` prints. -/
def socketReply (m : Mail) (r : Request) : List Bytes :=
  sendMailInfo r.outside.tr m.licenseOk (m.netProcess r).aka.resp

/-- One reply, and when it is a refusal, nothing was taken. -/
def Consistent (es : List Effect) : Prop :=
  IsReply (linesOf es) ∧ (Refusal (linesOf es) → takenOf es = [])

/-- Both entry points send the same reply, a refused mail was not taken, and the same holds of the
prefork daemon when it is interrupted. -/
structure Agree (m : Mail) (r : Request) (alarm : Option ℕ) : Prop where
  same : m.socketReply r = sendMailInfoEx (m.netProcessEx r).aka.resp
  socket : Refusal (m.socketReply r) → (m.netProcess r).sent = m.sent
  daemon : Consistent (m.processRequest r none)
  interrupted : Consistent (m.processRequest r alarm)

/-! ## The reply lines -/

theorem refusal_sendMailInfoEx (resp : Resp) :
    Refusal (sendMailInfoEx resp) ↔ isTrue resp.exitCode = true := by
  have hline : (sendMailInfoEx resp)[2]? = some (orElse resp.exitCode (bytes "0") ++ [10]) := rfl
  have hzero : bytes "0\n" = [48] ++ [10] := by decide
  unfold Refusal
  rw [hline, hzero, ne_eq, Option.some.injEq, List.append_cancel_right_eq]
  unfold orElse
  split_ifs with h
  · simp only [h, iff_true]
    rintro h0
    rw [h0] at h
    exact absurd h (by decide)
  · simp only [h, Bool.false_eq_true, iff_false, not_not]
    decide

theorem isReply_sendMailInfoEx (resp : Resp) : IsReply (sendMailInfoEx resp) := ⟨_, _, _, rfl⟩

/-! ## What becomes of a mail -/

section Disposition

variable (o : Outside) (m : Mail)

theorem sent_qmailRequeue (q : QueueWorld) :
    (m.qmailRequeue q).sent = if q.Accepted then m.sent ++ [envelope m.aka] else m.sent := by
  unfold qmailRequeue
  cases q.qmailRequeue with
  | some f =>
    show (if q.Accepted then { m with sent := m.sent ++ [envelope m.aka] } else m : Mail).sent = _
    split_ifs <;> rfl
  | none =>
    dsimp only
    split_ifs <;> rfl

theorem sent_requeue :
    (m.requeue o).sent = if (queueFor o m).Accepted then m.sent ++ [envelope m.aka] else m.sent :=
  sent_qmailRequeue m (queueFor o m)

theorem resp_requeue :
    (m.requeue o).aka.resp =
      match (queueFor o m).qmailRequeue with
      | some f => ⟨decimal f.smtpCode, f.smtpInfo, decimal f.errcode⟩
      | none => m.aka.resp :=
  resp_qmailRequeue (queueFor o m) m

theorem actionRcpts_frame :
    (actionRcpts m).sent = m.sent ∧ (actionRcpts m).aka.resp = m.aka.resp := by
  unfold actionRcpts
  dsimp only
  split_ifs
  all_goals exact ⟨rfl, rfl⟩

theorem sent_act (e : Engine) : (m.act o e).sent = m.sent := by
  unfold act
  dsimp only
  split_ifs
  all_goals rfl

variable (recv : Bytes → Aka) (r : Request)

/-- The mail before the verdict. -/
def judged : Mail := ((m.receive recv r).start r.outside).runEngines r.outside

/-- The queue that a mail is handed to, unless an engine drops it. -/
def handed : Option QueueWorld :=
  match decider (m.judged recv r) with
  | some _ => none
  | none => some (queueFor r.outside (actionRcpts (m.judged recv r)))

theorem resp_start (hresp : (recv r.stdin).resp = {}) :
    ((m.receive recv r).start r.outside).aka.resp = {} := by
  rw [← hresp]
  unfold start getMailBaseInfo readEnvelope
  dsimp only
  split
  · rfl
  · split_ifs <;> rfl

theorem judged_frame (hresp : (recv r.stdin).resp = {}) :
    (m.judged recv r).sent = m.sent ∧ (m.judged recv r).aka.resp = {} := by
  have hframe := (runEngines_frame r.outside ((m.receive recv r).start r.outside)).1
  refine ⟨hframe.sent, ?_⟩
  unfold judged
  rw [hframe.aka]
  exact resp_start m recv r hresp

variable {m recv r} (hlic : m.licenseOk = true)
include hlic

theorem process_judged (order : HashOrder) :
    (m.receive recv r).process r.outside order = (m.judged recv r).verdict r.outside :=
  process_of_licensed r.outside (m := m.receive recv r) hlic order

variable (hresp : (recv r.stdin).resp = {})
include hresp

/-- A mail that an engine drops is not sent. -/
theorem sent_of_dropped (h : m.handed recv r = none) (order : HashOrder) :
    ((m.receive recv r).process r.outside order).sent = m.sent := by
  rw [process_judged hlic, verdict]
  unfold handed at h
  cases hd : decider (m.judged recv r) with
  | some e =>
    dsimp only
    rw [sent_act]
    exact (judged_frame m recv r hresp).1
  | none =>
    rw [hd] at h
    cases h

/-- A mail that is handed over is sent when the queue takes it, and the reply is that of
`qmail_requeue`. -/
theorem process_of_handed {q : QueueWorld} (h : m.handed recv r = some q) (order : HashOrder) :
    (∃ env, ((m.receive recv r).process r.outside order).sent =
        if q.Accepted then m.sent ++ [env] else m.sent) ∧
      ((m.receive recv r).process r.outside order).aka.resp =
        match q.qmailRequeue with
        | some f => ⟨decimal f.smtpCode, f.smtpInfo, decimal f.errcode⟩
        | none => {} := by
  obtain ⟨hsent, hresp'⟩ := judged_frame m recv r hresp
  obtain ⟨hsent', hresp''⟩ := actionRcpts_frame (m.judged recv r)
  rw [process_judged hlic, verdict]
  unfold handed at h
  cases hd : decider (m.judged recv r) with
  | some e =>
    rw [hd] at h
    cases h
  | none =>
    rw [hd] at h
    obtain rfl := Option.some.inj h
    dsimp only
    rw [sent_requeue, resp_requeue, hsent', hsent, hresp'', hresp']
    exact ⟨⟨_, rfl⟩, rfl⟩

end Disposition

end Mail

namespace QueueWorld

variable {q : QueueWorld}

theorem handedOver_iff_of_accepted (h : q.Accepted) : q.HandedOver ↔ q.closeEnvelope = true := by
  have hcalls : (q.pipe && q.fork && q.openMsg && q.openStdout && q.openQueue) = true := by
    by_contra hfail
    rw [Accepted, queueStatus, if_neg hfail] at h
    cases h
  simp only [Bool.and_eq_true] at hcalls
  obtain ⟨⟨⟨⟨hp, hf⟩, hm⟩, hs⟩, -⟩ := hcalls
  unfold HandedOver
  simp [hp, hf, hm, hs]

/-- The envelope pipe was closed without an error, or qmail-queue did not take the mail. -/
def Clear (q : QueueWorld) : Prop := q.Accepted → q.closeEnvelope = true

instance (q : QueueWorld) : Decidable q.Clear := inferInstanceAs (Decidable (_ → _))

theorem errcode_pos {f : Failure} (h : q.qmailRequeue = some f) :
    f.smtpCode = 451 ∧ 0 < f.errcode := by
  by_cases hover : q.HandedOver
  · rw [q.qmailRequeue_of_handedOver hover] at h
    cases h
  · obtain ⟨f', hf', hcode, herr⟩ := q.qmailRequeue_of_not_handedOver hover
    rw [hf'] at h
    obtain rfl := Option.some.inj h
    exact ⟨hcode, herr⟩

/-- A mail that was taken is answered as refused only after a failed close. -/
theorem clear_iff : q.Clear ↔ (q.qmailRequeue ≠ none → ¬ q.Accepted) := by
  constructor
  · intro hclear hfail ha
    exact hfail (q.qmailRequeue_of_handedOver ((handedOver_iff_of_accepted ha).2 (hclear ha)))
  · intro h ha
    by_contra hclose
    obtain ⟨f, hf, -⟩ := q.qmailRequeue_of_not_handedOver
      fun hover => hclose ((handedOver_iff_of_accepted ha).1 hover)
    exact h (by simp [hf]) ha

end QueueWorld

namespace Mail

section Reply

variable {m : Mail} {recv : Bytes → Aka} {r : Request} (hlic : m.licenseOk = true)
  (hresp : (recv r.stdin).resp = {})
include hlic hresp

theorem prefix_sent (order : HashOrder) :
    m.sent <+: ((m.receive recv r).process r.outside order).sent := by
  cases h : m.handed recv r with
  | none => rw [sent_of_dropped hlic hresp h]
  | some q =>
    obtain ⟨⟨env, hsent⟩, -⟩ := process_of_handed hlic hresp h order
    rw [hsent]
    split_ifs
    · exact List.prefix_append _ _
    · exact List.prefix_rfl

/-- A refused mail was not taken exactly when the queue it was handed to is clear. -/
theorem refused_not_taken_iff (order : HashOrder) :
    (isTrue ((m.receive recv r).process r.outside order).aka.resp.exitCode = true →
        ((m.receive recv r).process r.outside order).sent = m.sent) ↔
      ∀ q ∈ m.handed recv r, q.Clear := by
  cases h : m.handed recv r with
  | none =>
    rw [sent_of_dropped hlic hresp h]
    simp
  | some q =>
    obtain ⟨⟨env, hsent⟩, hreply⟩ := process_of_handed hlic hresp h order
    have htaken : (if q.Accepted then m.sent ++ [env] else m.sent) = m.sent ↔ ¬ q.Accepted := by
      split_ifs with ha <;> simp [ha]
    have hexit : isTrue ((m.receive recv r).process r.outside order).aka.resp.exitCode = true ↔
        q.qmailRequeue ≠ none := by
      rw [hreply]
      cases hq : q.qmailRequeue with
      | some f => simpa using isTrue_decimal (QueueWorld.errcode_pos hq).2
      | none => simp [Perl.isTrue]
    rw [hsent, htaken, hexit, ← QueueWorld.clear_iff]
    simp

end Reply

/-! ## Interruptions -/

section Effects

theorem linesOf_append (es es' : List Effect) : linesOf (es ++ es') = linesOf es ++ linesOf es' :=
  List.filterMap_append

theorem takenOf_append (es es' : List Effect) : takenOf (es ++ es') = takenOf es ++ takenOf es' :=
  List.filterMap_append

@[simp] theorem linesOf_printed (lines : List Bytes) : linesOf (lines.map .printed) = lines := by
  induction lines with
  | nil => rfl
  | cons l ls ih => exact congrArg (l :: ·) ih

@[simp] theorem takenOf_printed (lines : List Bytes) : takenOf (lines.map .printed) = [] := by
  induction lines with
  | nil => rfl
  | cons l ls ih => exact ih

@[simp] theorem linesOf_taken (envs : List Bytes) : linesOf (envs.map .taken) = [] := by
  induction envs with
  | nil => rfl
  | cons e es ih => exact ih

@[simp] theorem takenOf_taken (envs : List Bytes) : takenOf (envs.map .taken) = envs := by
  induction envs with
  | nil => rfl
  | cons e es ih => exact congrArg (e :: ·) ih

theorem eq_nil_of_no_effect {es : List Effect} (hl : linesOf es = []) (ht : takenOf es = []) :
    es = [] := by
  cases es with
  | nil => rfl
  | cons e es =>
    cases e with
    | printed line => exact absurd hl (List.cons_ne_nil _ _)
    | taken envelope => exact absurd ht (List.cons_ne_nil _ _)

variable (m : Mail) (r : Request)

theorem linesOf_effects : linesOf (m.effects r) = sendMailInfoEx (m.netProcessEx r).aka.resp := by
  rw [effects, linesOf_append, linesOf_taken, linesOf_printed, List.nil_append]

theorem takenOf_effects :
    takenOf (m.effects r) = (m.netProcessEx r).sent.drop m.sent.length := by
  rw [effects, takenOf_append, takenOf_taken, takenOf_printed, List.append_nil]

theorem effects_ne_nil : m.effects r ≠ [] := by
  intro h
  have hlines := linesOf_effects m r
  rw [h] at hlines
  cases hlines

/-- An interrupted request is consistent exactly when it has had no effect yet. -/
theorem consistent_interrupted_iff (k : ℕ) :
    Consistent (m.processRequest r (some k)) ↔ k = 0 := by
  have hlines : linesOf (m.processRequest r (some k)) =
      linesOf ((m.effects r).take k) ++ sendMailInfoEx timeoutResp := by
    rw [processRequest, linesOf_append, linesOf_printed]
  have htaken : takenOf (m.processRequest r (some k)) = takenOf ((m.effects r).take k) := by
    rw [processRequest, takenOf_append, takenOf_printed, List.append_nil]
  have hrefusal : Refusal (sendMailInfoEx timeoutResp) := (refusal_sendMailInfoEx _).2 (by decide)
  unfold Consistent
  rw [hlines, htaken]
  constructor
  · rintro ⟨hreply, hnone⟩
    have hlength := hreply.length
    have hthree : (sendMailInfoEx timeoutResp).length = 3 := rfl
    rw [List.length_append, hthree] at hlength
    have hnil : linesOf ((m.effects r).take k) = [] := List.length_eq_zero_iff.1 (by omega)
    rw [hnil, List.nil_append] at hnone
    have htake := eq_nil_of_no_effect hnil (hnone hrefusal)
    rcases List.take_eq_nil_iff.1 htake with rfl | hempty
    · rfl
    · exact absurd hempty (effects_ne_nil m r)
  · rintro rfl
    exact ⟨isReply_sendMailInfoEx _, fun _ => rfl⟩

/-- An uninterrupted request is consistent exactly when a refused mail was not taken. -/
theorem consistent_effects_iff (h : m.sent <+: (m.netProcessEx r).sent) :
    Consistent (m.processRequest r none) ↔
      (isTrue (m.netProcessEx r).aka.resp.exitCode = true → (m.netProcessEx r).sent = m.sent) := by
  unfold Consistent processRequest
  rw [linesOf_effects, takenOf_effects, refusal_sendMailInfoEx,
    and_iff_right (isReply_sendMailInfoEx _)]
  obtain ⟨l, hl⟩ := h
  rw [← hl, List.drop_left]
  simp

end Effects

/-! ## Agreement -/

/-- The envelope line has no white space, so that both entry points read the same. -/
def NoWhite (r : Request) : Prop := ∀ c ∈ (recvMailInfo r.stdin).fd1, isWhite c = false

instance (r : Request) : Decidable (NoWhite r) := List.decidableBAll _ _

/-- The licence is valid, the queue is clear, and the alarm does not go off, or goes off before the
request has had any effect. -/
structure Undisturbed (m : Mail) (r : Request) (alarm : Option ℕ) : Prop where
  license : m.licenseOk = true
  clear : ∀ q ∈ m.handed recvMailInfo r, q.Clear
  clear_ex : ∀ q ∈ m.handed recvMailInfoEx r, q.Clear
  early : alarm = none ∨ alarm = some 0

section Agreement

variable (m : Mail) (r : Request) (alarm : Option ℕ)

theorem recvMailInfoEx_of_noWhite (h : NoWhite r) :
    recvMailInfoEx r.stdin = recvMailInfo r.stdin := by
  have hfilter : (recvMailInfo r.stdin).fd1.filter (!isWhite ·) = (recvMailInfo r.stdin).fd1 :=
    List.filter_eq_self.2 fun c hc => by rw [h c hc, Bool.not_false]
  unfold recvMailInfoEx recvMailInfo recvLines at *
  dsimp only [id] at hfilter ⊢
  rw [hfilter]

/-- Without a licence the socket daemon answers 553 to a mail that it requeues. -/
theorem licenseOk_of_same (h : m.socketReply r = sendMailInfoEx (m.netProcessEx r).aka.resp) :
    m.licenseOk = true := by
  by_contra hlic
  rw [Bool.not_eq_true] at hlic
  have hcode : orElse (m.netProcessEx r).aka.resp.smtpCode [] ++ [10] = bytes "553\n" := by
    unfold socketReply sendMailInfo at h
    rw [hlic] at h
    exact (List.head_eq_of_cons_eq h).symm
  have hresp : (m.netProcessEx r).aka.resp =
      (((m.receive recvMailInfoEx r).start r.outside).requeue r.outside).aka.resp := by
    unfold netProcessEx
    rw [process_of_unlicensed r.outside (m := m.receive recvMailInfoEx r) hlic]
  rw [hresp, resp_requeue] at hcode
  cases hq : (queueFor r.outside ((m.receive recvMailInfoEx r).start r.outside)).qmailRequeue with
  | some f =>
    rw [hq] at hcode
    dsimp only at hcode
    rw [(QueueWorld.errcode_pos hq).1] at hcode
    exact absurd hcode (by decide)
  | none =>
    rw [hq] at hcode
    dsimp only at hcode
    rw [resp_start m recvMailInfoEx r rfl] at hcode
    exact absurd hcode (by decide)

end Agreement

instance (lines : List Bytes) : Decidable (Refusal lines) := inferInstanceAs (Decidable (_ ≠ _))

end Mail

end NoSpam
