import NoSpam.Conf

/-!
# Handing a mail to qmail-queue

The two processes of `AKA::Mail::qmail_requeue`: the child opens the message and runs
`write_queue`, which pipes it into qmail-queue; the parent writes the envelope, waits for the child
and answers from the child's status.  `Truthful` says what the answer should tell about
qmail-queue.
-/

namespace NoSpam

open Text Perl

/-- How a process ends. -/
inductive WaitStatus
  | exited (code : UInt8)
  | signaled (signal : ℕ)
  deriving DecidableEq

/-- `$? >> 8`. -/
def WaitStatus.status : WaitStatus → UInt8
  | exited code => code
  | signaled _ => 0

/-- How the attempt to hand over a mail goes: which of the calls that can fail succeed, how
qmail-queue ends when it is started, and the text of `$!`. -/
structure QueueWorld where
  pipe : Bool := true
  fork : Bool := true
  closeEnvelope : Bool := true
  openMsg : Bool := true
  openStdout : Bool := true
  openQueue : Bool := true
  ended : WaitStatus := .exited 0
  errno : Bytes := []
  deriving DecidableEq

/-- A failure reported by `close_smtp`: code, text and error code. -/
structure Failure where
  smtpCode : ℕ
  smtpInfo : Bytes
  errcode : ℕ
  deriving DecidableEq

namespace QueueWorld

variable (q : QueueWorld)

/-- The status of qmail-queue, when it was started. -/
def queueStatus : Option WaitStatus :=
  if q.pipe && q.fork && q.openMsg && q.openStdout && q.openQueue then some q.ended else none

/-- qmail-queue took the mail. -/
def Accepted : Prop := q.queueStatus = some (.exited 0)

/-- qmail-queue refused the mail for good. -/
def Refused : Prop := ∃ code : UInt8, q.queueStatus = some (.exited code) ∧ 10 < code ∧ code < 41

instance : Decidable q.Accepted := inferInstanceAs (Decidable (_ = _))

/-- The answer to a status, as both `qmail_requeue` and `write_queue` give it. -/
def failureOf (temporary : Bytes) (xstatus : UInt8) : Option Failure :=
  if 10 < xstatus && xstatus < 41 then
    some ⟨553, bytes "mail server permanently rejected message. (#5.3.0) - " ++ q.errno,
      xstatus.toNat⟩
  else if 0 < xstatus then
    some ⟨451, temporary ++ decimal xstatus.toNat ++ bytes "] (#4.3.0) - " ++ q.errno,
      xstatus.toNat⟩
  else none

/-- `write_queue`: the failure it reports to its own process. -/
def writeQueue : Option Failure :=
  if !q.openQueue then
    some ⟨451, bytes "Unable to open pipe to mailqueue (#4.3.0) - " ++ q.errno, 150⟩
  else q.failureOf (bytes "Unable to open pipe to mailqueue [") q.ended.status

/-- The child of `qmail_requeue`.  After `write_queue`, whatever that reported, it exits with 0. -/
def child : WaitStatus :=
  if !q.openMsg then .exited 255
  else if !q.openStdout then .exited 255
  else
    let _ := q.writeQueue
    .exited 0

/-- The failure that `qmail_requeue` answers with, if any. -/
def qmailRequeue : Option Failure :=
  if !q.pipe then some ⟨451, bytes "Unable to create a pipe. - " ++ q.errno, 150⟩
  else if !q.fork then some ⟨451, bytes "Unable to fork. (#4.3.0) - " ++ q.errno, 150⟩
  else if !q.closeEnvelope then
    some ⟨451, bytes "Write error to envelope pipe. (#4.3.0) - " ++ q.errno, 150⟩
  else q.failureOf (bytes "Unable to close pipe to mailqueue [") q.child.status

/-! ## What the answer depends on -/

/-- Both processes got through to qmail-queue, or to the attempt to start it. -/
def HandedOver : Prop :=
  q.pipe = true ∧ q.fork = true ∧ q.closeEnvelope = true ∧ q.openMsg = true ∧ q.openStdout = true

instance : Decidable q.HandedOver := inferInstanceAs (Decidable (_ ∧ _))

theorem child_of_opened (hm : q.openMsg = true) (hs : q.openStdout = true) :
    q.child = .exited 0 := by
  simp [child, hm, hs]

theorem child_of_not_opened (h : ¬ (q.openMsg = true ∧ q.openStdout = true)) :
    q.child = .exited 255 := by
  unfold child
  split_ifs with hm hs
  · rfl
  · rfl
  · simp_all

/-- Nothing that happens after the hand-over reaches the answer. -/
theorem qmailRequeue_of_handedOver (h : q.HandedOver) : q.qmailRequeue = none := by
  obtain ⟨hp, hf, hc, hm, hs⟩ := h
  simp [qmailRequeue, hp, hf, hc, child_of_opened q hm hs, failureOf, WaitStatus.status]

/-- A failure before the hand-over is answered with a temporary failure, whatever it was. -/
theorem qmailRequeue_of_not_handedOver (h : ¬ q.HandedOver) :
    ∃ f, q.qmailRequeue = some f ∧ f.smtpCode = 451 ∧ 0 < f.errcode := by
  unfold qmailRequeue
  by_cases hp : q.pipe = true
  · by_cases hf : q.fork = true
    · by_cases hc : q.closeEnvelope = true
      · have hopen : ¬ (q.openMsg = true ∧ q.openStdout = true) :=
          fun hms => h ⟨hp, hf, hc, hms⟩
        simp [hp, hf, hc, child_of_not_opened q hopen, failureOf, WaitStatus.status]
      · simp [hp, hf, hc]
    · simp [hp, hf]
  · simp [hp]

theorem accepted_of_handedOver (h : q.HandedOver) :
    q.Accepted ↔ q.openQueue = true ∧ q.ended = .exited 0 := by
  obtain ⟨hp, hf, -, hm, hs⟩ := h
  by_cases ho : q.openQueue = true <;> simp [Accepted, queueStatus, hp, hf, hm, hs, ho]

theorem not_refused_of_accepted (h : q.Accepted) : ¬ q.Refused := by
  rintro ⟨code, hcode, hlow, -⟩
  rw [Accepted] at h
  rw [h] at hcode
  cases hcode
  exact absurd hlow (by decide)

end QueueWorld

end NoSpam
