import NoSpam.Mail.Process

/-!
# What the SMTP client learns about the queue

The reply after `qmail_requeue` against what became of the mail.  The child of `qmail_requeue`
keeps what `write_queue` found out about qmail-queue to itself, so the reply is right only where
nothing was left to find out.
-/

namespace NoSpam

open Text Perl

namespace Resp

variable (r : Resp)

/-- The mail was taken. -/
def Success : Prop := r.smtpCode = [] ∧ isTrue r.exitCode = false

/-- The mail was refused for good. -/
def Permanent : Prop := r.smtpCode = bytes "553" ∧ isTrue r.exitCode = true

/-- The mail was refused for now. -/
def Temporary : Prop := r.smtpCode = bytes "451" ∧ isTrue r.exitCode = true

/-- The reply tells what qmail-queue did with the mail. -/
def Truthful (q : QueueWorld) : Prop :=
  (r.Success ↔ q.Accepted) ∧ (q.Refused → r.Permanent) ∧ (¬ q.Accepted → ¬ q.Refused → r.Temporary)

theorem not_success_of_temporary {r : Resp} (h : r.Temporary) : ¬ r.Success := by
  rintro ⟨-, hcode⟩
  rw [h.2] at hcode
  cases hcode

theorem not_permanent_of_temporary {r : Resp} (h : r.Temporary) : ¬ r.Permanent := by
  rintro ⟨hcode, -⟩
  rw [h.1] at hcode
  exact absurd hcode (by decide)

/-- A temporary failure is the truth when the queue neither took the mail nor refused it. -/
theorem truthful_of_temporary {r : Resp} (h : r.Temporary) (q : QueueWorld) :
    r.Truthful q ↔ ¬ q.Accepted ∧ ¬ q.Refused := by
  constructor
  · rintro ⟨hsucc, hperm, -⟩
    exact ⟨fun ha => not_success_of_temporary h (hsucc.2 ha),
      fun hr => not_permanent_of_temporary h (hperm hr)⟩
  · rintro ⟨ha, hr⟩
    exact ⟨iff_of_false (not_success_of_temporary h) ha, fun hr' => absurd hr' hr, fun _ _ => h⟩

/-- The empty reply is the truth when the queue took the mail. -/
theorem truthful_empty (q : QueueWorld) : Resp.Truthful {} q ↔ q.Accepted := by
  have hsucc : Resp.Success {} := ⟨rfl, rfl⟩
  constructor
  · exact fun h => h.1.1 hsucc
  · intro ha
    exact ⟨iff_of_true hsucc ha, fun hr => absurd hr (q.not_refused_of_accepted ha),
      fun hn => absurd ha hn⟩

end Resp

namespace Mail

theorem resp_qmailRequeue (q : QueueWorld) (m : Mail) :
    (m.qmailRequeue q).aka.resp =
      match q.qmailRequeue with
      | some f => ⟨decimal f.smtpCode, f.smtpInfo, decimal f.errcode⟩
      | none => m.aka.resp := by
  unfold qmailRequeue
  cases q.qmailRequeue with
  | some f => rfl
  | none =>
    dsimp only
    split_ifs <;> rfl

/-- **The reply after `qmail_requeue` is truthful** exactly when, both processes having got through,
qmail-queue was started and exited with 0, or when, one of them having failed before, qmail-queue
neither took the mail nor refused it for good. -/
theorem qmailRequeue_truthful_iff (q : QueueWorld) (m : Mail) :
    ((m.reply {}).qmailRequeue q).aka.resp.Truthful q ↔
      if q.HandedOver then q.openQueue = true ∧ q.ended = .exited 0
      else ¬ q.Accepted ∧ ¬ q.Refused := by
  rw [resp_qmailRequeue]
  split_ifs with h
  · rw [q.qmailRequeue_of_handedOver h, ← q.accepted_of_handedOver h]
    exact Resp.truthful_empty q
  · obtain ⟨f, hf, hcode, herr⟩ := q.qmailRequeue_of_not_handedOver h
    rw [hf]
    refine Resp.truthful_of_temporary ⟨?_, isTrue_decimal herr⟩ q
    show decimal f.smtpCode = bytes "451"
    rw [hcode]
    decide

/-- An object with an empty configuration and no rules. -/
def empty : Mail where
  config := {}
  licenseOk := true
  content := ⟨{}, ⟨∅, ∅, {}⟩⟩

/-- qmail-queue gives up with status 51, and the reply is success. -/
theorem not_truthful_out_of_memory :
    ¬ ((empty.reply {}).qmailRequeue { ended := .exited 51 }).aka.resp.Truthful
      { ended := .exited 51 } := by
  rintro ⟨hsucc, -⟩
  exact absurd (hsucc.1 ⟨by decide, by decide⟩) (by decide)

end Mail

end NoSpam
