import NoSpam.Base.Run
import NoSpam.Mail.Quarantine

/-!
# Commands on the quarantine

`QuarantineProcessMail` and `QuarantineQueuePurge` of `NoSPAM.pl`: an operator's orders, one a line,
and the timeout.  Both are to remove a mail only when it is to be deleted or has been queued again.
`Safe` says that of one line in the state it finds.
-/

namespace NoSpam.Command

open Text Perl Conf Quarantine Machine

/-! ## Orders -/

/-- `\w`. -/
def isWord (c : UInt8) : Bool :=
  isDigit c || (65 ≤ c && c ≤ 90) || (97 ≤ c && c ≤ 122) || c = 95

/-- An order: its number, the message file, and the letter of the action. -/
structure Order where
  no : Bytes
  file : Bytes
  action : Bytes
  deriving DecidableEq

/-- `(\d+),([^,]+),(\w)` at the start of a text. -/
def parseHere (l : Bytes) : Option Order :=
  let no := l.takeWhile isDigit
  match l.dropWhile isDigit with
  | [] => none
  | c :: r =>
    let file := r.takeWhile (· ≠ 44)
    match r.dropWhile (· ≠ 44) with
    | _ :: letter :: _ =>
        if no ≠ [] && c = 44 && file ≠ [] && isWord letter then some ⟨no, file, uc [letter]⟩
        else none
    | _ => none

/-- The first match of the pattern in a text. -/
def parseOrder : Bytes → Option Order
  | [] => none
  | c :: l => (parseHere (c :: l)).or (parseOrder l)

/-! ## Queueing again -/

/-- The envelope of `send_mail_file_by_queue`. -/
def sendEnvelope (sender recips : Bytes) : Bytes :=
  let recips := if 44 ∈ recips then
      (recips.rdropWhile (· = 44)).flatMap fun c => if c = 44 then [0, 84] else [c]
    else recips
  70 :: sender ++ 0 :: (84 :: recips ++ [0, 0])

/-- A line of input, and whether its info file can be opened and qmail-queue takes its message. -/
structure Input where
  line : Bytes
  opens : Bool
  sends : Bool

/-- What the commands work on: the files, the lines printed, and the envelopes and messages that
qmail-queue has taken. -/
structure Desk where
  fs : Store Bytes Bytes
  printed : List Bytes := []
  sent : List (Bytes × Bytes) := []

namespace Desk

variable (d : Desk)

/-- `get_quarantine_info`; an info file that cannot be opened leaves everything undefined. -/
def info (i : Input) (o : Order) : Option Info :=
  if i.opens then (d.fs (infoPath o.file)).map getQuarantineInfo else none

/-- `send_mail_file_by_queue`: the message that is queued, when the call reports success. -/
def send (i : Input) (o : Order) : Option Bytes := if i.sends then d.fs o.file else none

/-- The action of an order. -/
def perform (i : Input) (o : Order) : Desk :=
  if o.action = bytes "F" then
    let info := (d.info i o).getD ⟨[], [], [], [], [], []⟩
    match d.send i o with
    | some message =>
        { d with sent := d.sent ++ [(sendEnvelope info.mailfrom info.mailto, message)] }
    | none => d
  else d

/-- One turn of the loop of `QuarantineProcessMail`: whatever became of the action, the files are
removed and success is printed. -/
def processLine (i : Input) : Desk :=
  match parseOrder (chomp i.line) with
  | some o =>
    let d := d.perform i o
    { d with
      fs := Store.unlink (infoPath o.file) (Store.unlink o.file d.fs)
      printed := d.printed ++ [o.no ++ bytes ",0\n"] }
  | none => d

end Desk

/-! ## The timeout -/

/-- The files that `find` lists, without the info files. -/
def timeoutList (found : List Bytes) : List Bytes :=
  found.filter fun f => !endsWith (bytes ".info") f

/-- `QuarantineQueuePurge` on the files found.  Passing a mail on dies before anything is removed:
the object it asks for the info file has no such method. -/
def quarantineQueuePurge (cfg : QuarantineEngine) (found : List Bytes) (fs : Store Bytes Bytes) :
    Store Bytes Bytes :=
  let action := uc (orElse cfg.timeOutAction (bytes "D"))
  if action = bytes "D" then
    Store.unlinkAll (timeoutList found) (Store.unlinkAll ((timeoutList found).map infoPath) fs)
  else fs

/-! ## Safety -/

/-- The mail of an order was queued again. -/
def Requeued (d : Desk) (i : Input) (o : Order) : Prop := (d.send i o).isSome

/-- The action of an order succeeds. -/
def Succeeds (d : Desk) (i : Input) (o : Order) : Prop :=
  o.action = bytes "D" ∨ o.action = bytes "F" ∧ (d.info i o).isSome ∧ Requeued d i o

/-- A line removes something only when it is to be deleted or has been queued again, and it prints
success only for an action that succeeds. -/
structure Safe (d : Desk) (i : Input) : Prop where
  removal : ∀ f, (d.fs f).isSome → (d.processLine i).fs f = none →
    ∃ o ∈ parseOrder (chomp i.line), (f = o.file ∨ f = infoPath o.file) ∧
      (o.action = bytes "D" ∨ Requeued d i o)
  report : ∀ o ∈ parseOrder (chomp i.line),
    (d.processLine i).printed = d.printed ++ [o.no ++ bytes ",0\n"] → Succeeds d i o

/-- The order on a line, if there is one, succeeds. -/
def Sound (d : Desk) (i : Input) : Prop := ∀ o ∈ parseOrder (chomp i.line), Succeeds d i o

/-- The timeout removes nothing unless it is to delete. -/
def PurgeSafe (cfg : QuarantineEngine) (found : List Bytes) (fs : Store Bytes Bytes) : Prop :=
  ∀ f, (fs f).isSome → quarantineQueuePurge cfg found fs f = none →
    uc (orElse cfg.timeOutAction (bytes "D")) = bytes "D"

section Line

variable (d : Desk) (i : Input)

@[simp] theorem fs_perform (o : Order) : (d.perform i o).fs = d.fs := by
  unfold Desk.perform
  dsimp only
  split_ifs
  · cases d.send i o <;> rfl
  · rfl

@[simp] theorem printed_perform (o : Order) : (d.perform i o).printed = d.printed := by
  unfold Desk.perform
  dsimp only
  split_ifs
  · cases d.send i o <;> rfl
  · rfl

variable {d i} {o : Order}

theorem processLine_of_parsed (h : parseOrder (chomp i.line) = some o) :
    (d.processLine i).fs = Store.unlink (infoPath o.file) (Store.unlink o.file d.fs) ∧
      (d.processLine i).printed = d.printed ++ [o.no ++ bytes ",0\n"] := by
  unfold Desk.processLine
  rw [h]
  dsimp only
  rw [fs_perform, printed_perform]
  exact ⟨rfl, rfl⟩

theorem processLine_of_not_parsed (h : parseOrder (chomp i.line) = none) : d.processLine i = d := by
  unfold Desk.processLine
  rw [h]

/-- A line is safe exactly when the order on it succeeds. -/
theorem safe_iff_sound : Safe d i ↔ Sound d i := by
  constructor
  · exact fun h o ho => h.report o ho (processLine_of_parsed ho).2
  · refine fun h => ⟨fun f hbefore hafter => ?_, fun o ho _ => h o ho⟩
    cases ho : parseOrder (chomp i.line) with
    | none =>
      rw [processLine_of_not_parsed ho] at hafter
      rw [hafter] at hbefore
      cases hbefore
    | some o =>
      refine ⟨o, rfl, ?_, (h o ho).imp id fun hf => hf.2.2⟩
      by_contra hother
      rw [not_or] at hother
      rw [(processLine_of_parsed ho).1, Store.unlink_of_ne hother.2, Store.unlink_of_ne hother.1]
        at hafter
      rw [hafter] at hbefore
      cases hbefore

end Line

theorem purgeSafe (cfg : QuarantineEngine) (found : List Bytes) (fs : Store Bytes Bytes) :
    PurgeSafe cfg found fs := by
  intro f hbefore hafter
  unfold quarantineQueuePurge at hafter
  by_contra hdelete
  rw [if_neg hdelete] at hafter
  rw [hafter] at hbefore
  cases hbefore

/-- **Releasing destroys no mail** exactly when every order in the batch, in the state it finds,
deletes, or passes the mail on with the info file readable and qmail-queue taking it. -/
theorem safe_iff_sound_batch (d : Desk) (inputs : List Input) (cfg : QuarantineEngine)
    (found : List Bytes) (fs : Store Bytes Bytes) :
    (Meets Desk.processLine Safe d inputs ∧ PurgeSafe cfg found fs) ↔
      Meets Desk.processLine Sound d inputs := by
  rw [and_iff_left (purgeSafe cfg found fs)]
  exact meets_congr fun _ _ => safe_iff_sound

/-- A mail in quarantine. -/
def oneMail : Store Bytes Bytes :=
  Store.write (bytes "/q/m") (bytes "hello")
    (Store.write (infoPath (bytes "/q/m")) (bytes "a@x.org\nb@y.org\n") fun _ => none)

/-- qmail-queue refuses the mail, and it is gone. -/
theorem not_safe_refused :
    ¬ (Meets Desk.processLine Safe ⟨oneMail, [], []⟩ [⟨bytes "1,/q/m,F\n", true, false⟩] ∧
        PurgeSafe {} [] oneMail) ∧
      (Desk.processLine ⟨oneMail, [], []⟩ ⟨bytes "1,/q/m,F\n", true, false⟩).fs (bytes "/q/m") =
        none := by
  have hparse : parseOrder (chomp (bytes "1,/q/m,F\n")) =
      some ⟨bytes "1", bytes "/q/m", bytes "F"⟩ := by
    decide
  refine ⟨?_, by decide⟩
  rintro ⟨⟨hsafe, -⟩, -⟩
  rcases hsafe.report _ hparse (processLine_of_parsed hparse).2 with hdelete | ⟨-, -, hsent⟩
  · exact absurd hdelete (by decide)
  · exact absurd hsent (by simp [Requeued, Desk.send])

end NoSpam.Command
