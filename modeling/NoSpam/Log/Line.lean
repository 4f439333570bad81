import NoSpam.Base.Columns
import NoSpam.Mail.Info

/-!
# A line of the mail log

`log_csv` writes what an engine process knows about a mail as one line of columns between commas;
`get_LogSimpleAnaylize` splits the line again and takes six of the columns by their positions.
The commas of the subject are replaced, those of the other texts are not: the line is read back, for
either result of the limiter, exactly when no column up to that result has a comma and no column
has a line end (`roundTrips_iff`).
-/

namespace NoSpam.Log

open Text Perl

/-- What `get_mail_log_from_info` takes from a mail, without the two quarantine columns that
`log_csv` does not write. -/
structure MailLog where
  unixTime : ℕ
  direction : Bytes
  ip : Bytes
  mailFrom : Bytes
  mailTo : Bytes
  subject : Bytes
  size : ℕ
  isVirus : Bytes
  virusReason : Bytes
  virusAction : Bytes
  isSpam : Bytes
  spamReason : Bytes
  spamAction : Bytes
  ruleNo : Bytes
  ruleAction : Bytes
  ruleParam : Bytes
  isOverrun : Bytes
  overrunReason : Bytes
  isAudit : Bytes
  auditReason : Bytes

/-- A blank on either side. -/
def pad (l : Bytes) : Bytes := 32 :: l ++ [32]

/-- `get_mail_log_from_info`, at a time and with the subject that the content parser has found. -/
def getMailLogFromInfo (now : ℕ) (headSubject : Bytes) (aka : Aka) : MailLog where
  unixTime := now
  direction := if aka.relayclient = bytes "1" || aka.tcpremoteinfo.length ≠ 0 then bytes "1"
    else bytes "0"
  ip := aka.tcpremoteip
  mailFrom := aka.returnpath
  mailTo := aka.recips
  subject :=
    pad ((orElse headSubject (orElse aka.subject [])).map fun c => if c = 44 then 95 else c)
  size := aka.size
  isVirus := (aka.engine .antivirus).result
  virusReason := (aka.engine .antivirus).desc
  virusAction := (aka.engine .antivirus).action
  isSpam := (aka.engine .spam).result
  spamReason := (aka.engine .spam).desc
  spamAction := (aka.engine .spam).action
  ruleNo := orElse (aka.engine .content).result []
  ruleAction := (aka.engine .content).action
  ruleParam := (aka.engine .content).desc
  isOverrun := (aka.engine .dynamic).result
  overrunReason := (aka.engine .dynamic).desc
  isAudit := (aka.engine .archive).result
  auditReason := (aka.engine .archive).desc

/-- The six columns that the report uses. -/
structure Row where
  ip : Bytes
  mailFrom : Bytes
  virus : Bytes
  spam : Bytes
  rule : Bytes
  dynamic : Bytes
  deriving DecidableEq

namespace MailLog

variable (ml : MailLog)

/-- The columns before the result of the limiter. -/
def beforeOverrun : List Bytes :=
  [decimal ml.unixTime, ml.direction, ml.ip, pad ml.mailFrom, pad ml.mailTo, ml.subject,
    decimal ml.size, ml.isVirus, ml.virusReason, ml.virusAction, ml.isSpam, ml.spamReason,
    ml.spamAction, ml.ruleNo, ml.ruleAction, ml.ruleParam]

/-- What `log_csv` prints, without the line end. -/
def text : Bytes :=
  columnText 44 (ml.beforeOverrun ++ [ml.isOverrun, ml.overrunReason, ml.isAudit]) ++ ml.auditReason

/-- What `log_csv` prints. -/
def logCsv : Bytes := ml.text ++ [10]

/-- What the mail has in the six columns; the sender stands between blanks. -/
def row : Row := ⟨ml.ip, pad ml.mailFrom, ml.isVirus, ml.isSpam, ml.ruleNo, ml.isOverrun⟩

end MailLog

/-- The `split` of `get_LogSimpleAnaylize`; a column that is missing is empty. -/
def readRow (line : Bytes) : Row :=
  let column (n : ℕ) : Bytes := ((line.splitOn 44)[n]?).getD []
  ⟨column 2, column 3, column 7, column 10, column 13, column 16⟩

/-- The reader gets one line, with the columns of the mail. -/
def ReadsBack (ml : MailLog) : Prop := (lines 10 ml.logCsv).map readRow = [ml.row]

instance (ml : MailLog) : Decidable (ReadsBack ml) := inferInstanceAs (Decidable (_ = _))

/-- The line is read back, also if the limiter finds otherwise. -/
def RoundTrips (ml : MailLog) : Prop :=
  ∀ d ∈ [ml.isOverrun, bytes "0", bytes "1"], ReadsBack { ml with isOverrun := d }

/-- No comma up to the result of the limiter, and no line end. -/
structure Clean (ml : MailLog) : Prop where
  comma : ∀ f ∈ ml.beforeOverrun ++ [ml.isOverrun], 44 ∉ f
  newline : 10 ∉ ml.text

section RoundTrip

variable {ml : MailLog}

/-- What follows the result of the limiter. -/
def MailLog.afterOverrun (ml : MailLog) : Bytes :=
  columnText 44 [ml.overrunReason, ml.isAudit] ++ ml.auditReason

theorem text_eq (ml : MailLog) :
    ml.text = columnText 44 ml.beforeOverrun ++ (ml.isOverrun ++ 44 :: ml.afterOverrun) := by
  simp [MailLog.text, MailLog.afterOverrun, columnText]

theorem readRow_logCsv (h : ∀ f ∈ ml.beforeOverrun ++ [ml.isOverrun], 44 ∉ f) :
    readRow ml.logCsv = ml.row := by
  have hbefore : ∀ f ∈ ml.beforeOverrun, 44 ∉ f := fun f hf => h f (List.mem_append_left _ hf)
  have hown : 44 ∉ ml.isOverrun := h _ (List.mem_append_right _ (List.mem_singleton.2 rfl))
  unfold readRow
  rw [MailLog.logCsv, text_eq, List.append_assoc, List.append_assoc,
    splitOn_columnText_append hbefore, List.cons_append,
    List.splitOn_append_cons_self_of_not_mem hown]
  rfl

theorem lines_logCsv (h : 10 ∉ ml.text) (r : Bytes) :
    lines 10 (ml.logCsv ++ r) = ml.logCsv :: lines 10 r := by
  rw [MailLog.logCsv, List.append_assoc, List.singleton_append, lines_append_cons h]

theorem length_lines_logCsv (ml : MailLog) (r : Bytes) :
    (lines 10 (ml.logCsv ++ r)).length = ml.text.count 10 + 1 + (lines 10 r).length := by
  rw [MailLog.logCsv, List.append_assoc, List.singleton_append, length_lines_append]

theorem Clean.readsBack (h : Clean ml) : ReadsBack ml := by
  have hlines := lines_logCsv h.newline []
  rw [List.append_nil] at hlines
  rw [ReadsBack, hlines, lines, List.map_cons, List.map_nil, readRow_logCsv h.comma]

theorem newline_of_readsBack (h : ReadsBack ml) : 10 ∉ ml.text := by
  have hlen := length_lines_logCsv ml []
  have hone := congrArg List.length h
  rw [List.length_map, List.length_singleton] at hone
  rw [List.append_nil, hone, lines, List.length_nil] at hlen
  exact List.count_eq_zero.1 (by omega)

/-- A line that is read back has its limiter column in the place where the reader looks. -/
theorem column_of_readsBack (h : ReadsBack ml) :
    ((ml.logCsv.splitOn 44)[16]?).getD [] = ml.isOverrun := by
  have hlines := lines_logCsv (newline_of_readsBack h) []
  rw [List.append_nil] at hlines
  rw [ReadsBack, hlines, lines, List.map_cons, List.map_nil, List.cons.injEq] at h
  exact congrArg Row.dynamic h.1

theorem Clean.update (h : Clean ml) {d : Bytes} (hcomma : 44 ∉ d) (hnewline : 10 ∉ d) :
    Clean { ml with isOverrun := d } := by
  obtain ⟨hcolumns, htext⟩ := h
  rw [List.forall_mem_append] at hcolumns
  constructor
  · exact List.forall_mem_append.2 ⟨hcolumns.1, by simpa using hcomma⟩
  · rw [text_eq, List.mem_append, List.mem_append] at htext ⊢
    rintro (hmem | hmem | hmem)
    · exact htext (Or.inl hmem)
    · exact hnewline hmem
    · exact htext (Or.inr (Or.inr hmem))

theorem logCsv_eq (ml : MailLog) :
    ml.logCsv =
      columnText 44 ml.beforeOverrun ++ (ml.isOverrun ++ 44 :: (ml.afterOverrun ++ [10])) := by
  rw [MailLog.logCsv, text_eq, List.append_assoc, List.append_assoc, List.cons_append]

theorem comma_not_mem_column (l : Bytes) (n : ℕ) : 44 ∉ ((l.splitOn 44)[n]?).getD [] := by
  cases hcolumn : (l.splitOn 44)[n]? with
  | none => exact List.not_mem_nil
  | some f => exact not_mem_of_mem_splitOn (List.mem_of_getElem? hcolumn)

/-- With a comma before the result of the limiter the reader finds the same in its place, whatever
the result. -/
theorem comma_of_roundTrips (h : RoundTrips ml) : ∀ f ∈ ml.beforeOverrun, 44 ∉ f := by
  by_contra hdirty
  have hzero := column_of_readsBack (h (bytes "0") (by simp))
  have hone := column_of_readsBack (h (bytes "1") (by simp))
  have hsame := getElem?_splitOn_columnText hdirty
    (bytes "0" ++ 44 :: (ml.afterOverrun ++ [10])) (bytes "1" ++ 44 :: (ml.afterOverrun ++ [10]))
  rw [logCsv_eq] at hzero hone
  have hlength : ml.beforeOverrun.length = 16 := rfl
  rw [hlength] at hsame
  have habsurd : bytes "0" = bytes "1" :=
    hzero.symm.trans ((congrArg (fun o => o.getD []) hsame).trans hone)
  exact absurd habsurd (by decide)

/-- **A line is read back**, for either result of the limiter, exactly when no column up to that
result has a comma and no column has a line end. -/
theorem roundTrips_iff (ml : MailLog) : RoundTrips ml ↔ Clean ml := by
  constructor
  · intro h
    have hown : ReadsBack ml := h _ List.mem_cons_self
    have hcolumn : 44 ∉ ml.isOverrun := by
      rw [← column_of_readsBack hown]
      exact comma_not_mem_column _ _
    exact ⟨List.forall_mem_append.2 ⟨comma_of_roundTrips h, by simpa using hcolumn⟩,
      newline_of_readsBack hown⟩
  · intro h d hd
    have hd' : d = ml.isOverrun ∨ d = bytes "0" ∨ d = bytes "1" := by simpa using hd
    rcases hd' with rfl | rfl | rfl
    · exact h.readsBack
    · exact (h.update (by decide) (by decide)).readsBack
    · exact (h.update (by decide) (by decide)).readsBack

end RoundTrip

end NoSpam.Log
