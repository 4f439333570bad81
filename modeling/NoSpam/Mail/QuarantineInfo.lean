import NoSpam.Base.Columns
import NoSpam.Base.Php
import NoSpam.Mail.Quarantine

/-!
# The info file of a quarantined mail

`make_info_content` puts six lines beside a quarantined mail.  `get_quarantine_info` of the engine
reads them for a release, and the one of the web interface for the list that a user sees.  A line
end inside a field moves the lines behind it, and a subject can have one where it is decoded from
base64.
-/

namespace NoSpam.QuarantineInfo

open Text Php Quarantine

/-- What the web interface shows of an info file. -/
structure Shown where
  mailfrom : Bytes
  mailto : List Bytes
  subject : Bytes
  size : Bytes
  type : Bytes
  reason : Bytes
deriving DecidableEq

/-- `get_quarantine_info` of the web interface, on the content of the info file. -/
def showInfo (content : Bytes) : Option Shown :=
  if lines 10 content = [] then none
  else
    let line (i : ℕ) := trim ((lines 10 content).getD i [])
    some ⟨line 0, (line 1).splitOn 44, line 2, line 3, line 4, line 5⟩

/-- The fields of an info file in their order. -/
def columns (i : Info) : List Bytes :=
  [i.mailfrom, i.mailto, i.subject, i.size, i.reason, i.desc]

/-- The fields as the web interface has them, the recipients joined again. -/
def Shown.columns (s : Shown) : List Bytes :=
  [s.mailfrom, joinFields 44 s.mailto, s.subject, s.size, s.type, s.reason]

/-- Both readers return what was written, the web interface up to surrounding white space. -/
def Survives (i : Info) : Prop :=
  getQuarantineInfo (makeInfoContent i) = i ∧
    ∃ shown, showInfo (makeInfoContent i) = some shown ∧ shown.columns = (columns i).map trim

variable {i : Info}

theorem makeInfoContent_eq (i : Info) :
    makeInfoContent i = i.mailfrom ++ 10 :: (i.mailto ++ 10 :: (i.subject ++ 10 :: (i.size ++
      10 :: (i.reason ++ 10 :: i.desc)))) := by
  simp [makeInfoContent, joinFields_cons]

theorem forall_columns_iff {p : Bytes → Prop} :
    (∀ f ∈ columns i, p f) ↔
      p i.mailfrom ∧ p i.mailto ∧ p i.subject ∧ p i.size ∧ p i.reason ∧ p i.desc := by
  simp [columns]

/-! ## The reader of the engine -/

theorem not_mem_getD_splitOn (content : Bytes) (n : ℕ) : 10 ∉ (content.splitOn 10).getD n [] := by
  rw [List.getD_eq_getElem?_getD]
  cases h : (content.splitOn 10)[n]? with
  | none => exact List.not_mem_nil
  | some f => exact not_mem_of_mem_splitOn (List.mem_of_getElem? h)

/-- What is read are lines. -/
theorem not_mem_getQuarantineInfo (content : Bytes) :
    ∀ f ∈ columns (getQuarantineInfo content), 10 ∉ f := by
  rw [forall_columns_iff]
  exact ⟨not_mem_getD_splitOn content 0, not_mem_getD_splitOn content 1,
    not_mem_getD_splitOn content 2, not_mem_getD_splitOn content 3,
    not_mem_getD_splitOn content 4, not_mem_getD_splitOn content 5⟩

theorem getQuarantineInfo_makeInfoContent_iff :
    getQuarantineInfo (makeInfoContent i) = i ↔ ∀ f ∈ columns i, 10 ∉ f := by
  constructor
  · intro h
    rw [← h]
    exact not_mem_getQuarantineInfo _
  · intro h
    have hsplit : (makeInfoContent i).splitOn 10 = columns i :=
      List.splitOn_intercalate 10 h (List.cons_ne_nil _ _)
    rw [getQuarantineInfo, hsplit]
    rfl

/-! ## The reader of the web interface -/

theorem lines_makeInfoContent (h : ∀ f ∈ columns i, 10 ∉ f) :
    lines 10 (makeInfoContent i) =
      (i.mailfrom ++ [10]) :: (i.mailto ++ [10]) :: (i.subject ++ [10]) :: (i.size ++ [10]) ::
        (i.reason ++ [10]) :: lines 10 i.desc := by
  obtain ⟨hfrom, hto, hsubject, hsize, hreason, -⟩ := forall_columns_iff.1 h
  rw [makeInfoContent_eq, lines_append_cons hfrom, lines_append_cons hto,
    lines_append_cons hsubject, lines_append_cons hsize, lines_append_cons hreason]

/-- The last line, which no line end follows. -/
theorem getD_lines_of_not_mem {l : Bytes} (h : 10 ∉ l) : (lines 10 l).getD 0 [] = l := by
  by_cases hne : l = []
  · rw [hne]
    rfl
  · rw [lines_of_not_mem h hne]
    rfl

theorem showInfo_makeInfoContent (h : ∀ f ∈ columns i, 10 ∉ f) :
    showInfo (makeInfoContent i) =
      some ⟨trim i.mailfrom, (trim i.mailto).splitOn 44, trim i.subject, trim i.size,
        trim i.reason, trim i.desc⟩ := by
  have hdesc := getD_lines_of_not_mem (forall_columns_iff.1 h).2.2.2.2.2
  have hnl : ∀ f, trim (f ++ [10]) = trim f := trim_concat rfl
  rw [showInfo, lines_makeInfoContent h, if_neg (List.cons_ne_nil _ _)]
  simp only [List.getD_cons_zero, List.getD_cons_succ, hnl, hdesc]

/-- **When the info survives its storage**: for all senders, recipients, subjects, sizes, reasons
and descriptions, exactly if none of them has a line end in it. -/
theorem survives_iff (i : Info) : Survives i ↔ ∀ f ∈ columns i, 10 ∉ f := by
  constructor
  · intro h
    exact getQuarantineInfo_makeInfoContent_iff.1 h.1
  · intro h
    refine ⟨getQuarantineInfo_makeInfoContent_iff.2 h, _, showInfo_makeInfoContent h, ?_⟩
    simp only [Shown.columns, columns, List.map_cons, List.map_nil, joinFields,
      List.intercalate_splitOn]

/-- A decoder that knows one word of base64. -/
def twoLines : Decoders where
  base64 text := if text = bytes "YQpi" then bytes "a\nb" else []
  qp := id

/-- A subject of two lines in base64 moves the size to the reason. -/
theorem encoded_subject_lost :
    ¬ ∀ (decode : Decoders) (message : Bytes) (a : Aka) (reason desc mailto : Bytes),
      Survives (infoOf (getMailBaseInfo decode (some message) a) reason desc mailto) := by
  intro h
  have hsurvives := (h twoLines (bytes "Subject: =?utf-8?B?YQpi?=\n\nhello\n") {} (bytes "spam")
    (bytes "score 9") (bytes "ann@a.cn")).1
  exact absurd hsurvives (by decide +kernel)

end NoSpam.QuarantineInfo
