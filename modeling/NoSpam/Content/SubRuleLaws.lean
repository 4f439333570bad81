import NoSpam.Content.Steady

/-!
# The logic of the conditions

A rule has several conditions of one kind, under `OR`, `NOT` or `AND`.  The three checks share their
body, and in it the conditions obey the boolean laws, that of `AND` where no condition reads the
bounds that an earlier size check has left (`checkSubRules_lawful`).  A mail without attachments
matches no attachment rule, whatever its logic.
-/

namespace NoSpam.Content

open Text Perl

section Laws

variable {α : Type} (single : α → StateM SizeBounds Bool)

/-- The result of a condition does not depend on the bounds that earlier ones have left. -/
def Fixed (r : α) : Prop := ∀ b b', (single r b).1 = (single r b').1

/-- `NOT` is the negation of `OR`, `AND` is the conjunction of the single results where none of them
depends on the bounds, and a hash is an array of one condition. -/
structure Lawful (check : Bytes → SubRules α → StateM SizeBounds Bool) : Prop where
  not_eq : ∀ rs b,
    (check (bytes "NOT") (.array rs) b).1 = !(check (bytes "OR") (.array rs) b).1
  and_eq : ∀ rs b, (∀ r ∈ rs, Fixed single r) →
    (check (bytes "AND") (.array rs) b).1 = rs.all fun r => (single r b).1
  hash_eq : ∀ logic r, check logic (.hash r) = check logic (.array [r])

variable {single} {logic : Bytes} {r : α} {rs : List α} {b : SizeBounds}

theorem checkArray_cons :
    checkArray single logic (r :: rs) b =
      if logic = bytes "OR" then
        if (single r b).1 then (true, (single r b).2)
        else checkArray single logic rs (single r b).2
      else if logic = bytes "NOT" then
        if (single r b).1 then (false, (single r b).2)
        else checkArray single logic rs (single r b).2
      else if (single r b).1 then checkArray single logic rs (single r b).2
        else (false, (single r b).2) := by
  have hbind : checkArray single logic (r :: rs) b =
      (if logic = bytes "OR" then
          if (single r b).1 then pure true else checkArray single logic rs
        else if logic = bytes "NOT" then
          if (single r b).1 then pure false else checkArray single logic rs
        else if (single r b).1 then checkArray single logic rs else pure false :
          StateM SizeBounds Bool) (single r b).2 := rfl
  rw [hbind]
  split_ifs <;> rfl

theorem checkArray_nil : checkArray single logic [] b = (decide (logic ≠ bytes "OR"), b) := rfl

theorem checkArray_not :
    (checkArray single (bytes "NOT") rs b).1 = !(checkArray single (bytes "OR") rs b).1 := by
  have hne : bytes "NOT" ≠ bytes "OR" := by decide
  induction rs generalizing b with
  | nil => rw [checkArray_nil, checkArray_nil]; rfl
  | cons r rs ih =>
    rw [checkArray_cons, checkArray_cons, if_neg hne, if_pos rfl, if_pos rfl]
    split_ifs
    · rfl
    · exact ih

theorem checkArray_and (h : ∀ r ∈ rs, Fixed single r) (b b' : SizeBounds) :
    (checkArray single (bytes "AND") rs b').1 = rs.all fun r => (single r b).1 := by
  have hor : bytes "AND" ≠ bytes "OR" := by decide
  have hnot : bytes "AND" ≠ bytes "NOT" := by decide
  induction rs generalizing b' with
  | nil => rw [checkArray_nil]; rfl
  | cons r rs ih =>
    rw [List.forall_mem_cons] at h
    rw [checkArray_cons, if_neg hor, if_neg hnot, List.all_cons, h.1 b' b]
    split_ifs with hr
    · rw [ih h.2, hr, Bool.true_and]
    · rw [Bool.not_eq_true] at hr
      rw [hr, Bool.false_and]

theorem checkSubRules_hash :
    checkSubRules single logic (.hash r) = checkSubRules single logic (.array [r]) := by
  have hne : bytes "NOT" ≠ bytes "OR" := by decide
  funext b
  have hhash : checkSubRules single logic (.hash r) b =
      ((if logic = bytes "NOT" then !(single r b).1 else (single r b).1), (single r b).2) := by
    have hbind : checkSubRules single logic (.hash r) b =
        (if logic = bytes "NOT" then pure !(single r b).1 else pure (single r b).1 :
          StateM SizeBounds Bool) (single r b).2 := rfl
    rw [hbind]
    split_ifs <;> rfl
  rw [hhash, checkSubRules, checkArray_cons]
  by_cases hor : logic = bytes "OR"
  · rw [if_neg fun h => hne (h.symm.trans hor), if_pos hor, checkArray_nil, hor]
    cases (single r b).1 <;> rfl
  · rw [if_neg hor, checkArray_nil, decide_eq_true hor]
    by_cases hnot : logic = bytes "NOT"
    · rw [if_pos hnot, if_pos hnot]
      cases (single r b).1 <;> rfl
    · rw [if_neg hnot, if_neg hnot]
      cases (single r b).1 <;> rfl

/-- The common body of the checks obeys the laws. -/
theorem checkSubRules_lawful : Lawful single (checkSubRules single) where
  not_eq _ _ := checkArray_not
  and_eq _ b h := checkArray_and h b b
  hash_eq _ _ := checkSubRules_hash

end Laws

/-! ## The three kinds -/

/-- A size with a number in it is compared with its own bounds. -/
theorem fixed_of_number (m : MailInfo) :
    (∀ r : SizeRule, matchNumber r.sizevalue ≠ none → Fixed (checkSingleSizeRule · m) r) ∧
      ∀ r : AttachmentRule, (∀ spec ∈ r.sizevalue, matchNumber spec ≠ none) →
        Fixed (checkSingleAttachmentRule · m) r := by
  constructor
  · intro r h b b'
    exact (steady_checkSingleSizeRule (steadySize_of_number h) m b b' trivial trivial).1
  · intro r h b b'
    exact (steady_checkAttachments (fun spec hspec => steadySize_of_number (h spec hspec))
      m.body.entries b b' trivial trivial).1

/-- **The logic of the conditions**: sizes and keywords obey the laws for every mail, attachments
for every mail that has one; a mail without attachments matches no attachment rule. -/
theorem subRules_lawful (checkSingleKeywordRule : KeywordRule → MailInfo → Bool) (m : MailInfo) :
    Lawful (fun r => checkSingleSizeRule r m) (fun logic rule => checkSizeRule logic rule m) ∧
      Lawful (fun r => pure (checkSingleKeywordRule r m))
        (fun logic rule => checkKeywordRule checkSingleKeywordRule logic rule m) ∧
      if m.attachment then
        Lawful (fun r => checkSingleAttachmentRule r m)
          (fun logic rule => checkAttachmentRule logic rule m)
      else ∀ logic rule b, checkAttachmentRule logic rule m b = (false, b) := by
  refine ⟨checkSubRules_lawful, checkSubRules_lawful, ?_⟩
  split_ifs with hattachment
  · have hbody : (fun logic rule => checkAttachmentRule logic rule m) =
        fun logic rule => checkSubRules (fun r => checkSingleAttachmentRule r m) logic rule := by
      funext logic rule
      rw [checkAttachmentRule, if_neg (by simp [hattachment])]
    rw [hbody]
    exact checkSubRules_lawful
  · intro logic rule b
    rw [checkAttachmentRule, if_pos (by simp [hattachment])]
    rfl

/-- A mail without a part. -/
def noParts : MailInfo where
  head := ⟨[], [], [], [], [], [], 0, [], []⟩
  headSize := 0
  body := ∅
  bodyText := []
  bodySize := none
  attachmentSize := none
  attachmentNum := none
  attachment := false

/-- It matches an attachment rule neither under `OR` nor under `NOT`. -/
theorem not_forall_attachments_lawful :
    ¬∀ m : MailInfo, Lawful (fun r => checkSingleAttachmentRule r m)
      (fun logic rule => checkAttachmentRule logic rule m) := by
  intro h
  have hnot := (h noParts).not_eq [{ filename := some (bytes "a.exe") }] {}
  have hfalse : ∀ logic rule, checkAttachmentRule logic rule noParts {} = (false, {}) :=
    fun logic rule => rfl
  rw [hfalse, hfalse] at hnot
  cases hnot

end NoSpam.Content
