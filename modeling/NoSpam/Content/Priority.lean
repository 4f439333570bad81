import Mathlib.Data.List.Find
import NoSpam.Content.Steady

/-!
# Which rule a search finds

What `check_all_rule_backend` is for: of the rules that a mail satisfies, the one with the least
number.  A rule is satisfied by the results of the parts it has, under its logic (`Satisfied`); the
search evaluates them with early exits, but comes to the same result (`checkRule_eq_true_iff`).  It
takes the rules in the order of their ids as strings, so it finds the least number only if that
order agrees with the order of the numbers at the least rule that is satisfied (`findsLeast_iff`).
-/

namespace NoSpam.Content

open Text Perl

/-! ## The logic of a rule -/

/-- The results of the parts that are present, each part starting from the bounds that the one
before it has left. -/
def partResults : List (Option (StateM SizeBounds Bool)) → SizeBounds → List Bool
  | [], _ => []
  | none :: parts, b => partResults parts b
  | some part :: parts, b => (part b).1 :: partResults parts (part b).2

/-- The rule has parts and its logic accepts their results: one that holds under `OR`, none under
`NOT`, all under `AND`. -/
def Satisfied (logic : Bytes) (results : List Bool) : Prop :=
  results ≠ [] ∧
    if logic = bytes "OR" then true ∈ results
    else if logic = bytes "NOT" then true ∉ results
    else false ∉ results

instance (logic : Bytes) (results : List Bool) : Decidable (Satisfied logic results) :=
  inferInstanceAs (Decidable (_ ∧ ite _ _ _))

section Parts

variable {parts : List (Option (StateM SizeBounds Bool))} {logic : Bytes}

theorem fst_pure (x : Bool) (b : SizeBounds) : ((pure x : StateM SizeBounds Bool) b).1 = x := rfl

theorem fst_bind_ite {α : Type} (part : StateM SizeBounds Bool) (x y : StateM SizeBounds α)
    (b : SizeBounds) :
    ((part >>= fun holds => if holds then x else y) b).1 =
      if (part b).1 = true then (x (part b).2).1 else (y (part b).2).1 := by
  have hrun : (part >>= fun holds => if holds then x else y) b =
      (if (part b).1 then x else y) (part b).2 := rfl
  rw [hrun]
  cases (part b).1 <;> rfl

theorem checkParts_or (h : logic = bytes "OR") (b : SizeBounds) :
    (checkParts logic parts false b).1 = true ↔ true ∈ partResults parts b := by
  induction parts generalizing b with
  | nil => simp [checkParts, partResults, fst_pure]
  | cons part parts ih =>
    cases part with
    | none => exact ih b
    | some part =>
      simp only [checkParts, if_pos h, fst_bind_ite, fst_pure, partResults, List.mem_cons]
      by_cases hp : (part b).1 = true
      · simp [hp]
      · simpa [hp] using ih (part b).2

/-- Under `NOT` a part that holds ends the check, under `AND` one that does not. -/
theorem checkParts_some (hor : logic ≠ bytes "OR") (part : StateM SizeBounds Bool) (hasRule : Bool)
    (b : SizeBounds) :
    (checkParts logic (some part :: parts) hasRule b).1 =
      if (part b).1 = decide (logic = bytes "NOT") then false
      else (checkParts logic parts true (part b).2).1 := by
  simp only [checkParts, if_neg hor]
  by_cases hnot : logic = bytes "NOT"
  · rw [decide_eq_true hnot]
    simp only [if_pos hnot, fst_bind_ite, fst_pure]
  · rw [decide_eq_false hnot]
    simp only [if_neg hnot, fst_bind_ite, fst_pure]
    cases (part b).1 <;> rfl

theorem checkParts_of_ne_or (hor : logic ≠ bytes "OR") (hasRule : Bool) (b : SizeBounds) :
    (checkParts logic parts hasRule b).1 = true ↔
      (hasRule = true ∨ partResults parts b ≠ []) ∧
        decide (logic = bytes "NOT") ∉ partResults parts b := by
  induction parts generalizing hasRule b with
  | nil => simp [checkParts, partResults, fst_pure]
  | cons part parts ih =>
    cases part with
    | none => exact ih hasRule b
    | some part =>
      rw [checkParts_some hor, partResults, List.mem_cons]
      by_cases hp : (part b).1 = decide (logic = bytes "NOT")
      · rw [if_pos hp]
        exact iff_of_false Bool.false_ne_true fun h => h.2 (Or.inl hp.symm)
      · rw [if_neg hp, ih]
        simp [Ne.symm hp]

/-- The checks of a rule come to what its logic makes of the results. -/
theorem checkParts_eq_true_iff (b : SizeBounds) :
    (checkParts logic parts false b).1 = true ↔ Satisfied logic (partResults parts b) := by
  unfold Satisfied
  by_cases hor : logic = bytes "OR"
  · rw [checkParts_or hor, if_pos hor]
    exact ⟨fun h => ⟨List.ne_nil_of_mem h, h⟩, fun h => h.2⟩
  · rw [if_neg hor]
    rw [checkParts_of_ne_or hor]
    by_cases hnot : logic = bytes "NOT"
    · simp [hnot]
    · simp [hnot]

end Parts

section Search

variable (kw : KeywordRule → MailInfo → Bool) (m : MailInfo) (db : FilterDB)

/-- The logic of a rule accepts the results of its parts from these bounds. -/
def RuleSatisfied (r : RuleInfo) (b : SizeBounds) : Prop :=
  Satisfied (orElse r.ruleLogic (bytes "AND")) (partResults (ruleParts kw m r) b)

instance (r : RuleInfo) (b : SizeBounds) : Decidable (RuleSatisfied kw m r b) :=
  inferInstanceAs (Decidable (Satisfied _ _))

theorem checkRule_eq_true_iff (r : RuleInfo) (b : SizeBounds) :
    (checkRule kw m r b).1 = true ↔ RuleSatisfied kw m r b := checkParts_eq_true_iff b

/-- The bounds that the search, if nothing stops it, has when it comes to a rule. -/
def reached : List Bytes → SizeBounds → Bytes → SizeBounds
  | [], b, _ => b
  | id' :: ids, b, id =>
      if id = id' then b
      else if !isTrue id' then reached ids b id
      else reached ids (checkRule kw m ((db.lookup id').getD {}) b).2 id

/-- The search finds the first id that it looks at whose rule is satisfied. -/
theorem checkRules_fst {ids : List Bytes} (hnodup : ids.Nodup) (b : SizeBounds) :
    (checkRules kw m db ids b).1 = ids.find? fun id =>
      isTrue id &&
        decide (RuleSatisfied kw m ((db.lookup id).getD {}) (reached kw m db ids b id)) := by
  induction ids generalizing b with
  | nil => rfl
  | cons id ids ih =>
    obtain ⟨hid, hnodup⟩ := List.nodup_cons.1 hnodup
    have hne : ∀ id' ∈ ids, id' ≠ id := fun id' hmem he => hid (he ▸ hmem)
    by_cases htrue : isTrue id = true
    · rw [checkRules, if_neg (by simp [htrue]), fst_bind_ite, List.find?_cons]
      simp only [reached, htrue, if_true, Bool.true_and, checkRule_eq_true_iff]
      by_cases hsat : RuleSatisfied kw m ((db.lookup id).getD {}) b
      · simp only [hsat, if_true, decide_true]
        rfl
      · simp only [hsat, if_false, decide_false, ih hnodup]
        exact List.find?_congr fun id' hmem => by simp [hne id' hmem]
    · rw [checkRules, if_pos (by simp [htrue]), ih hnodup, List.find?_cons]
      simp only [htrue, Bool.false_and]
      exact List.find?_congr fun id' hmem => by simp [reached, hne id' hmem, htrue]

/-! ## The least rule -/

/-- The rule is in the database, has an id, and the mail satisfies it. -/
def Qualifies (b : SizeBounds) (id : Bytes) : Prop :=
  id ≠ [] ∧ ∃ r ∈ db.lookup id, RuleSatisfied kw m r (reached kw m db (Table.sortedKeys db) b id)

/-- The result is the rule with the least number that qualifies, or nothing when none does. -/
def FindsLeast (b : SizeBounds) : Option Bytes → Prop
  | some id => Qualifies kw m db b id ∧ ∀ id', Qualifies kw m db b id' → value id ≤ value id'
  | none => ∀ id, ¬ Qualifies kw m db b id

/-- The ids are decimal numbers from 1 on, apart from the empty one of the rule that a new database
has in it. -/
def Numbered (db : FilterDB) : Prop := ∀ id ∈ db, id = [] ∨ ∃ n, 0 < n ∧ id = decimal n

variable {kw m db} {b : SizeBounds} {id : Bytes}

theorem Qualifies.mem (h : Qualifies kw m db b id) : id ∈ db := by
  obtain ⟨-, r, hr, -⟩ := h
  exact AList.lookup_isSome.1 (Option.isSome_iff_exists.2 ⟨r, hr⟩)

theorem checkAllRuleBackend_fst (kw : KeywordRule → MailInfo → Bool) (m : MailInfo) (db : FilterDB)
    (b : SizeBounds) :
    (checkAllRuleBackend kw m db b).1 = (Table.sortedKeys db).find? fun id =>
      isTrue id && decide (RuleSatisfied kw m ((db.lookup id).getD {})
        (reached kw m db (Table.sortedKeys db) b id)) :=
  checkRules_fst kw m db (Table.nodup_sortedKeys db) b

/-- On numbered rules the test of the search is that the rule qualifies. -/
theorem test_iff_qualifies (hdb : Numbered db) (hid : id ∈ db) :
    (isTrue id && decide (RuleSatisfied kw m ((db.lookup id).getD {})
      (reached kw m db (Table.sortedKeys db) b id))) = true ↔ Qualifies kw m db b id := by
  obtain rfl | ⟨n, hn, rfl⟩ := hdb id hid
  · simp [Qualifies, Perl.isTrue]
  · have hne : decimal n ≠ [] := by
      intro hnil
      have htrue := isTrue_decimal hn
      rw [hnil] at htrue
      cases htrue
    obtain ⟨r, hr⟩ := Option.isSome_iff_exists.1 (AList.lookup_isSome.2 hid)
    simp [Qualifies, hr, isTrue_decimal hn, hne]

/-- The search finds the qualifying rule whose id is the least string. -/
theorem checkAllRuleBackend_eq_some (hdb : Numbered db)
    (h : (checkAllRuleBackend kw m db b).1 = some id) :
    Qualifies kw m db b id ∧ ∀ id', Qualifies kw m db b id' → id ≤ id' := by
  rw [checkAllRuleBackend_fst] at h
  have hmem : id ∈ db := Table.mem_sortedKeys.1 (List.mem_of_find?_eq_some h)
  have htest := List.find?_some h
  refine ⟨(test_iff_qualifies hdb hmem).1 htest, fun id' hid' => ?_⟩
  exact Table.le_of_find?_sortedKeys h hid'.mem ((test_iff_qualifies hdb hid'.mem).2 hid')

theorem checkAllRuleBackend_eq_none (hdb : Numbered db)
    (h : (checkAllRuleBackend kw m db b).1 = none) : ∀ id, ¬ Qualifies kw m db b id := by
  rw [checkAllRuleBackend_fst] at h
  intro id hid
  exact List.find?_eq_none.1 h id (Table.mem_sortedKeys.2 hid.mem)
    ((test_iff_qualifies hdb hid.mem).2 hid)

theorem eq_of_value_eq (hdb : Numbered db) {id' : Bytes} (hid : Qualifies kw m db b id)
    (hid' : Qualifies kw m db b id') (h : value id = value id') : id = id' := by
  obtain ⟨n, -, rfl⟩ := (hdb id hid.mem).resolve_left hid.1
  obtain ⟨n', -, rfl⟩ := (hdb id' hid'.mem).resolve_left hid'.1
  rw [value_decimal, value_decimal] at h
  rw [h]

/-- **The search finds the least number** exactly when the qualifying rule with the least number
also comes first in the order of strings. -/
theorem findsLeast_iff (kw : KeywordRule → MailInfo → Bool) (m : MailInfo) (b : SizeBounds)
    (hdb : Numbered db) :
    FindsLeast kw m db b (checkAllRuleBackend kw m db b).1 ↔
      ∀ id, Qualifies kw m db b id →
        (∀ id', Qualifies kw m db b id' → value id ≤ value id') →
          ∀ id', Qualifies kw m db b id' → id ≤ id' := by
  cases hfound : (checkAllRuleBackend kw m db b).1 with
  | none =>
    have hnone := checkAllRuleBackend_eq_none hdb hfound
    exact ⟨fun _ id hid => absurd hid (hnone id), fun _ => hnone⟩
  | some id =>
    obtain ⟨hqual, hfirst⟩ := checkAllRuleBackend_eq_some hdb hfound
    constructor
    · rintro ⟨-, hleast⟩ id₁ hid₁ hleast₁ id' hid'
      have hvalue : value id₁ = value id := le_antisymm (hleast₁ id hqual) (hleast id₁ hid₁)
      rw [eq_of_value_eq hdb hid₁ hqual hvalue]
      exact hfirst id' hid'
    · intro h
      obtain ⟨id₁, hid₁, hmin⟩ := (measure value).wf.has_min {id | Qualifies kw m db b id}
        ⟨id, hqual⟩
      have hleast₁ : ∀ id', Qualifies kw m db b id' → value id₁ ≤ value id' :=
        fun id' hid' => Nat.not_lt.1 (hmin id' hid')
      rw [antisymm (hfirst id₁ hid₁) (h id₁ hid₁ hleast₁ id hqual)]
      exact ⟨hid₁, hleast₁⟩

end Search

/-- A mail without anything in it. -/
def blankMail : MailInfo where
  head := ⟨[], [], [], [], [], [], 0, [], []⟩
  headSize := 0
  body := ∅
  bodyText := []
  bodySize := none
  attachmentSize := none
  attachmentNum := none
  attachment := false

/-- A rule with a keyword. -/
def keywordRule : RuleInfo := { ruleKeyword := some (.hash []) }

/-- A database as it is made, with a rule without an id, and two rules with a keyword. -/
def pair (a c : ℕ) : FilterDB :=
  ((AList.singleton [] {}).insert (decimal a) keywordRule).insert (decimal c) keywordRule

theorem mem_pair {a c : ℕ} {id : Bytes} (h : id ∈ pair a c) :
    id = [] ∨ id = decimal a ∨ id = decimal c := by
  rw [pair] at h
  rcases (AList.mem_insert _).1 h with rfl | h
  · exact Or.inr (Or.inr rfl)
  · rcases (AList.mem_insert _).1 h with rfl | h
    · exact Or.inr (Or.inl rfl)
    · exact Or.inl (by simpa [AList.mem_keys, AList.keys_singleton] using h)

theorem numbered_pair {a c : ℕ} (ha : 0 < a) (hc : 0 < c) : Numbered (pair a c) := by
  intro id hid
  rcases mem_pair hid with rfl | rfl | rfl
  · exact Or.inl rfl
  · exact Or.inr ⟨a, ha, rfl⟩
  · exact Or.inr ⟨c, hc, rfl⟩

/-- Of the rules 1 and 2 the first is found. -/
theorem findsLeast_oneAndTwo :
    Numbered (pair 1 2) ∧
      (checkAllRuleBackend (fun _ _ => true) blankMail (pair 1 2) {}).1 = some (decimal 1) ∧
      FindsLeast (fun _ _ => true) blankMail (pair 1 2) {}
        (checkAllRuleBackend (fun _ _ => true) blankMail (pair 1 2) {}).1 := by
  have hdb : Numbered (pair 1 2) := numbered_pair (by decide) (by decide)
  refine ⟨hdb, by decide, (findsLeast_iff _ _ _ hdb).2 fun id hid hleast id' hid' => ?_⟩
  have hone : Qualifies (fun _ _ => true) blankMail (pair 1 2) {} (decimal 1) :=
    ⟨by decide, keywordRule, by decide, by decide⟩
  have hle := hleast _ hone
  rcases mem_pair hid.mem with rfl | rfl | rfl
  · exact absurd rfl hid.1
  · rcases mem_pair hid'.mem with rfl | rfl | rfl
    · exact absurd rfl hid'.1
    · exact List.le_refl (decimal 1)
    · decide
  · rw [value_decimal, value_decimal] at hle
    exact absurd hle (by decide)

/-- Of the rules 9 and 10 the second is found. -/
theorem findsLeast_nineAndTen :
    Numbered (pair 9 10) ∧
      (checkAllRuleBackend (fun _ _ => true) blankMail (pair 9 10) {}).1 = some (decimal 10) ∧
      ¬ FindsLeast (fun _ _ => true) blankMail (pair 9 10) {}
        (checkAllRuleBackend (fun _ _ => true) blankMail (pair 9 10) {}).1 := by
  have hfound : (checkAllRuleBackend (fun _ _ => true) blankMail (pair 9 10) {}).1 =
      some (decimal 10) := by decide
  refine ⟨numbered_pair (by decide) (by decide), hfound, ?_⟩
  rw [hfound]
  rintro ⟨-, hleast⟩
  have hnine : Qualifies (fun _ _ => true) blankMail (pair 9 10) {} (decimal 9) :=
    ⟨by decide, keywordRule, by decide, by decide⟩
  have hle := hleast (decimal 9) hnine
  rw [value_decimal, value_decimal] at hle
  exact absurd hle (by decide)

end NoSpam.Content
