import NoSpam.Content.Filter

/-!
# When matching a mail does not depend on the mails before

Two things a rule object carries from one mail to the next.  The bounds of the last size that had a
range are read by a size that has no number (`SizesSettled` excludes the mixture).  The GA database
gets an entry for every user rule that matches; an entry under a new id has no conditions and is
passed over (`Extends`).
-/

namespace NoSpam.Content

open Text Perl

/-! ## Sizes -/

/-- The sizes written in a rule. -/
def RuleInfo.sizeSpecs (r : RuleInfo) : List Bytes :=
  ((r.attachment.elim [] SubRules.toList).filterMap AttachmentRule.sizevalue) ++
    (r.size.elim [] SubRules.toList).map SizeRule.sizevalue

/-- A condition on the sizes written in the rules of a database. -/
def FilterDB.AllSizes (p : Bytes → Prop) (db : FilterDB) : Prop :=
  ∀ id r, db.lookup id = some r → ∀ spec ∈ r.sizeSpecs, p spec

theorem FilterDB.allSizes_iff {p : Bytes → Prop} {db : FilterDB} :
    db.AllSizes p ↔ ∀ e ∈ db.entries, ∀ spec ∈ e.2.sizeSpecs, p spec := by
  constructor
  · exact fun h e he => h e.1 e.2 (AList.mem_lookup_iff.2 he)
  · exact fun h id r hr => h ⟨id, r⟩ (AList.mem_lookup_iff.1 hr)

instance {p : Bytes → Prop} [DecidablePred p] (db : FilterDB) : Decidable (db.AllSizes p) :=
  decidable_of_iff' _ FilterDB.allSizes_iff

/-- The sizes of two databases never read what an earlier size has left: all of them have a number,
or none has a range. -/
def SizesSettled (db db' : FilterDB) : Prop :=
  (db.AllSizes (fun s => matchNumber s ≠ none) ∧ db'.AllSizes fun s => matchNumber s ≠ none) ∨
    (db.AllSizes (fun s => matchRange s = none) ∧ db'.AllSizes fun s => matchRange s = none)

instance (db db' : FilterDB) : Decidable (SizesSettled db db') :=
  inferInstanceAs (Decidable ((_ ∧ _) ∨ (_ ∧ _)))

/-- Comparing with the size is steady. -/
def SteadySize (P : SizeBounds → Prop) (spec : Bytes) : Prop :=
  ∀ size, Steady P (checkSizeValue size spec)

theorem steadySize_of_number {spec : Bytes} (h : matchNumber spec ≠ none) :
    SteadySize (fun _ => True) spec := by
  intro size
  unfold checkSizeValue
  cases size with
  | none => exact Steady.pure _
  | some n =>
    cases matchRange spec with
    | some b => exact (Steady.set trivial).bind fun _ => Steady.pure _
    | none =>
      cases hn : matchNumber spec with
      | some k => exact Steady.pure _
      | none => exact absurd hn h

theorem steadySize_of_no_range {spec : Bytes} (h : matchRange spec = none) (b : SizeBounds) :
    SteadySize (· = b) spec := by
  intro size
  unfold checkSizeValue
  cases size with
  | none => exact Steady.pure _
  | some n =>
    simp only [h]
    cases matchNumber spec with
    | some k => exact Steady.pure _
    | none => exact Steady.of_subsingleton (fun s t hs ht => hs.trans ht.symm) fun s hs => hs

/-- Settled sizes leave an invariant under which every check is steady. -/
theorem SizesSettled.exists_invariant {db db' : FilterDB} (h : SizesSettled db db') :
    ∃ P : SizeBounds → Prop, P {} ∧ db.AllSizes (SteadySize P) ∧ db'.AllSizes (SteadySize P) := by
  rcases h with ⟨h, h'⟩ | ⟨h, h'⟩
  · exact ⟨fun _ => True, trivial, fun id r hr s hs => steadySize_of_number (h id r hr s hs),
      fun id r hr s hs => steadySize_of_number (h' id r hr s hs)⟩
  · exact ⟨(· = {}), rfl, fun id r hr s hs => steadySize_of_no_range (h id r hr s hs) {},
      fun id r hr s hs => steadySize_of_no_range (h' id r hr s hs) {}⟩

/-- From given bounds a size always leaves an invariant under which comparing with it is steady. -/
theorem exists_steadySize (spec : Bytes) (b : SizeBounds) :
    ∃ P : SizeBounds → Prop, P b ∧ SteadySize P spec := by
  by_cases hrange : matchRange spec = none
  · exact ⟨(· = b), rfl, steadySize_of_no_range hrange b⟩
  · refine ⟨fun _ => True, trivial, fun size => ?_⟩
    obtain ⟨bounds, hbounds⟩ := Option.ne_none_iff_exists'.1 hrange
    unfold checkSizeValue
    cases size with
    | none => exact Steady.pure _
    | some n =>
      simp only [hbounds]
      exact (Steady.set trivial).bind fun _ => Steady.pure _

section Checks

variable {P : SizeBounds → Prop}

theorem steady_checkAttachments {rule : AttachmentRule}
    (h : ∀ s ∈ rule.sizevalue, SteadySize P s) (parts : List (Sigma fun _ : Bytes => BodyPart)) :
    Steady P (checkAttachments rule parts) := by
  induction parts with
  | nil => exact Steady.pure _
  | cons part rest ih =>
    obtain ⟨filename, part⟩ := part
    unfold checkAttachments
    refine Steady.ite (fun _ => ih) fun _ => Steady.ite (fun _ => ih) fun _ =>
      Steady.ite (fun _ => ih) fun _ => ?_
    cases hs : rule.sizevalue with
    | none => exact Steady.pure _
    | some spec => exact (h spec hs _).bind fun b => Steady.ite (fun _ => Steady.pure _) fun _ => ih

theorem steady_checkSingleSizeRule {rule : SizeRule} (h : SteadySize P rule.sizevalue)
    (m : MailInfo) : Steady P (checkSingleSizeRule rule m) := by
  unfold checkSingleSizeRule
  refine Steady.ite (fun _ => Steady.pure _) fun _ => Steady.ite (fun _ => h _) fun _ =>
    Steady.ite (fun _ => h _) fun _ => Steady.ite (fun _ => h _) fun _ => Steady.ite (fun _ => h _)
      fun _ => Steady.ite (fun _ => h _) fun _ => Steady.ite (fun _ => h _) fun _ => Steady.pure _

theorem steady_checkArray {α : Type} {single : α → StateM SizeBounds Bool} (logic : Bytes)
    {rs : List α} (h : ∀ r ∈ rs, Steady P (single r)) : Steady P (checkArray single logic rs) := by
  induction rs with
  | nil => exact Steady.pure _
  | cons r rs ih =>
    have hrest := ih fun r' hr' => h r' (List.mem_cons_of_mem r hr')
    unfold checkArray
    refine (h r List.mem_cons_self).bind fun b => ?_
    refine Steady.ite (fun _ => Steady.ite (fun _ => Steady.pure _) fun _ => hrest) fun _ =>
      Steady.ite (fun _ => Steady.ite (fun _ => Steady.pure _) fun _ => hrest) fun _ =>
        Steady.ite (fun _ => hrest) fun _ => Steady.pure _

theorem steady_checkSubRules {α : Type} {single : α → StateM SizeBounds Bool} (logic : Bytes)
    {rs : SubRules α} (h : ∀ r ∈ rs.toList, Steady P (single r)) :
    Steady P (checkSubRules single logic rs) := by
  cases rs with
  | hash r =>
    exact (h r (List.mem_singleton.2 rfl)).bind fun b =>
      Steady.ite (fun _ => Steady.pure _) fun _ => Steady.pure _
  | array rs => exact steady_checkArray logic h

theorem steady_checkParts (logic : Bytes) {parts : List (Option (StateM SizeBounds Bool))}
    (h : ∀ part, some part ∈ parts → Steady P part) (hasRule : Bool) :
    Steady P (checkParts logic parts hasRule) := by
  induction parts generalizing hasRule with
  | nil => exact Steady.pure _
  | cons part parts ih =>
    have hrest := ih fun p hp => h p (List.mem_cons_of_mem part hp)
    cases part with
    | none => exact hrest hasRule
    | some part =>
      unfold checkParts
      refine (h part List.mem_cons_self).bind fun b => ?_
      refine Steady.ite (fun _ => Steady.ite (fun _ => Steady.pure _) fun _ => hrest _) fun _ =>
        Steady.ite (fun _ => Steady.ite (fun _ => Steady.pure _) fun _ => hrest _) fun _ =>
          Steady.ite (fun _ => hrest _) fun _ => Steady.pure _

variable (kw : KeywordRule → MailInfo → Bool) (m : MailInfo)

/-- The parts of a rule that are present, in the order they are checked. -/
def ruleParts (r : RuleInfo) : List (Option (StateM SizeBounds Bool)) :=
  let logic (l : Bytes) := orElse l (bytes "AND")
  [r.attachment.map fun a => checkAttachmentRule (logic r.attachLogic) a m,
    r.size.map fun s => checkSizeRule (logic r.sizeLogic) s m,
    r.ruleKeyword.map fun k => checkKeywordRule kw (logic r.keywordLogic) k m]

theorem steady_ruleParts {r : RuleInfo} (h : ∀ s ∈ r.sizeSpecs, SteadySize P s)
    {part : StateM SizeBounds Bool} (hpart : some part ∈ ruleParts kw m r) : Steady P part := by
  simp only [ruleParts, List.mem_cons, Option.some_eq_map_iff, List.not_mem_nil, or_false] at hpart
  rcases hpart with ⟨a, ha, rfl⟩ | ⟨s, hs, rfl⟩ | ⟨k, -, rfl⟩
  · refine Steady.ite (fun _ => Steady.pure _) fun _ => steady_checkSubRules _ ?_
    intro r' hr'
    refine steady_checkAttachments ?_ _
    intro spec hspec
    refine h spec (List.mem_append_left _ (List.mem_filterMap.2 ⟨r', ?_, hspec⟩))
    rw [ha]
    exact hr'
  · refine steady_checkSubRules _ ?_
    intro r' hr'
    refine steady_checkSingleSizeRule
      (h _ (List.mem_append_right _ (List.mem_map.2 ⟨r', ?_, rfl⟩))) m
    rw [hs]
    exact hr'
  · exact steady_checkSubRules _ fun _ _ => Steady.pure _

theorem steady_checkRule {r : RuleInfo} (h : ∀ s ∈ r.sizeSpecs, SteadySize P s) :
    Steady P (checkRule kw m r) :=
  steady_checkParts _ (fun _ hpart => steady_ruleParts kw m h hpart) false

theorem steady_checkRules {db : FilterDB} (h : db.AllSizes (SteadySize P)) (ids : List Bytes) :
    Steady P (checkRules kw m db ids) := by
  induction ids with
  | nil => exact Steady.pure _
  | cons id ids ih =>
    unfold checkRules
    refine Steady.ite (fun _ => ih) fun _ => Steady.bind (steady_checkRule kw m ?_) fun b =>
      Steady.ite (fun _ => Steady.pure _) fun _ => ih
    cases hr : db.lookup id with
    | none => exact fun s hs => absurd hs (List.not_mem_nil)
    | some r => exact h id r hr

end Checks

/-! ## Entries without conditions -/

/-- A rule without conditions. -/
def RuleInfo.Inert (r : RuleInfo) : Prop :=
  r.attachment = none ∧ r.size = none ∧ r.ruleKeyword = none

/-- The second database has the rules of the first, and beside them only rules without
conditions. -/
structure Extends (db db' : FilterDB) : Prop where
  lookup_eq : ∀ id ∈ db, db'.lookup id = db.lookup id
  inert : ∀ id, id ∉ db → ∀ r, db'.lookup id = some r → r.Inert

theorem Extends.refl (db : FilterDB) : Extends db db :=
  ⟨fun _ _ => rfl, fun id hid r hr => absurd (AList.lookup_isSome.1 (by simp [hr])) hid⟩

theorem Extends.mem {db db' : FilterDB} (h : Extends db db') {id : Bytes} (hid : id ∈ db) :
    id ∈ db' := by
  rw [← AList.lookup_isSome, h.lookup_eq id hid, AList.lookup_isSome]
  exact hid

/-- Noting a user rule under a new id, or under a GA rule that has the mark already, leaves the
rules what they are. -/
theorem Extends.insert {db db' : FilterDB} (h : Extends db db') {id : Bytes} {r : RuleInfo}
    (hold : ∀ r', db.lookup id = some r' → r = r') (hnew : id ∉ db → r.Inert) :
    Extends db (db'.insert id r) := by
  constructor
  · intro id' hid'
    by_cases he : id' = id
    · subst he
      obtain ⟨r', hr'⟩ := Option.isSome_iff_exists.1 (AList.lookup_isSome.2 hid')
      rw [AList.lookup_insert, hr', hold r' hr']
    · rw [AList.lookup_insert_ne he, h.lookup_eq id' hid']
  · intro id' hid' r' hr'
    by_cases he : id' = id
    · subst he
      rw [AList.lookup_insert] at hr'
      cases hr'
      exact hnew hid'
    · rw [AList.lookup_insert_ne he] at hr'
      exact h.inert id' hid' r' hr'

section Extended

variable (kw : KeywordRule → MailInfo → Bool) (m : MailInfo)

theorem checkRule_of_inert {r : RuleInfo} (h : r.Inert) : checkRule kw m r = pure false := by
  obtain ⟨ha, hs, hk⟩ := h
  unfold checkRule
  rw [ha, hs, hk]
  rfl

theorem inert_default : RuleInfo.Inert {} := ⟨rfl, rfl, rfl⟩

/-- Rules without conditions are passed over. -/
theorem checkRules_of_extends {db db' : FilterDB} (h : Extends db db') (ids : List Bytes) :
    checkRules kw m db' ids = checkRules kw m db (ids.filter (· ∈ db)) := by
  induction ids with
  | nil => rfl
  | cons id ids ih =>
    by_cases hid : id ∈ db
    · rw [List.filter_cons_of_pos (by simpa using hid), checkRules, checkRules, ih,
        h.lookup_eq id hid]
    · have hinert : ((db'.lookup id).getD {}).Inert := by
        cases hr : db'.lookup id with
        | none => exact inert_default
        | some r => exact h.inert id hid r hr
      rw [List.filter_cons_of_neg (by simpa using hid), checkRules, ih,
        checkRule_of_inert kw m hinert, pure_bind]
      simp

theorem checkAllRuleBackend_of_extends {db db' : FilterDB} (h : Extends db db') :
    checkAllRuleBackend kw m db' = checkAllRuleBackend kw m db := by
  unfold checkAllRuleBackend
  rw [checkRules_of_extends kw m h, Table.filter_sortedKeys fun _ => h.mem]

end Extended

/-! ## The rule object over several mails -/

section Ruler

variable (kw : KeywordRule → MailInfo → Bool) (m : MailInfo)

/-- The first rule of a database that a mail matches, before any size has been checked. -/
def firstRule (db : FilterDB) : Option Bytes := (checkAllRuleBackend kw m db {}).1

/-- What a rule object just loaded finds. -/
def freshMatch (db userdb : FilterDB) : Option (Bool × RuleInfo) :=
  match firstRule kw m db with
  | some id => some (true, (db.lookup id).getD {})
  | none => (firstRule kw m userdb).map fun id => (false, (userdb.lookup id).getD {})

/-- The mail matches a user rule whose id is also the id of a GA rule without the mark that
`get_match_rule` then puts there. -/
def Marks (db userdb : FilterDB) : Prop :=
  firstRule kw m db = none ∧
    ∃ id ∈ firstRule kw m userdb, ∃ r ∈ db.lookup id, r.idType ≠ bytes "user"

instance (db userdb : FilterDB) : Decidable (Marks kw m db userdb) :=
  inferInstanceAs (Decidable (_ ∧ _))

theorem mem_of_checkRules {db : FilterDB} {id : Bytes} {ids : List Bytes} {b : SizeBounds}
    (h : (checkRules kw m db ids b).1 = some id) : id ∈ ids := by
  induction ids generalizing b with
  | nil => cases h
  | cons id' ids ih =>
    rw [checkRules] at h
    split_ifs at h
    · exact List.mem_cons_of_mem _ (ih h)
    · have hrun : ∀ x : StateM SizeBounds Bool,
          (x >>= fun holds => if holds then pure (some id') else checkRules kw m db ids) b =
            (if (x b).1 then pure (some id') else checkRules kw m db ids) (x b).2 := fun _ => rfl
      rw [hrun] at h
      split_ifs at h
      · cases h
        exact List.mem_cons_self
      · exact List.mem_cons_of_mem _ (ih h)

theorem mem_of_firstRule {db : FilterDB} {id : Bytes} (h : firstRule kw m db = some id) :
    id ∈ db := Table.mem_sortedKeys.1 (mem_of_checkRules kw m h)

/-- A rule object that has come from one with the databases `db` and `userdb`: nothing that
matters has changed. -/
structure Ruler.From (P : SizeBounds → Prop) (db userdb : FilterDB) (r : Ruler) : Prop where
  user : r.userFilterdb = userdb
  ga : Extends db r.filterdb
  bounds : P r.bounds

variable {P : SizeBounds → Prop} {db userdb : FilterDB} {r : Ruler}

/-- A steady search finds what it finds in a rule object just loaded. -/
theorem checkAllRuleBackend_eq_firstRule {db' : FilterDB} (h : db.AllSizes (SteadySize P))
    (hempty : P {}) (hext : Extends db db') {b : SizeBounds} (hb : P b) :
    (checkAllRuleBackend kw m db' b).1 = firstRule kw m db ∧
      P (checkAllRuleBackend kw m db' b).2 := by
  rw [checkAllRuleBackend_of_extends kw m hext]
  exact steady_checkRules kw m h _ b {} hb hempty

/-- The GA database after a mail that matches no GA rule: the user rule it matches is noted. -/
def labelled (db userdb ga : FilterDB) : FilterDB :=
  match firstRule kw m db, firstRule kw m userdb with
  | none, some id => ga.insert id { (ga.lookup id).getD {} with idType := bytes "user" }
  | _, _ => ga

/-- What `get_match_rule` finds and leaves, mail after mail. -/
theorem getMatchRule_eq (hdb : db.AllSizes (SteadySize P))
    (huserdb : userdb.AllSizes (SteadySize P)) (hempty : P {}) (h : r.From P db userdb) :
    ∃ b, P b ∧ getMatchRule kw r m =
      (freshMatch kw m db userdb, ⟨labelled kw m db userdb r.filterdb, userdb, b⟩) := by
  obtain ⟨rfl, hga, hb⟩ := h
  obtain ⟨hfirst, hb'⟩ := checkAllRuleBackend_eq_firstRule kw m hdb hempty hga hb
  obtain ⟨hfirst', hb''⟩ :=
    checkAllRuleBackend_eq_firstRule kw m huserdb hempty (Extends.refl r.userFilterdb) hb'
  unfold getMatchRule freshMatch labelled
  dsimp only
  rw [hfirst]
  cases hid : firstRule kw m db with
  | some id =>
    dsimp only
    rw [hga.lookup_eq id (mem_of_firstRule kw m hid)]
    exact ⟨_, hb', rfl⟩
  | none =>
    dsimp only
    rw [hfirst']
    cases firstRule kw m r.userFilterdb with
    | none => exact ⟨_, hb'', rfl⟩
    | some id => exact ⟨_, hb'', rfl⟩

theorem extends_labelled {ga : FilterDB} (h : Extends db ga) (hmarks : ¬ Marks kw m db userdb) :
    Extends db (labelled kw m db userdb ga) := by
  unfold labelled
  cases hid : firstRule kw m db with
  | some id => exact h
  | none =>
    cases hid' : firstRule kw m userdb with
    | none => exact h
    | some id =>
      refine h.insert ?_ ?_
      · intro r' hr'
        have hmem : id ∈ db := AList.lookup_isSome.1 (by simp [hr'])
        have htype : r'.idType = bytes "user" := by
          by_contra hne
          exact hmarks ⟨hid, id, hid', r', hr', hne⟩
        rw [h.lookup_eq id hmem, hr', Option.getD_some, ← htype]
      · intro hmem
        have hinert : ((ga.lookup id).getD {}).Inert := by
          cases hr : ga.lookup id with
          | none => exact inert_default
          | some r' => exact h.inert id hmem r' hr
        exact hinert

/-- Mail after mail, the rule object finds what one just loaded finds, and as long as the mail does
not mark a GA rule nothing that matters changes. -/
theorem getMatchRule_from (hdb : db.AllSizes (SteadySize P))
    (huserdb : userdb.AllSizes (SteadySize P)) (hempty : P {}) (h : r.From P db userdb) :
    (getMatchRule kw r m).1 = freshMatch kw m db userdb ∧
      (¬ Marks kw m db userdb → (getMatchRule kw r m).2.From P db userdb) := by
  obtain ⟨b, hb, heq⟩ := getMatchRule_eq kw m hdb huserdb hempty h
  rw [heq]
  exact ⟨rfl, fun hmarks => ⟨rfl, extends_labelled kw m h.ga hmarks, hb⟩⟩

end Ruler

end NoSpam.Content
