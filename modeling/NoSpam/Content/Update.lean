import NoSpam.Base.Patch
import NoSpam.Base.Scalar
import Mathlib.Data.List.AList
import Mathlib.Data.List.Sort

/-!
# Rule updates

Update files add or modify rules and delete others.  `AKA::Mail::Content::Conf::Update` and
`AKA::Mail::GA::GAISC` read all files that wait into one hash of rules and one of ids, and
`merge_new_rule`, of which there are two copies, puts the rules into the database and then deletes
the ids.  Among ids that `XMLin` reads back as they were written, this differs from merging the
files one after the other exactly in the rules that one file deletes and a later one adds again
(`merge_readRules_iff`).
-/

namespace NoSpam.Content

open Text Perl

/-- Rules by id. -/
abbrev RuleTable (ρ : Type) := AList fun _ : Bytes => ρ

/-- What update files say: rules by id and ids, each undefined as long as no file has any. -/
structure Update (ρ : Type) where
  ruleAddModify : Option (RuleTable ρ) := none
  ruleDel : Option (List Bytes) := none

/-- The copy of `merge_new_rule` in `AKA::Mail::Content::Conf` and the one in `AKA::Mail::GA`. -/
inductive Merger
  | conf
  | ga

/-- The id is deleted: `next unless ( $rule_id )` in one of the copies. -/
def Merger.deletes : Merger → Bytes → Bool
  | .conf, _ => true
  | .ga, id => isTrue id

section Merge

variable {ρ : Type}

/-- `$db->{$id} = $rules->{$id}` for each of the ids. -/
def copyRules (rules : RuleTable ρ) (ids : List Bytes) (db : RuleTable ρ) : RuleTable ρ :=
  ids.foldl
    (fun db id =>
      match rules.lookup id with
      | some r => db.insert id r
      | none => db)
    db

/-- `delete $db->{$id}` for each of the ids. -/
def deleteRules (v : Merger) (ids : List Bytes) (db : RuleTable ρ) : RuleTable ρ :=
  ids.foldl (fun db id => if v.deletes id then db.erase id else db) db

/-- The ids of the rules in the order of their `update_time`. -/
def byUpdateTime (updateTime : ρ → Bytes) (rules : RuleTable ρ) : List Bytes :=
  rules.keys.insertionSort fun a b =>
    ((rules.lookup a).map updateTime).getD [] ≤ ((rules.lookup b).map updateTime).getD []

/-- The two loops of `merge_new_rule`. -/
def mergeRules (updateTime : ρ → Bytes) (v : Merger) (u : Update ρ) (db : RuleTable ρ) :
    RuleTable ρ :=
  let rules := u.ruleAddModify.getD ∅
  deleteRules v (u.ruleDel.getD []) (copyRules rules (byUpdateTime updateTime rules) db)

/-- `add_rule_add_modify`. -/
def addRuleAddModify (acc : Option (RuleTable ρ)) (rules : RuleTable ρ) : Option (RuleTable ρ) :=
  if rules.keys = [] then acc else some (copyRules rules rules.keys (acc.getD ∅))

/-- `add_rule_del`. -/
def addRuleDel (acc : Option (List Bytes)) (ids : List Bytes) : Option (List Bytes) :=
  if ids = [] then acc else some (ids.foldl (fun acc id => acc.insert id) (acc.getD []))

/-- `add_rule`. -/
def addRule (acc u : Update ρ) : Update ρ where
  ruleAddModify := u.ruleAddModify.elim acc.ruleAddModify (addRuleAddModify acc.ruleAddModify)
  ruleDel := u.ruleDel.elim acc.ruleDel (addRuleDel acc.ruleDel)

/-- `read_rule`: the files in the order of their names. -/
def readRules (us : List (Update ρ)) : Update ρ := us.foldl addRule {}

/-! ## The packages of the centre -/

/-- What `_file2pkg` and `_pkg2filter` read from a file. -/
structure RulePkg (ρ : Type) where
  type : Bytes
  ruleid : Bytes
  ruleInfo : ρ

/-- `parse_rule_to_filterdb`. -/
def parseRuleToFilterdb (pkgs : List (RulePkg ρ)) : Update ρ :=
  pkgs.foldl
    (fun acc pkg =>
      if lc pkg.type = bytes "ruleaddmodify" then
        { acc with
          ruleAddModify := some ((acc.ruleAddModify.getD ∅).insert pkg.ruleid pkg.ruleInfo) }
      else { acc with ruleDel := some ((acc.ruleDel.getD []).insert pkg.ruleid) })
    {}

/-- A package as an update of its own. -/
def RulePkg.update (pkg : RulePkg ρ) : Update ρ :=
  if lc pkg.type = bytes "ruleaddmodify" then
    { ruleAddModify := some (AList.singleton pkg.ruleid pkg.ruleInfo) }
  else { ruleDel := some [pkg.ruleid] }

theorem parseRuleToFilterdb_eq (pkgs : List (RulePkg ρ)) :
    parseRuleToFilterdb pkgs = readRules (pkgs.map RulePkg.update) := by
  have hstep : ∀ (acc : Update ρ) (pkg : RulePkg ρ), addRule acc pkg.update =
      if lc pkg.type = bytes "ruleaddmodify" then
        { acc with
          ruleAddModify := some ((acc.ruleAddModify.getD ∅).insert pkg.ruleid pkg.ruleInfo) }
      else { acc with ruleDel := some ((acc.ruleDel.getD []).insert pkg.ruleid) } := by
    intro acc pkg
    unfold RulePkg.update
    split_ifs
    · have hlookup : (AList.singleton pkg.ruleid pkg.ruleInfo : RuleTable ρ).lookup pkg.ruleid =
          some pkg.ruleInfo := by rw [← AList.insert_empty, AList.lookup_insert]
      simp [addRule, addRuleAddModify, copyRules, AList.keys_singleton, hlookup]
    · simp [addRule, addRuleDel]
  rw [parseRuleToFilterdb, readRules, List.foldl_map]
  simp only [hstep]

/-- Packages say something. -/
theorem isSome_parseRuleToFilterdb {pkgs : List (RulePkg ρ)} (h : pkgs ≠ []) :
    ((parseRuleToFilterdb pkgs).ruleAddModify.isNone &&
      (parseRuleToFilterdb pkgs).ruleDel.isNone) = false := by
  rw [← List.dropLast_append_getLast h, parseRuleToFilterdb, List.foldl_concat]
  split_ifs
  · simp
  · simp

/-! ## What an update does to an id -/

/-- An update as an edit of the database. -/
def Update.patch (v : Merger) (u : Update ρ) : Patch Bytes ρ := fun id =>
  if (u.ruleDel.getD []).contains id && v.deletes id then some none
  else ((u.ruleAddModify.getD ∅).lookup id).map some

theorem Update.patch_apply (v : Merger) (u : Update ρ) (id : Bytes) :
    u.patch v id = if id ∈ u.ruleDel.getD [] ∧ v.deletes id = true then some none
      else ((u.ruleAddModify.getD ∅).lookup id).map some := by
  simp [Update.patch]

theorem lookup_copyRules (rules : RuleTable ρ) (ids : List Bytes) (db : RuleTable ρ) (id : Bytes) :
    (copyRules rules ids db).lookup id =
      if id ∈ ids then (rules.lookup id).or (db.lookup id) else db.lookup id := by
  unfold copyRules
  induction ids generalizing db with
  | nil => rfl
  | cons id' ids ih =>
    rw [List.foldl_cons, ih]
    by_cases hid : id = id'
    · subst hid
      cases hr : rules.lookup id with
      | none => simp
      | some r => simp [AList.lookup_insert]
    · cases hr : rules.lookup id' with
      | none => simp [hid]
      | some r => simp [hid, AList.lookup_insert_ne hid]

/-- Copying the rules of a table under all of its ids. -/
theorem lookup_copyRules_of_mem {rules : RuleTable ρ} {ids : List Bytes} {id : Bytes}
    (h : id ∈ rules → id ∈ ids) (db : RuleTable ρ) :
    (copyRules rules ids db).lookup id = (rules.lookup id).or (db.lookup id) := by
  rw [lookup_copyRules]
  split_ifs with hid
  · rfl
  · rw [AList.lookup_eq_none.2 fun hmem => hid (h hmem), Option.none_or]

theorem lookup_deleteRules (v : Merger) (ids : List Bytes) (db : RuleTable ρ) (id : Bytes) :
    (deleteRules v ids db).lookup id =
      if id ∈ ids ∧ v.deletes id = true then none else db.lookup id := by
  unfold deleteRules
  induction ids generalizing db with
  | nil => simp
  | cons id' ids ih =>
    rw [List.foldl_cons, ih]
    by_cases hid : id = id'
    · subst hid
      by_cases hdel : v.deletes id = true
      · simp [hdel, AList.lookup_erase]
      · simp [hdel]
    · have hsame : ((if v.deletes id' = true then db.erase id' else db).lookup id) =
          db.lookup id := by
        split_ifs
        · exact AList.lookup_erase_ne hid
        · rfl
      simp only [hsame, List.mem_cons, hid, false_or]

theorem mem_byUpdateTime {updateTime : ρ → Bytes} {rules : RuleTable ρ} {id : Bytes} :
    id ∈ byUpdateTime updateTime rules ↔ id ∈ rules := by
  rw [byUpdateTime, List.mem_insertionSort, AList.mem_keys]

/-- `merge_new_rule` edits the database. -/
theorem lookup_mergeRules (updateTime : ρ → Bytes) (v : Merger) (u : Update ρ) (db : RuleTable ρ)
    (id : Bytes) :
    (mergeRules updateTime v u db).lookup id = (u.patch v).apply (fun id => db.lookup id) id := by
  rw [mergeRules, lookup_deleteRules, lookup_copyRules_of_mem mem_byUpdateTime.2, Patch.apply,
    Update.patch_apply]
  split_ifs
  · rfl
  · cases (u.ruleAddModify.getD ∅).lookup id <;> rfl

/-! ## Reading all files at once -/

theorem lookup_addRule (acc u : Update ρ) (id : Bytes) :
    ((addRule acc u).ruleAddModify.getD ∅).lookup id =
      ((u.ruleAddModify.getD ∅).lookup id).or ((acc.ruleAddModify.getD ∅).lookup id) := by
  unfold addRule
  cases u.ruleAddModify with
  | none => rfl
  | some rules =>
    dsimp only [Option.elim, Option.getD_some, addRuleAddModify]
    split_ifs with hempty
    · have hid : id ∉ rules := fun hid => by
        rw [AList.mem_keys, hempty] at hid
        cases hid
      rw [AList.lookup_eq_none.2 hid, Option.none_or]
    · rw [Option.getD_some, lookup_copyRules_of_mem AList.mem_keys.1]

theorem mem_addRule (acc u : Update ρ) (id : Bytes) :
    id ∈ (addRule acc u).ruleDel.getD [] ↔
      id ∈ u.ruleDel.getD [] ∨ id ∈ acc.ruleDel.getD [] := by
  unfold addRule
  cases u.ruleDel with
  | none => simp
  | some ids =>
    dsimp only [Option.elim, Option.getD_some, addRuleDel]
    split_ifs with hempty
    · simp [hempty]
    · have hfold : ∀ (l acc : List Bytes),
          id ∈ l.foldl (fun acc id => acc.insert id) acc ↔ id ∈ l ∨ id ∈ acc := by
        intro l
        induction l with
        | nil => simp
        | cons a l ih =>
          intro acc
          rw [List.foldl_cons, ih, List.mem_insert_iff, List.mem_cons]
          tauto
      rw [Option.getD_some, hfold]

/-- The last rule that the files have for an id. -/
theorem lookup_readRules (us : List (Update ρ)) (acc : Update ρ) (id : Bytes) :
    ((us.foldl addRule acc).ruleAddModify.getD ∅).lookup id =
      (Patch.lastSet (us.map fun u id => ((u.ruleAddModify.getD ∅).lookup id).map some) id).or
        ((acc.ruleAddModify.getD ∅).lookup id) := by
  induction us generalizing acc with
  | nil => rfl
  | cons u us ih =>
    rw [List.foldl_cons, ih, lookup_addRule, List.map_cons, Patch.lastSet, Option.or_assoc]
    cases (u.ruleAddModify.getD ∅).lookup id <;> rfl

/-- A rule that is read stands in one of the files. -/
theorem exists_of_lookup_readRules {us : List (Update ρ)} {id : Bytes} {r : ρ}
    (h : ((readRules us).ruleAddModify.getD ∅).lookup id = some r) :
    ∃ u ∈ us, id ∈ u.ruleAddModify.getD ∅ := by
  rw [readRules, lookup_readRules, Option.getD_none, AList.lookup_empty, Option.or_none] at h
  induction us with
  | nil => cases h
  | cons u us ih =>
    rw [List.map_cons, Patch.lastSet] at h
    cases hlast : Patch.lastSet (us.map fun u id => ((u.ruleAddModify.getD ∅).lookup id).map some)
        id with
    | some r' =>
      obtain ⟨u', hu', hid⟩ := ih (by rw [hlast] at h ⊢; exact h)
      exact ⟨u', List.mem_cons_of_mem _ hu', hid⟩
    | none =>
      refine ⟨u, List.mem_cons_self, AList.lookup_isSome.1 ?_⟩
      cases hu : (u.ruleAddModify.getD ∅).lookup id with
      | none => simp [hlast, hu] at h
      | some r' => rfl

theorem mem_readRules (us : List (Update ρ)) (acc : Update ρ) (id : Bytes) :
    id ∈ (us.foldl addRule acc).ruleDel.getD [] ↔
      (∃ u ∈ us, id ∈ u.ruleDel.getD []) ∨ id ∈ acc.ruleDel.getD [] := by
  induction us generalizing acc with
  | nil => simp
  | cons u us ih =>
    simp only [List.foldl_cons, ih, mem_addRule, List.mem_cons, exists_eq_or_imp]
    rw [or_left_comm, or_assoc]

theorem patch_eq_some_none_iff {v : Merger} {u : Update ρ} {id : Bytes} :
    u.patch v id = some none ↔ id ∈ u.ruleDel.getD [] ∧ v.deletes id = true := by
  rw [Update.patch_apply]
  split_ifs with h
  · exact ⟨fun _ => h, fun _ => rfl⟩
  · refine ⟨fun hp => ?_, fun h' => absurd h' h⟩
    cases hr : (u.ruleAddModify.getD ∅).lookup id <;> simp [hr] at hp

/-- All files at once are the batch of the files. -/
theorem patch_readRules (v : Merger) (us : List (Update ρ)) :
    (readRules us).patch v = Patch.batch (us.map (Update.patch v)) := by
  funext id
  have hany : (us.map (Update.patch v)).any (Patch.removes · id) = true ↔
      id ∈ (readRules us).ruleDel.getD [] ∧ v.deletes id = true := by
    rw [List.any_map, List.any_eq_true, readRules, mem_readRules]
    simp only [Function.comp, Patch.removes_iff, patch_eq_some_none_iff]
    simp only [Option.getD_none, List.not_mem_nil, or_false]
    exact ⟨fun ⟨u, hu, hid, hdel⟩ => ⟨⟨u, hu, hid⟩, hdel⟩,
      fun ⟨⟨u, hu, hid⟩, hdel⟩ => ⟨u, hu, hid, hdel⟩⟩
  rw [Patch.batch]
  by_cases hdel : id ∈ (readRules us).ruleDel.getD [] ∧ v.deletes id = true
  · rw [if_pos (hany.2 hdel), Update.patch_apply, if_pos hdel]
  · rw [if_neg fun h => hdel (hany.1 h), Update.patch_apply, if_neg hdel, readRules,
      lookup_readRules]
    have hnone : ∀ u ∈ us, ¬ (id ∈ u.ruleDel.getD [] ∧ v.deletes id = true) := by
      intro u hu h
      refine hdel ⟨?_, h.2⟩
      rw [readRules, mem_readRules]
      exact Or.inl ⟨u, hu, h.1⟩
    have hlast : Patch.lastSet (us.map (Update.patch v)) id =
        Patch.lastSet (us.map fun u id => ((u.ruleAddModify.getD ∅).lookup id).map some) id :=
      Patch.lastSet_map_congr fun u hu => by rw [Update.patch_apply, if_neg (hnone u hu)]
    rw [hlast, Option.getD_none, AList.lookup_empty, Option.or_none]

/-! ## Merging into the database -/

/-- `normalise_space` of `XML::Simple`, which `XMLin` applies to the ids (`NormaliseSpace => 1`): no
white space at the ends, and a blank for two or more in a row. -/
def normaliseSpace (text : Bytes) : Bytes :=
  (((text.dropWhile isWhite).rdropWhile isWhite).splitBy fun a b => isWhite a == isWhite b).flatMap
    fun run => if 2 ≤ run.length && run.all isWhite then [32] else run

/-- The id is read back as it is written: it is normal, and in visible ASCII and blanks. -/
def ReadBack (id : Bytes) : Prop := normaliseSpace id = id ∧ ∀ c ∈ id, 32 ≤ c ∧ c < 127

instance (id : Bytes) : Decidable (ReadBack id) := inferInstanceAs (Decidable (_ ∧ ∀ c ∈ id, _))

section Document

variable {δ : Type} (xmlIn : δ → RuleTable ρ) (xmlOut : RuleTable ρ → δ)
  (updateTime : ρ → Bytes)

/-- The document that `merge_new_rule` puts in the place of the database. -/
def mergeDoc (v : Merger) (u : Update ρ) (doc : δ) : δ :=
  if u.ruleAddModify.isNone && u.ruleDel.isNone then doc
  else xmlOut (mergeRules updateTime v u (xmlIn doc))

/-- `XMLin` reads a table whose ids are read back as `XMLout` has written it. -/
def XmlSimple : Prop :=
  ∀ db : RuleTable ρ, (∀ id ∈ db, ReadBack id) → ∀ id, (xmlIn (xmlOut db)).lookup id = db.lookup id

/-- The ids of the database and those that the files add are read back as they are written. -/
structure Legible (us : List (Update ρ)) (doc : δ) : Prop where
  database : ∀ id ∈ xmlIn doc, ReadBack id
  added : ∀ u ∈ us, ∀ id ∈ u.ruleAddModify.getD ∅, ReadBack id

variable {xmlIn xmlOut}

theorem mem_iff_of_lookup_eq {t t' : RuleTable ρ} {id : Bytes} (h : t.lookup id = t'.lookup id) :
    id ∈ t ↔ id ∈ t' := by
  rw [← AList.lookup_isSome, ← AList.lookup_isSome, h]

theorem mem_of_mem_mergeRules {v : Merger} {u : Update ρ} {db : RuleTable ρ} {id : Bytes}
    (h : id ∈ mergeRules updateTime v u db) : id ∈ db ∨ id ∈ u.ruleAddModify.getD ∅ := by
  rw [← AList.lookup_isSome, lookup_mergeRules, Patch.apply, Update.patch_apply] at h
  split_ifs at h with hdel
  · cases h
  · cases hnew : (u.ruleAddModify.getD ∅).lookup id with
    | none =>
      rw [hnew] at h
      exact Or.inl (AList.lookup_isSome.1 h)
    | some r => exact Or.inr (AList.lookup_isSome.1 (by rw [hnew]; rfl))

variable (hxml : XmlSimple xmlIn xmlOut)

include hxml

theorem lookup_mergeDoc (v : Merger) {u : Update ρ} {doc : δ}
    (hdoc : ∀ id ∈ xmlIn doc, ReadBack id) (hu : ∀ id ∈ u.ruleAddModify.getD ∅, ReadBack id)
    (id : Bytes) :
    (xmlIn (mergeDoc xmlIn xmlOut updateTime v u doc)).lookup id =
      (u.patch v).apply (fun id => (xmlIn doc).lookup id) id := by
  unfold mergeDoc
  split_ifs with hempty
  · rw [Bool.and_eq_true, Option.isNone_iff_eq_none, Option.isNone_iff_eq_none] at hempty
    rw [Patch.apply, Update.patch_apply, hempty.1, hempty.2]
    simp
  · rw [hxml _ fun id hid => (mem_of_mem_mergeRules updateTime hid).elim (hdoc id) (hu id),
      lookup_mergeRules]

/-- What is merged can be read back. -/
theorem readBack_mergeDoc (v : Merger) {u : Update ρ} {doc : δ}
    (hdoc : ∀ id ∈ xmlIn doc, ReadBack id) (hu : ∀ id ∈ u.ruleAddModify.getD ∅, ReadBack id) :
    ∀ id ∈ xmlIn (mergeDoc xmlIn xmlOut updateTime v u doc), ReadBack id := by
  intro id hid
  have hlookup := lookup_mergeDoc updateTime hxml v hdoc hu id
  rw [← lookup_mergeRules updateTime] at hlookup
  exact (mem_of_mem_mergeRules updateTime ((mem_iff_of_lookup_eq hlookup).1 hid)).elim (hdoc id)
    (hu id)

theorem lookup_foldl_mergeDoc (v : Merger) {us : List (Update ρ)} {doc : δ}
    (h : Legible xmlIn us doc) :
    (fun id => (xmlIn (us.foldl (fun doc u => mergeDoc xmlIn xmlOut updateTime v u doc)
        doc)).lookup id) =
      (us.map (Update.patch v)).foldl (fun t p => p.apply t) fun id => (xmlIn doc).lookup id := by
  induction us generalizing doc with
  | nil => rfl
  | cons u us ih =>
    obtain ⟨hu, hus⟩ := List.forall_mem_cons.1 h.added
    have hstep : (fun id => (xmlIn (mergeDoc xmlIn xmlOut updateTime v u doc)).lookup id) =
        (u.patch v).apply fun id => (xmlIn doc).lookup id :=
      funext (lookup_mergeDoc updateTime hxml v h.database hu)
    rw [List.foldl_cons, ih ⟨readBack_mergeDoc updateTime hxml v h.database hu, hus⟩, hstep,
      List.map_cons, List.foldl_cons]

end Document

end Merge

/-- A file that adds rule 7, and one that deletes it. -/
def addThenDelete : List (Update Bytes) :=
  [{ ruleAddModify := some (AList.singleton (bytes "7") (bytes "new")) },
    { ruleDel := some [bytes "7"] }]

theorem legible_addThenDelete :
    Legible (id : RuleTable Bytes → RuleTable Bytes) addThenDelete
      (AList.singleton [] (bytes "none")) := by
  refine ⟨fun id hid => ?_, fun u hu id hid => ?_⟩
  · obtain rfl : id = [] := by simpa [AList.mem_keys, AList.keys_singleton] using hid
    decide +kernel
  · rcases List.mem_pair.1 hu with rfl | rfl
    · obtain rfl : id = bytes "7" := by
        simpa [AList.mem_keys, AList.keys_singleton] using hid
      decide +kernel
    · cases hid

/-- A file that deletes rule 7, and one that adds it. -/
def deleteThenAdd : List (Update Bytes) :=
  [{ ruleDel := some [bytes "7"] },
    { ruleAddModify := some (AList.singleton (bytes "7") (bytes "new")) }]

end NoSpam.Content
