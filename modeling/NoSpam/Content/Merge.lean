import NoSpam.Base.Store
import NoSpam.Content.Update

/-!
# Replacing the rule database

`merge_new_rule` writes the merged database beside the old one, renames the old one to its backup
and the new one into place, and then writes the statistics of the update.  Every file operation may
fail.  The two copies differ in what they do about it: the one in `AKA::Mail::Content::Conf` dies,
the one in `AKA::Mail::GA` notes the failure and goes on.
-/

namespace NoSpam.Content

open Text Perl

/-- `filterdb`. -/
def filterdbFile : Bytes := bytes "/home/ssh//etc/PoliceDB.xml"

/-- `updatedb`. -/
def updatedbFile : Bytes := bytes "/home/ssh//Update/Update.Xml"

/-- The database that `get_filter_db` writes when there is none. -/
def emptyFilterdb : Bytes :=
  bytes "<?xml version=\"1.0\" encoding=\"ISO-8859-1\"?>\n" ++
    bytes "<rule-add-modify>\n\t<rule rule_id=\"\" />\n</rule-add-modify> \n"

/-- What the system makes of the operations that replace a file: whether the new file can be opened,
after how many bytes writing it stops, and whether the two renamings are carried out. -/
structure Outcomes where
  opened : Bool := true
  stored : Option ℕ := none
  backedUp : Bool := true
  replaced : Bool := true

/-- A failed operation ends the sub with `die`. -/
def Merger.dies : Merger → Bool
  | .conf => true
  | .ga => false

/-- How a sub ends. -/
inductive Exit
  | returned (value : ℕ)
  | died
  deriving DecidableEq

/-- What of a text is in the file that it is written to. -/
def Outcomes.onDisk (o : Outcomes) (text : Bytes) : Bytes := o.stored.elim text text.take

/-- `rename`, which fails when there is nothing to rename. -/
def renameIf (ok : Bool) (k k' : Bytes) (fs : Store Bytes Bytes) : Bool × Store Bytes Bytes :=
  if ok && (fs k).isSome then (true, fs.rename k k') else (false, fs)

/-- A text put in the place of a file: it is written to the new file if that could be opened, the
old file gets the name of its backup, and the new one that of the old. -/
def replaceFile (o : Outcomes) (path stamp text : Bytes) (fs : Store Bytes Bytes) :
    Bool × Store Bytes Bytes :=
  let new := path ++ bytes ".new"
  let fs := if o.opened then fs.write new (o.onDisk text) else fs
  renameIf o.replaced new path (renameIf o.backedUp path (path ++ bytes "-" ++ stamp) fs).2

section Merge

variable {ρ : Type} (xmlIn : Bytes → RuleTable ρ) (xmlOut : RuleTable ρ → Bytes)
  (updateTime : ρ → Bytes) (updateXml : ℕ → Option Bytes → Option Bytes → Bytes)

/-- `get_filter_db` up to the reading: the database file is there afterwards. -/
def getFilterDb (fs : Store Bytes Bytes) : Store Bytes Bytes :=
  if (fs filterdbFile).isNone then fs.write filterdbFile emptyFilterdb else fs

/-- `rebirth_update`: whether it returns, and the files. -/
def rebirthUpdate (v : Merger) (o : Outcomes) (stamp text : Bytes) (fs : Store Bytes Bytes) :
    Bool × Store Bytes Bytes :=
  match v with
  | .conf => replaceFile o updatedbFile stamp text fs
  | .ga => (true, if o.opened then (replaceFile o updatedbFile stamp text fs).2 else fs)

/-- `merge_new_rule`: how it ends, and the files. -/
def mergeNewRule (v : Merger) (o o' : Outcomes) (stamp stamp' : Bytes) (u : Update ρ)
    (fs : Store Bytes Bytes) : Exit × Store Bytes Bytes :=
  if u.ruleAddModify.isNone && u.ruleDel.isNone then (.returned 0, fs)
  else
    let fs := getFilterDb fs
    let db := mergeRules updateTime v u (xmlIn ((fs filterdbFile).getD []))
    if !o.opened then (if v.dies then .died else .returned 0, fs)
    else
      let r := replaceFile o filterdbFile stamp (xmlOut db) fs
      if !r.1 && v.dies then (.died, r.2)
      else
        let rules := u.ruleAddModify.getD ∅
        let last := (byUpdateTime updateTime rules).getLast?
        let lastTime := (last.bind fun id => rules.lookup id).map updateTime
        let r := rebirthUpdate v o' stamp' (updateXml db.keys.length last lastTime) r.2
        (if r.1 then .returned 1 else .died, r.2)

end Merge

/-! ## Where a replaced file is afterwards -/

theorem append_ne_self {p x : Bytes} (h : x ≠ []) : p ++ x ≠ p := fun he => h (by simpa using he)

theorem backup_ne_new (p stamp : Bytes) : p ++ bytes "-" ++ stamp ≠ p ++ bytes ".new" := by
  rw [List.append_assoc, Ne, List.append_cancel_left_eq]
  intro h
  exact absurd (List.head_eq_of_cons_eq (show 45 :: stamp = 46 :: bytes "new" from h)) (by decide)

theorem renameIf_of_ne {ok : Bool} {k k' x : Bytes} {fs : Store Bytes Bytes} (h : x ≠ k)
    (h' : x ≠ k') : (renameIf ok k k' fs).2 x = fs x := by
  unfold renameIf
  split_ifs
  · exact Store.rename_of_ne h h'
  · rfl

theorem renameIf_of_some {k k' v : Bytes} {fs : Store Bytes Bytes} (ok : Bool) (h : fs k = some v) :
    renameIf ok k k' fs = if ok then (true, fs.rename k k') else (false, fs) := by
  rw [renameIf, h]
  cases ok <;> rfl

/-- Other files are left alone. -/
theorem replaceFile_of_ne (o : Outcomes) (stamp text : Bytes) (fs : Store Bytes Bytes)
    {path x : Bytes} (h : ∀ y, x ≠ path ++ y) :
    (replaceFile o path stamp text fs).2 x = fs x := by
  have hpath : x ≠ path := by simpa using h []
  have hbackup : x ≠ path ++ bytes "-" ++ stamp := by
    rw [List.append_assoc]
    exact h _
  unfold replaceFile
  dsimp only
  rw [renameIf_of_ne (h _) hpath, renameIf_of_ne hpath hbackup]
  split_ifs
  · exact Store.write_of_ne (h _)
  · rfl

/-- The file ends as what is on disk of the text if the last renaming succeeds, otherwise as
nothing if the first one does. -/
theorem replaceFile_spec (o : Outcomes) (path stamp text : Bytes) (fs : Store Bytes Bytes)
    (h : o.opened = true) :
    (replaceFile o path stamp text fs).1 = o.replaced ∧
      (replaceFile o path stamp text fs).2 path =
        if o.replaced then some (o.onDisk text) else if o.backedUp then none else fs path := by
  have hnew : path ++ bytes ".new" ≠ path := append_ne_self (by decide)
  have hbackup : path ≠ path ++ bytes "-" ++ stamp := by
    rw [List.append_assoc]
    exact (append_ne_self (by simp [bytes])).symm
  have hkept : (renameIf o.backedUp path (path ++ bytes "-" ++ stamp)
      (fs.write (path ++ bytes ".new") (o.onDisk text))).2 (path ++ bytes ".new") =
        some (o.onDisk text) := by
    rw [renameIf_of_ne hnew (backup_ne_new path stamp).symm, Store.write_self]
  have hpath : fs.write (path ++ bytes ".new") (o.onDisk text) path = fs path :=
    Store.write_of_ne hnew.symm
  simp only [replaceFile, h, if_true, renameIf_of_some _ hkept]
  cases hreplaced : o.replaced with
  | true => exact ⟨rfl, Store.rename_target hkept⟩
  | false =>
    refine ⟨rfl, ?_⟩
    simp only [Bool.false_eq_true, if_false]
    cases hfs : fs path with
    | none => simp [renameIf, hpath, hfs]
    | some old =>
      rw [renameIf_of_some _ (hpath.trans hfs)]
      cases o.backedUp with
      | true => exact Store.rename_source (by simp [hpath, hfs]) hbackup
      | false => exact hpath.trans hfs

theorem updatedbFile_append_ne (x : Bytes) : filterdbFile ≠ updatedbFile ++ x := by
  intro h
  have htake := congrArg (List.take 12) h
  rw [List.take_append_of_le_length (by decide)] at htake
  exact absurd htake (by decide)

/-- The statistics are in other files than the rules. -/
theorem filterdb_rebirthUpdate (v : Merger) (o : Outcomes) (stamp text : Bytes)
    (fs : Store Bytes Bytes) :
    (rebirthUpdate v o stamp text fs).2 filterdbFile = fs filterdbFile := by
  have hreplace := replaceFile_of_ne o stamp text fs updatedbFile_append_ne
  cases v with
  | conf => exact hreplace
  | ga =>
    unfold rebirthUpdate
    dsimp only
    split_ifs
    · exact hreplace
    · rfl

/-- When its own operations succeed, `rebirth_update` returns. -/
theorem rebirthUpdate_returns (v : Merger) (stamp text : Bytes) (fs : Store Bytes Bytes) :
    (rebirthUpdate v {} stamp text fs).1 = true := by
  cases v with
  | conf => exact (replaceFile_spec {} updatedbFile stamp text fs rfl).1
  | ga => rfl

section Result

variable {ρ : Type} (xmlIn : Bytes → RuleTable ρ) (xmlOut : RuleTable ρ → Bytes)
  (updateTime : ρ → Bytes) (updateXml : ℕ → Option Bytes → Option Bytes → Bytes) (v : Merger)
  (u : Update ρ) {fs : Store Bytes Bytes} {old : Bytes} (stamp stamp' : Bytes)

/-- The sub with its parameters, as long as the statistics can be written. -/
abbrev merge (o : Outcomes) (fs : Store Bytes Bytes) : Exit × Store Bytes Bytes :=
  mergeNewRule xmlIn xmlOut updateTime updateXml v o {} stamp stamp' u fs

/-- How `merge_new_rule` ends, and what it leaves in the place of the database, once the new file is
open and if the statistics can be written. -/
theorem mergeNewRule_of_opened {o o' : Outcomes}
    (hreturns : ∀ text fs, (rebirthUpdate v o' stamp' text fs).1 = true)
    (hsome : (u.ruleAddModify.isNone && u.ruleDel.isNone) = false) (hopen : o.opened = true)
    (hold : fs filterdbFile = some old) :
    let r := mergeNewRule xmlIn xmlOut updateTime updateXml v o o' stamp stamp' u fs
    r.1 = (if !o.replaced && v.dies then .died else .returned 1) ∧
      r.2 filterdbFile =
        if o.replaced then some (o.onDisk (mergeDoc xmlIn xmlOut updateTime v u old))
        else if o.backedUp then none else some old := by
  have hdb : getFilterDb fs = fs := by simp [getFilterDb, hold]
  have hdoc : mergeDoc xmlIn xmlOut updateTime v u old =
      xmlOut (mergeRules updateTime v u (xmlIn old)) := by simp [mergeDoc, hsome]
  obtain ⟨hdone, hfile⟩ := replaceFile_spec o filterdbFile stamp
    (mergeDoc xmlIn xmlOut updateTime v u old) fs hopen
  rw [hold] at hfile
  simp only [mergeNewRule, hsome, hdb, hopen, hold, Option.getD_some, ← hdoc, hdone]
  rw [← hfile]
  simp only [Bool.false_eq_true, if_false, Bool.not_true]
  by_cases hdied : (!o.replaced && v.dies) = true
  · rw [if_pos hdied, if_pos hdied]
    exact ⟨rfl, rfl⟩
  · rw [if_neg hdied, if_neg hdied, hreturns, filterdb_rebirthUpdate]
    exact ⟨rfl, rfl⟩

theorem merge_of_opened {o : Outcomes}
    (hsome : (u.ruleAddModify.isNone && u.ruleDel.isNone) = false) (hopen : o.opened = true)
    (hold : fs filterdbFile = some old) :
    let r := merge xmlIn xmlOut updateTime updateXml v u stamp stamp' o fs
    r.1 = (if !o.replaced && v.dies then .died else .returned 1) ∧
      r.2 filterdbFile =
        if o.replaced then some (o.onDisk (mergeDoc xmlIn xmlOut updateTime v u old))
        else if o.backedUp then none else some old :=
  mergeNewRule_of_opened xmlIn xmlOut updateTime updateXml v u stamp stamp'
    (rebirthUpdate_returns v stamp') hsome hopen hold

/-- When the new file cannot be opened nothing is changed. -/
theorem mergeNewRule_of_not_opened {o : Outcomes} (o' : Outcomes)
    (hsome : (u.ruleAddModify.isNone && u.ruleDel.isNone) = false) (hopen : o.opened = false)
    (hold : fs filterdbFile = some old) :
    mergeNewRule xmlIn xmlOut updateTime updateXml v o o' stamp stamp' u fs =
      (if v.dies then .died else .returned 0, fs) := by
  have hdb : getFilterDb fs = fs := by simp [getFilterDb, hold]
  simp [mergeNewRule, hsome, hopen, hdb]

theorem merge_of_not_opened {o : Outcomes}
    (hsome : (u.ruleAddModify.isNone && u.ruleDel.isNone) = false) (hopen : o.opened = false)
    (hold : fs filterdbFile = some old) :
    let r := merge xmlIn xmlOut updateTime updateXml v u stamp stamp' o fs
    r.1 ≠ .returned 1 ∧ r.2 filterdbFile = some old := by
  intro r
  have hr : r = (if v.dies then .died else .returned 0, fs) :=
    mergeNewRule_of_not_opened xmlIn xmlOut updateTime updateXml v u stamp stamp' {} hsome hopen
      hold
  rw [hr]
  refine ⟨?_, hold⟩
  cases v <;> simp [Merger.dies]

/-! ## All or nothing -/

/-- One failing operation; a writing that fails stops after so many bytes. -/
inductive Fault
  | opening
  | writing (stored : ℕ)
  | backup
  | replacing
  deriving DecidableEq

/-- What the system makes of the operations when at most one of them fails. -/
def Fault.outcomes : Option Fault → Outcomes
  | none => {}
  | some .opening => { opened := false }
  | some (.writing n) => { stored := some n }
  | some .backup => { backedUp := false }
  | some .replacing => { replaced := false }

/-- The sub reports success and the database is the merged one, or it does not and the database is
the old one. -/
def AllOrNothing (old merged : Bytes) (r : Exit × Store Bytes Bytes) : Prop :=
  r.1 = .returned 1 ∧ r.2 filterdbFile = some merged ∨
    r.1 ≠ .returned 1 ∧ r.2 filterdbFile = some old

/-- **Merging rules is all or nothing** exactly when the failing operation is neither the writing of
the new file nor its renaming, if there is anything to merge. -/
theorem allOrNothing_iff (f : Option Fault) (hold : fs filterdbFile = some old) :
    AllOrNothing old (mergeDoc xmlIn xmlOut updateTime v u old)
        (merge xmlIn xmlOut updateTime updateXml v u stamp stamp' (Fault.outcomes f) fs) ↔
      u.ruleAddModify = none ∧ u.ruleDel = none ∨
        (∀ n, f = some (.writing n) →
          (mergeDoc xmlIn xmlOut updateTime v u old).length ≤ n) ∧ f ≠ some .replacing := by
  by_cases hnone : u.ruleAddModify = none ∧ u.ruleDel = none
  · have hreturn : merge xmlIn xmlOut updateTime updateXml v u stamp stamp' (Fault.outcomes f) fs =
        (.returned 0, fs) := by simp [mergeNewRule, hnone]
    rw [hreturn]
    exact ⟨fun _ => Or.inl hnone, fun _ => Or.inr ⟨by simp, hold⟩⟩
  · have hsome : (u.ruleAddModify.isNone && u.ruleDel.isNone) = false := by
      by_contra hsome
      simp only [Bool.not_eq_false, Bool.and_eq_true, Option.isNone_iff_eq_none] at hsome
      exact hnone hsome
    have hopened := @merge_of_opened _ xmlIn xmlOut updateTime updateXml v u fs old stamp stamp'
      (Fault.outcomes f) hsome
    simp only [hnone, false_or]
    cases f with
    | none =>
      obtain ⟨hexit, hfile⟩ := hopened rfl hold
      exact ⟨fun _ => ⟨by simp, by simp⟩, fun _ => Or.inl ⟨hexit, hfile⟩⟩
    | some f =>
      cases f with
      | opening =>
        exact ⟨fun _ => ⟨by simp, by simp⟩, fun _ => Or.inr
          (merge_of_not_opened xmlIn xmlOut updateTime updateXml v u stamp stamp' hsome rfl hold)⟩
      | backup =>
        obtain ⟨hexit, hfile⟩ := hopened rfl hold
        exact ⟨fun _ => ⟨by simp, by simp⟩, fun _ => Or.inl ⟨hexit, hfile⟩⟩
      | writing n =>
        obtain ⟨hexit, hfile⟩ := hopened rfl hold
        have hexit' : (merge xmlIn xmlOut updateTime updateXml v u stamp stamp'
            (Fault.outcomes (some (.writing n))) fs).1 = .returned 1 := hexit
        have hfile' : (merge xmlIn xmlOut updateTime updateXml v u stamp stamp'
            (Fault.outcomes (some (.writing n))) fs).2 filterdbFile =
              some ((mergeDoc xmlIn xmlOut updateTime v u old).take n) := hfile
        simp [AllOrNothing, hexit', hfile', List.take_eq_self_iff]
      | replacing =>
        obtain ⟨-, hfile⟩ := hopened rfl hold
        have hgone : (merge xmlIn xmlOut updateTime updateXml v u stamp stamp'
            (Fault.outcomes (some .replacing)) fs).2 filterdbFile = none := hfile
        simp [AllOrNothing, hgone]

end Result

/-- A database file. -/
def someDatabase : Store Bytes Bytes := Store.write filterdbFile (bytes "old") fun _ => none

/-- A failed backup does no harm: the database is replaced all the same. -/
theorem allOrNothing_backup :
    AllOrNothing (bytes "old") (bytes "new")
      (merge (fun _ => ∅) (fun _ => bytes "new") id (fun _ _ _ => []) .ga
        { ruleDel := some [bytes "7"] } [] [] (Fault.outcomes (some .backup)) someDatabase) :=
  (allOrNothing_iff (fun _ => ∅) (fun _ => bytes "new") (id : Bytes → Bytes) (fun _ _ _ => []) .ga
    { ruleDel := some [bytes "7"] } [] [] (some .backup) Store.write_self).2 (by simp)

/-- When the new file cannot be renamed into place there is no database, one copy reports success,
and the next reader makes an empty one. -/
theorem not_allOrNothing_replacing :
    let r := merge (fun _ => ∅) (fun _ => bytes "new") id (fun _ _ _ => []) .ga
      { ruleDel := some [bytes "7"] } [] [] (Fault.outcomes (some .replacing)) someDatabase
    ¬ AllOrNothing (bytes "old") (bytes "new") r ∧ r.1 = .returned 1 ∧
      getFilterDb r.2 filterdbFile = some emptyFilterdb := by
  intro r
  obtain ⟨hexit, hfile⟩ := merge_of_opened (fun _ => ∅) (fun _ => bytes "new")
    (id : Bytes → Bytes) (fun _ _ _ => []) .ga { ruleDel := some [bytes "7"] } [] [] rfl
    (rfl : (Fault.outcomes (some .replacing)).opened = true)
    (Store.write_self : someDatabase filterdbFile = some (bytes "old"))
  have hgone : r.2 filterdbFile = none := hfile
  refine ⟨?_, hexit, ?_⟩
  · simp [AllOrNothing, hgone]
  · rw [getFilterDb, hgone]
    exact Store.write_self

end NoSpam.Content
