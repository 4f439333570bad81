import NoSpam.Content.Merge
import NoSpam.GA.Packet
import NoSpam.GA.RulePackage

/-!
# Rules from the centre

A command of the centre announces files of rules.  `GAISC_resp_rule_update` dies before it gets
them, in a call of `Dumper` for its log, so that no reply is the truth (`never_truthful`).

The rest of it gets the files from the file server of the centre, merges them into the rule database
and replies.  It passes by files that do not come over, and failures on the way from the merged
rules to the database: with the call out of the way the reply would be the truth in the cases of
`answer_truthful_iff`.
-/

namespace NoSpam.GA

open Text Perl Content

/-! ## Getting the files -/

/-- How getting a file ends: whether it is done, and what is in the local file afterwards if that
was written. -/
structure Download where
  done : Bool := true
  left : Option Bytes

/-- The file server: whether it is there and lets one in, whether the directory of the rules can be
entered, and what getting each of the files comes to. -/
structure FtpServer where
  connected : Bool := true
  loggedIn : Bool := true
  entered : Bool := true
  get : ℕ → Download

/-- `"$local_dir/$_"`. -/
def localFile (name : Bytes) : Bytes := bytes "/home/ssh//rule//" ++ name

/-- One turn of the loop of `ftp_get_file`: the list of files and the local files. -/
def FtpServer.getFile (s : FtpServer) (acc : List Bytes × Store Bytes Bytes) (e : Bytes × ℕ) :
    List Bytes × Store Bytes Bytes :=
  let d := s.get e.2
  (if d.done then acc.1 ++ [localFile e.1] else acc.1,
    d.left.elim acc.2 fun content => acc.2.write (localFile e.1) content)

/-- `ftp_get_file`. -/
def ftpGetFile (s : FtpServer) (names : List Bytes) (fs : Store Bytes Bytes) :
    List Bytes × Store Bytes Bytes :=
  if s.entered then names.zipIdx.foldl s.getFile ([], fs) else ([], fs)

/-! ## Merging them -/

/-- The package when its file cannot be opened. -/
def noPackage : Package where
  components := ∅
  newline_not_mem := fun e he => by cases he

/-- What the system and the modules for XML do: which files open, the time and the order of the hash
for each package, a rule as the database has it, the database as a text, and the outcomes of the
operations that make a database where there is none, replace the database and write the
statistics. -/
structure Machine (ρ : Type) where
  opens : Bytes → Bool
  stamp : ℕ → Bytes
  visit : ℕ → Package → List (Sigma fun _ : Bytes => Bytes)
  hash : FilterInfo (Option (SubRules KeywordEntry)) → ρ
  xmlIn : Bytes → Option (RuleTable ρ)
  xmlOut : RuleTable ρ → Bytes
  updateTime : ρ → Bytes
  updateXml : ℕ → Option Bytes → Option Bytes → Bytes
  creating : Outcomes := {}
  replacing : Outcomes := {}
  statistics : Outcomes := {}
  backupStamp : Bytes
  statisticsStamp : Bytes

namespace Machine

variable {ρ : Type} (m : Machine ρ)

/-- What can be read from a file. -/
def read (fs : Store Bytes Bytes) (file : Bytes) : Option Bytes :=
  if m.opens file then fs file else none

/-- `_file2pkg` and `_pkg2filter` on the `i`-th of the files. -/
def rulePkg (fs : Store Bytes Bytes) (i : ℕ) (file : Bytes) : RulePkg ρ :=
  let (type, db) := ((m.read fs file).map file2pkg).getD ([], noPackage)
  let filter := pkg2filter (m.stamp i) db (m.visit i db)
  { type
    ruleid :=
      if lc type = bytes "ruleaddmodify" then filter.ruleid.getD []
      else (db.components.lookup (bytes "ruleid")).getD []
    ruleInfo := m.hash filter.info }

/-- `parse_rule_to_filterdb` on files. -/
def parseFiles (fs : Store Bytes Bytes) (files : List Bytes) : Update ρ :=
  parseRuleToFilterdb (files.mapIdx (m.rulePkg fs))

/-- `get_filter_db` up to the reading. -/
def getDb (fs : Store Bytes Bytes) : Store Bytes Bytes :=
  if (fs filterdbFile).isNone && m.creating.opened then
    fs.write filterdbFile (m.creating.onDisk emptyFilterdb)
  else fs

/-- `merge_new_rule` of `AKA::Mail::GA`, which dies when it cannot read the database. -/
def mergeNewRule (u : Update ρ) (fs : Store Bytes Bytes) : Exit × Store Bytes Bytes :=
  if u.ruleAddModify.isNone && u.ruleDel.isNone then (.returned 0, fs)
  else
    match (m.getDb fs filterdbFile).bind m.xmlIn with
    | none => (.died, m.getDb fs)
    | some db =>
        Content.mergeNewRule (fun _ => db) m.xmlOut m.updateTime m.updateXml .ga m.replacing
          m.statistics m.backupStamp m.statisticsStamp u (m.getDb fs)

end Machine

/-! ## The reply -/

/-- `CATE_MAILRULE_RESULT`. -/
def cateMailruleResult : Bytes := bytes "0000000004"

section Response

variable {ρ : Type} (s : FtpServer) (m : Machine ρ) (pkg : Pkg) (fs : Store Bytes Bytes)

/-- The announced files. -/
def ruleFiles : List Bytes := fields 44 pkg.data

/-- `GAISC_resp_rule_update` after its lines for the log: the reply, if there is one, and the
files. -/
def answerRuleUpdate : Option Pkg × Store Bytes Bytes :=
  -- without a connection, `$ftp->quit` has no object to be called on
  if !(s.connected && s.loggedIn) then (none, fs)
  else
    let (files, fs) := ftpGetFile s (ruleFiles pkg) fs
    match m.mergeNewRule (m.parseFiles fs files) fs with
    | (.died, fs) => (none, fs)
    | (.returned n, fs) =>
        (some { pkg with
            data_cate := cateMailruleResult
            data := if n = 0 then dataFail else dataSucc },
          fs.unlinkAll files)

/-- `Dumper` as the package has it: nothing imports `Data::Dumper` there. -/
def dumper : Option (List Bytes → Bytes) := none

/-- `GAISC_resp_rule_update`. -/
def respRuleUpdate : Option Pkg × Store Bytes Bytes :=
  match dumper with
  | none => (none, fs)
  | some _ => answerRuleUpdate s m pkg fs

/-! ## The purpose -/

/-- One of the attempts at getting a file is done. -/
def FtpServer.Gets (names : List Bytes) (name : Bytes) : Prop :=
  s.entered = true ∧ ∃ i, names[i]? = some name ∧ (s.get i).done = true

/-- The files, as they are once the announced ones have come over. -/
def arrived : Store Bytes Bytes := (ftpGetFile s (ruleFiles pkg) fs).2

/-- What the files that came over say. -/
def announced : Update ρ :=
  m.parseFiles (arrived s pkg fs) (ftpGetFile s (ruleFiles pkg) fs).1

/-- The database with the files that came over merged into it, if it can be read. -/
def mergedDb : Option Bytes :=
  ((m.getDb (arrived s pkg fs) filterdbFile).bind m.xmlIn).map fun db =>
    m.xmlOut (mergeRules m.updateTime .ga (announced s m pkg fs) db)

/-- An announced file comes over and can be read. -/
structure Arrives (name : Bytes) : Prop where
  gets : s.Gets (ruleFiles pkg) name
  read : (m.read (arrived s pkg fs) (localFile name)).isSome = true

/-- An announced file has come over and is merged into the database. -/
structure Merged (after : Store Bytes Bytes) (name : Bytes) : Prop where
  arrives : Arrives s m pkg fs name
  stored : ∃ doc, mergedDb s m pkg fs = some doc ∧ after filterdbFile = some doc

/-- There is a reply, and it is a success exactly when all announced files are merged. -/
def Truthful (r : Option Pkg × Store Bytes Bytes) : Prop :=
  ∃ reply, r.1 = some reply ∧
    (reply.data = dataSucc ↔ ∀ name ∈ ruleFiles pkg, Merged s m pkg fs r.2 name)

/-- The new text is in the place of the old one: it was written to its end and renamed, or neither
file was renamed and there is no difference. -/
def Installs (o : Outcomes) (old new : Bytes) : Prop :=
  if o.replaced then o.onDisk new = new else o.backedUp = false ∧ old = new

/-! ## The files -/

theorem localFile_injective {name name' : Bytes} (h : localFile name = localFile name') :
    name = name' :=
  List.append_cancel_left h

theorem localFile_ne_filterdbFile (name : Bytes) : filterdbFile ≠ localFile name := by
  intro h
  have htake := congrArg (List.take 12) h
  rw [localFile, List.take_append_of_le_length (by decide)] at htake
  exact absurd htake (by decide)

variable {s m pkg fs}

/-- One turn appends the file if it was got. -/
theorem foldl_getFile_fst (l : List (Bytes × ℕ)) (acc : List Bytes × Store Bytes Bytes) :
    (l.foldl s.getFile acc).1 =
      acc.1 ++ (l.filter fun e => (s.get e.2).done).map fun e => localFile e.1 := by
  induction l generalizing acc with
  | nil => simp
  | cons e l ih =>
    rw [List.foldl_cons, ih, FtpServer.getFile]
    cases hdone : (s.get e.2).done with
    | true => simp [hdone]
    | false => simp [hdone]

/-- The files on the list are those that were got. -/
theorem mem_ftpGetFile {names : List Bytes} {name : Bytes} :
    localFile name ∈ (ftpGetFile s names fs).1 ↔ s.Gets names name := by
  unfold ftpGetFile FtpServer.Gets
  split_ifs with hentered
  · rw [foldl_getFile_fst, List.nil_append, List.mem_map]
    constructor
    · rintro ⟨⟨name', i⟩, hmem, hlocal⟩
      obtain ⟨hzip, hdone⟩ := List.mem_filter.1 hmem
      obtain rfl : name' = name := localFile_injective hlocal
      exact ⟨hentered, i, List.mem_zipIdx_iff_getElem?.1 hzip, hdone⟩
    · rintro ⟨-, i, hname, hdone⟩
      exact ⟨(name, i), List.mem_filter.2 ⟨List.mem_zipIdx_iff_getElem?.2 hname, hdone⟩, rfl⟩
  · exact iff_of_false List.not_mem_nil fun h => hentered h.1

theorem exists_of_mem_ftpGetFile {names : List Bytes} {file : Bytes}
    (h : file ∈ (ftpGetFile s names fs).1) : ∃ name ∈ names, file = localFile name := by
  unfold ftpGetFile at h
  split_ifs at h
  · rw [foldl_getFile_fst, List.nil_append, List.mem_map] at h
    obtain ⟨⟨name, i⟩, hmem, rfl⟩ := h
    have hname := List.mem_zipIdx_iff_getElem?.1 (List.mem_filter.1 hmem).1
    exact ⟨name, List.mem_of_getElem? hname, rfl⟩
  · cases h

theorem ftpGetFile_eq_nil {names : List Bytes} :
    (ftpGetFile s names fs).1 = [] ↔ ∀ name ∈ names, ¬ s.Gets names name := by
  constructor
  · intro h name hname hgets
    have hmem := (@mem_ftpGetFile s fs names name).2 hgets
    rw [h] at hmem
    cases hmem
  · intro h
    refine List.eq_nil_iff_forall_not_mem.2 fun file hfile => ?_
    obtain ⟨name, hname, rfl⟩ := exists_of_mem_ftpGetFile hfile
    exact h name hname (mem_ftpGetFile.1 hfile)

/-! ## The database -/

/-- How `merge_new_rule` ends on a database that can be read, and what it leaves in its place. -/
theorem mergeNewRule_of_readable {u : Update ρ} {fs : Store Bytes Bytes} {old : Bytes}
    {db : RuleTable ρ} (hsome : (u.ruleAddModify.isNone && u.ruleDel.isNone) = false)
    (hold : m.getDb fs filterdbFile = some old) (hdb : m.xmlIn old = some db) :
    (m.mergeNewRule u fs).1 = .returned (if m.replacing.opened then 1 else 0) ∧
      (m.mergeNewRule u fs).2 filterdbFile =
        if !m.replacing.opened then some old
        else if m.replacing.replaced then
          some (m.replacing.onDisk (m.xmlOut (mergeRules m.updateTime .ga u db)))
        else if m.replacing.backedUp then none else some old := by
  have hread : (m.getDb fs filterdbFile).bind m.xmlIn = some db := by
    rw [hold, Option.bind_some, hdb]
  have hmerge : m.mergeNewRule u fs =
      Content.mergeNewRule (fun _ => db) m.xmlOut m.updateTime m.updateXml .ga m.replacing
        m.statistics m.backupStamp m.statisticsStamp u (m.getDb fs) := by
    simp only [Machine.mergeNewRule, hsome, hread, Bool.false_eq_true, if_false]
  rw [hmerge]
  cases hopen : m.replacing.opened with
  | true =>
    obtain ⟨hexit, hfile⟩ := mergeNewRule_of_opened (fun _ => db) m.xmlOut m.updateTime
      m.updateXml .ga u m.backupStamp m.statisticsStamp (fun _ _ => rfl) hsome hopen hold
    refine ⟨?_, ?_⟩
    · rw [hexit]
      simp [Merger.dies]
    · rw [hfile]
      simp [mergeDoc, hsome]
  | false =>
    rw [mergeNewRule_of_not_opened (fun _ => db) m.xmlOut m.updateTime m.updateXml .ga u
      m.backupStamp m.statisticsStamp m.statistics hsome hopen hold]
    exact ⟨rfl, hold⟩

/-- The database is the merged one exactly when the new text is in the place of the old one. -/
theorem installs_iff (o : Outcomes) (old doc : Bytes) :
    (if o.replaced then some (o.onDisk doc) else if o.backedUp then none else some old) = some doc ↔
      Installs o old doc := by
  unfold Installs
  cases o.replaced with
  | true => simp
  | false =>
    cases o.backedUp with
    | true => simp
    | false => simp

/-! ## The reply -/

/-- The reply tells how `merge_new_rule` returned, and the database is as that left it. -/
theorem answerRuleUpdate_of_returned (hconn : s.connected = true) (hlogin : s.loggedIn = true)
    {n : ℕ}
    (h : (m.mergeNewRule (announced s m pkg fs) (arrived s pkg fs)).1 = .returned n) :
    (∃ reply, (answerRuleUpdate s m pkg fs).1 = some reply ∧
        reply.data = if n = 0 then dataFail else dataSucc) ∧
      (answerRuleUpdate s m pkg fs).2 filterdbFile =
        (m.mergeNewRule (announced s m pkg fs) (arrived s pkg fs)).2 filterdbFile := by
  have hnot : filterdbFile ∉ (ftpGetFile s (ruleFiles pkg) fs).1 := by
    intro hmem
    obtain ⟨name, -, hname⟩ := exists_of_mem_ftpGetFile hmem
    exact localFile_ne_filterdbFile name hname
  obtain ⟨exit, fs', hmerge⟩ : ∃ exit fs',
      m.mergeNewRule (announced s m pkg fs) (arrived s pkg fs) = (exit, fs') := ⟨_, _, rfl⟩
  rw [hmerge] at h ⊢
  obtain rfl : exit = .returned n := h
  have hresp : answerRuleUpdate s m pkg fs =
      (some { pkg with
          data_cate := cateMailruleResult
          data := if n = 0 then dataFail else dataSucc },
        fs'.unlinkAll (ftpGetFile s (ruleFiles pkg) fs).1) := by
    rw [announced, arrived] at hmerge
    simp only [answerRuleUpdate, hconn, hlogin, hmerge]
    rfl
  rw [hresp]
  exact ⟨⟨_, rfl, rfl⟩, Store.unlinkAll_of_not_mem hnot⟩

theorem answerRuleUpdate_of_died
    (h : (m.mergeNewRule (announced s m pkg fs) (arrived s pkg fs)).1 = .died) :
    (answerRuleUpdate s m pkg fs).1 = none := by
  unfold answerRuleUpdate
  split_ifs
  · rfl
  · dsimp only
    rw [announced, arrived] at h
    split
    · rfl
    · rename_i hmerge
      rw [hmerge] at h
      cases h

/-- Without any file there is nothing to merge. -/
theorem mergeNewRule_of_nil (h : (ftpGetFile s (ruleFiles pkg) fs).1 = []) :
    m.mergeNewRule (announced s m pkg fs) (arrived s pkg fs) = (.returned 0, arrived s pkg fs) := by
  have hnone : announced s m pkg fs = {} := by
    rw [announced, h]
    rfl
  rw [Machine.mergeNewRule, hnone]
  rfl

theorem isSome_announced (h : (ftpGetFile s (ruleFiles pkg) fs).1 ≠ []) :
    ((announced s m pkg fs).ruleAddModify.isNone && (announced s m pkg fs).ruleDel.isNone) =
      false :=
  isSome_parseRuleToFilterdb (by simpa using h)

/-- Without a database that can be read the merge dies. -/
theorem mergeNewRule_of_unreadable (h : (ftpGetFile s (ruleFiles pkg) fs).1 ≠ [])
    (hnone : mergedDb s m pkg fs = none) :
    (m.mergeNewRule (announced s m pkg fs) (arrived s pkg fs)).1 = .died := by
  have hread : (m.getDb (arrived s pkg fs) filterdbFile).bind m.xmlIn = none :=
    Option.map_eq_none_iff.1 hnone
  rw [Machine.mergeNewRule, hread, isSome_announced h]
  rfl

/-! ## The truth -/

theorem not_truthful_of_none {r : Option Pkg × Store Bytes Bytes} (h : r.1 = none) :
    ¬ Truthful s m pkg fs r := by
  rintro ⟨reply, hreply, -⟩
  rw [h] at hreply
  cases hreply

/-- With a reply, the truth is a matter of what `merge_new_rule` returned. -/
theorem truthful_of_returned (hconn : s.connected = true) (hlogin : s.loggedIn = true) {n : ℕ}
    (h : (m.mergeNewRule (announced s m pkg fs) (arrived s pkg fs)).1 = .returned n) :
    Truthful s m pkg fs (answerRuleUpdate s m pkg fs) ↔
      (n ≠ 0 ↔ ∀ name ∈ ruleFiles pkg, Arrives s m pkg fs name ∧
        ∃ doc, mergedDb s m pkg fs = some doc ∧
          (m.mergeNewRule (announced s m pkg fs) (arrived s pkg fs)).2 filterdbFile =
            some doc) := by
  obtain ⟨⟨reply, hreply, hdata⟩, hfile⟩ := answerRuleUpdate_of_returned hconn hlogin h
  have hsucc : reply.data = dataSucc ↔ n ≠ 0 := by
    rw [hdata]
    split_ifs with hn
    · exact iff_of_false (by decide) fun hne => hne hn
    · exact iff_of_true rfl hn
  have hmerged : ∀ name, Merged s m pkg fs (answerRuleUpdate s m pkg fs).2 name ↔
      Arrives s m pkg fs name ∧ ∃ doc, mergedDb s m pkg fs = some doc ∧
        (m.mergeNewRule (announced s m pkg fs) (arrived s pkg fs)).2 filterdbFile = some doc := by
    intro name
    rw [← hfile]
    exact ⟨fun h => ⟨h.arrives, h.stored⟩, fun h => ⟨h.1, h.2⟩⟩
  simp only [← hmerged, ← hsucc]
  constructor
  · rintro ⟨reply', hreply', htruth⟩
    obtain rfl := Option.some.inj (hreply.symm.trans hreply')
    exact htruth
  · exact fun htruth => ⟨reply, hreply, htruth⟩

/-- When no file comes over a failure is reported, which is right if there was something to get. -/
theorem truthful_of_nothing (hconn : s.connected = true) (hlogin : s.loggedIn = true)
    (hfiles : (ftpGetFile s (ruleFiles pkg) fs).1 = []) :
    Truthful s m pkg fs (answerRuleUpdate s m pkg fs) ↔ ruleFiles pkg ≠ [] := by
  have hnot : ∀ name ∈ ruleFiles pkg, ¬ s.Gets (ruleFiles pkg) name :=
    (@ftpGetFile_eq_nil s fs _).1 hfiles
  rw [truthful_of_returned hconn hlogin (congrArg Prod.fst (mergeNewRule_of_nil hfiles))]
  constructor
  · intro h hnil
    rw [hnil] at h
    exact h.2 (fun name hname => by cases hname) rfl
  · intro hne
    obtain ⟨name, hname⟩ := List.exists_mem_of_ne_nil _ hne
    exact iff_of_false (fun h => h rfl) fun h => hnot name hname (h name hname).1.gets

/-- When files come over and the database can be read, a success is reported if the new database can
be opened. -/
theorem truthful_of_readable (hconn : s.connected = true) (hlogin : s.loggedIn = true)
    (hfiles : (ftpGetFile s (ruleFiles pkg) fs).1 ≠ []) (hne : ruleFiles pkg ≠ [])
    {old doc : Bytes} {db : RuleTable ρ}
    (hold : m.getDb (arrived s pkg fs) filterdbFile = some old) (hin : m.xmlIn old = some db)
    (hdoc : m.xmlOut (mergeRules m.updateTime .ga (announced s m pkg fs) db) = doc) :
    Truthful s m pkg fs (answerRuleUpdate s m pkg fs) ↔
      if m.replacing.opened then
        (∀ name ∈ ruleFiles pkg, Arrives s m pkg fs name) ∧ Installs m.replacing old doc
      else ¬ ((∀ name ∈ ruleFiles pkg, Arrives s m pkg fs name) ∧ old = doc) := by
  obtain ⟨hexit, hfile⟩ := mergeNewRule_of_readable (isSome_announced hfiles) hold hin
  rw [hdoc] at hfile
  have hmerged : mergedDb s m pkg fs = some doc := by
    rw [mergedDb, hold, Option.bind_some, hin, Option.map_some, hdoc]
  have hall : ∀ kept : Option Bytes, (∀ name ∈ ruleFiles pkg, Arrives s m pkg fs name ∧
      ∃ doc', some doc = some doc' ∧ kept = some doc') ↔
        (∀ name ∈ ruleFiles pkg, Arrives s m pkg fs name) ∧ kept = some doc := by
    intro kept
    obtain ⟨name, hname⟩ := List.exists_mem_of_ne_nil _ hne
    constructor
    · intro h
      obtain ⟨-, doc', hsome, hkept⟩ := h name hname
      exact ⟨fun name hname => (h name hname).1, hkept.trans hsome.symm⟩
    · exact fun h name hname => ⟨h.1 name hname, doc, rfl, h.2⟩
  rw [truthful_of_returned hconn hlogin hexit, hmerged, hall, hfile]
  cases m.replacing.opened with
  | true =>
    simp only [if_true, Bool.not_true, Bool.false_eq_true, if_false, installs_iff]
    exact ⟨fun h => h.1 Nat.one_ne_zero, fun h => iff_of_true Nat.one_ne_zero h⟩
  | false =>
    simp only [Bool.false_eq_true, if_false, Bool.not_false, if_true, Option.some_inj]
    exact ⟨fun h hmerged => h.2 hmerged rfl, fun h => iff_of_false (fun hne => hne rfl) h⟩

variable (s m pkg fs)

/-- The answer after the lines for the log is the truth exactly when the centre lets one in,
announces at least one file, and either no file comes over, or the database can be read and: the
new database can be opened, all files come over and the text is installed; or it cannot, and some
file does not come over or the merge would make a difference. -/
theorem answer_truthful_iff :
    Truthful s m pkg fs (answerRuleUpdate s m pkg fs) ↔
      s.connected = true ∧ s.loggedIn = true ∧ ruleFiles pkg ≠ [] ∧
        ((∀ name ∈ ruleFiles pkg, ¬ s.Gets (ruleFiles pkg) name) ∨
          ∃ old doc, m.getDb (arrived s pkg fs) filterdbFile = some old ∧
            mergedDb s m pkg fs = some doc ∧
            if m.replacing.opened then
              (∀ name ∈ ruleFiles pkg, Arrives s m pkg fs name) ∧ Installs m.replacing old doc
            else ¬ ((∀ name ∈ ruleFiles pkg, Arrives s m pkg fs name) ∧ old = doc)) := by
  by_cases hin : s.connected = true ∧ s.loggedIn = true
  swap
  · have hreply : (answerRuleUpdate s m pkg fs).1 = none := by
      have hcond : (!(s.connected && s.loggedIn)) = true := by
        rw [Bool.not_eq_true', ← Bool.not_eq_true, Bool.and_eq_true]
        exact hin
      rw [answerRuleUpdate, if_pos hcond]
    exact iff_of_false (not_truthful_of_none hreply) fun h => hin ⟨h.1, h.2.1⟩
  obtain ⟨hconn, hlogin⟩ := hin
  rw [and_iff_right hconn, and_iff_right hlogin, ← @ftpGetFile_eq_nil s fs]
  by_cases hfiles : (ftpGetFile s (ruleFiles pkg) fs).1 = []
  · rw [truthful_of_nothing hconn hlogin hfiles]
    exact ⟨fun h => ⟨h, Or.inl hfiles⟩, fun h => h.1⟩
  have hne : ruleFiles pkg ≠ [] := by
    intro hnil
    exact hfiles (ftpGetFile_eq_nil.2 fun name hname => by simp [hnil] at hname)
  rw [and_iff_right hne, or_iff_right hfiles]
  cases hdoc : mergedDb s m pkg fs with
  | none =>
    have hreply := answerRuleUpdate_of_died (mergeNewRule_of_unreadable hfiles hdoc)
    refine iff_of_false (not_truthful_of_none hreply) ?_
    rintro ⟨old, doc, -, hsome, -⟩
    cases hsome
  | some doc =>
    obtain ⟨db, hdb, hdocdb⟩ := Option.map_eq_some_iff.1 hdoc
    obtain ⟨old, hold, hread⟩ := Option.bind_eq_some_iff.1 hdb
    rw [truthful_of_readable hconn hlogin hfiles hne hold hread hdocdb, hold]
    constructor
    · exact fun h => ⟨old, doc, rfl, rfl, h⟩
    · rintro ⟨old', doc', hold', hdoc', h⟩
      obtain rfl := Option.some.inj hold'
      obtain rfl := Option.some.inj hdoc'
      exact h

/-- **No reply is the truth**: whatever is announced and whatever goes well, there is none. -/
theorem never_truthful : ¬Truthful s m pkg fs (respRuleUpdate s m pkg fs) :=
  not_truthful_of_none rfl

end Response

/-- A file server that lets every file come over. -/
def allFiles : FtpServer where
  get _ := { left := some (bytes "RuleDel\nGAISC.RUL.RULEID=7\n") }

/-- A machine on which everything goes well. -/
def plainMachine : Machine Unit where
  opens _ := true
  stamp _ := []
  visit _ pkg := pkg.components.entries
  hash _ := ()
  xmlIn _ := some ∅
  xmlOut _ := bytes "new"
  updateTime _ := []
  updateXml _ _ _ := []
  backupStamp := []
  statisticsStamp := []

/-- Two files are announced. -/
def twoFiles : Pkg := { ping with data := bytes "a,b" }

/-- Two files come over and are merged, but for the call of `Dumper`. -/
theorem no_reply_to_two_files :
    respRuleUpdate allFiles plainMachine twoFiles someDatabase = (none, someDatabase) ∧
      (answerRuleUpdate allFiles plainMachine twoFiles someDatabase).1 =
        some { twoFiles with data_cate := cateMailruleResult, data := dataSucc } ∧
      ¬Truthful allFiles plainMachine twoFiles someDatabase
        (respRuleUpdate allFiles plainMachine twoFiles someDatabase) :=
  ⟨rfl, by decide +kernel, not_truthful_of_none rfl⟩

end NoSpam.GA
