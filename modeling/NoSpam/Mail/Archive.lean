import NoSpam.Base.Columns
import NoSpam.Base.Store
import NoSpam.Mail.Engines

/-!
# The archive copy

`archive_engine` hands a mail that meets the conditions to `archive`, which copies the message file
into the archive directory line by line.  The engine does not look at what `archive` returns, and
`archive` does not look at what `print` and `close` return.  `truthful_iff` says when the result of
the engine is right all the same.
-/

namespace NoSpam

open Text Perl Conf

/-! ## Copying -/

/-- What becomes of the copy: whether the two files can be opened, after how many bytes reading
fails, and of which lines only so many bytes reach the archive file. -/
structure Copying where
  opensMessage : Bool := true
  readFails : Option ℕ := none
  opensArchive : Bool := true
  stored : ℕ → Option ℕ := fun _ => none

namespace Copying

variable (w : Copying)

/-- The lines that `<FDR>` delivers. -/
def readLines (content : Bytes) : List Bytes :=
  lines 10 (w.readFails.elim content content.take)

/-- What `print FDW while (<FDR>)` leaves in the archive file. -/
def printed (content : Bytes) : Bytes :=
  ((w.readLines content).mapIdx fun i l => (w.stored i).elim l l.take).flatten

/-- Nothing is lost on the way: reading does not fail before the end, and every line reaches the
archive file up to its end. -/
def Whole (content : Bytes) : Prop :=
  (∀ n ∈ w.readFails, content.length ≤ n) ∧
    ∀ i l, (lines 10 content)[i]? = some l → ∀ n ∈ w.stored i, l.length ≤ n

end Copying

/-- The archive directory. -/
def archiveDir : Bytes := bytes "/home/vpopmail/domains/localhost.localdomain/archive/Maildir/"

/-- `s#.+/##`, on a name of one line. -/
def pureFilename (emlFile : Bytes) : Bytes :=
  if 47 ∈ emlFile.tail then emlFile.rtakeWhile (· ≠ 47) else emlFile

/-- Where the copy of a message file is put. -/
def archivePath (emlFile : Bytes) : Bytes := archiveDir ++ bytes "/new/" ++ pureFilename emlFile

/-- `archive`: what it returns, and the files then. -/
def archive (w : Copying) (emlFile : Bytes) (fs : Store Bytes Bytes) : ℕ × Store Bytes Bytes :=
  if !isTrue emlFile then (0, fs)
  else if !(w.opensMessage && (fs emlFile).isSome) then (0, fs)
  else if !w.opensArchive then (0, fs)
  else
    let emptied := Store.write (archivePath emlFile) [] fs
    (1, Store.write (archivePath emlFile) (w.printed ((emptied emlFile).getD [])) fs)

section Engine

variable (cfg : Config) (o : Outside) (w : Copying) (fs : Store Bytes Bytes) (a : Aka)

/-- The engine comes to the call of `archive`. -/
def submits : Bool :=
  isY cfg.archiveEngine.archiveEngine && cfg.archiveEngine.archiveType ≠ [] && needArchive cfg a &&
    (isTrue a.emlfilename && (fs a.emlfilename).isSome)

/-- `archive_engine`, with the copy that it makes. -/
def archiveWithCopy : Aka × Store Bytes Bytes :=
  (archiveEngine cfg o (fs a.emlfilename).isSome a,
    if submits cfg fs a then (archive w a.emlfilename fs).2 else fs)

/-! ## What the result should say -/

/-- The conditions that a type can name, for the recipients of the mail. -/
def archiveConditions (recips : List Bytes) : List (Bytes × Bool) :=
  let did (e : Engine) : Bool := (a.engine e).runned && isTrue (a.engine e).result
  let didNot (e : Engine) : Bool := (a.engine e).runned && !isTrue (a.engine e).result
  [(bytes "Spam", did .spam), (bytes "NotSpam", didNot .spam),
    (bytes "Virus", did .antivirus), (bytes "NotVirus", didNot .antivirus),
    (bytes "Excessive", did .dynamic), (bytes "NotExcessive", didNot .dynamic),
    (bytes "MatchRule", did .content), (bytes "NotMatchRule", didNot .content),
    (bytes "Address", recips.any cfg.archiveEngine.archiveAddress.contains)]

/-- A type named `All`, or every named condition holds. -/
def wantedBy (named : Bytes → Bool) (recips : List Bytes) : Bool :=
  named (bytes "All") || (archiveConditions cfg a recips).all fun c => !named c.1 || c.2

/-- The mail is to be archived: the list of types contains `All`, or every condition named in it
holds. -/
def wanted (recips : List Bytes) : Bool :=
  wantedBy cfg a cfg.archiveEngine.archiveType.contains recips

/-- A complete copy of the message stands in the archive directory. -/
def Stands (emlFile message : Bytes) (fs : Store Bytes Bytes) : Prop :=
  fs (archivePath emlFile) = some message

/-- The mail with its recipients. -/
def Aka.withRecips (recips : List Bytes) : Aka := { a with recips := joinFields 44 recips }

/-- The archive result of a mail to these recipients is 1 if and only if archiving is on, types are
named, the mail is to be archived, and a complete copy of the message is there. -/
def Truthful (recips : List Bytes) : Prop :=
  let r := archiveWithCopy cfg o w fs (a.withRecips recips)
  (r.1.engine .archive).result = bytes "1" ↔
    isY cfg.archiveEngine.archiveEngine = true ∧ cfg.archiveEngine.archiveType ≠ [] ∧
      wanted cfg a recips = true ∧ ∃ m ∈ fs a.emlfilename, Stands a.emlfilename m r.2

/-- The copy succeeds. -/
def Copies (emlFile message : Bytes) : Prop :=
  if w.opensMessage && w.opensArchive then
    w.Whole message ∧ (archivePath emlFile = emlFile → message = [])
  else Stands emlFile message fs

/-- The mail is to be archived if a line end may follow the name of a type, and the commas in the
recipients are taken for their ends. -/
def wantedLoosely (recips : List Bytes) : Bool :=
  let types := cfg.archiveEngine.archiveType
  wantedBy cfg a (fun name => name ∈ types ∨ name ++ [10] ∈ types)
    (fields 44 (joinFields 44 recips))

/-- No copy is missed and none is claimed: the copy of a mail that is to be archived succeeds.
Where the mail is to be archived only if the lists are read loosely, or only if they are not,
nothing comes of it. -/
def SoundlyArchived (recips : List Bytes) : Prop :=
  isY cfg.archiveEngine.archiveEngine = true → cfg.archiveEngine.archiveType ≠ [] →
    match wantedLoosely cfg a recips, wanted cfg a recips with
    | true, true => ∀ m ∈ fs a.emlfilename,
        if isTrue a.emlfilename then Copies w fs a.emlfilename m else ¬Stands a.emlfilename m fs
    | true, false => isTrue a.emlfilename = true → fs a.emlfilename = none
    | false, true => ∀ m ∈ fs a.emlfilename, ¬Stands a.emlfilename m fs
    | false, false => True

end Engine

/-! ## A complete copy -/

theorem length_flatten_cut_le (stored : ℕ → Option ℕ) (ls : List Bytes) :
    (ls.mapIdx fun i l => (stored i).elim l l.take).flatten.length ≤ ls.flatten.length := by
  induction ls generalizing stored with
  | nil => exact Nat.le_refl _
  | cons l ls ih =>
    have hhead : ((stored 0).elim l l.take).length ≤ l.length := by
      cases stored 0 with
      | none => exact Nat.le_refl _
      | some n => exact List.length_take_le' ..
    have htail := ih fun i => stored (i + 1)
    rw [List.mapIdx_cons, List.flatten_cons, List.flatten_cons, List.length_append,
      List.length_append]
    omega

/-- Lines that are cut somewhere are not what they were. -/
theorem flatten_cut_eq_iff (stored : ℕ → Option ℕ) (ls : List Bytes) :
    (ls.mapIdx fun i l => (stored i).elim l l.take).flatten = ls.flatten ↔
      ∀ i l, ls[i]? = some l → ∀ n ∈ stored i, l.length ≤ n := by
  induction ls generalizing stored with
  | nil => simp
  | cons l ls ih =>
    have htail := length_flatten_cut_le (fun i => stored (i + 1)) ls
    have hhead : ((stored 0).elim l l.take).length ≤ l.length ∧
        ((stored 0).elim l l.take = l ↔ ∀ n ∈ stored 0, l.length ≤ n) := by
      cases stored 0 with
      | none => simp
      | some n => simp [List.take_eq_self_iff]
    rw [List.mapIdx_cons, List.flatten_cons, List.flatten_cons]
    constructor
    · intro h i l' hl'
      have hlength := congrArg List.length h
      rw [List.length_append, List.length_append] at hlength
      obtain ⟨hl, hls⟩ := List.append_inj h (by omega)
      cases i with
      | zero =>
        rw [List.getElem?_cons_zero, Option.some_inj] at hl'
        rw [← hl']
        exact hhead.2.1 hl
      | succ i => exact (ih _).1 hls i l' hl'
    · intro h
      rw [hhead.2.2 (h 0 l rfl), (ih fun i => stored (i + 1)).2 fun i l' hl' => h (i + 1) l' hl']

theorem Copying.printed_eq_iff (w : Copying) (content : Bytes) :
    w.printed content = content ↔ w.Whole content := by
  have hread : w.readFails.elim content content.take = content ↔
      ∀ n ∈ w.readFails, content.length ≤ n := by
    cases w.readFails with
    | none => simp
    | some n => simp [List.take_eq_self_iff]
  constructor
  · intro h
    have hle := length_flatten_cut_le w.stored (w.readLines content)
    rw [← Copying.printed, h, Copying.readLines, flatten_lines] at hle
    have hall : w.readFails.elim content content.take = content := by
      cases hfails : w.readFails with
      | none => rfl
      | some n =>
        rw [hfails] at hle
        exact List.take_of_length_le (hle.trans (List.length_take_le ..))
    refine ⟨hread.1 hall, (flatten_cut_eq_iff w.stored (lines 10 content)).1 ?_⟩
    rw [flatten_lines]
    rwa [Copying.printed, Copying.readLines, hall] at h
  · rintro ⟨hfails, hstored⟩
    rw [Copying.printed, Copying.readLines, hread.2 hfails,
      (flatten_cut_eq_iff w.stored (lines 10 content)).2 hstored, flatten_lines]

theorem Copying.whole_nil (w : Copying) : w.Whole [] :=
  ⟨fun n _ => Nat.zero_le n, nofun⟩

section Copy

variable {w : Copying} {fs : Store Bytes Bytes} {emlFile message : Bytes}

/-- A complete copy stands in the archive directory if and only if the copy succeeds. -/
theorem stands_archive_iff (htrue : isTrue emlFile = true) (hmessage : fs emlFile = some message) :
    Stands emlFile message (archive w emlFile fs).2 ↔ Copies w fs emlFile message := by
  unfold archive Copies
  rw [htrue, hmessage]
  cases hopens : w.opensMessage with
  | false => rfl
  | true =>
    cases w.opensArchive with
    | false => rfl
    | true =>
      simp only [Bool.not_true, Bool.false_eq_true, if_false, Option.isSome_some, Bool.and_self,
        if_true]
      rw [Stands, Store.write_self, Option.some_inj]
      by_cases hpath : archivePath emlFile = emlFile
      · have hself : Store.write (archivePath emlFile) [] fs emlFile = some [] := by
          rw [hpath]
          exact Store.write_self
        rw [hself, Option.getD_some, (w.printed_eq_iff []).2 w.whole_nil]
        constructor
        · rintro rfl
          exact ⟨w.whole_nil, fun _ => rfl⟩
        · exact fun h => (h.2 hpath).symm
      · rw [Store.write_of_ne (Ne.symm hpath), hmessage, Option.getD_some, w.printed_eq_iff]
        exact (and_iff_left fun h => absurd h hpath).symm

end Copy

section Result

variable {cfg : Config} {o : Outside} {w : Copying} {fs : Store Bytes Bytes} {a : Aka}
  {recips : List Bytes}

theorem result_archiveWithCopy :
    ((archiveWithCopy cfg o w fs a).1.engine .archive).result = bytes "1" ↔
      submits cfg fs a = true := by
  have hne : bytes "0" ≠ bytes "1" := by decide
  unfold archiveWithCopy archiveEngine archiveEntry submits
  rw [Aka.engine_setEntry_self]
  split_ifs with hoff hempty hneed hfile
  · simp_all [ran]
  · simp_all [ran]
  · simp_all [ran]
  · rw [Bool.not_eq_true'] at hfile
    simp [ran, hne, hfile]
  · simp_all [ran, Option.isSome_iff_ne_none]

/-- The engine reads the lists loosely. -/
theorem needArchive_eq : needArchive cfg (a.withRecips recips) = wantedLoosely cfg a recips := by
  have hgrep : ∀ name, grepType name cfg.archiveEngine.archiveType =
      decide (name ∈ cfg.archiveEngine.archiveType ∨
        name ++ [10] ∈ cfg.archiveEngine.archiveType) := fun name => by
    rw [grepType, List.contains_eq_mem, List.contains_eq_mem, Bool.decide_or]
  unfold needArchive wantedLoosely wantedBy archiveWants archiveConditions Aka.withRecips
  simp only [hgrep, List.all_cons, List.all_nil, Bool.not_and, Bool.not_or, Bool.not_not,
    Bool.and_assoc, Bool.and_true]

theorem submits_withRecips : submits cfg fs (a.withRecips recips) = true ↔
    isY cfg.archiveEngine.archiveEngine = true ∧ cfg.archiveEngine.archiveType ≠ [] ∧
      wantedLoosely cfg a recips = true ∧
        isTrue a.emlfilename = true ∧ fs a.emlfilename ≠ none := by
  rw [← needArchive_eq]
  simp [submits, Aka.withRecips, Option.isSome_iff_ne_none, and_assoc]

/-- The result of the archive engine is right if and only if no copy is missed and none is claimed
that is not there. -/
theorem truthful_iff : Truthful cfg o w fs a recips ↔ SoundlyArchived cfg w fs a recips := by
  unfold Truthful SoundlyArchived
  simp only [result_archiveWithCopy]
  by_cases hon : isY cfg.archiveEngine.archiveEngine = true
  swap
  · simp [submits_withRecips, hon]
  by_cases htypes : cfg.archiveEngine.archiveType = []
  · simp [submits_withRecips, htypes]
  have hsubmits := @submits_withRecips cfg fs a recips
  simp only [hon, htypes, ne_eq, not_false_eq_true, true_and, true_implies] at hsubmits ⊢
  have hstands : submits cfg fs (a.withRecips recips) = false → ∀ m,
      (Stands a.emlfilename m (archiveWithCopy cfg o w fs (a.withRecips recips)).2 ↔
        Stands a.emlfilename m fs) := by
    intro h m
    rw [archiveWithCopy, h]
    rfl
  cases hneed : wantedLoosely cfg a recips with
  | false =>
    have hnot : submits cfg fs (a.withRecips recips) = false := by simpa [hneed] using hsubmits
    simp only [hnot, hstands hnot, Bool.false_eq_true, false_iff]
    cases wanted cfg a recips with
    | false => simp
    | true => simp
  | true =>
    rw [hneed] at hsubmits
    simp only [true_and] at hsubmits
    by_cases hfile : isTrue a.emlfilename = true ∧ fs a.emlfilename ≠ none
    · obtain ⟨htrue, hsome⟩ := hfile
      obtain ⟨m, hm⟩ := Option.ne_none_iff_exists'.1 hsome
      have hyes := hsubmits.2 ⟨htrue, hsome⟩
      have hcopy : Stands a.emlfilename m (archiveWithCopy cfg o w fs (a.withRecips recips)).2 ↔
          Copies w fs a.emlfilename m := by
        rw [archiveWithCopy, hyes]
        exact stands_archive_iff htrue hm
      simp only [hyes, true_iff, hm, Option.mem_some, exists_eq_left', hcopy, htrue]
      cases wanted cfg a recips with
      | false => simp
      | true => simp
    · have hnot : submits cfg fs (a.withRecips recips) = false := by
        simpa using fun h => hfile (hsubmits.1 h)
      simp only [hnot, hstands hnot, Bool.false_eq_true, false_iff]
      cases wanted cfg a recips with
      | false =>
        simp only [Bool.false_eq_true, false_and, not_false_eq_true, true_iff]
        exact fun htrue => by_contra fun hsome => hfile ⟨htrue, hsome⟩
      | true =>
        simp only [true_and, not_exists, not_and]
        refine forall₂_congr fun m hm => ?_
        have hfalse : ¬isTrue a.emlfilename = true := fun htrue =>
          hfile ⟨htrue, fun hnone => by rw [hnone] at hm; cases hm⟩
        rw [if_neg hfalse]

/-- The archive directory cannot be written to: the mail counts as archived all the same. -/
theorem archived_without_copy : ¬∀ (cfg : Config) (o : Outside) (w : Copying)
    (fs : Store Bytes Bytes) (a : Aka) (recips : List Bytes), Truthful cfg o w fs a recips := by
  intro hall
  let cfg : Config :=
    { archiveEngine := { archiveEngine := bytes "Y", archiveType := [bytes "All"] } }
  let eml := bytes "/home/NoSPAM/spool/working/new/emlfile.gw.nospam.1130000000.77"
  let a : Aka := { emlfilename := eml }
  let fs : Store Bytes Bytes := fun path => if path = eml then some (bytes "Hi") else none
  have hresult : ((archiveWithCopy cfg Outside.plain { opensArchive := false } fs
      (a.withRecips [])).1.engine .archive).result = bytes "1" :=
    result_archiveWithCopy.2 (by decide)
  have hnone : (archiveWithCopy cfg Outside.plain { opensArchive := false } fs
      (a.withRecips [])).2 (archivePath eml) = none := by decide
  obtain ⟨-, -, -, m, -, hstands⟩ :=
    (hall cfg Outside.plain { opensArchive := false } fs a []).1 hresult
  exact absurd (hnone.symm.trans hstands) (Option.some_ne_none m).symm

end Result

end NoSpam
