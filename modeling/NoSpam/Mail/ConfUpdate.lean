import Mathlib.Logic.Function.Basic
import NoSpam.Base.Run
import NoSpam.Base.Text

/-!
# Updates of the configuration files

An object of `AKA::Mail` reads its configuration files when it is made, and the first call of
`check_conffile_update`, at the end of `new`, stamps each file with the time.  The later calls
compare the stamps with the times of modification, one file after the other, while the files go on
being modified.  Times are in seconds, so a modification between the reading and the stamp, or in
the second of the stamp, is missed; as long as there is none, no change is missed
(`no_change_missed_of_meets`).
-/

namespace NoSpam.ConfUpdate

open Text Machine

/-- The names in `conffile_list`. -/
inductive ConfName
  | conffile
  | intconffile
  | license
  | filterdb
  | user_filterdb
  | upgrade_log
  | SpamAssassin
  deriving DecidableEq

/-- What `stat` and the reader see of a file. -/
structure File where
  content : Bytes
  mtime : ℕ
  deriving DecidableEq

/-- `keys`, in some order. -/
structure Keys where
  names : List ConfName
  all : ∀ n, n ∈ names

/-- The names in the order of `new`. -/
def newKeys : Keys where
  names := [.conffile, .intconffile, .license, .filterdb, .user_filterdb, .upgrade_log,
    .SpamAssassin]
  all n := by cases n <;> decide

instance (p : ConfName → Prop) [DecidablePred p] : Decidable (∀ name, p name) :=
  decidable_of_iff (∀ name ∈ newKeys.names, p name)
    ⟨fun h name => h name (newKeys.all name), fun h name _ => h name⟩

/-- The end of a call: the files whose content was, from its start on, another than that the object
has loaded, and what it returns. -/
structure Answer where
  due : List ConfName
  updated : Bool
  deriving DecidableEq

/-- The clock, the files, the object, and the call under way with the names it has still to look at.
`loaded` holds what the object has read of a file, if it has read it: a content, or that there was
no file.  A `load_time` of zero is not set. -/
structure State where
  clock : ℕ
  files : ConfName → Option File
  loaded : ConfName → Option (Option Bytes) := fun _ => none
  load_time : ConfName → ℕ := fun _ => 0
  checking : Option (List ConfName) := none
  due : List ConfName := []
  answers : List Answer := []

/-- The steps: the time goes on, a file is modified, replaced or removed, the object reads a file, a
call of `check_conffile_update` begins, and it makes a round of its loop or ends. -/
inductive Event
  | tick (n : ℕ)
  | modify (name : ConfName) (file : Option File)
  | load (name : ConfName)
  | check (keys : Keys)
  | round

namespace State

/-- The content of a file, if there is one. -/
def content (s : State) (name : ConfName) : Option Bytes := (s.files name).map File.content

/-- `(stat(...))[9]`; what is undefined counts as zero. -/
def mtime (s : State) (name : ConfName) : ℕ := ((s.files name).map File.mtime).getD 0

/-- The object has read another content than there is now. -/
def Differs (s : State) (name : ConfName) : Prop := ∃ c ∈ s.loaded name, c ≠ s.content name

instance (s : State) (name : ConfName) : Decidable (s.Differs name) := by
  unfold Differs
  cases s.loaded name with
  | none => exact .isFalse (by simp)
  | some c => exact decidable_of_iff (c ≠ s.content name) (by simp)

/-- A file is replaced. -/
def setFile (s : State) (name : ConfName) (file : Option File) : State :=
  { s with files := Function.update s.files name file }

/-- Only what goes on being different is still due. -/
def stillDue (s : State) : State := { s with due := s.due.filter fun n => s.Differs n }

/-- A call returns. -/
def answer (s : State) (updated : Bool) : State :=
  { s with checking := none, answers := s.answers ++ [⟨s.due, updated⟩] }

/-- One round of the loop of `check_conffile_update`. -/
def round (s : State) (name : ConfName) (names : List ConfName) : State :=
  if s.load_time name = 0 then
    { s with
      load_time := Function.update s.load_time name s.clock
      checking := some names }
  else if s.load_time name < s.mtime name then
    let s :=
      if s.clock < s.mtime name then
        s.setFile name ((s.files name).map fun f => { f with mtime := s.clock })
      else s
    s.answer true
  else { s with checking := some names }

/-- One step. -/
def step (s : State) : Event → State
  | .tick n => { s with clock := s.clock + n }
  | .modify name file => stillDue (s.setFile name file)
  | .load name =>
      stillDue { s with loaded := Function.update s.loaded name (some (s.content name)) }
  | .check keys =>
      match s.checking with
      | none =>
          { s with checking := some keys.names, due := keys.names.filter fun n => s.Differs n }
      | some _ => s
  | .round =>
      match s.checking with
      | none => s
      | some [] => s.answer false
      | some (name :: names) => s.round name names

end State

/-- The file was stamped, and modified in a later second than that of the stamp. -/
def State.Later (s : State) (name : ConfName) : Prop :=
  s.load_time name ≠ 0 ∧ s.load_time name < s.mtime name

instance (s : State) (name : ConfName) : Decidable (s.Later name) :=
  inferInstanceAs (Decidable (_ ∧ _))

/-- When a call begins, every file that differs from what was read was last modified in a later
second than that of its stamp, and so it is if such a file is modified during a call. -/
def Careful (s : State) : Event → Prop
  | .check _ => s.checking = none → ∀ name, s.Differs name → s.Later name
  | .modify name file =>
      s.checking ≠ none → name ∈ s.due → (s.setFile name file).Differs name →
        (s.setFile name file).Later name
  | _ => True

instance (s : State) (e : Event) : Decidable (Careful s e) := by
  unfold Careful
  split <;> infer_instance

/-- Every call returned true that began while a content was another than the loaded one, and went on
being another. -/
def NothingMissed (s : State) : Prop := ∀ a ∈ s.answers, a.due ≠ [] → a.updated = true

/-! ## The invariant -/

/-- The call under way has the files that are due still before it. -/
structure Inv (s : State) : Prop where
  due : ∀ names ∈ s.checking, ∀ name ∈ s.due, name ∈ names ∧ s.Later name
  answers : NothingMissed s

variable {s : State}

theorem files_setFile_self (s : State) (name : ConfName) (file : Option File) :
    (s.setFile name file).files name = file := Function.update_self ..

/-- The other files stay as they are. -/
theorem setFile_of_ne {name n : ConfName} (hn : n ≠ name) (file : Option File) :
    ((s.setFile name file).Differs n ↔ s.Differs n) ∧
      ((s.setFile name file).Later n ↔ s.Later n) := by
  have hfile : (s.setFile name file).files n = s.files n := Function.update_of_ne hn ..
  rw [State.Later, State.Later, State.mtime, State.mtime, State.Differs, State.content, hfile]
  exact ⟨Iff.rfl, Iff.rfl⟩

theorem Inv.modify (h : Inv s) {name : ConfName} {file : Option File}
    (hc : Careful s (.modify name file)) : Inv (s.step (.modify name file)) := by
  refine ⟨fun names hnames n hn => ?_, h.answers⟩
  obtain ⟨hmem, hdiffers⟩ := List.mem_filter.1 hn
  obtain ⟨hahead, hlater⟩ := h.due names hnames n hmem
  refine ⟨hahead, ?_⟩
  by_cases he : n = name
  · subst he
    have hchecking : s.checking = some names := hnames
    exact hc (by simp [hchecking]) hmem (of_decide_eq_true hdiffers)
  · exact (setFile_of_ne he file).2.2 hlater

theorem Inv.load (h : Inv s) (name : ConfName) : Inv (s.step (.load name)) :=
  ⟨fun names hnames n hn => h.due names hnames n (List.mem_of_mem_filter hn), h.answers⟩

theorem Inv.check (h : Inv s) {keys : Keys} (hc : Careful s (.check keys)) :
    Inv (s.step (.check keys)) := by
  rw [State.step]
  cases hs : s.checking with
  | some names => exact h
  | none =>
    refine ⟨?_, h.answers⟩
    rintro names ⟨⟩ n hn
    exact ⟨keys.all n, hc hs n (of_decide_eq_true (List.mem_filter.1 hn).2)⟩

theorem Inv.answer (h : NothingMissed s) {updated : Bool} (hu : s.due ≠ [] → updated = true) :
    Inv (s.answer updated) := by
  refine ⟨fun _ hnone => absurd hnone (by simp [State.answer]), fun a ha hdue => ?_⟩
  rcases List.mem_append.1 ha with ha | ha
  · exact h a ha hdue
  · rw [List.mem_singleton.1 ha] at hdue ⊢
    exact hu hdue

theorem Inv.round (h : Inv s) : Inv (s.step .round) := by
  rw [State.step]
  cases hs : s.checking with
  | none => exact h
  | some names =>
    cases names with
    | nil =>
      refine Inv.answer h.answers fun hdue => absurd ?_ hdue
      exact List.eq_nil_iff_forall_not_mem.2 fun n hn =>
        absurd (h.due [] hs n hn).1 List.not_mem_nil
    | cons name names =>
      -- a file that is passed over is not due
      have hpass : ¬s.Later name → ∀ n ∈ s.due, n ∈ names ∧ s.Later n := by
        intro hnot n hn
        obtain ⟨hmem, hlater⟩ := h.due _ hs n hn
        rcases List.mem_cons.1 hmem with rfl | hmem
        · exact absurd hlater hnot
        · exact ⟨hmem, hlater⟩
      simp only [State.round]
      split_ifs with hset hlt hfuture
      · refine ⟨?_, h.answers⟩
        rintro _ ⟨⟩ n hn
        obtain ⟨hmem, hlater⟩ := hpass (fun hlater => hlater.1 hset) n hn
        have hne : n ≠ name := by
          rintro rfl
          exact hlater.1 hset
        have hsame : Function.update s.load_time name s.clock n = s.load_time n :=
          Function.update_of_ne hne ..
        exact ⟨hmem, hsame.trans_ne hlater.1, hsame.trans_lt hlater.2⟩
      · refine Inv.answer ?_ fun _ => rfl
        exact h.answers
      · exact Inv.answer h.answers fun _ => rfl
      · refine ⟨?_, h.answers⟩
        rintro _ ⟨⟩
        exact hpass fun hlater => hlt hlater.2

theorem Inv.step (h : Inv s) (e : Event) (hc : Careful s e) : Inv (s.step e) := by
  cases e with
  | tick n => exact ⟨h.due, h.answers⟩
  | modify name file => exact h.modify hc
  | load name => exact h.load name
  | check keys => exact h.check hc
  | round => exact h.round

/-! ## Runs -/

/-- The files and the clock as an object finds them that is to be made. -/
def State.init (clock : ℕ) (files : ConfName → Option File) : State where
  clock := clock
  files := files

theorem inv_init (clock : ℕ) (files : ConfName → Option File) : Inv (State.init clock files) where
  due _ hnone := by cases hnone
  answers _ ha := absurd ha List.not_mem_nil

variable {clock : ℕ} {files : ConfName → Option File} {es : List Event}

/-- **No change is missed** in a run in which every file that differs when a call begins was last
modified in a later second than that of its stamp. -/
theorem no_change_missed_of_meets (h : Meets State.step Careful (State.init clock files) es) :
    NothingMissed (run State.step (State.init clock files) es) :=
  (run_invariant (fun _ e hs hc => hs.step e hc) (inv_init clock files) h).answers

/-- `NoSPAM.conf` and nothing else, last modified in the second 900. -/
def oneFile (name : ConfName) : Option File :=
  if name = .conffile then some ⟨bytes "[SpamEngine]", 900⟩ else none

/-- The object reads the file and stamps it; `n` seconds later the file is modified, a minute later
it is checked. -/
def editAfter (n : ℕ) : List Event :=
  .load .conffile :: .check newKeys :: List.replicate 8 .round ++
    [.tick n, .modify .conffile (some ⟨bytes "[DynamicEngine]", 1000 + n⟩), .tick 60,
      .check newKeys] ++ List.replicate 8 .round

theorem no_change_missed_editAfter :
    NothingMissed (run State.step (State.init 1000 oneFile) (editAfter 1)) :=
  no_change_missed_of_meets (by decide)

/-- A modification in the second of the stamp is missed a minute later. -/
theorem change_missed :
    (run State.step (State.init 1000 oneFile) (editAfter 0)).answers =
        [⟨[], false⟩, ⟨[.conffile], false⟩] ∧
      ¬NothingMissed (run State.step (State.init 1000 oneFile) (editAfter 0)) := by
  have hanswers : (run State.step (State.init 1000 oneFile) (editAfter 0)).answers =
      [⟨[], false⟩, ⟨[.conffile], false⟩] := by decide
  refine ⟨hanswers, fun h => ?_⟩
  rw [NothingMissed, hanswers] at h
  revert h
  decide

/-! ## Modifications in time -/

/-- A modification that leaves another content than the object has read comes after the stamp of the
file and leaves it in its place with a later time; and a time in the future is set back to a later
second than that of the stamp. -/
def InTime (s : State) : Event → Prop
  | .modify name file => (s.setFile name file).Differs name → (s.setFile name file).Later name
  | .round =>
      ∀ name ∈ s.checking.bind List.head?, s.Differs name → s.clock < s.mtime name →
        s.load_time name < s.clock
  | _ => True

/-- Every file that differs was modified later. -/
def AllLater (s : State) : Prop := ∀ name, s.Differs name → s.Later name

theorem AllLater.setFile (h : AllLater s) {name : ConfName} {file : Option File}
    (hf : (s.setFile name file).Differs name → (s.setFile name file).Later name) :
    AllLater (s.setFile name file) := by
  intro n hn
  by_cases he : n = name
  · rw [he] at hn ⊢
    exact hf hn
  · obtain ⟨hdiffers, hlater⟩ := setFile_of_ne (s := s) he file
    exact hlater.2 (h n (hdiffers.1 hn))

theorem AllLater.load (h : AllLater s) (name : ConfName) : AllLater (s.step (.load name)) := by
  rintro n ⟨c, hc, hne⟩
  by_cases he : n = name
  · subst he
    have hself : Function.update s.loaded n (some (s.content n)) n = some (s.content n) :=
      Function.update_self ..
    exact absurd (Option.some.inj (hself.symm.trans hc)).symm hne
  · have hsame : Function.update s.loaded name (some (s.content name)) n = s.loaded n :=
      Function.update_of_ne he ..
    exact h n ⟨c, hsame.symm.trans hc, hne⟩

/-- A time in the future is set back. -/
theorem AllLater.setBack (h : AllLater s) {name : ConfName}
    (hc : s.Differs name → s.load_time name < s.clock) :
    AllLater (s.setFile name ((s.files name).map fun f => { f with mtime := s.clock })) := by
  refine h.setFile fun hn => ?_
  have hdiffers : s.Differs name := by
    rw [State.Differs, State.content, files_setFile_self, Option.map_map] at hn
    exact hn
  obtain ⟨hset, hlt⟩ := h name hdiffers
  refine ⟨hset, ?_⟩
  rw [State.mtime, files_setFile_self]
  rw [State.mtime] at hlt
  cases hf : s.files name with
  | none =>
    rw [hf] at hlt
    cases hlt
  | some f => exact hc hdiffers

theorem AllLater.round (h : AllLater s) (hc : InTime s .round) : AllLater (s.step .round) := by
  rw [State.step]
  cases hs : s.checking with
  | none => exact h
  | some names =>
    cases names with
    | nil => exact h
    | cons name names =>
      simp only [State.round]
      split_ifs with hset hlt hfuture
      · intro n hn
        obtain ⟨hset', hlt⟩ := h n hn
        have hne : n ≠ name := by
          rintro rfl
          exact hset' hset
        have hsame : Function.update s.load_time name s.clock n = s.load_time n :=
          Function.update_of_ne hne ..
        exact ⟨hsame.trans_ne hset', hsame.trans_lt hlt⟩
      · exact h.setBack fun hd => hc name (by rw [hs]; rfl) hd hfuture
      · exact h
      · exact h

theorem AllLater.step (h : AllLater s) (e : Event) (hc : InTime s e) : AllLater (s.step e) := by
  cases e with
  | tick n => exact h
  | modify name file => exact h.setFile hc
  | load name => exact h.load name
  | check keys =>
    rw [State.step]
    cases s.checking <;> exact h
  | round => exact h.round hc

theorem meets_careful_of_inTime (hs : AllLater s) (h : Meets State.step InTime s es) :
    Meets State.step Careful s es := by
  induction es generalizing s with
  | nil => trivial
  | cons e es ih =>
    refine ⟨?_, ih (hs.step e h.1) h.2⟩
    cases e with
    | check keys => exact fun _ => hs
    | modify name file => exact fun _ _ => h.1
    | _ => trivial

/-- No modification between the reading of a file and its stamp, nor in the second of the stamp, and
none that leaves an older time: then no change is missed. -/
theorem no_change_missed_of_inTime (h : Meets State.step InTime (State.init clock files) es) :
    NothingMissed (run State.step (State.init clock files) es) := by
  refine (run_invariant (fun _ e hs hc => hs.step e hc) (inv_init clock files)
    (meets_careful_of_inTime ?_ h)).answers
  rintro name ⟨c, hc, -⟩
  cases hc

end NoSpam.ConfUpdate
