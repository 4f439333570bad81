import NoSpam.Base.Codec
import NoSpam.GA.Evidence
import NoSpam.Mail.Archive

/-!
# The export of the archive

The administrator gets the archive as a zip file, with a member for each mail in the exchange
format, and has it emptied.  The format is read back exactly if no field of the header has a line
end of its own in it (`read_exchange_iff`).  Over all runs a mail is still in the archive or in some
zip file unless the archive has been emptied before a zip file was made (`kept_iff`).
-/

namespace NoSpam.ArchiveExport

open Text Content Machine

/-! ## The exchange format -/

/-- What is exported of a mail. -/
structure Exchange where
  fromField : Bytes
  toField : Bytes
  cc : Bytes
  subject : Bytes
  received : Bytes
  bodyText : Bytes
  emldata : Bytes
deriving DecidableEq

/-- `$ex_dat`. -/
def Exchange.text (x : Exchange) : Bytes :=
  bytes "From:" ++ x.fromField ++ bytes "\r\n" ++
    (bytes "To:" ++ x.toField ++ bytes "\r\n") ++
    (bytes "Cc:" ++ x.cc ++ bytes "\r\n") ++
    (bytes "Subject:" ++ x.subject ++ bytes "\r\n") ++
    (bytes "Received:" ++ x.received ++ bytes "\r\n") ++
    (bytes "Content:" ++ decimal x.bodyText.length ++ bytes "\r\n") ++
    (x.bodyText ++ bytes "\r\n") ++
    (bytes "Mail:" ++ decimal x.emldata.length ++ bytes "\r\n") ++
    x.emldata

/-- The libraries that take a mail apart: the tree of `MIME::Parser`, unless it dies, and the hosts
that `parse_received_line` finds. -/
structure Library where
  entity : Bytes → Option Entity
  relays : Bytes → List GA.Relay

/-- What the export takes from a mail. -/
def Exchange.of (lib : Library) (m : MailInfo) (emldata : Bytes) : Exchange where
  fromField := m.head.fromField
  toField := m.head.toField
  cc := m.head.cc
  subject := m.head.subject
  received := GA.getReceivedStr (lib.relays emldata)
  bodyText := m.bodyText
  emldata := emldata

/-- `get_exchange_data` on a file with this content, unless the parser dies. -/
def getExchangeData (lib : Library) (p : Parser) (emldata : Bytes) : Option (Bytes × Parser) :=
  match p.getMailInfo (lib.entity emldata) with
  | (some m, p') => some ((Exchange.of lib m emldata).text, p'.clean)
  | (none, _) => none

/-! ## The mailbox -/

/-- The folders of the mailbox, in the order of `get_archive_files`. -/
inductive Folder
  | new
  | cur
  | trashNew
  | trashCur
deriving DecidableEq

def Folder.all : List Folder := [.new, .cur, .trashNew, .trashCur]

/-- The name below the directory of the archive. -/
def Folder.name : Folder → Bytes
  | .new => bytes "new"
  | .cur => bytes "cur"
  | .trashNew => bytes ".Trash/new"
  | .trashCur => bytes ".Trash/cur"

/-- `$self->{define}->{archivedir} . "/$dir/$_"`. -/
def path (d : Folder) (name : Bytes) : Bytes :=
  archiveDir ++ 47 :: d.name ++ 47 :: name

structure File where
  folder : Folder
  name : Bytes
  content : Bytes
deriving DecidableEq

def File.path (f : File) : Bytes := ArchiveExport.path f.folder f.name

/-- `/^\.{1,2}$/`. -/
def isDots (name : Bytes) : Bool :=
  name = bytes "." || name = bytes ".." || name = bytes ".\n" || name = bytes "..\n"

/-- `get_archive_files`, of the files in the order in which `readdir` gives them. -/
def getArchiveFiles (fs : List File) : List File :=
  Folder.all.flatMap fun d => fs.filter fun f => f.folder = d && !isDots f.name

/-- `(\d{8,}\.\d+)` at the start of a text. -/
def numberAt (l : Bytes) : Option Bytes :=
  match l.dropWhile isDigit with
  | 46 :: r =>
      if 8 ≤ (l.takeWhile isDigit).length ∧ r.takeWhile isDigit ≠ [] then
        some (l.takeWhile isDigit ++ 46 :: r.takeWhile isDigit)
      else none
  | _ => none

/-- `m#(\d{8,}\.\d+)#`. -/
def number (l : Bytes) : Option Bytes := l.tails.findSome? numberAt

/-- The name of a member, `"$1.log"`. -/
def memberName (n : Bytes) : Bytes := n ++ bytes ".log"

/-- The loop of `print_archive_zip`: for a file without a number `$1` is still that of the file
before. -/
def zipMembers (lib : Library) : Parser → Bytes → List File → Option (List (Bytes × Bytes))
  | _, _, [] => some []
  | p, last, f :: fs =>
      match getExchangeData lib p f.content with
      | some (data, p') =>
          let n := (number f.path).getD last
          (zipMembers lib p' n fs).map fun ms => (memberName n, data) :: ms
      | none => none

/-- `print_archive_zip`: the members of the file that is printed, unless the parser dies. -/
def printArchiveZip (lib : Library) (fs : List File) : Option (List (Bytes × Bytes)) :=
  zipMembers lib {} [] (getArchiveFiles fs)

/-- `clean_archive_files`. -/
def cleanArchiveFiles (fs : List File) : List File :=
  fs.filter fun f => f.path ∉ (getArchiveFiles fs).map File.path

/-- A file is renamed, and takes the place of another. -/
def rename (d : Folder) (name : Bytes) (d' : Folder) (name' : Bytes) (fs : List File) :
    List File :=
  match fs.find? (·.path = path d name) with
  | some f =>
      fs.filter (fun g => g.path ≠ path d name && g.path ≠ path d' name') ++
        [⟨d', name', f.content⟩]
  | none => fs

/-! ## Runs -/

/-- The mailbox, and the zip files that have been printed. -/
structure State where
  files : List File
  zips : List (List (Bytes × Bytes))

/-- What happens to the archive: a mail is copied into it, whoever reads the mailbox renames a file,
or the administrator exports or empties it. -/
inductive Event
  | archive (name message : Bytes)
  | move (d : Folder) (name : Bytes) (d' : Folder) (name' : Bytes)
  | getExchangedata
  | cleanAll

/-- An event; a copy that `archive` completes takes the place of a file of the same name. -/
def step (lib : Library) (s : State) : Event → State
  | .archive name message =>
      { s with files := s.files.filter (·.path ≠ path .new name) ++ [⟨.new, name, message⟩] }
  | .move d name d' name' => { s with files := rename d name d' name' s.files }
  | .getExchangedata =>
      match printArchiveZip lib s.files with
      | some z => { s with zips := s.zips ++ [z] }
      | none => s
  | .cleanAll => { s with files := cleanArchiveFiles s.files }

/-- The archive when the system is installed. -/
def atInstall : State := ⟨[], []⟩

/-- No line ends within the fields of the header. -/
def Exchange.Clean (x : Exchange) : Prop :=
  ∀ field ∈ [x.fromField, x.toField, x.cc, x.subject, x.received], ¬[13, 10] <:+: field

/-- The parser takes the mail apart into fields without line ends. -/
def Legible (lib : Library) (message : Bytes) : Prop :=
  ∃ e, lib.entity message = some e ∧
    (Exchange.of lib (mailInfo fileTypes e) message).Clean

/-- The number of a mail that is archived. -/
def Event.arrival : Event → Option Bytes
  | .archive name _ => number (path .new name)
  | _ => none

/-- A mail has a number in its name and can be exported, and a file keeps its number when it is
renamed. -/
def Event.Proper (lib : Library) : Event → Prop
  | .archive name message => (number (path .new name)).isSome ∧ Legible lib message
  | .move d name d' name' => number (path d' name') = number (path d name)
  | _ => True

/-- The events are proper, and no two mails have one number. -/
structure Fits (lib : Library) (es : List Event) : Prop where
  proper : ∀ e ∈ es, e.Proper lib
  nodup : (es.filterMap Event.arrival).Nodup

/-- An export, or emptying the archive. -/
def Event.sweeps : Event → Bool
  | .getExchangedata => true
  | .cleanAll => true
  | _ => false

/-- The mail is in the archive. -/
def Holds (n message : Bytes) (s : State) : Prop :=
  ∃ f ∈ s.files, number f.path = some n ∧ f.content = message

/-! ## Reading the format -/

/-- A line that CR LF ends. -/
def crlf : Codec UInt8 Bytes := Codec.line 13 10 (by decide)

/-- A field of the header. -/
def field (key : String) : Codec UInt8 Bytes := Codec.after (bytes key) crlf

/-- A text after its length. -/
def sized (key : String) : Codec UInt8 Bytes :=
  Codec.after (bytes key) (Codec.counted (Codec.numberLine 13 10 (by decide) (by decide)))

/-- The parts of the format in their order. -/
def parts : Bytes × Bytes × Bytes × Bytes × Bytes × Bytes × Bytes ≃ Exchange where
  toFun p := ⟨p.1, p.2.1, p.2.2.1, p.2.2.2.1, p.2.2.2.2.1, p.2.2.2.2.2.1, p.2.2.2.2.2.2⟩
  invFun x := (x.fromField, x.toField, x.cc, x.subject, x.received, x.bodyText, x.emldata)
  left_inv _ := rfl
  right_inv _ := rfl

/-- How the receiver reads a member. -/
def exchange : Codec UInt8 Exchange :=
  ((field "From:").seq ((field "To:").seq ((field "Cc:").seq ((field "Subject:").seq
    ((field "Received:").seq ((sized "Content:").seq (sized "\r\nMail:"))))))).map parts

/-- The mail is in one of the zip files, under its number and as it was. -/
def Printed (n message : Bytes) (s : State) : Prop :=
  ∃ z ∈ s.zips, ∃ m ∈ z, m.1 = memberName n ∧
    ∃ x, exchange.read m.2 = some (x, []) ∧ x.emldata = message

theorem write_exchange (x : Exchange) : exchange.write x = x.text := by
  have hmail : bytes "\r\nMail:" = bytes "\r\n" ++ bytes "Mail:" := rfl
  have hcrlf : ([13, 10] : Bytes) = bytes "\r\n" := rfl
  show (bytes "From:" ++ (x.fromField ++ [13, 10])) ++ ((bytes "To:" ++ (x.toField ++ [13, 10])) ++
    ((bytes "Cc:" ++ (x.cc ++ [13, 10])) ++ ((bytes "Subject:" ++ (x.subject ++ [13, 10])) ++
      ((bytes "Received:" ++ (x.received ++ [13, 10])) ++
        ((bytes "Content:" ++ ((decimal x.bodyText.length ++ [13, 10]) ++ x.bodyText)) ++
          (bytes "\r\nMail:" ++ ((decimal x.emldata.length ++ [13, 10]) ++ x.emldata))))))) = _
  rw [hmail, hcrlf, Exchange.text]
  simp only [List.append_assoc]

theorem fits_exchange (x : Exchange) : exchange.Fits x ↔ x.Clean := by
  show (¬[13, 10] <:+: x.fromField ∧ ¬[13, 10] <:+: x.toField ∧ ¬[13, 10] <:+: x.cc ∧
    ¬[13, 10] <:+: x.subject ∧ ¬[13, 10] <:+: x.received ∧ True ∧ True) ↔ x.Clean
  simp [Exchange.Clean]

/-- **The format is read back exactly if the header is clean**: what is exported of a mail is read
as the same fields, text and mail if and only if no field of its header has a line end in it. -/
theorem read_exchange_iff (x : Exchange) : exchange.read x.text = some (x, []) ↔ x.Clean := by
  rw [← fits_exchange, ← exchange.read_write_iff x [], write_exchange, List.append_nil]

/-! ## Files and their numbers -/

theorem number_eq_none {l : Bytes} (h : ∀ c ∈ l, isDigit c = false) : number l = none := by
  rw [number, List.findSome?_eq_none_iff]
  intro t ht
  have htake : t.takeWhile isDigit = [] := by
    cases t with
    | nil => rfl
    | cons c t =>
      have hc := h c (((List.mem_tails _ _).1 ht).subset List.mem_cons_self)
      rw [List.takeWhile_cons_of_neg (by rw [hc]; decide)]
  rw [numberAt, htake]
  split
  · rw [if_neg fun hlong => absurd hlong.1 (by decide)]
  · rfl

set_option maxRecDepth 4000 in
theorem isDigit_of_mem_path {d : Folder} {name : Bytes} (h : ∀ c ∈ name, isDigit c = false) :
    ∀ c ∈ path d name, isDigit c = false := by
  have hdir : ∀ c ∈ archiveDir, isDigit c = false := by decide
  have hfolder : ∀ c ∈ d.name, isDigit c = false := by cases d <;> decide
  intro c hc
  rcases List.mem_append.1 hc with hc | hc
  · rcases List.mem_append.1 hc with hc | hc
    · exact hdir c hc
    · rcases List.mem_cons.1 hc with rfl | hc
      · rfl
      · exact hfolder c hc
  · rcases List.mem_cons.1 hc with rfl | hc
    · rfl
    · exact h c hc

set_option maxRecDepth 4000 in
theorem isDots_of_number {d : Folder} {name : Bytes} (h : (number (path d name)).isSome) :
    isDots name = false := by
  rw [Bool.eq_false_iff]
  intro hdots
  have hname : ∀ c ∈ name, isDigit c = false := by
    simp only [isDots, Bool.or_eq_true, decide_eq_true_eq] at hdots
    rcases hdots with ((rfl | rfl) | rfl) | rfl <;> decide
  rw [number_eq_none (isDigit_of_mem_path hname)] at h
  cases h

theorem mem_getArchiveFiles {fs : List File} {f : File} :
    f ∈ getArchiveFiles fs ↔ f ∈ fs ∧ isDots f.name = false := by
  have hall : f.folder ∈ Folder.all := by cases f.folder <;> decide
  simp only [getArchiveFiles, List.mem_flatMap, List.mem_filter, Bool.and_eq_true,
    decide_eq_true_eq, Bool.not_eq_true']
  exact ⟨fun ⟨_, _, hf, _, hdots⟩ => ⟨hf, hdots⟩, fun ⟨hf, hdots⟩ => ⟨_, hall, hf, rfl, hdots⟩⟩

/-- The mailbox that the runs keep: every file has a number of its own and can be exported. -/
structure Inv (lib : Library) (fs : List File) : Prop where
  number : ∀ f ∈ fs, (number f.path).isSome
  legible : ∀ f ∈ fs, Legible lib f.content
  inj : ∀ f ∈ fs, ∀ g ∈ fs, ArchiveExport.number f.path = ArchiveExport.number g.path → f = g

section Mailbox

variable {lib : Library} {fs : List File}

theorem Inv.mem_getArchiveFiles_iff (h : Inv lib fs) {f : File} :
    f ∈ getArchiveFiles fs ↔ f ∈ fs :=
  mem_getArchiveFiles.trans (and_iff_left_of_imp fun hf => isDots_of_number (h.number f hf))

/-- Emptying the archive leaves nothing. -/
theorem Inv.cleanArchiveFiles_eq (h : Inv lib fs) : cleanArchiveFiles fs = [] := by
  rw [cleanArchiveFiles, List.filter_eq_nil_iff]
  intro f hf
  have hmem : f.path ∈ (getArchiveFiles fs).map File.path :=
    List.mem_map_of_mem (h.mem_getArchiveFiles_iff.2 hf)
  simpa using hmem

/-- The member is that of the file: it has its number, and its mail is read from it. -/
def Reads (f : File) (m : Bytes × Bytes) : Prop :=
  ∃ n, number f.path = some n ∧ m.1 = memberName n ∧
    ∃ x, exchange.read m.2 = some (x, []) ∧ x.emldata = f.content

theorem getExchangeData_of_legible {message : Bytes} (h : Legible lib message) :
    ∃ data, getExchangeData lib {} message = some (data, {}) ∧
      ∃ x, exchange.read data = some (x, []) ∧ x.emldata = message := by
  obtain ⟨e, he, hclean⟩ := h
  refine ⟨(Exchange.of lib (mailInfo fileTypes e) message).text, ?_, _,
    (read_exchange_iff _).2 hclean, rfl⟩
  rw [getExchangeData, he]
  rfl

theorem exists_mem_of_forall₂ {α β : Type*} {R : α → β → Prop} {l : List α} {l' : List β}
    (h : List.Forall₂ R l l') {a : α} (ha : a ∈ l) : ∃ b ∈ l', R a b := by
  induction h with
  | nil => cases ha
  | cons hab _ ih =>
    rcases List.mem_cons.1 ha with rfl | ha
    · exact ⟨_, List.mem_cons_self, hab⟩
    · obtain ⟨b, hb, hR⟩ := ih ha
      exact ⟨b, List.mem_cons_of_mem _ hb, hR⟩

/-- The export goes through all files, one member for each. -/
theorem zipMembers_spec (last : Bytes) (hnumber : ∀ f ∈ fs, (number f.path).isSome)
    (hlegible : ∀ f ∈ fs, Legible lib f.content) :
    ∃ z, zipMembers lib {} last fs = some z ∧ List.Forall₂ Reads fs z := by
  induction fs generalizing last with
  | nil => exact ⟨[], rfl, List.Forall₂.nil⟩
  | cons f fs ih =>
    obtain ⟨n, hn⟩ := Option.isSome_iff_exists.1 (hnumber f List.mem_cons_self)
    obtain ⟨data, hdata, hread⟩ := getExchangeData_of_legible (hlegible f List.mem_cons_self)
    obtain ⟨z, hz, hall⟩ := ih n (fun g hg => hnumber g (List.mem_cons_of_mem f hg))
      fun g hg => hlegible g (List.mem_cons_of_mem f hg)
    refine ⟨(memberName n, data) :: z, ?_, List.Forall₂.cons ⟨n, hn, rfl, hread⟩ hall⟩
    rw [zipMembers, hdata]
    dsimp only
    rw [hn, Option.getD_some, hz]
    rfl

/-- An export prints one member for each file of the mailbox. -/
theorem Inv.printArchiveZip_spec (h : Inv lib fs) :
    ∃ z, printArchiveZip lib fs = some z ∧ List.Forall₂ Reads (getArchiveFiles fs) z :=
  zipMembers_spec [] (fun f hf => h.number f (h.mem_getArchiveFiles_iff.1 hf))
    fun f hf => h.legible f (h.mem_getArchiveFiles_iff.1 hf)

/-- A file is renamed, or there is none of that name. -/
theorem rename_cases (d : Folder) (name : Bytes) (d' : Folder) (name' : Bytes) (fs : List File) :
    rename d name d' name' fs = fs ∨
      ∃ f ∈ fs, f.path = path d name ∧ rename d name d' name' fs =
        fs.filter (fun g => g.path ≠ path d name && g.path ≠ path d' name') ++
          [⟨d', name', f.content⟩] := by
  rw [rename]
  cases hfind : fs.find? (·.path = path d name) with
  | none => exact Or.inl rfl
  | some f =>
    exact Or.inr ⟨f, List.mem_of_find?_eq_some hfind, by simpa using List.find?_some hfind, rfl⟩

end Mailbox

/-! ## One event -/

section Step

variable {lib : Library} {s : State} {e : Event} {n message : Bytes}

/-- No file has this number. -/
def NoFile (n : Bytes) (s : State) : Prop := ∀ f ∈ s.files, number f.path ≠ some n

/-- No member of a zip file has this number. -/
def NoMember (n : Bytes) (s : State) : Prop := ∀ z ∈ s.zips, ∀ m ∈ z, m.1 ≠ memberName n

theorem files_export (lib : Library) (s : State) :
    (step lib s .getExchangedata).files = s.files := by
  show (match printArchiveZip lib s.files with
    | some z => { s with zips := s.zips ++ [z] }
    | none => s).files = s.files
  cases printArchiveZip lib s.files <;> rfl

/-- A file after an event is one that was there, perhaps under another name, or the mail that has
come. -/
theorem mem_files_step (he : e.Proper lib) {f : File} (hf : f ∈ (step lib s e).files) :
    (∃ g ∈ s.files, number g.path = number f.path ∧ g.content = f.content) ∨
      ∃ name message, e = .archive name message ∧ f = ⟨.new, name, message⟩ := by
  cases e with
  | archive name message =>
    rcases List.mem_append.1 hf with hf | hf
    · exact Or.inl ⟨f, (List.mem_filter.1 hf).1, rfl, rfl⟩
    · exact Or.inr ⟨name, message, rfl, List.mem_singleton.1 hf⟩
  | move d name d' name' =>
    left
    change f ∈ rename d name d' name' s.files at hf
    rcases rename_cases d name d' name' s.files with hsame | ⟨g, hg, hpath, hrename⟩
    · rw [hsame] at hf
      exact ⟨f, hf, rfl, rfl⟩
    · rw [hrename] at hf
      rcases List.mem_append.1 hf with hf | hf
      · exact ⟨f, (List.mem_filter.1 hf).1, rfl, rfl⟩
      · obtain rfl := List.mem_singleton.1 hf
        exact ⟨g, hg, by rw [hpath]; exact he.symm, rfl⟩
  | getExchangedata =>
    rw [files_export] at hf
    exact Or.inl ⟨f, hf, rfl, rfl⟩
  | cleanAll => exact Or.inl ⟨f, (List.mem_filter.1 hf).1, rfl, rfl⟩

theorem noFile_step (he : e.Proper lib) (hother : e.arrival ≠ some n) (h : NoFile n s) :
    NoFile n (step lib s e) := by
  intro f hf hn
  rcases mem_files_step he hf with ⟨g, hg, hnumber, -⟩ | ⟨name, message, rfl, rfl⟩
  · exact h g hg (hnumber.trans hn)
  · exact hother hn

theorem inv_step (he : e.Proper lib) (hnew : ∀ n ∈ e.arrival, NoFile n s) (h : Inv lib s.files) :
    Inv lib (step lib s e).files where
  number f hf := by
    rcases mem_files_step he hf with ⟨g, hg, hnumber, -⟩ | ⟨name, message, rfl, rfl⟩
    · rw [← hnumber]
      exact h.number g hg
    · exact he.1
  legible f hf := by
    rcases mem_files_step he hf with ⟨g, hg, -, hcontent⟩ | ⟨name, message, rfl, rfl⟩
    · rw [← hcontent]
      exact h.legible g hg
    · exact he.2
  inj f hf g hg hfg := by
    cases e with
    | archive name message =>
      obtain ⟨n, hn⟩ := Option.isSome_iff_exists.1 he.1
      have hno := hnew n hn
      rcases List.mem_append.1 hf with hf | hf <;> rcases List.mem_append.1 hg with hg | hg
      · exact h.inj f (List.mem_filter.1 hf).1 g (List.mem_filter.1 hg).1 hfg
      · obtain rfl := List.mem_singleton.1 hg
        exact absurd (hfg.trans hn) (hno f (List.mem_filter.1 hf).1)
      · obtain rfl := List.mem_singleton.1 hf
        exact absurd (hfg.symm.trans hn) (hno g (List.mem_filter.1 hg).1)
      · rw [List.mem_singleton.1 hf, List.mem_singleton.1 hg]
    | move d name d' name' =>
      change f ∈ rename d name d' name' s.files at hf
      change g ∈ rename d name d' name' s.files at hg
      rcases rename_cases d name d' name' s.files with hsame | ⟨k, hk, hpath, hrename⟩
      · rw [hsame] at hf hg
        exact h.inj f hf g hg hfg
      -- no file that stays has the number of the one that is renamed
      have hstays {x : File} (hx : x ∈ s.files.filter fun y =>
          y.path ≠ path d name && y.path ≠ path d' name') :
          number x.path ≠ number (path d' name') := by
        obtain ⟨hmem, hne⟩ := List.mem_filter.1 hx
        intro heq
        obtain rfl := h.inj x hmem k hk (by rw [hpath, heq]; exact he)
        simp [hpath] at hne
      rw [hrename] at hf hg
      rcases List.mem_append.1 hf with hf | hf <;> rcases List.mem_append.1 hg with hg | hg
      · exact h.inj f (List.mem_filter.1 hf).1 g (List.mem_filter.1 hg).1 hfg
      · obtain rfl := List.mem_singleton.1 hg
        exact absurd hfg (hstays hf)
      · obtain rfl := List.mem_singleton.1 hf
        exact absurd hfg.symm (hstays hg)
      · rw [List.mem_singleton.1 hf, List.mem_singleton.1 hg]
    | getExchangedata =>
      rw [files_export] at hf hg
      exact h.inj f hf g hg hfg
    | cleanAll => exact h.inj f (List.mem_filter.1 hf).1 g (List.mem_filter.1 hg).1 hfg

/-- A mail stays in the archive when another one comes, when a file is renamed and when the archive
is exported. -/
theorem holds_step (he : e.Proper lib) (hother : e.arrival ≠ some n) (hclean : e ≠ .cleanAll)
    (hinv : Inv lib s.files) (h : Holds n message s) : Holds n message (step lib s e) := by
  obtain ⟨f, hf, hn, hmessage⟩ := h
  cases e with
  | archive name message' =>
    refine ⟨f, List.mem_append_left _ (List.mem_filter.2 ⟨hf, ?_⟩), hn, hmessage⟩
    rw [decide_eq_true_eq]
    intro hpath
    exact hother (by rw [← hn, hpath]; rfl)
  | move d name d' name' =>
    show ∃ f ∈ rename d name d' name' s.files, _
    rcases rename_cases d name d' name' s.files with hsame | ⟨k, hk, hpath, hrename⟩
    · rw [hsame]
      exact ⟨f, hf, hn, hmessage⟩
    rw [hrename]
    by_cases hfk : f = k
    · refine ⟨⟨d', name', k.content⟩, List.mem_append_right _ List.mem_cons_self, ?_, ?_⟩
      · rw [← hn, hfk, hpath]
        exact he
      · rw [← hmessage, hfk]
    · refine ⟨f, List.mem_append_left _ (List.mem_filter.2 ⟨hf, ?_⟩), hn, hmessage⟩
      have hleft : f.path ≠ path d name := fun heq =>
        hfk (hinv.inj f hf k hk (by rw [heq, hpath]))
      have hright : f.path ≠ path d' name' := fun heq =>
        hfk (hinv.inj f hf k hk (by rw [heq, hpath]; exact he))
      simp [hleft, hright]
  | getExchangedata => exact ⟨f, by rwa [files_export], hn, hmessage⟩
  | cleanAll => exact absurd rfl hclean

/-- What an export prints. -/
theorem zips_export (h : Inv lib s.files) :
    ∃ z, (step lib s .getExchangedata).zips = s.zips ++ [z] ∧
      List.Forall₂ Reads (getArchiveFiles s.files) z := by
  obtain ⟨z, hz, hall⟩ := h.printArchiveZip_spec
  refine ⟨z, ?_, hall⟩
  show (match printArchiveZip lib s.files with
    | some z => { s with zips := s.zips ++ [z] }
    | none => s).zips = _
  rw [hz]

/-- A zip file that has been printed stays. -/
theorem printed_step (h : Printed n message s) : Printed n message (step lib s e) := by
  obtain ⟨z, hz, hread⟩ := h
  refine ⟨z, ?_, hread⟩
  cases e with
  | archive name message => exact hz
  | move d name d' name' => exact hz
  | getExchangedata =>
    show z ∈ (match printArchiveZip lib s.files with
      | some z => { s with zips := s.zips ++ [z] }
      | none => s).zips
    cases printArchiveZip lib s.files with
    | none => exact hz
    | some z' => exact List.mem_append_left _ hz
  | cleanAll => exact hz

/-- A mail in the archive is exported. -/
theorem printed_export (hinv : Inv lib s.files) (h : Holds n message s) :
    Printed n message (step lib s .getExchangedata) := by
  obtain ⟨f, hf, hn, hmessage⟩ := h
  obtain ⟨z, hz, hall⟩ := zips_export hinv
  obtain ⟨m, hm, n', hn', hname, x, hread, hx⟩ :=
    exists_mem_of_forall₂ hall (hinv.mem_getArchiveFiles_iff.2 hf)
  obtain rfl := Option.some.inj (hn'.symm.trans hn)
  have hprinted : z ∈ (step lib s .getExchangedata).zips := by
    rw [hz]
    exact List.mem_append_right _ List.mem_cons_self
  exact ⟨z, hprinted, m, hm, hname, x, hread, hx.trans hmessage⟩

/-- Nothing of a number is printed where there is no file of that number. -/
theorem noMember_step (hinv : Inv lib s.files) (hfile : NoFile n s) (h : NoMember n s) :
    NoMember n (step lib s e) := by
  cases e with
  | archive name message => exact h
  | move d name d' name' => exact h
  | getExchangedata =>
    obtain ⟨z, hz, hall⟩ := zips_export hinv
    intro z' hz' m hm
    rw [hz] at hz'
    rcases List.mem_append.1 hz' with hz' | hz'
    · exact h z' hz' m hm
    · obtain rfl := List.mem_singleton.1 hz'
      obtain ⟨f, hf, n', hn', hname, -⟩ := exists_mem_of_forall₂ hall.flip hm
      rw [hname]
      intro heq
      have hsame : n' = n := List.append_cancel_right heq
      exact hfile f (hinv.mem_getArchiveFiles_iff.1 hf) (hn'.trans (congrArg some hsame))
  | cleanAll => exact h

/-- What a mail of this number is lost means. -/
theorem not_kept (hfile : NoFile n s) (hmember : NoMember n s) :
    ¬(Holds n message s ∨ Printed n message s) := by
  rintro (⟨f, hf, hn, -⟩ | ⟨z, hz, m, hm, hname, -⟩)
  · exact hfile f hf hn
  · exact hmember z hz m hm hname

end Step

/-! ## The copy into the archive -/

section Copy

variable {lib : Library} {s : State} {w : Copying} {st : Store Bytes Bytes}
  {emlFile message name : Bytes}

/-- The files of the mailbox by their paths. -/
def view (fs : List File) : Store Bytes Bytes :=
  fun p => (fs.find? (·.path = p)).map File.content

theorem view_archive (p : Bytes) :
    view (step lib s (.archive name message)).files p =
      Store.write (path .new name) message (view s.files) p := by
  have hfiles : (step lib s (.archive name message)).files =
      s.files.filter (·.path ≠ path .new name) ++ [⟨.new, name, message⟩] := rfl
  rw [view, hfiles, List.find?_append]
  by_cases hp : p = path .new name
  · rw [hp, Store.write_self]
    have hnone : (s.files.filter (·.path ≠ path .new name)).find? (·.path = path .new name) =
        none := by simp
    rw [hnone, Option.none_or, List.find?_cons_of_pos (by simp [File.path])]
    rfl
  · rw [Store.write_of_ne hp]
    have hsame : (s.files.filter (·.path ≠ path .new name)).find? (·.path = p) =
        s.files.find? (·.path = p) := by
      rw [List.find?_filter]
      congr 1
      funext f
      by_cases hf : f.path = p
      · simp [hf, hp]
      · simp [hf]
    rw [hsame, List.find?_cons_of_neg (fun hpath => hp (of_decide_eq_true hpath).symm),
      List.find?_nil, Option.or_none]
    rfl

/-- What `archive` does to the files, where it makes a whole copy, is the arrival of the mail. -/
theorem archive_eq_step (hagree : ∀ d name, st (path d name) = view s.files (path d name))
    (hfile : Perl.isTrue emlFile = true) (hmessage : st emlFile = some message)
    (hopens : w.opensMessage = true ∧ w.opensArchive = true) (hwhole : w.Whole message)
    (hapart : emlFile ≠ archivePath emlFile) (d : Folder) (name : Bytes) :
    (archive w emlFile st).2 (path d name) =
      view (step lib s (.archive (pureFilename emlFile) message)).files (path d name) := by
  have hpath : archivePath emlFile = path .new (pureFilename emlFile) := by
    rw [archivePath, path, List.append_assoc]
    rfl
  have hcopy : (archive w emlFile st).2 = Store.write (archivePath emlFile) message st := by
    simp only [archive, hfile, hopens.1, hopens.2, hmessage, Store.write_of_ne hapart,
      Option.getD_some, (w.printed_eq_iff message).2 hwhole, Option.isSome_some, Bool.and_self,
      Bool.not_true, Bool.false_eq_true, if_false]
  rw [hcopy, view_archive, hpath]
  by_cases hp : path d name = path .new (pureFilename emlFile)
  · rw [hp, Store.write_self, Store.write_self]
  · rw [Store.write_of_ne hp, Store.write_of_ne hp, hagree]

end Copy

/-! ## Runs -/

section Runs

variable {lib : Library} {s : State} {es : List Event} {n message : Bytes}

/-- The mailbox is as the runs keep it, and can take what is to come. -/
structure Ready (lib : Library) (s : State) (es : List Event) : Prop where
  inv : Inv lib s.files
  fits : Fits lib es
  fresh : ∀ n ∈ es.filterMap Event.arrival, NoFile n s

theorem Fits.tail {e : Event} (h : Fits lib (e :: es)) : Fits lib es where
  proper e' he' := h.proper e' (List.mem_cons_of_mem e he')
  nodup := by
    have hnodup := h.nodup
    rw [List.filterMap_cons] at hnodup
    cases harrival : e.arrival with
    | none => rwa [harrival] at hnodup
    | some n =>
      rw [harrival] at hnodup
      exact (List.nodup_cons.1 hnodup).2

theorem Fits.arrival_ne {e : Event} (h : Fits lib (e :: es)) (hn : n ∈ es.filterMap Event.arrival) :
    e.arrival ≠ some n := by
  intro harrival
  have hnodup := h.nodup
  rw [List.filterMap_cons, harrival] at hnodup
  exact (List.nodup_cons.1 hnodup).1 hn

theorem Ready.step {e : Event} (h : Ready lib s (e :: es)) : Ready lib (step lib s e) es where
  inv := by
    refine inv_step (h.fits.proper e List.mem_cons_self) (fun n hn => h.fresh n ?_) h.inv
    exact List.mem_filterMap.2 ⟨e, List.mem_cons_self, hn⟩
  fits := h.fits.tail
  fresh n hn := by
    have hmem : n ∈ (e :: es).filterMap Event.arrival := by
      obtain ⟨e', he', harrival⟩ := List.mem_filterMap.1 hn
      exact List.mem_filterMap.2 ⟨e', List.mem_cons_of_mem e he', harrival⟩
    exact noFile_step (h.fits.proper e List.mem_cons_self) (h.fits.arrival_ne hn) (h.fresh n hmem)

theorem Ready.left {es' : List Event} (h : Ready lib s (es ++ es')) : Ready lib s es where
  inv := h.inv
  fits := by
    refine ⟨fun e he => h.fits.proper e (List.mem_append_left es' he), ?_⟩
    have hnodup := h.fits.nodup
    rw [List.filterMap_append] at hnodup
    exact hnodup.of_append_left
  fresh n hn := by
    refine h.fresh n ?_
    rw [List.filterMap_append]
    exact List.mem_append_left _ hn

theorem Ready.run {es' : List Event} (h : Ready lib s (es ++ es')) :
    Ready lib (Machine.run (ArchiveExport.step lib) s es) es' := by
  induction es generalizing s with
  | nil => exact h
  | cons e es ih => exact ih h.step

theorem ready_atInstall (h : Fits lib es) : Ready lib atInstall es where
  inv := ⟨nofun, nofun, nofun⟩
  fits := h
  fresh _ _ := nofun

/-- What has been printed stays in a run. -/
theorem printed_run (h : Printed n message s) (es : List Event) :
    Printed n message (run (step lib) s es) := by
  induction es generalizing s with
  | nil => exact h
  | cons e es ih => exact ih (printed_step h)

/-- A mail that is lost does not come back in a run. -/
theorem absent_run (h : Ready lib s es) (hn : n ∉ es.filterMap Event.arrival)
    (hfile : NoFile n s) (hmember : NoMember n s) :
    NoFile n (run (step lib) s es) ∧ NoMember n (run (step lib) s es) := by
  induction es generalizing s with
  | nil => exact ⟨hfile, hmember⟩
  | cons e es ih =>
    have hother : e.arrival ≠ some n := fun harrival =>
      hn (List.mem_filterMap.2 ⟨e, List.mem_cons_self, harrival⟩)
    refine ih h.step (fun hmem => hn ?_)
      (noFile_step (h.fits.proper e List.mem_cons_self) hother hfile)
      (noMember_step h.inv hfile hmember)
    obtain ⟨e', he', harrival⟩ := List.mem_filterMap.1 hmem
    exact List.mem_filterMap.2 ⟨e', List.mem_cons_of_mem e he', harrival⟩

/-- What becomes of a mail that is in the archive and has not been exported. -/
theorem kept_run (h : Ready lib s es) (hn : n ∉ es.filterMap Event.arrival)
    (hholds : Holds n message s) (hmember : NoMember n s) :
    Holds n message (run (step lib) s es) ∨ Printed n message (run (step lib) s es) ↔
      ∀ e ∈ es.find? Event.sweeps, e = .getExchangedata := by
  induction es generalizing s with
  | nil => simpa using Or.inl hholds
  | cons e es ih =>
    have hproper := h.fits.proper e List.mem_cons_self
    have hother : e.arrival ≠ some n := fun harrival =>
      hn (List.mem_filterMap.2 ⟨e, List.mem_cons_self, harrival⟩)
    have hlater : n ∉ es.filterMap Event.arrival := fun hmem => by
      obtain ⟨e', he', harrival⟩ := List.mem_filterMap.1 hmem
      exact hn (List.mem_filterMap.2 ⟨e', List.mem_cons_of_mem e he', harrival⟩)
    cases e with
    | archive name message' =>
      exact ih h.step hlater (holds_step hproper hother (by simp) h.inv hholds) hmember
    | move d name d' name' =>
      exact ih h.step hlater (holds_step hproper hother (by simp) h.inv hholds) hmember
    | getExchangedata =>
      have hprinted : Printed n message (run (step lib) s (.getExchangedata :: es)) :=
        printed_run (printed_export h.inv hholds) es
      simpa [Event.sweeps] using Or.inr hprinted
    | cleanAll =>
      have hfile : NoFile n (step lib s .cleanAll) := fun f hf => by
        change f ∈ cleanArchiveFiles s.files at hf
        rw [h.inv.cleanArchiveFiles_eq] at hf
        cases hf
      have habsent := absent_run h.step hlater hfile hmember
      have hlost : ¬(Holds n message (run (step lib) s (.cleanAll :: es)) ∨
          Printed n message (run (step lib) s (.cleanAll :: es))) := not_kept habsent.1 habsent.2
      simpa [Event.sweeps] using hlost

/-- **Only what is emptied before it is exported is lost**: over any run of arriving mails, renamed
files, exports and emptyings, a mail is in the archive afterwards or is read from some zip file
under its number if and only if the first export or emptying after its arrival, if there is one, is
an export. -/
theorem kept_iff (lib : Library) (before after : List Event) {name message : Bytes}
    (h : Fits lib (before ++ .archive name message :: after))
    (hn : number (path .new name) = some n) :
    let s := run (step lib) atInstall (before ++ .archive name message :: after)
    Holds n message s ∨ Printed n message s ↔
      ∀ e ∈ after.find? Event.sweeps, e = .getExchangedata := by
  have hready := ready_atInstall h
  have hnodup := h.nodup
  rw [List.filterMap_append, List.nodup_append] at hnodup
  obtain ⟨-, hlater, hapart⟩ := hnodup
  have harrival : (Event.archive name message).arrival = some n := hn
  rw [List.filterMap_cons, harrival] at hlater hapart
  -- nothing has the number before the mail comes
  have hbefore : n ∉ before.filterMap Event.arrival := fun hmem =>
    hapart n hmem n List.mem_cons_self rfl
  obtain ⟨-, hmember⟩ := absent_run hready.left hbefore nofun nofun
  have hholds : Holds n message
      (step lib (run (step lib) atInstall before) (.archive name message)) :=
    ⟨⟨.new, name, message⟩, List.mem_append_right _ List.mem_cons_self, hn, rfl⟩
  intro s
  have hs : s = run (step lib) (step lib (run (step lib) atInstall before) (.archive name message))
      after := run_append ..
  rw [hs]
  exact kept_run hready.run.step (List.nodup_cons.1 hlater).1 hholds hmember

end Runs

/-- `MIME::Parser` on a mail that begins with the empty line after its header. -/
def bodyOnly : Library where
  entity message :=
    some (.mk ⟨[], []⟩ (bytes "text/plain") none
      (some ⟨bytes "/home/NoSPAM/spool/tmp/AMCF-1.txt", message.tail⟩) [])
  relays _ := []

theorem legible_bodyOnly (message : Bytes) : Legible bodyOnly message :=
  ⟨_, rfl, fun field hfield => by
    change field ∈ [[], [], [], [], []] at hfield
    have hnil : field = [] := by simpa using hfield
    rw [hnil]
    simp⟩

/-- Two mails, of which the second comes between the export and the emptying. -/
theorem kept_iff_between :
    let early := bytes "emlfile.gw.nospam.1130000000.77"
    let late := bytes "emlfile.gw.nospam.1130000042.78"
    let s := run (step bodyOnly) atInstall
      [.archive early (bytes "\nhello\n"), .getExchangedata, .archive late (bytes "\nhello\n"),
        .cleanAll]
    ¬(Holds (bytes "1130000042.78") (bytes "\nhello\n") s ∨
      Printed (bytes "1130000042.78") (bytes "\nhello\n") s) := by
  have hearly : number (path .new (bytes "emlfile.gw.nospam.1130000000.77")) =
      some (bytes "1130000000.77") := by decide
  have hlate : number (path .new (bytes "emlfile.gw.nospam.1130000042.78")) =
      some (bytes "1130000042.78") := by decide
  have hfits : Fits bodyOnly
      ([.archive (bytes "emlfile.gw.nospam.1130000000.77") (bytes "\nhello\n"), .getExchangedata] ++
        .archive (bytes "emlfile.gw.nospam.1130000042.78") (bytes "\nhello\n") :: [.cleanAll]) := by
    refine ⟨?_, ?_⟩
    · simp [Event.Proper, hearly, hlate, legible_bodyOnly]
    · simp only [Event.arrival, List.cons_append, List.nil_append, List.filterMap_cons,
        List.filterMap_nil, hearly, hlate]
      decide
  intro early late s hkept
  have hexport := (kept_iff bodyOnly _ _ hfits hlate).1 hkept .cleanAll rfl
  cases hexport

end NoSpam.ArchiveExport
