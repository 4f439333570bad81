import NoSpam.Base.Run
import NoSpam.Base.Store
import NoSpam.Content.Parser

/-!
# Evidence files

`mail_info_to_file` of `AKA::Mail::GA::GAISC` stores a mail for the centre, as an alert or as part
of a log.  The name of the file has the time and a serial number of four digits, which is counted up
past the files that exist.  The count ends with the last number whether that is free or not
(`search_spec`), so a mail is stored without loss unless all numbers of its time are taken.
-/

namespace NoSpam.GA

open Text Perl Content Machine

/-! ## The mail as text -/

/-- A host the mail has passed, with the time as `strftime` prints it. -/
structure Relay where
  helo : Bytes
  ip : Bytes
  receive_time : Bytes
  deriving DecidableEq

/-- What `mail_info_to_file` is called with, and what it finds on the system: the time for the name
and the time for the text, the paths that can be opened for writing, and the size of the mail's own
file and what can be read of it. -/
structure MailFile where
  mail : MailInfo
  relays : List Relay := []
  rule_id : Bytes := []
  emlfilename : Bytes
  type : Bytes
  sel_str : Bytes := []
  stamp : Bytes
  time : Bytes
  opens : Bytes → Bool
  emlSize : ℕ
  eml : Option Bytes

/-- `\d|\w|\.|\-|_`. -/
def isAddrByte (c : UInt8) : Bool :=
  isDigit c || (65 ≤ c && c ≤ 90) || (97 ≤ c && c ≤ 122) || c = 46 || c = 45 || c = 95

/-- `((\d|\w|\.|\-|_)+\@(\d|\w|\.|\-|_)+)` at the start of a text. -/
def addrAt (l : Bytes) : Option Bytes :=
  let user := l.takeWhile isAddrByte
  match l.dropWhile isAddrByte with
  | 64 :: r =>
      let host := r.takeWhile isAddrByte
      if user ≠ [] && host ≠ [] then some (user ++ 64 :: host) else none
  | _ => none

/-- `get_addr_str_from_mail_str`. -/
def getAddrStrFromMailStr (mail_str : Bytes) : Bytes :=
  joinFields 44 ((fields 44 mail_str).filterMap fun part => part.tails.findSome? addrAt)

/-- `get_received_str`. -/
def getReceivedStr (relays : List Relay) : Bytes :=
  joinFields 59 (relays.map fun r => r.helo ++ 44 :: (r.ip ++ 44 :: r.receive_time))

namespace MailFile

variable (m : MailFile)

/-- `$selector{$content_map->{$n}}`. -/
def selected (n : ℕ) : Bool := (orElse m.sel_str (bytes "111100"))[n - 1]? = some 49

/-- A line `GAISC.$type.KEY=TEXT`. -/
def line (key : String) (text : Bytes) : Bytes :=
  bytes "GAISC." ++ uc m.type ++ bytes "." ++ bytes key ++ bytes "=" ++ text ++ bytes "\r\n"

/-- A text that is printed if it is selected. -/
def choose (n : ℕ) (text : Bytes) : Bytes := if m.selected n then text else []

/-- The lines about the `$atta_num`-th attachment. -/
def attachText (atta_num : ℕ) (atta_file : Bytes) (part : BodyPart) : Bytes :=
  let key (s : String) : Bytes :=
    bytes "GAISC." ++ uc m.type ++ bytes "." ++ bytes s ++ decimal atta_num ++ bytes "="
  key "AttachName" ++ atta_file ++ bytes "\r\n" ++
    (key "AttachType" ++ part.type ++ bytes "/" ++ part.subtype ++ bytes "\r\n") ++
    (key "AttachLength" ++ decimal part.size ++ bytes "\r\n") ++
    (key "AttachCount" ++ bytes "\r\n") ++
    m.choose 6 (part.content ++ bytes "\r\n")

/-- The parts with a file name, in the order of the hash. -/
def attachments : List (Bytes × BodyPart) :=
  (m.mail.body.entries.filter fun e => !e.2.nofilename).map fun e => (e.1, e.2)

/-- What is printed to the file. -/
def text : Bytes :=
  let head := m.mail.head
  (if uc (uc m.type) = bytes "ALT" then m.line "Rule" m.rule_id else []) ++
    m.line "Time" m.time ++
    m.line "From" (m.choose 1 (getAddrStrFromMailStr head.fromField)) ++
    m.line "To" (m.choose 2 (orElse (getAddrStrFromMailStr head.toField) [])) ++
    m.line "Cc" (m.choose 3 (orElse (getAddrStrFromMailStr head.cc) [])) ++
    m.line "Subject" (m.choose 4 head.subject) ++
    m.line "Received"
      (getReceivedStr m.relays ++
        if isTrue (getReceivedStr m.relays) then bytes ";" else []) ++
    m.line "Length" (decimal m.mail.bodyText.length) ++
    (m.line "Content" [] ++ m.choose 5 m.mail.bodyText ++ bytes "\r\n") ++
    m.line "SelfLength" (decimal m.emlSize) ++
    (m.line "SelfMai" [] ++ m.choose 5 (m.eml.getD [] ++ bytes "\r\n")) ++
    m.line "AttachCount" (decimal m.attachments.length) ++
    (m.attachments.zipIdx 1).flatMap fun a => m.attachText a.2 a.1.1 a.1.2

end MailFile

/-! ## The name -/

/-- `/(\d{14})/`. -/
def fourteenDigits (l : Bytes) : Option Bytes :=
  l.tails.findSome? fun t =>
    if (t.take 14).length = 14 && (t.take 14).all isDigit then some (t.take 14) else none

/-- `sprintf "%04d"`. -/
def pad4 (n : ℕ) : Bytes := List.replicate (4 - (decimal n).length) 48 ++ decimal n

/-- `$dirname->{$type}`. -/
def dirname (type : Bytes) : Bytes := if type = bytes "ALT" then bytes "alert" else bytes "log"

/-- `sprintf ( "%s/%s/%s%04d.%s", '/home/ssh/', $dirname->{$type}, $emltime, $serialno, lc($type)
)`. -/
def serialName (type emltime : Bytes) (serialno : ℕ) : Bytes :=
  bytes "/home/ssh/" ++ bytes "/" ++ dirname type ++ bytes "/" ++ emltime ++
    (pad4 serialno ++ (bytes "." ++ lc type))

/-- The `do` loop from `$serialno` on: `$filename` and `$serialno` after it. -/
def search (present : Bytes → Bool) (name : ℕ → Bytes) (serialno : ℕ) : Bytes × ℕ :=
  let filename := name serialno
  if present filename && serialno + 1 ≤ 9999 then search present name (serialno + 1)
  else (filename, serialno + 1)
termination_by 9999 - serialno
decreasing_by
  rename_i h
  simp only [Bool.and_eq_true, decide_eq_true_eq] at h
  omega

namespace MailFile

/-- The type is one of the two that there are. -/
def known (m : MailFile) : Bool := uc m.type = bytes "ALT" || uc m.type = bytes "LOG"

/-- `$emltime`. -/
def emltime (m : MailFile) : Bytes := (fourteenDigits m.emlfilename).getD m.stamp

/-- The name with a serial number. -/
def name (m : MailFile) (serialno : ℕ) : Bytes := serialName (uc m.type) m.emltime serialno

/-- The loop over the files that exist. -/
def searched (m : MailFile) (s : Store Bytes Bytes) : Bytes × ℕ :=
  search (fun filename => (s filename).isSome) m.name 0

end MailFile

/-- `mail_info_to_file`: the name of the file, unless it is `undef`, and the files afterwards. -/
def mailInfoToFile (m : MailFile) (s : Store Bytes Bytes) : Option Bytes × Store Bytes Bytes :=
  if !m.known then (none, s)
  else
    let filename := (m.searched s).1
    if !m.opens filename then (none, s)
    else (some filename, Store.write filename m.text s)

/-! ## The search -/

/-- The search ends at the first free number, or at the last one. -/
theorem search_spec (present : Bytes → Bool) (name : ℕ → Bytes) {serialno : ℕ}
    (h : serialno ≤ 9999) :
    ∃ n, n ≤ 9999 ∧ search present name serialno = (name n, n + 1) ∧
      (∀ i, serialno ≤ i → i < n → present (name i) = true) ∧
      (present (name n) = false ∨ n = 9999) := by
  induction serialno using search.induct present name with
  | case1 serialno filename hgo ih =>
    have hgo' := hgo
    simp only [Bool.and_eq_true, decide_eq_true_eq] at hgo'
    obtain ⟨n, hn, hsearch, htaken, hend⟩ := ih hgo'.2
    refine ⟨n, hn, ?_, fun i hi hlt => ?_, hend⟩
    · rw [search, if_pos hgo, hsearch]
    · by_cases he : i = serialno
      · rw [he]
        exact hgo'.1
      · exact htaken i (by omega) hlt
  | case2 serialno filename hstop =>
    refine ⟨serialno, h, ?_, fun i hi hlt => absurd hlt (by omega), ?_⟩
    · rw [search, if_neg hstop]
    · simp only [Bool.and_eq_true, decide_eq_true_eq, not_and, not_le] at hstop
      by_cases hfree : present (name serialno) = true
      · right
        have hlast := hstop hfree
        omega
      · left
        simpa using hfree

section Storing

variable {m : MailFile} {s : Store Bytes Bytes}

/-- With a free number, the search finds one. -/
theorem searched_of_free (h : ∃ n ≤ 9999, s (m.name n) = none) :
    s (m.searched s).1 = none ∧ (m.searched s).2 ≤ 10000 := by
  obtain ⟨n, hn, hsearch, htaken, hend⟩ :=
    search_spec (fun filename => (s filename).isSome) m.name (Nat.zero_le 9999)
  obtain ⟨i, hi, hfree⟩ := h
  have hle : n ≤ i := by
    by_contra hlt
    have hsome := htaken i (Nat.zero_le i) (by omega)
    rw [hfree] at hsome
    cases hsome
  rw [MailFile.searched, hsearch]
  refine ⟨?_, by omega⟩
  rcases hend with hnone | hlast
  · simpa using hnone
  · rw [show n = i by omega]
    exact hfree

/-- With none, it ends at the last. -/
theorem searched_of_full (h : ∀ n ≤ 9999, s (m.name n) ≠ none) :
    m.searched s = (m.name 9999, 10000) := by
  obtain ⟨n, hn, hsearch, -, hend⟩ :=
    search_spec (fun filename => (s filename).isSome) m.name (Nat.zero_le 9999)
  have hlast : n = 9999 := by
    refine hend.resolve_left fun hnone => h n hn ?_
    simpa using hnone
  rw [MailFile.searched, hsearch, hlast]

theorem mailInfoToFile_of_unknown (h : m.known = false) : mailInfoToFile m s = (none, s) := by
  rw [mailInfoToFile, h]
  rfl

theorem mailInfoToFile_of_closed (h : m.opens (m.searched s).1 = false) :
    mailInfoToFile m s = (none, s) := by
  by_cases hknown : m.known = true
  · simp only [mailInfoToFile, hknown, h, Bool.not_true, Bool.not_false, Bool.false_eq_true,
      if_false, if_true]
  · exact mailInfoToFile_of_unknown (by simpa using hknown)

theorem mailInfoToFile_of_open (hknown : m.known = true) (h : m.opens (m.searched s).1 = true) :
    mailInfoToFile m s =
      (some (m.searched s).1, Store.write (m.searched s).1 m.text s) := by
  simp only [mailInfoToFile, hknown, h, Bool.not_true, Bool.false_eq_true, if_false]

/-- The function fails and changes nothing, or writes the file that it names. -/
theorem mailInfoToFile_cases (m : MailFile) (s : Store Bytes Bytes) :
    mailInfoToFile m s = (none, s) ∨
      mailInfoToFile m s =
        (some (m.searched s).1, Store.write (m.searched s).1 m.text s) := by
  by_cases hknown : m.known = true
  · by_cases hopen : m.opens (m.searched s).1 = true
    · exact Or.inr (mailInfoToFile_of_open hknown hopen)
    · exact Or.inl (mailInfoToFile_of_closed (by simpa using hopen))
  · exact Or.inl (mailInfoToFile_of_unknown (by simpa using hknown))

/-- The search ends after at most ten thousand turns, the name it has picked was free unless the
function fails, and every file is as it was. -/
structure NeverOverwrites (m : MailFile) (s : Store Bytes Bytes) : Prop where
  ends : (m.searched s).2 ≤ 10000
  fresh : ∀ filename, (mailInfoToFile m s).1 = some filename → s filename = none
  kept : ∀ path v, s path = some v → (mailInfoToFile m s).2 path = some v

/-- The type is none of the two, or a number is free, or the last file cannot be opened. -/
def HasRoom (m : MailFile) (s : Store Bytes Bytes) : Prop :=
  m.known = false ∨ (∃ n ≤ 9999, s (m.name n) = none) ∨ m.opens (m.name 9999) = false

theorem searched_snd_le (m : MailFile) (s : Store Bytes Bytes) : (m.searched s).2 ≤ 10000 := by
  by_cases hfree : ∃ n ≤ 9999, s (m.name n) = none
  · exact (searched_of_free hfree).2
  · push Not at hfree
    rw [searched_of_full hfree]

theorem neverOverwrites_of_failed (h : mailInfoToFile m s = (none, s)) : NeverOverwrites m s where
  ends := searched_snd_le m s
  fresh filename hname := by
    rw [h] at hname
    cases hname
  kept path v hv := by
    rw [h]
    exact hv

theorem neverOverwrites_of_free (h : ∃ n ≤ 9999, s (m.name n) = none) : NeverOverwrites m s := by
  obtain ⟨hfree, hends⟩ := searched_of_free h
  rcases mailInfoToFile_cases m s with hfailed | hstored
  · exact neverOverwrites_of_failed hfailed
  · refine ⟨hends, fun filename hname => ?_, fun path v hv => ?_⟩
    · rw [hstored] at hname
      cases hname
      exact hfree
    · have hne : path ≠ (m.searched s).1 := by
        rintro rfl
        rw [hfree] at hv
        cases hv
      rw [hstored]
      exact (Store.write_of_ne hne).trans hv

theorem neverOverwrites_of_hasRoom (h : HasRoom m s) : NeverOverwrites m s := by
  by_cases hfree : ∃ n ≤ 9999, s (m.name n) = none
  · exact neverOverwrites_of_free hfree
  · have hfull : ∀ n ≤ 9999, s (m.name n) ≠ none := by
      intro n hn hnone
      exact hfree ⟨n, hn, hnone⟩
    rcases h with hunknown | hsome | hclosed
    · exact neverOverwrites_of_failed (mailInfoToFile_of_unknown hunknown)
    · exact absurd hsome hfree
    · refine neverOverwrites_of_failed (mailInfoToFile_of_closed ?_)
      rw [searched_of_full hfull, hclosed]

/-- **No file is overwritten** if and only if there is room for one, or none is made. -/
theorem never_overwrites_iff (m : MailFile) (s : Store Bytes Bytes) :
    NeverOverwrites m s ↔ HasRoom m s := by
  refine ⟨fun h => ?_, neverOverwrites_of_hasRoom⟩
  by_contra hroom
  rw [HasRoom, not_or, not_or, Bool.not_eq_false, Bool.not_eq_false] at hroom
  obtain ⟨hknown, hfree, hopen⟩ := hroom
  have hfull : ∀ n ≤ 9999, s (m.name n) ≠ none := by
    intro n hn hnone
    exact hfree ⟨n, hn, hnone⟩
  have hstored := mailInfoToFile_of_open hknown (s := s) (by rw [searched_of_full hfull, hopen])
  rw [searched_of_full hfull] at hstored
  exact hfull 9999 (le_refl _) (h.fresh _ (by rw [hstored]))

end Storing

/-- A log of a mail. -/
def sampleLog : MailFile where
  mail :=
    { head := ⟨[], bytes "a@b.cn", bytes "c@d.cn", [], [], bytes "hello", 1, [], []⟩
      headSize := 0
      body := ∅
      bodyText := bytes "text"
      bodySize := none
      attachmentSize := none
      attachmentNum := none
      attachment := false }
  emlfilename := bytes "/var/spool/20040411021903.eml"
  type := bytes "LOG"
  stamp := bytes "20040411021905"
  time := bytes "20040411021905"
  opens _ := true
  emlSize := 5
  eml := some (bytes "hello")

/-- A directory with the ten thousand files of one time. -/
def fullDirectory : Store Bytes Bytes := fun path =>
  if path ∈ (List.range 10000).map sampleLog.name then some (bytes "evidence") else none

theorem overwrites_full : ¬NeverOverwrites sampleLog fullDirectory := by
  have hfull : ∀ n ≤ 9999, fullDirectory (sampleLog.name n) ≠ none := by
    intro n hn
    have hmem : sampleLog.name n ∈ (List.range 10000).map sampleLog.name :=
      List.mem_map_of_mem (List.mem_range.2 (by omega))
    rw [fullDirectory, if_pos hmem]
    exact Option.some_ne_none _
  have hknown : sampleLog.known = true := by decide
  have hstored := mailInfoToFile_of_open (s := fullDirectory) hknown rfl
  rw [searched_of_full hfull] at hstored
  intro h
  refine hfull 9999 (le_refl _) (h.fresh _ ?_)
  rw [hstored]

/-! ## A directory that fills up -/

theorem value_append_pad (k : ℕ) (l : Bytes) : value (List.replicate k 48 ++ l) = value l := by
  induction k with
  | zero => rfl
  | succ k ih =>
    rw [List.replicate_succ, List.cons_append, value, List.foldl_cons]
    exact ih

theorem pad4_injective : Function.Injective pad4 := by
  intro n n' h
  have hvalue := congrArg value h
  rwa [pad4, pad4, value_append_pad, value_append_pad, value_decimal, value_decimal] at hvalue

theorem MailFile.name_injective (m : MailFile) : Function.Injective m.name := by
  intro n n' h
  rw [name, name, serialName, serialName] at h
  exact pad4_injective (List.append_cancel_right (List.append_cancel_left h))

/-- There is room as long as the directory has fewer files than there are numbers. -/
theorem hasRoom_of_length_lt (m : MailFile) {s : Store Bytes Bytes} {paths : List Bytes}
    (hpaths : ∀ path, s path ≠ none → path ∈ paths) (h : paths.length < 10000) : HasRoom m s := by
  by_contra hroom
  rw [HasRoom, not_or, not_or] at hroom
  have hsub : (List.range 10000).map m.name ⊆ paths := by
    intro path hmem
    obtain ⟨n, hn, rfl⟩ := List.mem_map.1 hmem
    have hlt : n < 10000 := List.mem_range.1 hn
    exact hpaths _ fun hnone => hroom.2.1 ⟨n, by omega, hnone⟩
  have hnodup : ((List.range 10000).map m.name).Nodup :=
    List.nodup_range.map m.name_injective
  have hle := (hnodup.subperm hsub).length_le
  rw [List.length_map, List.length_range] at hle
  omega

/-- Storing a mail adds at most the one path. -/
theorem paths_mailInfoToFile (m : MailFile) {s : Store Bytes Bytes} {paths : List Bytes}
    (hpaths : ∀ path, s path ≠ none → path ∈ paths) :
    ∀ path, (mailInfoToFile m s).2 path ≠ none → path ∈ (m.searched s).1 :: paths := by
  intro path hsome
  by_cases he : path = (m.searched s).1
  · rw [he]
    exact List.mem_cons_self
  · refine List.mem_cons_of_mem _ (hpaths path ?_)
    rcases mailInfoToFile_cases m s with hfailed | hstored
    · rwa [hfailed] at hsome
    · rw [hstored] at hsome
      exact fun hnone => hsome ((Store.write_of_ne he).trans hnone)

/-- Storing one mail after another. -/
def storeMail (s : Store Bytes Bytes) (m : MailFile) : Store Bytes Bytes := (mailInfoToFile m s).2

/-- What is stored stays, over any number of mails that find room. -/
theorem kept_storeMails {s : Store Bytes Bytes} {ms : List MailFile}
    (h : Meets storeMail (fun s m => HasRoom m s) s ms) {path v : Bytes} (hv : s path = some v) :
    run storeMail s ms path = some v :=
  run_invariant (I := fun s => s path = some v)
    (fun _ _ hs hroom => (neverOverwrites_of_hasRoom hroom).kept path v hs) hv h

/-- They do as long as the directory has fewer files than there are numbers. -/
theorem meets_hasRoom {s : Store Bytes Bytes} {ms : List MailFile} {paths : List Bytes}
    (hpaths : ∀ path, s path ≠ none → path ∈ paths) (h : paths.length + ms.length ≤ 10000) :
    Meets storeMail (fun s m => HasRoom m s) s ms := by
  induction ms generalizing s paths with
  | nil => trivial
  | cons m ms ih =>
    rw [List.length_cons] at h
    refine ⟨hasRoom_of_length_lt m hpaths (by omega), ih (paths_mailInfoToFile m hpaths) ?_⟩
    rw [List.length_cons]
    omega

/-- Over any number of mails for which the directory has numbers enough, every file stays that was
there before, and so does that of the first mail, if it is stored. -/
theorem stored_stays {s : Store Bytes Bytes} {m : MailFile} {ms : List MailFile}
    {paths : List Bytes} (hpaths : ∀ path, s path ≠ none → path ∈ paths)
    (h : paths.length + (m :: ms).length ≤ 10000) :
    (∀ path v, s path = some v → run storeMail s (m :: ms) path = some v) ∧
      ∀ filename, (mailInfoToFile m s).1 = some filename →
        run storeMail s (m :: ms) filename = some m.text := by
  have hmeets := meets_hasRoom hpaths h
  refine ⟨fun path v hv => kept_storeMails hmeets hv, fun filename hname => ?_⟩
  rw [run_cons]
  refine kept_storeMails hmeets.2 ?_
  rcases mailInfoToFile_cases m s with hfailed | hstored
  · rw [hfailed] at hname
    cases hname
  · rw [hstored, Option.some.injEq] at hname
    rw [storeMail, hstored, ← hname]
    exact Store.write_self

end NoSpam.GA
