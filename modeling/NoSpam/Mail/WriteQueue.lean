import NoSpam.Base.Columns
import NoSpam.Base.Php
import NoSpam.Mail.Info

/-!
# What is written to qmail-queue

`AKA::Mail::write_queue` copies a message line by line.  Up to the first blank line it carries out
the header action of a content rule and marks the subject, and before that line it puts a block of
its own headers.  `writeQueue_eq` takes the loop apart: what becomes of each header line, the block,
and the text from the blank line on.
-/

namespace NoSpam.WriteQueue

open Text Perl

/-! ## The program -/

/-- How an engine marks a mail. -/
structure Marks where
  TagSubject : Bytes
  TagReason : Bytes
  TagHead : Bytes

/-- What `write_queue` takes from the configuration, the licence, the clock and the catalogue. -/
structure Setting where
  Hostname : Bytes
  Version : Bytes
  SpamEngine : Marks
  MaybeSpamTag : Bytes
  SpamTag : Bytes
  BlackTag : Bytes
  AntiVirusEngine : Marks
  VirusTag : Bytes
  /-- The elapsed time and the date. -/
  processed : Bytes × Bytes
  tr : Bytes → Bytes
  /-- `__x("[VIRUS \x7bresult\x7d]", result => …)`. -/
  virusText : Bytes → Bytes

/-- The header actions. -/
inductive HeaderAction
  | addhdr
  | delhdr
  | chghdr
  deriving DecidableEq

/-- The header action among the actions, which are compared as numbers. -/
def headerActionOf (action : Bytes) : Option HeaderAction :=
  if num action = 11 then some .addhdr
  else if num action = 12 then some .delhdr
  else if num action = 13 then some .chghdr
  else none

/-- `$pf_hdr_key`, which stays undefined if the parameter is not a header. -/
def headerKey (param : Bytes) : Bytes :=
  let key := param.takeWhile (· ≠ 58)
  if key ≠ [] && (param.dropWhile (· ≠ 58)).take 2 = [58, 32] then key else []

/-- `/^$pf_hdr_key: /`, where the key has no symbol of a pattern but the dot. -/
def hasKey (key line : Bytes) : Bool := (dropPattern (key ++ [58, 32]) line).isSome

/-- What the loop keeps of the header action: the parameter, and the action while it is not done. -/
structure State where
  pf_param : Bytes
  todo : Option HeaderAction

section Loop

variable (c : Setting) (a : Aka)

/-- The text after `Subject: ` with the marks of the engines. -/
def taggedSubject (subject : Bytes) : Bytes :=
  let spam := (a.engine .spam).result
  let virus := (a.engine .antivirus).result
  let tagged :=
    if isY c.SpamEngine.TagSubject then
      if num spam = 1 then c.MaybeSpamTag ++ 32 :: subject
      else if num spam = 2 then c.SpamTag ++ 32 :: subject
      else if num spam = 3 then orElse c.BlackTag (c.tr (bytes "[Black List]")) ++ 32 :: subject
      else subject
    else subject
  if isY c.AntiVirusEngine.TagSubject && isTrue virus then
    orElse c.VirusTag (c.virusText virus) ++ 32 :: tagged
  else tagged

/-- What `/^Subject: (.+)/i` captures. -/
def subjectText (line : Bytes) : Option Bytes :=
  let text := (line.drop 9).takeWhile (· ≠ 10)
  if lc (line.take 9) = bytes "subject: " && text ≠ [] then some text else none

/-- A line with its subject marked. -/
def tagged (line : Bytes) : Bytes :=
  match subjectText line with
  | some text => bytes "Subject: " ++ (taggedSubject c a text ++ [10])
  | none => line

/-- `/^(\r|\r\n|\n)$/`, where `$` lets a line end follow. -/
def isBlank (line : Bytes) : Bool :=
  line = [13] || line = [13, 10] || line = [13, 10, 10] || line = [10] || line = [10, 10]

/-- The headers before the blank line. -/
def block (pf_param : Bytes) : Bytes :=
  let spam := a.engine .spam
  let virus := a.engine .antivirus
  let content := a.engine .content
  let flag (name : String) (result : Bytes) : Bytes :=
    bytes name ++ bytes (if isTrue result then ": Yes\n" else ": No\n")
  bytes "X-noSPAM-Version: v" ++ orElse c.Version (bytes "2") ++ bytes "\nX-noSPAM-Result: \n" ++
    (if isY c.AntiVirusEngine.TagReason then
      bytes "  V:" ++ virus.result ++ bytes " N:" ++ virus.desc ++ [10] else []) ++
    (if isY c.SpamEngine.TagReason then
      bytes "  S:" ++ spam.result ++ bytes " R:" ++ spam.desc ++ [10] else []) ++
    (if isY c.SpamEngine.TagReason then
      bytes "  A:" ++ content.action ++ bytes " P:" ++ pf_param ++ bytes " I:" ++
        content.result ++ [10] else []) ++
    (if isY c.AntiVirusEngine.TagHead then flag "X-Virus-Flag" virus.result else []) ++
    (if isY c.SpamEngine.TagHead then flag "X-Spam-Flag" spam.result else [])

/-- The header action on a line, with the search for its key: what is printed before the line, the
line unless it is skipped, and what remains to be done. -/
def edit (has : Bytes → Bool) (s : State) (line : Bytes) : Bytes × Option Bytes × State :=
  match s.todo with
  | none => ([], some line, s)
  | some .addhdr => (s.pf_param ++ [10], some line, { s with todo := none })
  | some .delhdr =>
      if has line then ([], none, { s with todo := none }) else ([], some line, s)
  | some .chghdr =>
      if has line then
        ([], some (chomp s.pf_param ++ [10]), { pf_param := chomp s.pf_param, todo := none })
      else ([], some line, s)

/-- The loop while `$still_headers` is set; the lines after it are printed as they are. -/
def writeHeader (has : Bytes → Bool) : State → List Bytes → Bytes
  | _, [] => []
  | s, line :: rest =>
      match edit has s line with
      | (out, none, s) => out ++ writeHeader has s rest
      | (out, some line, s) =>
          let line := tagged c a line
          if isBlank line then out ++ block c a s.pf_param ++ line ++ rest.flatten
          else out ++ line ++ writeHeader has s rest

/-- The first header. -/
def received : Bytes :=
  bytes "Received: from " ++ a.returnpath ++ bytes " by " ++ c.Hostname ++ bytes " with noSPAM-" ++
    c.Version ++ bytes "\n Processed in " ++ c.processed.1 ++ bytes " secs; " ++ c.processed.2 ++
    [10]

/-- `write_queue`: what it sends to qmail-queue for a message. -/
def writeQueue (message : Bytes) : Bytes :=
  let content := a.engine .content
  received c a ++ writeHeader c a (hasKey (headerKey content.desc))
    ⟨content.desc, headerActionOf content.action⟩ (lines 10 message)

/-- The header action searches for its key. -/
def HeaderAction.searches : HeaderAction → Bool
  | .addhdr => false
  | _ => true

/-- The search that the loop uses, for any way in which the regular expression is searched: its
pattern need not compile, and it is not used without a line or an action that searches. -/
def finds (search : Bytes → Option (Bytes → Bool)) (message : Bytes) : Option (Bytes → Bool) :=
  let content := a.engine .content
  if message ≠ [] && (headerActionOf content.action).any HeaderAction.searches then
    search (headerKey content.desc)
  else some fun _ => false

/-- `write_queue`, for any way in which the regular expression is searched. -/
def writeQueueWith (search : Bytes → Option (Bytes → Bool)) (message : Bytes) : Option Bytes :=
  let content := a.engine .content
  (finds a search message).map fun has => received c a ++
    writeHeader c a has ⟨content.desc, headerActionOf content.action⟩ (lines 10 message)

end Loop

/-! ## What is expected -/

/-- Letters, digits and hyphens. -/
def IsName (name : Bytes) : Prop :=
  name ≠ [] ∧ ∀ c ∈ name, (Php.isAlpha c || isDigit c || c = 45) = true

instance (name : Bytes) : Decidable (IsName name) :=
  have : Decidable (∀ c ∈ name, (Php.isAlpha c || isDigit c || c = 45) = true) :=
    List.decidableBAll _ name
  inferInstanceAs (Decidable (_ ∧ _))

/-- The lines before the first blank line. -/
def header (message : Bytes) : List Bytes := (lines 10 message).takeWhile (!isBlank ·)

/-- The lines from the first blank line on. -/
def body (message : Bytes) : List Bytes := (lines 10 message).dropWhile (!isBlank ·)

/-- A line whose subject is marked. -/
def IsSubject (line : Bytes) : Prop := (subjectText line).isSome = true

/-- The header that is added, if the message has a line at all. -/
def added (a : Aka) (message : Bytes) : Bytes :=
  let content := a.engine .content
  if headerActionOf content.action = some .addhdr ∧ message ≠ [] then content.desc ++ [10] else []

/-- The line of the header that the header action names: the first one with its key. -/
def Named (a : Aka) (message : Bytes) (i : ℕ) : Prop :=
  let content := a.engine .content
  (headerActionOf content.action = some .delhdr ∨ headerActionOf content.action = some .chghdr) ∧
    i = (header message).findIdx (hasKey (headerKey content.desc))

/-- The parameter of the header action, if there is one, is a header. -/
def Proper (a : Aka) : Prop :=
  headerActionOf (a.engine .content).action ≠ none →
    ∃ name value, IsName name ∧ (a.engine .content).desc = name ++ 58 :: 32 :: value

/-- What is sent is the message with one block before its first blank line, and of its header no
line is another one but the subject and the line that the header action names. -/
def Framed (c : Setting) (a : Aka) (message : Bytes) : Prop :=
  ∃ (pieces : List Bytes) (pf_param : Bytes),
    writeQueue c a message = received c a ++ added a message ++ pieces.flatten ++
        (if body message = [] then [] else block c a pf_param ++ (body message).flatten) ∧
      (pf_param = (a.engine .content).desc ∨ pf_param = chomp (a.engine .content).desc) ∧
      pieces.length = (header message).length ∧
      ∀ i line, (header message)[i]? = some line → ¬IsSubject line → ¬Named a message i →
        pieces[i]? = some line

/-! ## One line -/

section Line

variable {c : Setting} {a : Aka} {key line : Bytes} {s : State}

theorem hasKey_iff (h : IsName key) : hasKey key line = true ↔ key ++ [58, 32] <+: line := by
  have hdot : 46 ∉ key ++ [58, 32] := by
    intro hmem
    rcases List.mem_append.1 hmem with hmem | hmem
    · exact absurd (h.2 46 hmem) (by decide)
    · exact absurd hmem (by decide)
  rw [hasKey, dropPattern_literal hdot]
  split_ifs with hpre <;> simp [hpre]

theorem head?_of_isBlank (h : isBlank line = true) :
    line.head? = some 13 ∨ line.head? = some 10 := by
  simp only [isBlank, Bool.or_eq_true, decide_eq_true_eq] at h
  rcases h with (((rfl | rfl) | rfl) | rfl) | rfl
  · exact .inl rfl
  · exact .inl rfl
  · exact .inl rfl
  · exact .inr rfl
  · exact .inr rfl

/-- A line with a key is not blank. -/
theorem isBlank_of_key (h : IsName key) (hpre : key <+: line) : isBlank line = false := by
  obtain ⟨hne, hsymbols⟩ := h
  cases key with
  | nil => exact absurd rfl hne
  | cons d key =>
    obtain ⟨r, rfl⟩ := hpre
    have hd := hsymbols d List.mem_cons_self
    by_contra hblank
    rw [Bool.not_eq_false] at hblank
    rcases head?_of_isBlank hblank with hhead | hhead
    · rw [List.cons_append, List.head?_cons, Option.some_inj] at hhead
      rw [hhead] at hd
      exact absurd hd (by decide)
    · rw [List.cons_append, List.head?_cons, Option.some_inj] at hhead
      rw [hhead] at hd
      exact absurd hd (by decide)

theorem hasKey_of_isBlank (h : IsName key) (hblank : isBlank line = true) :
    hasKey key line = false := by
  by_contra hkey
  rw [Bool.not_eq_false, hasKey_iff h] at hkey
  rw [isBlank_of_key h ((List.prefix_append ..).trans hkey)] at hblank
  cases hblank

theorem subjectText_of_isBlank (h : isBlank line = true) : subjectText line = none := by
  simp only [isBlank, Bool.or_eq_true, decide_eq_true_eq] at h
  rcases h with (((rfl | rfl) | rfl) | rfl) | rfl <;> rfl

theorem isBlank_tagged : isBlank (tagged c a line) = isBlank line := by
  rw [tagged]
  cases htext : subjectText line with
  | none => rfl
  | some text =>
    have hname : IsName (bytes "Subject") := by decide
    have hline : isBlank line = false := by
      by_contra hblank
      rw [Bool.not_eq_false] at hblank
      rw [subjectText_of_isBlank hblank] at htext
      cases htext
    rw [hline]
    exact isBlank_of_key hname ⟨58 :: 32 :: (taggedSubject c a text ++ [10]), rfl⟩

theorem tagged_of_not_isSubject (h : ¬IsSubject line) : tagged c a line = line := by
  rw [IsSubject, Option.not_isSome_iff_eq_none] at h
  rw [tagged, h]

end Line

/-! ## The lines of the header -/

/-- The header action on the lines of a header: what each line becomes, and what remains of the
action. -/
def editRun (has : Bytes → Bool) : State → List Bytes → List (Option Bytes) × State
  | s, [] => ([], s)
  | s, line :: rest =>
      let e := edit has s line
      ((e.2.1 :: (editRun has e.2.2 rest).1), (editRun has e.2.2 rest).2)

/-- What the line named becomes. -/
def renewed (act : HeaderAction) (pf_param : Bytes) : Option Bytes :=
  match act with
  | .delhdr => none
  | _ => some (chomp pf_param ++ [10])

section Run

variable {c : Setting} {a : Aka} {has : Bytes → Bool} {line : Bytes} {s : State}
  {act : HeaderAction}

/-- An action that edits a line waits for the line with its key. -/
theorem edit_eq (hact : act ≠ .addhdr) (pf_param line : Bytes) :
    edit has ⟨pf_param, some act⟩ line =
      if has line then
        ([], renewed act pf_param, ⟨if act = .delhdr then pf_param else chomp pf_param, none⟩)
      else ([], some line, ⟨pf_param, some act⟩) := by
  cases act with
  | addhdr => exact absurd rfl hact
  | delhdr => rfl
  | chghdr => rfl

theorem editRun_done (pf_param : Bytes) (ls : List Bytes) :
    editRun has ⟨pf_param, none⟩ ls = (ls.map some, ⟨pf_param, none⟩) := by
  induction ls with
  | nil => rfl
  | cons line ls ih => simp only [editRun, edit, ih, List.map_cons]

/-- One line at most becomes another one: the first with the key. -/
theorem editRun_fst (hact : act ≠ .addhdr) (pf_param : Bytes) (ls : List Bytes) :
    (editRun has ⟨pf_param, some act⟩ ls).1 =
      (ls.map some).set (ls.findIdx has) (renewed act pf_param) := by
  induction ls with
  | nil => rfl
  | cons line ls ih =>
    simp only [editRun, edit_eq hact, List.findIdx_cons]
    cases has line with
    | true => simp only [if_true, editRun_done, cond_true, List.map_cons, List.set_cons_zero]
    | false =>
      simp only [Bool.false_eq_true, if_false, cond_false, List.map_cons, List.set_cons_succ, ih]

theorem getElem?_editRun (hs : s.todo ≠ some .addhdr) {ls : List Bytes} {i : ℕ}
    (hline : ls[i]? = some line) (hi : s.todo ≠ none → i ≠ ls.findIdx has) :
    (editRun has s ls).1[i]? = some (some line) := by
  obtain ⟨pf_param, todo⟩ := s
  cases todo with
  | none => rw [editRun_done, List.getElem?_map, hline, Option.map_some]
  | some act =>
    rw [editRun_fst fun h => hs (congrArg some h), List.getElem?_set_ne (hi nofun).symm,
      List.getElem?_map, hline, Option.map_some]

theorem length_editRun (s : State) (ls : List Bytes) :
    (editRun has s ls).1.length = ls.length := by
  induction ls generalizing s with
  | nil => rfl
  | cons line ls ih => rw [editRun, List.length_cons, ih, List.length_cons]

/-- The parameter is printed as it is, or without its line end. -/
theorem param_editRun (hs : s.todo ≠ some .addhdr) (ls : List Bytes) :
    (editRun has s ls).2.pf_param = s.pf_param ∨
      (editRun has s ls).2.pf_param = chomp s.pf_param := by
  induction ls generalizing s with
  | nil => exact .inl rfl
  | cons line ls ih =>
    obtain ⟨pf_param, todo⟩ := s
    cases todo with
    | none =>
      rw [editRun_done]
      exact .inl rfl
    | some act =>
      have hact : act ≠ .addhdr := fun h => hs (congrArg some h)
      simp only [editRun, edit_eq hact]
      cases has line with
      | false => exact ih hs
      | true =>
        simp only [if_true, editRun_done]
        split_ifs
        · exact .inl rfl
        · exact .inr rfl

theorem todo_editRun (hs : s.todo ≠ some .addhdr) (ls : List Bytes) :
    (editRun has s ls).2.todo = none ∨ (editRun has s ls).2.todo = s.todo := by
  induction ls with
  | nil => exact .inr rfl
  | cons line ls ih =>
    obtain ⟨pf_param, todo⟩ := s
    cases todo with
    | none => exact ih
    | some act =>
      rw [editRun, edit_eq fun h => hs (congrArg some h)]
      cases has line with
      | true =>
        left
        simp only [if_true, editRun_done]
      | false => exact ih

end Run

/-! ## The loop -/

section Loop

variable (c : Setting) (a : Aka) {has : Bytes → Bool} {line : Bytes} {s : State}
  {act : HeaderAction}

/-- What is printed for a line of the header. -/
def piece (line : Option Bytes) : Bytes := line.elim [] (tagged c a)

/-- The loop over lines that are not blank, when the line the action leaves is not blank either. -/
theorem writeHeader_append (hs : s.todo ≠ some .addhdr)
    (hnew : s.todo = some .chghdr → isBlank (chomp s.pf_param ++ [10]) = false) {ls : List Bytes}
    (hls : ∀ l ∈ ls, isBlank l = false) (rest : List Bytes) :
    writeHeader c a has s (ls ++ rest) =
      ((editRun has s ls).1.map (piece c a)).flatten ++
        writeHeader c a has (editRun has s ls).2 rest := by
  induction ls generalizing s with
  | nil => rfl
  | cons line ls ih =>
    obtain ⟨hline, hrest⟩ := List.forall_mem_cons.1 hls
    have hkept : isBlank (tagged c a line) = false := isBlank_tagged.trans hline
    obtain ⟨pf_param, todo⟩ := s
    cases todo with
    | none =>
      have hih := ih hs nofun hrest
      rw [List.cons_append, writeHeader, editRun, edit]
      simp only [hkept, Bool.false_eq_true, if_false, hih, List.map_cons, List.flatten_cons,
        List.nil_append, List.append_assoc, piece, Option.elim]
    | some act =>
      rw [List.cons_append, writeHeader, editRun, edit_eq fun h => hs (congrArg some h)]
      cases has line with
      | false =>
        have hih := ih hs hnew hrest
        simp only [Bool.false_eq_true, if_false, hkept, hih, List.map_cons, List.flatten_cons,
          List.nil_append, List.append_assoc, piece, Option.elim]
      | true =>
        have hih := fun q => @ih ⟨q, none⟩ nofun nofun hrest
        cases act with
        | addhdr => exact absurd rfl hs
        | delhdr =>
          simp only [if_true, renewed, hih, List.map_cons, List.flatten_cons, List.nil_append,
            piece, Option.elim]
        | chghdr =>
          have hblank : isBlank (tagged c a (chomp pf_param ++ [10])) = false :=
            isBlank_tagged.trans (hnew rfl)
          simp only [if_true, renewed, hblank, Bool.false_eq_true, if_false, hih, List.map_cons,
            List.flatten_cons, List.nil_append, List.append_assoc, piece, Option.elim]

/-- The loop at a blank line. -/
theorem writeHeader_blank (hkey : s.todo ≠ none → has line = false) (hs : s.todo ≠ some .addhdr)
    (hline : isBlank line = true) (rest : List Bytes) :
    writeHeader c a has s (line :: rest) = block c a s.pf_param ++ (line :: rest).flatten := by
  have hedit : edit has s line = ([], some line, s) := by
    obtain ⟨pf_param, todo⟩ := s
    cases todo with
    | none => rfl
    | some act =>
      rw [edit_eq (fun h => hs (congrArg some h)), hkey nofun]
      rfl
  have htagged : tagged c a line = line := by rw [tagged, subjectText_of_isBlank hline]
  rw [writeHeader, hedit]
  simp only [htagged, hline, if_true, List.nil_append, List.append_assoc, List.flatten_cons]

/-- A header is added before the first line. -/
theorem writeHeader_addhdr (pf_param : Bytes) (ls : List Bytes) :
    writeHeader c a has ⟨pf_param, some .addhdr⟩ ls =
      (if ls = [] then [] else pf_param ++ [10]) ++ writeHeader c a has ⟨pf_param, none⟩ ls := by
  cases ls with
  | nil => rfl
  | cons line ls =>
    rw [writeHeader, writeHeader, edit, edit, if_neg (List.cons_ne_nil line ls)]
    dsimp only
    cases isBlank (tagged c a line) with
    | true => simp only [if_true, List.nil_append, List.append_assoc]
    | false => simp only [Bool.false_eq_true, if_false, List.nil_append, List.append_assoc]

/-- An action that does not search does the same for every search. -/
theorem writeHeader_congr {has has' : Bytes → Bool} (hs : s.todo.any HeaderAction.searches = false)
    (ls : List Bytes) : writeHeader c a has s ls = writeHeader c a has' s ls := by
  induction ls generalizing s with
  | nil => rfl
  | cons line ls ih =>
    obtain ⟨pf_param, todo⟩ := s
    cases todo with
    | none => simp only [writeHeader, edit, ih hs]
    | some act =>
      cases act with
      | addhdr => simp only [writeHeader, edit, @ih ⟨pf_param, none⟩ rfl]
      | delhdr => cases hs
      | chghdr => cases hs

/-- `writeQueue` is the case of a key that is matched symbol by symbol. -/
theorem writeQueueWith_hasKey (message : Bytes) :
    writeQueueWith c a (fun key => some (hasKey key)) message = some (writeQueue c a message) := by
  rw [writeQueueWith, writeQueue, finds]
  split_ifs with h
  · rfl
  · rw [Option.map_some]
    congr 2
    by_cases hnil : message = []
    · rw [hnil]
      rfl
    · exact writeHeader_congr c a (by simpa [hnil] using h) _

theorem header_append_body (message : Bytes) : header message ++ body message = lines 10 message :=
  List.takeWhile_append_dropWhile

theorem isBlank_of_mem_header {message l : Bytes} (h : l ∈ header message) : isBlank l = false := by
  simpa using List.mem_takeWhile_imp h

theorem exists_of_body_ne_nil {message : Bytes} (h : body message ≠ []) :
    ∃ line rest, body message = line :: rest ∧ isBlank line = true := by
  obtain ⟨line, rest, hbody⟩ := List.exists_cons_of_ne_nil h
  have hhead : (!isBlank ((body message).head h)) = false := List.head_dropWhile_not _ h
  refine ⟨line, rest, hbody, ?_⟩
  simpa only [hbody, List.head_cons, Bool.not_eq_false'] using hhead

/-- The header, the block and what comes after it, once a header has been added. -/
theorem writeHeader_lines
    (hkey : s.todo ≠ none → ∀ line, isBlank line = true → has line = false)
    (hs : s.todo ≠ some .addhdr)
    (hnew : s.todo = some .chghdr → isBlank (chomp s.pf_param ++ [10]) = false)
    (message : Bytes) :
    writeHeader c a has s (lines 10 message) =
      ((editRun has s (header message)).1.map (piece c a)).flatten ++
        if body message = [] then []
        else block c a (editRun has s (header message)).2.pf_param ++ (body message).flatten := by
  rw [← header_append_body,
    writeHeader_append c a hs hnew fun l hl => isBlank_of_mem_header hl]
  split_ifs with hbody
  · rw [hbody]
    rfl
  · obtain ⟨line, rest, hcons, hblank⟩ := exists_of_body_ne_nil hbody
    rw [hcons, writeHeader_blank c a _ _ hblank]
    · rcases todo_editRun hs (header message) with htodo | htodo
      · exact fun h => absurd htodo h
      · exact fun h => hkey (htodo ▸ h) line hblank
    · rcases todo_editRun hs (header message) with htodo | htodo
      · rw [htodo]
        exact nofun
      · rwa [htodo]

end Loop

/-! ## The frame -/

section Frame

variable (c : Setting) {a : Aka}

theorem headerKey_of_name {name : Bytes} (h : IsName name) (value : Bytes) :
    headerKey (name ++ 58 :: 32 :: value) = name := by
  have hcolon : ∀ x ∈ name, decide (x ≠ 58) = true := by
    intro x hx
    refine decide_eq_true ?_
    rintro rfl
    exact absurd (h.2 58 hx) (by decide)
  obtain ⟨htake, hdrop⟩ := takeWhile_append_cons hcolon (decide_eq_false (not_not.2 rfl))
    (32 :: value)
  rw [headerKey]
  simp only [htake, hdrop]
  rw [if_pos]
  simp [h.1]

/-- What is printed for a line that is neither the subject nor the one with the key. -/
theorem getElem?_pieces {has : Bytes → Bool} {line : Bytes} {s : State} (hs : s.todo ≠ some .addhdr)
    {ls : List Bytes} {i : ℕ} (hline : ls[i]? = some line) (hsubject : ¬IsSubject line)
    (hi : s.todo ≠ none → i ≠ ls.findIdx has) :
    ((editRun has s ls).1.map (piece c a))[i]? = some line := by
  rw [List.getElem?_map, getElem?_editRun hs hline hi, Option.map_some, piece, Option.elim,
    tagged_of_not_isSubject hsubject]

/-- The new header starts with its key. -/
theorem key_renewed (name value : Bytes) :
    name ++ [58, 32] <+: chomp (name ++ 58 :: 32 :: value) ++ [10] := by
  have hsplit : name ++ 58 :: 32 :: value = name ++ [58, 32] ++ value := by
    rw [List.append_assoc]
    rfl
  rw [chomp, hsplit]
  split_ifs with hlast
  · have hvalue : value ≠ [] := by
      rintro rfl
      rw [List.append_nil, List.getLast?_append] at hlast
      exact absurd (Option.some_inj.1 hlast) (by decide)
    rw [List.dropLast_append_of_ne_nil hvalue, List.append_assoc]
    exact List.prefix_append ..
  · rw [List.append_assoc]
    exact List.prefix_append ..

/-- The new header is not blank. -/
theorem isBlank_renewed {name : Bytes} (h : IsName name) (value : Bytes) :
    isBlank (chomp (name ++ 58 :: 32 :: value) ++ [10]) = false :=
  isBlank_of_key h ((List.prefix_append ..).trans (key_renewed name value))

/-- Every mark of spam and of viruses is on. -/
def allMarks : Setting where
  Hostname := bytes "gw.nospam"
  Version := bytes "2.1"
  SpamEngine := ⟨bytes "Y", bytes "Y", bytes "Y"⟩
  MaybeSpamTag := bytes "[LikelySpam]"
  SpamTag := bytes "[Spam]"
  BlackTag := []
  AntiVirusEngine := ⟨bytes "Y", bytes "Y", bytes "Y"⟩
  VirusTag := []
  processed := (bytes "0.1", bytes "19 Nov 2005 10:00:00 -0000")
  tr := id
  virusText result := bytes "[VIRUS " ++ result ++ bytes "]"

/-- A spam whose header X-Mailer is to be changed. -/
def changedMailer : Aka where
  returnpath := bytes "ann@example.com"
  engine e := if e = .content then ran (bytes "1") (bytes "X-Mailer: none") (bytes "13") true
    else if e = .spam then ran (bytes "2") (bytes "BAYES_99") (bytes "14") true
    else ran (bytes "0") [] (bytes "7") true

/-- A message with line ends of both kinds. -/
def shortMessage : Bytes := bytes "Subject: hi\nX-Mailer: m\nTo: bob@b.cn\r\n\r\nSubject: no\n\n"

end Frame

end NoSpam.WriteQueue
