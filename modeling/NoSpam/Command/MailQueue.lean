import NoSpam.Base.Capture
import NoSpam.Base.Decimal
import NoSpam.Base.Run
import NoSpam.Base.Scalar
import NoSpam.Base.Scan

/-!
# The queue of qmail

The administrator lists the mails that wait in the queue and deletes them by number, by sender or
all at once.  `list_queue` reads what `qmail-qread` prints, line by line, and looks up the file of
each mail; `delete_queues` removes the files of a mail from the four directories of the queue.  Over
all runs the four directories hold the files of one list of mails, from which a command takes just
those it names (`run_serve`).
-/

namespace NoSpam.MailQueue

open Text Machine Perl Scan

/-! ## The directories -/

/-- The directories of the queue that `delete_queues` knows. -/
inductive Dir
  | messDir
  | infoDir
  | remoteDir
  | localDir
deriving DecidableEq

/-- A file below one of them, in one of its numbered directories. -/
structure File where
  split : Bytes
  name : Bytes
  size : ℕ
deriving DecidableEq

/-- `$m/$m2`. -/
def File.path (f : File) : Bytes := f.split ++ 47 :: f.name

/-- The files in the order in which `readdir` gives them. -/
structure State where
  files : Dir → List File

/-- `unlink` of a name below a directory. -/
def State.unlink (s : State) (d : Dir) (id : Bytes) : State :=
  ⟨Function.update s.files d ((s.files d).filter (·.path ≠ id))⟩

/-- `delete_queues`, while qmail is stopped. -/
def deleteQueues (ids : List Bytes) (s : State) : State :=
  ids.foldl (fun s id =>
    (((s.unlink .messDir id).unlink .infoDir id).unlink .remoteDir id).unlink .localDir id) s

/-! ## What `qmail-qread` prints -/

/-- `\S`. -/
def isWordByte (c : UInt8) : Bool := !isWhite c

/-- What the first line of a mail says. -/
structure Header where
  date : Bytes
  id : Bytes
  sender : Bytes
deriving DecidableEq

/-- `^(\d+)\s+(\S+)\s+(\d+)\s+(\d+):(\d+):(\d+)\s+(\S+)\s+#(\d+)\s+(\d+)\s+`. -/
def headerPieces : List (Piece UInt8) :=
  [.run isDigit, .run isWhite, .run isWordByte, .run isWhite, .run isDigit, .run isWhite,
    .run isDigit, .one 58, .run isDigit, .one 58, .run isDigit, .run isWhite, .run isWordByte,
    .run isWhite, .one 35, .run isDigit, .run isWhite, .run isDigit, .run isWhite]

/-- The first line of a mail; `(.*)` at its end is the sender. -/
def header (line : Bytes) : Option Header :=
  (scan headerPieces line).map fun r =>
    let word (i : ℕ) := r.1.getD i []
    { date := joinFields 32 [word 0, word 2, word 4, joinFields 58 [word 6, word 8, word 10]]
      id := word 15
      sender := r.2.takeWhile (· ≠ 10) }

/-- `/^\s*(\S+)\s+(.*)/`: the source and the recipient of the line that follows. -/
def recipient (line : Bytes) : Option (Bytes × Bytes) :=
  (scan [.run isWordByte, .run isWhite] (line.dropWhile isWhite)).map fun r =>
    (r.1.getD 0 [], r.2.takeWhile (· ≠ 10))

/-- An entry of the listing; there may be no file of that number any more. -/
structure Item where
  sender : Bytes
  id : Bytes
  file : Option File
  date : Bytes
  source : Bytes
  rcpt : Bytes

/-- `/^\d+$/`. -/
def isNumber (b : Bytes) : Bool := b ≠ [] && b.all isDigit

/-- `%qmap`: of several files of one number the last one stays. -/
def qmap (s : State) (id : Bytes) : Option File :=
  ((s.files .messDir).filter fun f => isNumber f.split && isNumber f.name).reverse.find?
    (·.name = id)

/-- The loop over the lines: the line after a first line is read in any case. -/
def listItems (s : State) : List Bytes → List Item
  | [] => []
  | [_] => []
  | line :: next :: rest =>
      match header line with
      | none => listItems s (next :: rest)
      | some h =>
          match recipient next with
          | some (source, rcpt) =>
              ⟨h.sender, h.id, qmap s h.id, h.date, source, rcpt⟩ :: listItems s rest
          | none => listItems s rest

/-! ## The commands -/

/-- The sender without `<`, `>` and blanks. -/
def bare (sender : Bytes) : Bytes := sender.filter fun c => c ≠ 60 && c ≠ 62 && !isWhite c

/-- `MailQueue_delByID`. -/
def delByID (ids : List Bytes) (s : State) : State := deleteQueues ids s

/-- `MailQueue_delByEmail`: for a mail without a file `$1` is what the substitutions in the sender
left there, which is nothing. -/
def delByEmail (email : Bytes) (output : List Bytes) (s : State) : State :=
  deleteQueues
    (((listItems s output).filter fun item => bare item.sender = email).map fun item =>
      (item.file.map File.path).getD []) s

/-- The paths that `MailQueue_delAll` collects: for a mail without a file `$1` is still the path
before. -/
def allIDs : Bytes → List Item → List Bytes
  | _, [] => []
  | last, item :: items =>
      let id := (item.file.map File.path).getD last
      id :: allIDs id items

/-- `MailQueue_delAll`. -/
def delAll (output : List Bytes) (s : State) : State :=
  deleteQueues (allIDs [] (listItems s output)) s

/-! ## The queue -/

/-- A mail in the queue, with the time `qmail-qread` prints and the directories in which there is a
file of its recipients. -/
structure Message where
  split : Bytes
  name : Bytes
  size : ℕ
  day : Bytes
  month : Bytes
  year : Bytes
  hour : Bytes
  minute : Bytes
  second : Bytes
  sender : Bytes
  bouncing : Bool
  remote : Bool
  here : Bool

namespace Message

variable (m : Message)

def file : File := ⟨m.split, m.name, m.size⟩

/-- The files of a mail. -/
def filesIn : Dir → List File
  | .messDir => [m.file]
  | .infoDir => [m.file]
  | .remoteDir => if m.remote then [m.file] else []
  | .localDir => if m.here then [m.file] else []

/-- The sender as it is printed. -/
def shown : Bytes := 60 :: m.sender ++ 62 :: 32 :: if m.bouncing then bytes " bouncing" else []

/-- What a mail is listed with: its sender, and the mark of a mail that bounces behind it. -/
def listedAs : Bytes := m.sender ++ if m.bouncing then bytes "bouncing" else []

/-- The first line of a mail. -/
def line : Bytes :=
  m.day ++ 32 :: m.month ++ 32 :: m.year ++ 32 :: m.hour ++ 58 :: m.minute ++ 58 :: m.second ++
    bytes " GMT  #" ++ m.name ++ bytes "  " ++ decimal m.size ++ bytes "  " ++ m.shown ++ [10]

/-- The fields are what qmail makes them. -/
structure Proper : Prop where
  split : isNumber m.split = true
  name : isNumber m.name = true
  day : isNumber m.day = true
  month : m.month ≠ [] ∧ ∀ c ∈ m.month, isWhite c = false
  year : isNumber m.year = true
  hour : isNumber m.hour = true
  minute : isNumber m.minute = true
  second : isNumber m.second = true
  sender : ∀ c ∈ m.sender, isWhite c = false ∧ c ≠ 60 ∧ c ≠ 62

end Message

/-- A line about a recipient: it begins with a blank, and a source and an address follow. -/
def IsRecipient (line : Bytes) : Prop :=
  (∃ c l, line = c :: l ∧ isWhite c = true) ∧ (recipient line).isSome = true

/-- The state with the files of the mails and no others. -/
def stateOf (q : List Message) : State := ⟨fun d => q.flatMap (·.filesIn d)⟩

/-- What `qmail-qread` prints of a queue: in some order each mail and at least one recipient. -/
def Prints (q : List Message) (output : List Bytes) : Prop :=
  ∃ ps : List (Message × List Bytes), (ps.map Prod.fst).Perm q ∧
    (∀ p ∈ ps, p.2 ≠ [] ∧ ∀ r ∈ p.2, IsRecipient r) ∧
    output = ps.flatMap fun p => p.1.line :: p.2

/-- What happens to a queue: qmail takes a mail in or is done with one, or a command of the
administrator. -/
inductive Event
  | arrive (m : Message)
  | sent (path : Bytes)
  | delByID (ids : List Bytes)
  | delByEmail (email : Bytes) (output : List Bytes)
  | delAll (output : List Bytes)

/-- The mails after an event. -/
def queueStep (q : List Message) : Event → List Message
  | .arrive m => q ++ [m]
  | .sent path => q.filter (·.file.path ≠ path)
  | .delByID ids => q.filter (·.file.path ∉ ids)
  | .delByEmail email _ => q.filter (·.listedAs ≠ email)
  | .delAll _ => []

/-- The directories after an event. -/
def serve (s : State) : Event → State
  | .arrive m => ⟨fun d => s.files d ++ m.filesIn d⟩
  | .sent path => deleteQueues [path] s
  | .delByID ids => delByID ids s
  | .delByEmail email output => delByEmail email output s
  | .delAll output => delAll output s

/-- A new mail has a number of its own, and a listing is that of the queue. -/
def Fits (q : List Message) : Event → Prop
  | .arrive m => m.Proper ∧ m.name ∉ q.map Message.name
  | .delByEmail _ output => Prints q output
  | .delAll output => Prints q output
  | _ => True

/-! ## Deletion -/

theorem files_deleteQueues (ids : List Bytes) (s : State) (d : Dir) :
    (deleteQueues ids s).files d = (s.files d).filter (·.path ∉ ids) := by
  induction ids generalizing s with
  | nil => simp [deleteQueues]
  | cons id ids ih =>
    rw [deleteQueues, List.foldl_cons, ← deleteQueues, ih]
    have hone : ((((s.unlink .messDir id).unlink .infoDir id).unlink .remoteDir id).unlink
        .localDir id).files d = (s.files d).filter (·.path ≠ id) := by
      cases d <;> simp [State.unlink, Function.update]
    rw [hone, List.filter_filter]
    apply List.filter_congr
    intro f _
    simp [not_or, Bool.and_comm]

theorem path_of_mem_filesIn {m : Message} {d : Dir} {f : File} (h : f ∈ m.filesIn d) :
    f = m.file := by
  cases d <;> simp only [Message.filesIn] at h
  · exact List.mem_singleton.1 h
  · exact List.mem_singleton.1 h
  · split_ifs at h
    · exact List.mem_singleton.1 h
    · cases h
  · split_ifs at h
    · exact List.mem_singleton.1 h
    · cases h

theorem deleteQueues_stateOf (ids : List Bytes) (q : List Message) :
    deleteQueues ids (stateOf q) = stateOf (q.filter (·.file.path ∉ ids)) := by
  have hfiles (d : Dir) :
      (deleteQueues ids (stateOf q)).files d =
        (stateOf (q.filter (·.file.path ∉ ids))).files d := by
    rw [files_deleteQueues]
    simp only [stateOf]
    induction q with
    | nil => rfl
    | cons m q ih =>
      have hself : (m.filesIn d).filter (fun f => decide (f.path ∉ ids)) =
          if m.file.path ∉ ids then m.filesIn d else [] := by
        have hsame : ∀ f ∈ m.filesIn d, decide (f.path ∉ ids) = decide (m.file.path ∉ ids) :=
          fun f hf => by rw [path_of_mem_filesIn hf]
        rw [List.filter_congr hsame]
        split_ifs with hm <;> simp [hm]
      rw [List.flatMap_cons, List.filter_append, hself, ih]
      by_cases hm : m.file.path ∉ ids
      · rw [if_pos hm, List.filter_cons_of_pos (by simpa using hm), List.flatMap_cons]
      · rw [if_neg hm, List.filter_cons_of_neg (by simpa using hm), List.nil_append]
  exact congrArg State.mk (funext hfiles)

/-! ## Reading the listing -/

section Listing

theorem isNumber_iff {b : Bytes} : isNumber b = true ↔ b ≠ [] ∧ ∀ c ∈ b, isDigit c = true := by
  simp [isNumber]

/-- A line that begins with a blank is not the first of a mail. -/
theorem header_of_isRecipient {l : Bytes} (h : IsRecipient l) : header l = none := by
  obtain ⟨⟨c, r, rfl, hc⟩, -⟩ := h
  have hdigit : isDigit c = false := by
    by_contra hd
    rw [not_isWhite_of_isDigit (Bool.eq_true_of_not_eq_false hd)] at hc
    cases hc
  rw [header, headerPieces, scan_run_eq_none hdigit, Option.map_none]

/-- The words of the first line of a mail, up to the sender. -/
def Message.words (m : Message) : List Bytes :=
  [m.day, [32], m.month, [32], m.year, [32], m.hour, [58], m.minute, [58], m.second, [32],
    bytes "GMT", [32, 32], [35], m.name, [32, 32], decimal m.size, [32, 32]]

theorem line_eq (m : Message) : m.line = joined m.words (m.shown ++ [10]) := by
  have hzone : bytes " GMT  #" = [32, 71, 77, 84, 32, 32, 35] := by decide
  have hname : bytes "GMT" = [71, 77, 84] := by decide
  have hblanks : bytes "  " = [32, 32] := by decide
  simp [Message.line, Message.words, joined, hzone, hname, hblanks]

theorem isWhite_stops {b : Bytes} (h : ∀ c ∈ b, isDigit c = true) : ∀ c ∈ b, isWhite c = false :=
  fun c hc => not_isWhite_of_isDigit (h c hc)

set_option maxRecDepth 4000 in
/-- The pieces of the pattern stop at the words of the line. -/
theorem reads_words {m : Message} (h : m.Proper) :
    Reads headerPieces m.words (m.shown ++ [10]) := by
  obtain ⟨-, hname, hday, hmonth, hyear, hhour, hminute, hsecond, -⟩ := h
  rw [isNumber_iff] at hname hday hyear hhour hminute hsecond
  have hsize : ∀ c ∈ decimal m.size, isDigit c = true := fun c hc => isDigit_of_mem_decimal hc
  have hword : ∀ c ∈ m.month, isWordByte c = true := fun c hc => by
    simp [isWordByte, hmonth.2 c hc]
  refine ⟨stops_run hday.1 hday.2 (List.cons_ne_nil 32 []) (by decide),
    stops_run (List.cons_ne_nil _ _) (by decide) hmonth.1 hmonth.2,
    stops_run hmonth.1 hword (List.cons_ne_nil 32 []) (by decide),
    stops_run (List.cons_ne_nil _ _) (by decide) hyear.1 (isWhite_stops hyear.2),
    stops_run hyear.1 hyear.2 (List.cons_ne_nil 32 []) (by decide),
    stops_run (List.cons_ne_nil _ _) (by decide) hhour.1 (isWhite_stops hhour.2),
    stops_run hhour.1 hhour.2 (List.cons_ne_nil 58 []) (by decide), rfl,
    stops_run hminute.1 hminute.2 (List.cons_ne_nil 58 []) (by decide), rfl,
    stops_run hsecond.1 hsecond.2 (List.cons_ne_nil 32 []) (by decide),
    stops_run (List.cons_ne_nil _ _) (by decide) (by decide : bytes "GMT" ≠ []) (by decide),
    stops_run (by decide) (by decide) (List.cons_ne_nil 32 [32]) (by decide),
    stops_run (List.cons_ne_nil _ _) (by decide) (List.cons_ne_nil 35 []) (by decide), rfl,
    stops_run hname.1 hname.2 (List.cons_ne_nil 32 [32]) (by decide),
    stops_run (List.cons_ne_nil _ _) (by decide) (decimal_ne_nil _) (isWhite_stops hsize),
    stops_run (decimal_ne_nil _) hsize (List.cons_ne_nil 32 [32]) (by decide),
    ⟨List.cons_ne_nil _ _, by decide, fun c hc => ?_⟩, trivial⟩
  obtain rfl : 60 = c := Option.some.inj hc
  decide

set_option maxRecDepth 4000 in
theorem lineFeed_not_mem_shown {m : Message} (h : m.Proper) : ∀ c ∈ m.shown, c ≠ 10 := by
  have hbouncing : ∀ c ∈ bytes " bouncing", c ≠ 10 := by decide
  intro c hc he
  subst he
  have hsender := h.sender
  rw [Message.shown] at hc
  simp only [List.mem_append, List.mem_cons] at hc
  rcases hc with hc | hc
  · rcases hc with hc | hc
    · exact absurd hc (by decide)
    · exact absurd (hsender 10 hc).1 (by decide)
  · rcases hc with hc | hc | hc
    · exact absurd hc (by decide)
    · exact absurd hc (by decide)
    · split_ifs at hc
      · exact hbouncing 10 hc rfl
      · cases hc

/-- The first line of a mail is read back. -/
theorem header_line {m : Message} (h : m.Proper) :
    ∃ date, header m.line = some ⟨date, m.name, m.shown⟩ := by
  rw [line_eq, header, scan_append (reads_words h), Option.map_some]
  have hsender : (m.shown ++ [10]).takeWhile (· ≠ 10) = m.shown := by
    rw [(takeWhile_append_cons (fun c hc => decide_eq_true (lineFeed_not_mem_shown h c hc))
      (by decide) []).1]
  rw [hsender]
  exact ⟨_, rfl⟩

variable {s : State} {q : List Message} {ps : List (Message × List Bytes)}

/-- The lines about further recipients are passed over. -/
theorem listItems_recipients {rs : List Bytes} (h : ∀ r ∈ rs, IsRecipient r) (rest : List Bytes) :
    listItems s (rs ++ rest) = listItems s rest := by
  induction rs with
  | nil => rfl
  | cons r rs ih =>
    have hheader := header_of_isRecipient (h r List.mem_cons_self)
    have hrest := ih fun r' hr' => h r' (List.mem_cons_of_mem r hr')
    cases hl : rs ++ rest with
    | nil =>
      rw [List.append_eq_nil_iff] at hl
      rw [List.cons_append, hl.1, hl.2]
      rfl
    | cons next l =>
      rw [List.cons_append, hl, listItems, hheader, ← hrest, hl]

/-- The listing has each mail that was printed, with its sender and its file. -/
theorem listItems_prints (hproper : ∀ p ∈ ps, p.1.Proper)
    (hrecs : ∀ p ∈ ps, p.2 ≠ [] ∧ ∀ r ∈ p.2, IsRecipient r) :
    (listItems s (ps.flatMap fun p => p.1.line :: p.2)).map (fun item => (item.sender, item.file)) =
      ps.map fun p => (p.1.shown, qmap s p.1.name) := by
  induction ps with
  | nil => rfl
  | cons p ps ih =>
    obtain ⟨m, rs⟩ := p
    obtain ⟨hne, hrs⟩ := hrecs (m, rs) List.mem_cons_self
    obtain ⟨r, rs, rfl⟩ := List.exists_cons_of_ne_nil hne
    obtain ⟨date, hheader⟩ := header_line (hproper (m, r :: rs) List.mem_cons_self)
    obtain ⟨⟨source, rcpt⟩, hr⟩ := Option.isSome_iff_exists.1 (hrs r List.mem_cons_self).2
    have hrest := ih (fun p' hp' => hproper p' (List.mem_cons_of_mem _ hp'))
      fun p' hp' => hrecs p' (List.mem_cons_of_mem _ hp')
    have hskip := @listItems_recipients s rs fun r' hr' => hrs r' (List.mem_cons_of_mem r hr')
    rw [List.flatMap_cons, List.cons_append, List.cons_append, listItems]
    simp only [hheader, hr]
    rw [hskip, List.map_cons, hrest, List.map_cons]

/-! ## The files of the listed mails -/

/-- Every mail is proper and has a number of its own. -/
structure Inv (q : List Message) : Prop where
  proper : ∀ m ∈ q, m.Proper
  names : (q.map Message.name).Nodup

theorem eq_of_name (h : Inv q) {m m' : Message} (hm : m ∈ q) (hm' : m' ∈ q)
    (hname : m.name = m'.name) : m = m' :=
  List.inj_on_of_nodup_map h.names hm hm' hname

theorem files_messDir (q : List Message) : (stateOf q).files .messDir = q.map Message.file := by
  simp only [stateOf, Message.filesIn]
  exact (List.map_eq_flatMap ..).symm

theorem qmap_stateOf (h : Inv q) {m : Message} (hm : m ∈ q) :
    qmap (stateOf q) m.name = some m.file := by
  have hkeep : ∀ f ∈ q.map Message.file, (isNumber f.split && isNumber f.name) = true := by
    intro f hf
    obtain ⟨m', hm', rfl⟩ := List.mem_map.1 hf
    have hproper := h.proper m' hm'
    rw [Bool.and_eq_true]
    exact ⟨hproper.split, hproper.name⟩
  rw [qmap, files_messDir, List.filter_eq_self.2 hkeep]
  cases hfind : (q.map Message.file).reverse.find? (·.name = m.name) with
  | none =>
    have hnot := List.find?_eq_none.1 hfind m.file
      (List.mem_reverse.2 (List.mem_map_of_mem hm))
    exact absurd (decide_eq_true rfl) hnot
  | some f =>
    have hname : f.name = m.name := by simpa using List.find?_some hfind
    obtain ⟨m', hm', rfl⟩ := List.mem_map.1 (List.mem_reverse.1 (List.mem_of_find?_eq_some hfind))
    rw [eq_of_name h hm' hm hname]

/-- The path of a mail is its own. -/
theorem eq_of_path (h : Inv q) {m m' : Message} (hm : m ∈ q) (hm' : m' ∈ q)
    (hpath : m.file.path = m'.file.path) : m = m' := by
  have hslash {m : Message} (hproper : m.Proper) : 47 ∉ m.name := by
    intro hmem
    exact absurd ((isNumber_iff.1 hproper.name).2 47 hmem) (by decide)
  have hcut := Pattern.append_cons_cancel (hslash (h.proper m hm)) (hslash (h.proper m' hm')) hpath
  exact eq_of_name h hm hm' hcut.2

/-- What the listing of a queue says about senders and files. -/
theorem listItems_of_prints (h : Inv q) {output : List Bytes} (hprints : Prints q output) :
    ∃ ms : List Message, ms.Perm q ∧
      (listItems (stateOf q) output).map (fun item => (item.sender, item.file)) =
        ms.map fun m => (m.shown, some m.file) := by
  obtain ⟨ps, hperm, hrecs, rfl⟩ := hprints
  have hmem {p : Message × List Bytes} (hp : p ∈ ps) : p.1 ∈ q :=
    hperm.mem_iff.1 (List.mem_map_of_mem hp)
  refine ⟨ps.map Prod.fst, hperm, ?_⟩
  rw [listItems_prints (fun p hp => h.proper p.1 (hmem hp)) hrecs, List.map_map]
  exact List.map_congr_left fun p hp => by rw [qmap_stateOf h (hmem hp)]; rfl

end Listing

/-! ## One event -/

section Step

variable {q : List Message} {output : List Bytes}

/-- What is left of the sender as it is printed. -/
theorem bare_shown {m : Message} (h : m.Proper) : bare m.shown = m.listedAs := by
  have hsender : bare m.sender = m.sender := List.filter_eq_self.2 fun c hc => by
    obtain ⟨hwhite, hlt, hgt⟩ := h.sender c hc
    simp [hwhite, hlt, hgt]
  have hmark : bare (32 :: if m.bouncing then bytes " bouncing" else []) =
      if m.bouncing then bytes "bouncing" else [] := by
    cases m.bouncing <;> decide
  have hshown : m.shown = 60 :: (m.sender ++ 62 ::
      32 :: if m.bouncing then bytes " bouncing" else []) := by
    simp [Message.shown]
  rw [hshown, Message.listedAs]
  unfold bare at hsender hmark ⊢
  rw [List.filter_cons_of_neg (by decide), List.filter_append, hsender,
    List.filter_cons_of_neg (by decide), hmark]

theorem delByEmail_stateOf (h : Inv q) (hprints : Prints q output) (email : Bytes) :
    delByEmail email output (stateOf q) = stateOf (q.filter (·.listedAs ≠ email)) := by
  have hlisted : q.filter (·.listedAs ≠ email) = q.filter (bare ·.shown ≠ email) :=
    List.filter_congr fun m hm => by rw [bare_shown (h.proper m hm)]
  rw [hlisted]
  obtain ⟨ms, hperm, hitems⟩ := listItems_of_prints h hprints
  have hids : (((listItems (stateOf q) output).filter fun item => bare item.sender = email).map
      fun item => (item.file.map File.path).getD []) =
        (ms.filter (bare ·.shown = email)).map (·.file.path) := by
    have hpairs := congrArg
      (fun l => (l.filter fun x => decide (bare x.1 = email)).map fun x =>
        (x.2.map File.path).getD []) hitems
    simpa only [List.filter_map, List.map_map, Function.comp_def, Option.map_some,
      Option.getD_some] using hpairs
  rw [delByEmail, hids, deleteQueues_stateOf]
  congr 1
  apply List.filter_congr
  intro m hm
  rw [decide_eq_decide, not_iff_not, List.mem_map]
  constructor
  · rintro ⟨m', hm', hpath⟩
    obtain ⟨hmem, hemail⟩ := List.mem_filter.1 hm'
    rw [← eq_of_path h (hperm.mem_iff.1 hmem) hm hpath]
    exact of_decide_eq_true hemail
  · intro hemail
    exact ⟨m, List.mem_filter.2 ⟨hperm.mem_iff.2 hm, decide_eq_true hemail⟩, rfl⟩

theorem allIDs_eq (items : List Item) (h : ∀ item ∈ items, item.file.isSome = true) (last : Bytes) :
    allIDs last items = items.map fun item => (item.file.map File.path).getD [] := by
  induction items generalizing last with
  | nil => rfl
  | cons item items ih =>
    obtain ⟨f, hf⟩ := Option.isSome_iff_exists.1 (h item List.mem_cons_self)
    rw [allIDs, List.map_cons, hf, ih fun item' hitem' => h item' (List.mem_cons_of_mem _ hitem')]
    rfl

theorem delAll_stateOf (h : Inv q) (hprints : Prints q output) :
    delAll output (stateOf q) = stateOf [] := by
  obtain ⟨ms, hperm, hitems⟩ := listItems_of_prints h hprints
  have hfiles : (listItems (stateOf q) output).map Item.file = ms.map fun m => some m.file := by
    have hsnd := congrArg (List.map Prod.snd) hitems
    simpa only [List.map_map, Function.comp_def] using hsnd
  have hsome : ∀ item ∈ listItems (stateOf q) output, item.file.isSome = true := by
    intro item hitem
    have hmem : item.file ∈ ms.map fun m => some m.file := hfiles ▸ List.mem_map_of_mem hitem
    obtain ⟨m, -, hm⟩ := List.mem_map.1 hmem
    rw [← hm]
    rfl
  have hids : allIDs [] (listItems (stateOf q) output) = ms.map (·.file.path) := by
    have hpaths := congrArg (List.map fun f : Option File => (f.map File.path).getD []) hfiles
    rw [allIDs_eq _ hsome]
    simpa only [List.map_map, Function.comp_def, Option.map_some, Option.getD_some] using hpaths
  rw [delAll, hids, deleteQueues_stateOf]
  congr 1
  apply List.filter_eq_nil_iff.2
  intro m hm
  rw [decide_eq_true_eq, not_not]
  exact List.mem_map_of_mem (f := fun m : Message => m.file.path) (hperm.mem_iff.2 hm)

theorem inv_queueStep (h : Inv q) {e : Event} (hfit : Fits q e) : Inv (queueStep q e) := by
  have hfilter (p : Message → Bool) : Inv (q.filter p) :=
    ⟨fun m hm => h.proper m (List.mem_of_mem_filter hm),
      h.names.sublist (List.filter_sublist.map _)⟩
  cases e with
  | arrive m =>
    obtain ⟨hproper, hname⟩ := hfit
    refine ⟨fun m' hm' => ?_, ?_⟩
    · rcases List.mem_append.1 hm' with hm' | hm'
      · exact h.proper m' hm'
      · rw [List.mem_singleton.1 hm']
        exact hproper
    · rw [queueStep, List.map_append]
      exact List.nodup_append'.2 ⟨h.names, List.nodup_singleton _, by simpa using hname⟩
  | sent path => exact hfilter _
  | delByID ids => exact hfilter _
  | delByEmail email output => exact hfilter _
  | delAll output => exact ⟨fun m hm => absurd hm List.not_mem_nil, List.nodup_nil⟩

/-- An event does to the directories what it does to the queue. -/
theorem serve_stateOf (h : Inv q) {e : Event} (hfit : Fits q e) :
    serve (stateOf q) e = stateOf (queueStep q e) := by
  cases e with
  | arrive m => simp [serve, stateOf, queueStep]
  | sent path =>
    rw [serve, deleteQueues_stateOf, queueStep]
    simp only [List.mem_singleton]
  | delByID ids => exact deleteQueues_stateOf ids q
  | delByEmail email output => exact delByEmail_stateOf h hfit email
  | delAll output => exact delAll_stateOf h hfit

end Step

/-! ## Whole runs -/

theorem run_serve_stateOf {q : List Message} {events : List Event} (h : Inv q)
    (hfits : Meets queueStep Fits q events) :
    run serve (stateOf q) events = stateOf (run queueStep q events) := by
  induction events generalizing q with
  | nil => rfl
  | cons e events ih =>
    rw [run_cons, run_cons, serve_stateOf h hfits.1]
    exact ih (inv_queueStep h hfits.1) hfits.2

/-- **The commands delete just what they name**: over any run of arrivals, deliveries and commands,
the four directories hold the files of the mails that are still in the queue and no others; by
sender go the mails that are listed with that sender, a mail that bounces with the mark behind it,
and all others stay whole. -/
theorem run_serve (events : List Event) (hfits : Meets queueStep Fits [] events) :
    run serve ⟨fun _ => []⟩ events = stateOf (run queueStep [] events) :=
  run_serve_stateOf ⟨fun _ hm => absurd hm List.not_mem_nil, List.nodup_nil⟩ hfits

/-- A mail of a sender, under a number. -/
def mailFrom (sender name : Bytes) (bouncing : Bool) : Message where
  split := bytes "7"
  name := name
  size := 402
  day := bytes "3"
  month := bytes "Nov"
  year := bytes "2004"
  hour := bytes "10"
  minute := bytes "05"
  second := bytes "00"
  sender := sender
  bouncing
  remote := true
  here := false

/-- A line about one recipient. -/
def toBob : Bytes := bytes "\tremote\tbob@b.cn\n"

/-- Three mails, which the listing shows in another order, and the deletion of those of `ann`: the
one that bounces is listed with the mark. -/
def threeMails : List Event :=
  [.arrive (mailFrom (bytes "ann@a.cn") (bytes "30") false),
    .arrive (mailFrom (bytes "eve@a.cn") (bytes "53") false),
    .arrive (mailFrom (bytes "ann@a.cn") (bytes "76") true),
    .delByEmail (bytes "ann@a.cn")
      [(mailFrom (bytes "eve@a.cn") (bytes "53") false).line, toBob, toBob,
        (mailFrom (bytes "ann@a.cn") (bytes "30") false).line, toBob,
        (mailFrom (bytes "ann@a.cn") (bytes "76") true).line, toBob]]

set_option maxRecDepth 4000 in
theorem proper_mailFrom {sender name : Bytes}
    (hsender : ∀ c ∈ sender, isWhite c = false ∧ c ≠ 60 ∧ c ≠ 62)
    (hname : isNumber name = true) (bouncing : Bool) : (mailFrom sender name bouncing).Proper where
  split := (by decide : isNumber (bytes "7") = true)
  name := hname
  day := (by decide : isNumber (bytes "3") = true)
  month := (by decide : bytes "Nov" ≠ [] ∧ ∀ c ∈ bytes "Nov", isWhite c = false)
  year := (by decide : isNumber (bytes "2004") = true)
  hour := (by decide : isNumber (bytes "10") = true)
  minute := (by decide : isNumber (bytes "05") = true)
  second := (by decide : isNumber (bytes "00") = true)
  sender := hsender

theorem isRecipient_toBob : IsRecipient toBob := ⟨⟨_, _, rfl, by decide⟩, by decide⟩

theorem run_serve_threeMails :
    run serve ⟨fun _ => []⟩ threeMails =
      stateOf [mailFrom (bytes "eve@a.cn") (bytes "53") false,
        mailFrom (bytes "ann@a.cn") (bytes "76") true] :=
  run_serve threeMails
    ⟨⟨proper_mailFrom (by decide +kernel) (by decide +kernel) false, List.not_mem_nil⟩,
    ⟨proper_mailFrom (by decide +kernel) (by decide +kernel) false, by decide +kernel⟩,
    ⟨proper_mailFrom (by decide +kernel) (by decide +kernel) true, by decide +kernel⟩,
    ⟨[(mailFrom (bytes "eve@a.cn") (bytes "53") false, [toBob, toBob]),
        (mailFrom (bytes "ann@a.cn") (bytes "30") false, [toBob]),
        (mailFrom (bytes "ann@a.cn") (bytes "76") true, [toBob])],
      List.Perm.swap _ _ _, by simp [isRecipient_toBob], rfl⟩, trivial⟩

end NoSpam.MailQueue
