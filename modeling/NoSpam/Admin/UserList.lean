import Mathlib.Data.List.Forall2
import Mathlib.Data.List.GetD
import NoSpam.Admin.WellFormed
import NoSpam.Base.Assoc
import NoSpam.Base.Numeric
import NoSpam.Base.Run

/-!
# The users of a mail domain

`USERPROFILE` has a line of nine columns for every user of a mail domain: among them whether the
user is displayed to others, and the groups whose mails the user gets.  Saving one user writes the
lines of all users anew, and so does deleting one.  Over all runs of such requests the other columns
of a user's line stay (`column_run`), but the user stays in a group (`member_run_iff`) and hidden
(`private_run_iff`) only as long as no one else is saved or deleted.
-/

namespace NoSpam.Admin.UserList

open Text Php Machine

/-! ## The list of users -/

/-- A line of the file of `vpasswd`: the account and its quota. -/
structure Account where
  name : Bytes
  quota : Bytes

/-- The accounts, and `USERPROFILE` if the file is there. -/
structure State where
  accounts : List Account
  profile : Option Bytes

/-- The last `fgets` comes upon the end of the file, so that `feof` knows of it. -/
def meetsEnd (reads : List Bytes) : Bool :=
  reads.getLast?.any fun read => read.getLast? ≠ some 10 && read.length < 1023

/-- The loops over `USERPROFILE`: at most 1023 bytes with every `fgets`, and nothing with one more
where the end of the file has not been met, each exploded. -/
def readProfile (file : Bytes) : List (List Bytes) :=
  let reads := pieces 10 1023 1023 file
  (reads ++ if meetsEnd reads then [] else [[]]).map fun userinfo : Bytes => userinfo.splitOn 58

/-- A column that `list` takes, the missing ones empty. -/
def col (row : List Bytes) (i : ℕ) : Bytes := row.getD i []

/-- `$is_public?'Y':'N'`. -/
def yesNo (is_public : Bytes) : Bytes :=
  if is_public = [] ∨ is_public = bytes "0" then bytes "N" else bytes "Y"

/-- `str_replace(',', '，', $group)`. -/
def fullWidth (group : Bytes) : Bytes := group.flatMap fun c => if c = 44 then bytes "，" else [c]

/-- An entry of the array of users. -/
structure User where
  unit : Bytes := []
  department : Bytes := []
  station : Bytes := []
  id_code : Bytes := []
  create_time : Bytes := []
  quota : ℤ
  is_public : Bytes := bytes "N"
  note : Bytes := []
  group : Bytes := []

/-- `$user_quota_num`, in MB. -/
def quotaNum (user_quota : Bytes) : ℤ :=
  if 77 ∈ user_quota then intval (user_quota.takeWhile (· ≠ 77))
  else (intval user_quota).tdiv 1048576

/-- The line of an account. -/
def rowOf (file name : Bytes) : Option (List Bytes) :=
  (readProfile file).find? fun row => col row 0 = name

/-- The entry of an account. -/
def userOf (file : Bytes) (a : Account) : User :=
  match rowOf file a.name with
  | some row =>
      { unit := rtrim (col row 1)
        department := rtrim (col row 2)
        station := rtrim (col row 3)
        id_code := rtrim (col row 4)
        create_time := rtrim (col row 5)
        quota := quotaNum a.quota
        is_public := rtrim (yesNo (col row 6))
        note := rtrim (col row 7)
        group := rtrim (fullWidth (col row 8)) }
  | none => { quota := quotaNum a.quota }

/-- `getUserList`, by the accounts. -/
def getUserList (s : State) : Assoc Bytes User :=
  match s.profile with
  | some file => Assoc.ofList (s.accounts.map fun a => (a.name, userOf file a))
  | none => Assoc.empty

/-! ## Saving -/

/-- The limits of the domain. -/
structure Limits where
  maxUser : ℤ
  quota : ℤ

/-- What the form of a user sends. -/
structure Form where
  modify : Bool
  user_id : Bytes
  passwd1 : Bytes
  passwd2 : Bytes
  user_name : Bytes
  user_unit : Bytes
  user_department : Bytes
  user_station : Bytes
  user_id_code : Bytes
  user_note : Bytes
  user_is_public : Bool
  user_box_size : Bytes
  groups : Bytes

/-- A symbol of a name; the backslash of the pattern stands for itself. -/
def isNameByte (c : UInt8) : Bool := (97 ≤ c && c ≤ 122) || isDigit c || c = 95 || c = 92 || c = 46

/-- `^[a-z][_0-9a-z\.]*$`. -/
def isName : Bytes → Bool
  | [] => false
  | c :: l => (97 ≤ c && c ≤ 122) && l.all isNameByte

namespace Form

variable (f : Form)

/-- `$user_box_size`. -/
def boxSize : ℤ := max 0 (1024 * 1024 * intval f.user_box_size)

/-- A column of the form that is not to be empty. -/
def orBlank (b : Bytes) : Bytes := if b = [] then bytes " " else b

/-- The checks before the list of users is read. -/
def wellFormed : Bool :=
  f.user_id ≠ [] && (f.modify || (f.passwd1 ≠ [] && f.passwd2 ≠ [])) && f.user_name ≠ [] &&
    (cstr f.user_box_size ≠ [] && (cstr f.user_box_size).all isDigit) &&
    isName (cstr f.user_id) && (f.modify || isPasswordFormatOK f.passwd1) &&
    looseEq f.passwd1 f.passwd2 && (cstr f.user_name ≠ [] && isNoteFormatOK f.user_name) &&
    isNoteFormatOK (orBlank f.user_unit) && isNoteFormatOK (orBlank f.user_department) &&
    isNoteFormatOK (orBlank f.user_station) && isNoteFormatOK (orBlank f.user_id_code) &&
    isNoteFormatOK f.user_note

/-- The checks against the list of users and the limits. -/
def admitted (lim : Limits) (user_list : Assoc Bytes User) : Bool :=
  let known := (user_list.lookup f.user_id).isSome
  let total := (user_list.entries.map fun e => e.2.quota * 1024 * 1024).sum
  (if f.modify then known
    else !(0 < lim.maxUser && user_list.entries.length = lim.maxUser) && !known) &&
  (!(0 < lim.quota) || (f.boxSize ≠ 0 && total + f.boxSize ≤ lim.quota))

/-- The entry that the form makes. -/
def user (today : Bytes) (user_list : Assoc Bytes User) : User where
  unit := orBlank f.user_unit
  department := orBlank f.user_department
  station := orBlank f.user_station
  id_code := orBlank f.user_id_code
  create_time :=
    if f.modify then ((user_list.lookup f.user_id).map User.create_time).getD [] else today
  quota := 0
  is_public := if f.user_is_public then bytes "1" else []
  note := f.user_note
  group := if f.modify then f.groups else []

end Form

/-- The columns of a line. -/
def line (e : Bytes × User) : List Bytes :=
  [e.1, e.2.unit, e.2.department, e.2.station, e.2.id_code, e.2.create_time, e.2.is_public,
    e.2.note, e.2.group]

/-- What `vmoduser` and `vadduser` come to, which nothing looks at: whether they do what they are to
do, and where `vadduser` puts the account among the others. -/
structure Outcome where
  done : Bool := true
  place : ℕ := 0

/-- `vmoduser`, or `vadduser`. -/
def changeAccount (f : Form) (o : Outcome) (accounts : List Account) : List Account :=
  if !o.done then accounts
  else if f.modify then
    accounts.map fun a => if a.name = f.user_id then ⟨a.name, showInt f.boxSize⟩ else a
  else accounts.take o.place ++ ⟨f.user_id, showInt f.boxSize⟩ :: accounts.drop o.place

/-- The lines that `save` writes. -/
def savedRows (f : Form) (today : Bytes) (s : State) : List (List Bytes) :=
  ((getUserList s).put f.user_id (f.user today (getUserList s))).entries.map line

/-- `save`; `getUserList` makes the file where there is none. -/
def save (lim : Limits) (f : Form) (today : Bytes) (o : Outcome) (s : State) : State :=
  if !f.wellFormed then s
  else if !f.admitted lim (getUserList s) then { s with profile := some (s.profile.getD []) }
  else ⟨changeAccount f o s.accounts, some (trim (tableText 58 10 (savedRows f today s)))⟩

/-! ## Deleting -/

/-- A loop over entries that takes out those whose key is in `$id`, and their keys out of `$id`:
what is left of `$id`, and the entries that stay. -/
def strike {α : Type*} (key : α → Bytes) : List Bytes → List α → List Bytes × List α
  | ids, [] => (ids, [])
  | ids, x :: xs =>
      if ids.any (looseEq (key x)) then strike key (ids.eraseP (looseEq (key x))) xs
      else
        let r := strike key ids xs
        (r.1, x :: r.2)

/-- `$userinfo_list`: the first eight columns, of which a later line of the same user replaces an
earlier one. -/
def userinfoList (file : Bytes) : Assoc Bytes (List Bytes) :=
  Assoc.ofList ((readProfile file).map fun row =>
    (rtrim (col row 0), (List.range 7).map fun i => rtrim (col row (i + 1))))

/-- What is left of `$id`, out of which `postmaster` is taken first, and the accounts that are not
in it. -/
def keptAccounts (ids : List Bytes) (s : State) : List Bytes × List Account :=
  strike Account.name (ids.eraseP (looseEq (bytes "postmaster"))) s.accounts

/-- The lines that `del` writes. -/
def remainingRows (ids : List Bytes) (s : State) : List (List Bytes) :=
  let kept := keptAccounts ids s
  let userinfo_list := (userinfoList (s.profile.getD [])).filter fun e =>
    e.1 ∉ s.accounts.map Account.name || e.1 ∈ kept.2.map Account.name
  (strike Prod.fst kept.1 userinfo_list.entries).2.map fun e => e.1 :: e.2

/-- `del`; `fails` says for which accounts `vdeluser` does, which nothing looks at. -/
def del (ids : List Bytes) (fails : Bytes → Bool) (s : State) : State :=
  ⟨s.accounts.filter fun a => a.name ∈ (keptAccounts ids s).2.map Account.name || fails a.name,
    some (tableText 58 10 (remainingRows ids s))⟩

/-! ## What a user gets -/

/-- `sendGroup` puts the mail into the user's mailbox. -/
def receives (sendGroups name : Bytes) (s : State) : Bool :=
  match rowOf (s.profile.getD []) name with
  | some row =>
      (sendGroups.splitOn 44).any fun sendgroup =>
        ((trim (col row 8)).splitOn 44).any (looseEq sendgroup)
  | none => false

/-- The list of users says that the user is displayed to others. -/
def isPublic (name : Bytes) (s : State) : Prop :=
  ∃ row, rowOf (s.profile.getD []) name = some row ∧ yesNo (col row 6) = bytes "Y"

/-! ## Runs -/

/-- A request with what the programs of vpopmail come to: a form and the date, or the users to
delete. -/
inductive Event
  | save (f : Form) (today : Bytes) (o : Outcome)
  | del (ids : List Bytes) (fails : Bytes → Bool)

def step (lim : Limits) (s : State) : Event → State
  | .save f today o => save lim f today o s
  | .del ids fails => del ids fails s

/-- The lines that a request writes. -/
def Event.rows (lim : Limits) (s : State) : Event → List (List Bytes)
  | .save f today _ =>
      if f.wellFormed && f.admitted lim (getUserList s) then savedRows f today s else []
  | .del ids _ => remainingRows ids s

/-- The form is accepted and everybody is saved. -/
def Event.saves (lim : Limits) (s : State) : Event → Bool
  | .save f _ _ => f.wellFormed && f.admitted lim (getUserList s)
  | .del _ _ => false

/-- A request to delete users, there being any or not. -/
def Event.deletes : Event → Bool
  | .save _ _ _ => false
  | .del _ _ => true

/-- A request that is not about the user, and of which no column has a line end or a colon in it. -/
def Event.About (u : Bytes) : Event → Prop
  | .save f today _ => f.user_id ≠ u ∧ 0 ∉ f.user_id ∧
      CleanRow 58 10 [f.user_unit, f.user_department, f.user_station, f.user_id_code, today,
        f.user_note, f.groups]
  | .del ids _ => u ∉ ids

/-- Besides, every line that is written fits in one read. -/
def Fits (lim : Limits) (u : Bytes) (s : State) (e : Event) : Prop :=
  e.About u ∧ ∀ row ∈ e.rows lim s, (joinFields 58 row).length < 1023

/-- A column of a user, without the white space at its end. -/
def column (u : Bytes) (s : State) (i : ℕ) : Bytes :=
  rtrim (col ((rowOf (s.profile.getD []) u).getD []) i)

/-- The groups of a user. -/
def groupsOf (u : Bytes) (s : State) : List Bytes := (trim (column u s 8)).splitOn 44

/-! ## Reading what has been written -/

/-- A line as it is read: white space at its end may have come or gone. -/
def Spells (r row : List Bytes) : Prop :=
  ∃ front g g', row = front ++ [g] ∧ r = front ++ [g'] ∧ rtrim g' = rtrim g

theorem Spells.rtrim_col {r row : List Bytes} (h : Spells r row) (i : ℕ) :
    rtrim (col r i) = rtrim (col row i) := by
  obtain ⟨front, g, g', rfl, rfl, hg⟩ := h
  rcases Nat.lt_trichotomy i front.length with hi | rfl | hi
  · rw [col, col, List.getD_append _ _ _ _ hi, List.getD_append _ _ _ _ hi]
  · simpa [col, List.getD_append_right] using hg
  · rw [col, col, List.getD_eq_default _ _ (by simp; omega),
      List.getD_eq_default _ _ (by simp; omega)]

theorem Spells.col_eq {r row : List Bytes} (h : Spells r row) {i : ℕ} (hi : i + 1 < row.length) :
    col r i = col row i := by
  obtain ⟨front, g, g', rfl, rfl, -⟩ := h
  have hfront : i < front.length := by simpa using hi
  rw [col, col, List.getD_append _ _ _ _ hfront, List.getD_append _ _ _ _ hfront]

theorem splitOn_joinFields_append {front : List Bytes} {g w : Bytes}
    (hfront : ∀ f ∈ front, 58 ∉ f) (hg : 58 ∉ g) (hw : 58 ∉ w) :
    (joinFields 58 (front ++ [g]) ++ w).splitOn 58 = front ++ [g ++ w] := by
  have hlast : joinFields 58 (front ++ [g]) ++ w = joinFields 58 (front ++ [g ++ w]) := by
    rw [joinFields_concat, joinFields_concat, List.append_assoc]
  rw [hlast, joinFields, List.splitOn_intercalate 58 ?_ (by simp)]
  intro f hf
  rcases List.mem_append.1 hf with hf | hf
  · exact hfront f hf
  · rw [List.mem_singleton.1 hf, List.mem_append, not_or]
    exact ⟨hg, hw⟩

theorem spells_splitOn {row : List Bytes} (hne : row ≠ []) (hclean : CleanRow 58 10 row) :
    Spells ((joinFields 58 row ++ [10]).splitOn 58) row := by
  obtain ⟨front, g, rfl⟩ := (List.eq_nil_or_concat row).resolve_left hne
  rw [List.concat_eq_append] at hclean ⊢
  refine ⟨front, g, g ++ [10], rfl, ?_, rtrim_append_newline g⟩
  exact splitOn_joinFields_append (fun f hf => (hclean f (List.mem_append_left _ hf)).1)
    (hclean g (by simp)).1 (by decide)

/-- The lines of a file that fit in one read are read one by one, and nothing after the last line
end. -/
theorem readProfile_tableText {rows : List (List Bytes)} (hne : ∀ row ∈ rows, row ≠ [])
    (hclean : ∀ row ∈ rows, CleanRow 58 10 row)
    (hshort : ∀ row ∈ rows, (joinFields 58 row).length < 1023) :
    List.Forall₂ Spells (readProfile (tableText 58 10 rows)) (rows ++ [[[]]]) := by
  have hlines : ∀ l ∈ rows.map (joinFields 58), 10 ∉ l ∧ l.length < 1023 :=
    List.forall_mem_map.2 fun row hrow =>
      ⟨(hclean row hrow).not_mem_joinFields (by decide), hshort row hrow⟩
  have hend : meetsEnd ((rows.map (joinFields 58)).map (· ++ [10])) = false := by
    rw [meetsEnd]
    rcases List.eq_nil_or_concat' rows with rfl | ⟨rows, row, rfl⟩
    · rfl
    · simp
  rw [readProfile, tableText, pieces_columnText hlines, hend, if_neg Bool.false_ne_true,
    List.map_append, List.map_map, List.map_map]
  refine List.rel_append ?_ (List.Forall₂.cons ⟨[], [], [], rfl, rfl, rfl⟩ List.Forall₂.nil)
  rw [List.forall₂_map_left_iff, List.forall₂_same]
  exact fun row hrow => spells_splitOn (hne row hrow) (hclean row hrow)

theorem pieces_of_fits {room left : ℕ} {l : Bytes} (hne : l ≠ []) (h : 10 ∉ l)
    (hlen : l.length < left) : pieces 10 room left l = [l] := by
  induction l generalizing left with
  | nil => exact absurd rfl hne
  | cons c l ih =>
    rw [List.mem_cons, not_or] at h
    rw [List.length_cons] at hlen
    rw [pieces, if_neg (by rintro (rfl | hle); exacts [h.1 rfl, by omega])]
    cases l with
    | nil => rfl
    | cons d l => rw [ih (List.cons_ne_nil d l) h.2 (by omega)]

theorem pieces_columnText_append {ls : List Bytes} (h : ∀ l ∈ ls, 10 ∉ l ∧ l.length < 1023)
    {l : Bytes} (hne : l ≠ []) (hl : 10 ∉ l) (hlen : l.length < 1023) :
    pieces 10 1023 1023 (columnText 10 ls ++ l) = ls.map (· ++ [10]) ++ [l] := by
  induction ls with
  | nil => exact pieces_of_fits hne hl hlen
  | cons k ls ih =>
    obtain ⟨hk, hls⟩ := List.forall_mem_cons.1 h
    rw [columnText_cons, List.append_assoc, List.cons_append, pieces_append_cons hk.1 hk.2, ih hls]
    rfl

theorem joinFields_concat_concat (cols : List Bytes) (f b : Bytes) :
    joinFields 58 (cols ++ [f] ++ [b]) = columnText 58 cols ++ f ++ 58 :: b := by
  rw [joinFields_concat, columnText_append]
  simp [columnText]

/-- Of a table that starts with something else `trim` takes the white space at the end of the last
column. -/
theorem trim_tableText {front : List (List Bytes)} {cols : List Bytes} {f g : Bytes}
    (hfirst : ∀ c ∈ (tableText 58 10 (front ++ [cols ++ [f] ++ [g]])).head?, isTrim c = false) :
    trim (tableText 58 10 (front ++ [cols ++ [f] ++ [g]])) =
      columnText 10 (front.map (joinFields 58)) ++ joinFields 58 (cols ++ [f] ++ [rtrim g]) := by
  -- the text up to the last colon
  obtain ⟨A, hA⟩ : ∃ A, A = columnText 10 (front.map (joinFields 58)) ++
      (columnText 58 cols ++ f) := ⟨_, rfl⟩
  have htext : tableText 58 10 (front ++ [cols ++ [f] ++ [g]]) = A ++ 58 :: (g ++ [10]) := by
    rw [tableText, List.map_append, columnText_append, List.map_singleton,
      joinFields_concat_concat, hA]
    simp [columnText]
  rw [htext] at hfirst ⊢
  rw [trim, rtrim_append_cons (by decide), rtrim_append_newline, joinFields_concat_concat,
    ← List.append_assoc, ← hA]
  cases A with
  | nil => rfl
  | cons c A => exact List.dropWhile_cons_of_neg (by simp [hfirst c rfl])

/-- Without the white space around it the text is read in the same way: what goes is the white space
in the last column, and what was read after the last line end. -/
theorem readProfile_trim_tableText {rows : List (List Bytes)} (hne : rows ≠ [])
    (hcols : ∀ row ∈ rows, 1 < row.length) (hclean : ∀ row ∈ rows, CleanRow 58 10 row)
    (hshort : ∀ row ∈ rows, (joinFields 58 row).length < 1023)
    (hfirst : ∀ c ∈ (tableText 58 10 rows).head?, isTrim c = false) :
    List.Forall₂ Spells (readProfile (trim (tableText 58 10 rows))) rows := by
  obtain ⟨front, last, rfl⟩ := (List.eq_nil_or_concat' rows).resolve_left hne
  have hlast : last ∈ front ++ [last] := by simp
  obtain ⟨cols, g, rfl⟩ := (List.eq_nil_or_concat' last).resolve_left
    (by rintro rfl; exact absurd (hcols _ hlast) (by simp))
  obtain ⟨cols, f, rfl⟩ := (List.eq_nil_or_concat' cols).resolve_left
    (by rintro rfl; exact absurd (hcols _ hlast) (by simp))
  have hrtrim : rtrim g <+: g := isPrefix_rtrim g
  have hrow : CleanRow 58 10 (cols ++ [f] ++ [rtrim g]) := by
    intro x hx
    rcases List.mem_append.1 hx with hx | hx
    · exact hclean _ hlast x (List.mem_append_left _ hx)
    · obtain rfl := List.mem_singleton.1 hx
      obtain ⟨hcolon, hnewline⟩ := hclean _ hlast g (by simp)
      exact ⟨fun hmem => hcolon (hrtrim.subset hmem), fun hmem => hnewline (hrtrim.subset hmem)⟩
  have hlines : ∀ l ∈ front.map (joinFields 58), 10 ∉ l ∧ l.length < 1023 :=
    List.forall_mem_map.2 fun row hmem =>
      have hmem := List.mem_append_left [cols ++ [f] ++ [g]] hmem
      ⟨(hclean row hmem).not_mem_joinFields (by decide), hshort row hmem⟩
  have hlength : (joinFields 58 (cols ++ [f] ++ [rtrim g])).length < 1023 := by
    have hle := hrtrim.length_le
    have hlt := hshort _ hlast
    rw [joinFields_concat_concat] at hlt ⊢
    simp only [List.length_append, List.length_cons] at hlt ⊢
    omega
  have hlastLine := hrow.not_mem_joinFields (by decide)
  have hend (ls : List Bytes) :
      meetsEnd (ls ++ [joinFields 58 (cols ++ [f] ++ [rtrim g])]) = true := by
    rw [meetsEnd, List.getLast?_concat, Option.any_some, Bool.and_eq_true, decide_eq_true_eq,
      decide_eq_true_eq]
    exact ⟨fun hmem => hlastLine (List.mem_of_getLast? hmem), hlength⟩
  rw [trim_tableText hfirst, readProfile,
    pieces_columnText_append hlines (by rw [joinFields_concat_concat]; simp) hlastLine hlength,
    hend, if_pos rfl, List.append_nil, List.map_append, List.map_map, List.map_map]
  refine List.rel_append ?_ (List.Forall₂.cons ?_ List.Forall₂.nil)
  · rw [List.forall₂_map_left_iff, List.forall₂_same]
    intro row hmem
    have hmem := List.mem_append_left [cols ++ [f] ++ [g]] hmem
    exact spells_splitOn (List.ne_nil_of_length_pos (by have := hcols row hmem; omega))
      (hclean row hmem)
  · refine ⟨cols ++ [f], g, rtrim g, rfl, ?_, rtrim_rtrim g⟩
    have hsplit := @splitOn_joinFields_append (cols ++ [f]) (rtrim g) []
      (fun x hx => (hrow x (List.mem_append_left _ hx)).1) (hrow _ (by simp)).1 (by simp)
    simpa using hsplit

/-! ## Columns -/

/-- Neither a colon nor a line end is in a column that has been read, but for the line end at the
end of the last one. -/
theorem plain_rtrim_col {file : Bytes} {row : List Bytes} (hrow : row ∈ readProfile file) (i : ℕ) :
    Plain (rtrim (col row i)) := by
  obtain ⟨piece, hpiece, rfl⟩ := List.mem_map.1 hrow
  obtain ⟨q, w, hw, hq⟩ : ∃ q w : Bytes, piece = q ++ w ∧ 10 ∉ q ∧ (w = [] ∨ w = [10]) := by
    rcases List.mem_append.1 hpiece with hpiece | hpiece
    · have hend := not_mem_dropLast_of_mem_pieces hpiece
      rcases List.eq_nil_or_concat' piece with rfl | ⟨q, c, rfl⟩
      · exact ⟨[], [], rfl, by simp, Or.inl rfl⟩
      · rw [List.dropLast_concat] at hend
        by_cases hc : c = 10
        · exact ⟨q, [10], by rw [hc], hend, Or.inr rfl⟩
        · exact ⟨q ++ [c], [], by simp, by simp [hend, Ne.symm hc], Or.inl rfl⟩
    · split_ifs at hpiece
      · cases hpiece
      · exact ⟨[], [], List.mem_singleton.1 hpiece, by simp, Or.inl rfl⟩
  refine ⟨fun hmem => sep_not_mem_part 58 piece i ((isPrefix_rtrim _).subset hmem), fun hmem => ?_⟩
  obtain ⟨front, g, hsplit⟩ := (List.eq_nil_or_concat' (q.splitOn 58)).resolve_left
    (List.splitOn_ne_nil 58 q)
  have hclean : ∀ f ∈ front ++ [g], 58 ∉ f := fun f hf =>
    not_mem_of_mem_splitOn (by rw [hsplit]; exact hf)
  have hq' : q = joinFields 58 (front ++ [g]) := by
    rw [← hsplit]
    exact (List.intercalate_splitOn 58).symm
  have hspells : Spells (piece.splitOn 58) (q.splitOn 58) := by
    refine ⟨front, g, g ++ w, hsplit, ?_, ?_⟩
    · rw [hw, hq']
      exact splitOn_joinFields_append (fun f hf => hclean f (List.mem_append_left _ hf))
        (hclean g (by simp)) (by rcases hq.2 with rfl | rfl <;> decide)
    · rcases hq.2 with rfl | rfl
      · rw [List.append_nil]
      · exact rtrim_append_newline g
  rw [hspells.rtrim_col] at hmem
  exact hq.1 (mem_of_mem_part ((isPrefix_rtrim _).subset hmem))

theorem isNameByte_of_isName {u : Bytes} (h : isName u = true) : ∀ c ∈ u, isNameByte c = true := by
  cases u with
  | nil => cases h
  | cons c l =>
    rw [isName, Bool.and_eq_true, List.all_eq_true] at h
    exact List.forall_mem_cons.2 ⟨by rw [isNameByte, h.1]; rfl, h.2⟩

theorem rtrim_of_isName {u : Bytes} (h : isName u = true) : rtrim u = u := by
  refine rtrim_eq_self fun c hc => ?_
  have hbyte := isNameByte_of_isName h c hc
  by_contra htrim
  simp only [isTrim, Bool.not_eq_false, Bool.or_eq_true, decide_eq_true_eq] at htrim
  rcases htrim with ((((rfl | rfl) | rfl) | rfl) | rfl) | rfl <;> exact absurd hbyte (by decide)

theorem plain_of_isName {u : Bytes} (h : isName u = true) : Plain u :=
  ⟨fun hmem => absurd (isNameByte_of_isName h 58 hmem) (by decide),
    fun hmem => absurd (isNameByte_of_isName h 10 hmem) (by decide)⟩

/-- A name begins with a letter and is not a number. -/
theorem looseEq_of_isName {u : Bytes} (h : isName u = true) (b : Bytes) :
    looseEq u b = decide (u = b) := by
  refine looseEq_of_not_isNumeric ?_
  cases u with
  | nil => cases h
  | cons c l =>
    rw [isName, Bool.and_eq_true, Bool.and_eq_true, decide_eq_true_eq, decide_eq_true_eq] at h
    obtain ⟨⟨hlow, hhigh⟩, -⟩ := h
    have hlow' : 97 ≤ c.toNat := UInt8.le_iff_toNat_le.1 hlow
    have hspace : isSpace c = false := not_isSpace_of_lt (by omega)
    have hne {d : UInt8} (hd : d.toNat < 97) : c ≠ d := by
      rintro rfl
      omega
    have hdigit : isDigit c = false := by
      simp only [isDigit, Bool.and_eq_false_iff, decide_eq_false_iff_not, UInt8.le_iff_toNat_le]
      right
      show ¬c.toNat ≤ 57
      omega
    rw [isNumeric, List.dropWhile_cons_of_neg (by simp [hspace])]
    have hhex : isHex (c :: l) = false := by
      rw [isHex.eq_2]
      intro d k hcons
      exact hne (by decide) (List.cons.inj hcons).1
    have hsign : dropSign (c :: l) = c :: l := by
      rw [dropSign, if_neg (not_or.2 ⟨hne (by decide), hne (by decide)⟩)]
    rw [hhex, hsign, isFloat, List.takeWhile_cons_of_neg (by simp [hdigit]),
      List.dropWhile_cons_of_neg (by simp [hdigit])]
    dsimp only
    rw [if_neg (hne (by decide))]
    rfl

/-! ## One user -/

/-- The lines of a user in the file, by the name without white space after it. -/
def rowsOf (u file : Bytes) : List (List Bytes) :=
  (readProfile file).filter fun row => rtrim (col row 0) = u

/-- The user has an account and one line, which is this. -/
structure Watch (u : Bytes) (s : State) (r : List Bytes) : Prop where
  name : isName u = true
  account : u ∈ s.accounts.map Account.name
  names : ∀ a ∈ s.accounts, isName a.name = true
  nodup : (s.accounts.map Account.name).Nodup
  rows : rowsOf u (s.profile.getD []) = [r]
  head : col r 0 = u
  flag : rtrim (col r 6) = col r 6

section Watch

variable {u : Bytes} {s : State} {r : List Bytes} (h : Watch u s r)

include h

theorem Watch.mem : r ∈ readProfile (s.profile.getD []) :=
  (List.mem_filter.1 (by rw [← rowsOf, h.rows]; exact List.mem_cons_self)).1

theorem Watch.rowOf_eq : rowOf (s.profile.getD []) u = some r := by
  have hfilter : (readProfile (s.profile.getD [])).filter (fun row => col row 0 = u) =
      (rowsOf u (s.profile.getD [])).filter (fun row => col row 0 = u) := by
    rw [rowsOf, List.filter_filter]
    refine List.filter_congr fun row _ => ?_
    by_cases hrow : col row 0 = u
    · simp [hrow, rtrim_of_isName h.name]
    · simp [hrow]
  rw [rowOf, ← List.head?_filter, hfilter, h.rows, List.filter_cons_of_pos (by simp [h.head])]
  rfl

theorem Watch.exists_profile : ∃ file, s.profile = some file := by
  cases hprofile : s.profile with
  | some file => exact ⟨file, rfl⟩
  | none =>
    have hrow := h.rowOf_eq
    rw [hprofile] at hrow
    have hmem := List.mem_of_find?_eq_some hrow
    obtain rfl : r = [[]] := by simpa [readProfile, pieces, meetsEnd] using hmem
    have hname := h.name
    rw [← h.head] at hname
    cases hname

/-- The entries of `getUserList` are those of the accounts. -/
theorem Watch.entries_getUserList : (getUserList s).entries =
    s.accounts.map fun a => (a.name, userOf (s.profile.getD []) a) := by
  obtain ⟨file, hfile⟩ := h.exists_profile
  rw [getUserList, hfile]
  refine Assoc.entries_ofList ?_
  rw [List.map_map]
  exact h.nodup

/-- The entry of the user in `getUserList`. -/
theorem Watch.exists_lookup : ∃ user, (getUserList s).lookup u = some user ∧
    (∀ i < 9, i ≠ 0 → i ≠ 6 → i ≠ 8 → rtrim (col (line (u, user)) i) = rtrim (col r i)) ∧
      user.is_public = yesNo (col r 6) ∧ user.group = rtrim (fullWidth (col r 8)) := by
  obtain ⟨a, ha, rfl⟩ := List.mem_map.1 h.account
  refine ⟨userOf (s.profile.getD []) a, ?_, ?_⟩
  · rw [← Assoc.mem_entries_iff, h.entries_getUserList]
    exact List.mem_map_of_mem ha
  · rw [userOf, h.rowOf_eq]
    refine ⟨fun i hi h0 h6 h8 => ?_, ?_, rfl⟩
    · obtain rfl | rfl | rfl | rfl | rfl | rfl : i = 1 ∨ i = 2 ∨ i = 3 ∨ i = 4 ∨ i = 5 ∨ i = 7 := by
        omega
      all_goals exact rtrim_rtrim _
    · show rtrim (yesNo (col r 6)) = yesNo (col r 6)
      rw [yesNo]
      split_ifs <;> rfl

end Watch

/-- In a list of entries with keys of their own the key finds one. -/
theorem filter_fst_eq {ν : Type*} {l : List (Bytes × ν)} (hl : (l.map Prod.fst).Nodup) {k : Bytes}
    {v : ν} (h : (k, v) ∈ l) : l.filter (fun e => e.1 = k) = [(k, v)] := by
  induction l with
  | nil => cases h
  | cons e l ih =>
    obtain ⟨hnot, hl⟩ := List.nodup_cons.1 hl
    rcases List.mem_cons.1 h with rfl | hmem
    · rw [List.filter_cons_of_pos (by simp), List.filter_eq_nil_iff.2]
      intro e he
      rw [decide_eq_true_eq]
      rintro rfl
      exact hnot (List.mem_map.2 ⟨e, he, rfl⟩)
    · have hne : e.1 ≠ k := by
        rintro rfl
        exact hnot (List.mem_map.2 ⟨_, hmem, rfl⟩)
      rw [List.filter_cons_of_neg (by simp [hne]), ih hl hmem]

/-- The one line of a user among those that have been written is the one that is read, whether or
not nothing is read after them. -/
theorem rowsOf_eq {u file : Bytes} (hu : u ≠ []) {rows : List (List Bytes)} {row : List Bytes}
    {rest : List (List Bytes)} (hrest : rest = [] ∨ rest = [[[]]])
    (hread : List.Forall₂ Spells (readProfile file) (rows ++ rest))
    (hrows : rows.filter (fun row => rtrim (col row 0) = u) = [row]) :
    ∃ r, rowsOf u file = [r] ∧ Spells r row := by
  have hfilter : List.Forall₂ Spells (rowsOf u file)
      ((rows ++ rest).filter fun row => rtrim (col row 0) = u) := by
    refine List.rel_filter (R := Spells) ?_ hread
    intro r row hspells
    simp only [decide_eq_true_eq, hspells.rtrim_col]
  have hlast : rest.filter (fun row : List Bytes => rtrim (col row 0) = u) = [] := by
    rcases hrest with rfl | rfl
    · rfl
    · rw [List.filter_cons_of_neg, List.filter_nil]
      rw [decide_eq_true_eq]
      exact fun heq => hu heq.symm
  rw [List.filter_append, hrows, hlast] at hfilter
  obtain ⟨r, rs, hspells, hnil, heq⟩ := List.forall₂_cons_right_iff.1 hfilter
  rw [List.forall₂_nil_right_iff.1 hnil] at heq
  exact ⟨r, heq, hspells⟩

/-! ## One request -/

section Step

variable {lim : Limits} {u : Bytes} {s : State} {r : List Bytes} {f : Form} {today : Bytes}
  {o : Outcome} {ids : List Bytes} {fails : Bytes → Bool}

/-- What a user's line becomes. -/
structure After (r r' : List Bytes) (is_public group : Bytes) : Prop where
  kept : ∀ i < 8, i ≠ 6 → rtrim (col r' i) = rtrim (col r i)
  is_public : col r' 6 = is_public
  group : rtrim (col r' 8) = group

theorem cstr_eq_self {b : Bytes} (h : 0 ∉ b) : cstr b = b :=
  List.takeWhile_eq_self_iff.2 fun c hc => by
    rw [decide_eq_true_eq]
    rintro rfl
    exact h hc

theorem isName_of_wellFormed (hform : f.wellFormed = true) (hzero : 0 ∉ f.user_id) :
    isName f.user_id = true := by
  simp only [Form.wellFormed, Bool.and_eq_true] at hform
  have hname : isName (cstr f.user_id) = true := by tauto
  rwa [cstr_eq_self hzero] at hname

theorem cleanRow_line {e : Bytes × User} (hname : isName e.1 = true)
    (hplain : ∀ c ∈ [e.2.unit, e.2.department, e.2.station, e.2.id_code, e.2.create_time,
      e.2.is_public, e.2.note, e.2.group], Plain c) : CleanRow 58 10 (line e) :=
  List.forall_mem_cons.2 ⟨plain_of_isName hname, hplain⟩

theorem plain_yesNo (b : Bytes) : Plain (yesNo b) := by
  rw [yesNo]
  split_ifs <;> decide

theorem rtrim_fullWidth (b : Bytes) : rtrim (fullWidth b) = fullWidth (rtrim b) := by
  induction b using List.reverseRecOn with
  | nil => rfl
  | append_singleton b c ih =>
    have hconcat : fullWidth (b ++ [c]) = fullWidth b ++ fullWidth [c] := List.flatMap_append
    by_cases hc : isTrim c = true
    · have hsame : fullWidth [c] = [c] := by
        have hne : c ≠ 44 := by
          rintro rfl
          cases hc
        simp [fullWidth, hne]
      rw [hconcat, hsame, rtrim_concat hc, rtrim_concat hc, ih]
    · have hself : rtrim (b ++ [c]) = b ++ [c] := List.rdropWhile_concat_neg isTrim b c hc
      rw [hself, hconcat]
      by_cases hcomma : c = 44
      · have hwide : fullWidth [44] = [239, 188, 140] := by decide
        rw [hcomma, hwide]
        exact (rtrim_append_cons (by decide) _ _).trans rfl
      · have hsame : fullWidth [c] = [c] := by simp [fullWidth, hcomma]
        rw [hsame]
        exact List.rdropWhile_concat_neg isTrim _ c hc

theorem plain_fullWidth {b : Bytes} (h : Plain b) : Plain (fullWidth b) := by
  have hmem {d : UInt8} (hd : d ∉ bytes "，") (hb : d ∉ b) : d ∉ fullWidth b := by
    intro hmem
    obtain ⟨c, hc, hd'⟩ := List.mem_flatMap.1 hmem
    split_ifs at hd' with hcomma
    · exact hd hd'
    · exact hb (List.mem_singleton.1 hd' ▸ hc)
  exact ⟨hmem (by decide) h.1, hmem (by decide) h.2⟩

theorem plain_orBlank {b : Bytes} (h : Plain b) : Plain (Form.orBlank b) := by
  rw [Form.orBlank]
  split_ifs
  · decide
  · exact h

/-- What is read of a user can be written again. -/
theorem cleanRow_userOf {file : Bytes} {a : Account} (hname : isName a.name = true) :
    CleanRow 58 10 (line (a.name, userOf file a)) := by
  refine cleanRow_line hname ?_
  rw [userOf]
  cases hrow : rowOf file a.name with
  | none => simpa using (by decide : Plain [] ∧ Plain (bytes "N") ∧ Plain [])
  | some row =>
    have hplain (i : ℕ) := plain_rtrim_col (List.mem_of_find?_eq_some hrow) i
    have hyes : rtrim (yesNo (col row 6)) = yesNo (col row 6) := by
      rw [yesNo]
      split_ifs <;> rfl
    have hgroup : Plain (rtrim (fullWidth (col row 8))) := by
      rw [rtrim_fullWidth]
      exact plain_fullWidth (hplain 8)
    simp only [List.forall_mem_cons, List.not_mem_nil, false_imp_iff, implies_true, and_true]
    exact ⟨hplain 1, hplain 2, hplain 3, hplain 4, hplain 5,
      by rw [hyes]; exact plain_yesNo _, hplain 7, hgroup⟩

/-- The lines that `save` writes: nine columns, a name first, and nothing that ends a column or a
line. -/
theorem of_mem_savedRows (h : Watch u s r) (hname : isName f.user_id = true)
    (hclean : CleanRow 58 10 [f.user_unit, f.user_department, f.user_station, f.user_id_code, today,
      f.user_note, f.groups]) {row : List Bytes} (hrow : row ∈ savedRows f today s) :
    row.length = 9 ∧ CleanRow 58 10 row ∧ isName (col row 0) = true := by
  have hold : ∀ e ∈ (getUserList s).entries, CleanRow 58 10 (line e) ∧ isName e.1 = true := by
    rw [h.entries_getUserList]
    exact List.forall_mem_map.2 fun a ha => ⟨cleanRow_userOf (h.names a ha), h.names a ha⟩
  obtain ⟨hunit, hdepartment, hstation, hcode, htoday, hnote, hgroups, -⟩ :
      Plain f.user_unit ∧ Plain f.user_department ∧ Plain f.user_station ∧ Plain f.user_id_code ∧
        Plain today ∧ Plain f.user_note ∧ Plain f.groups ∧ True := by
    simpa [CleanRow, Plain] using hclean
  have htime : Plain (f.user today (getUserList s)).create_time := by
    show Plain (if f.modify then _ else today)
    split_ifs
    · cases hlookup : (getUserList s).lookup f.user_id with
      | none => exact ⟨by simp, by simp⟩
      | some user =>
        have hline := (hold _ (Assoc.mem_entries_iff.2 hlookup)).1
        exact hline user.create_time (by simp [line])
    · exact htoday
  have hnew : CleanRow 58 10 (line (f.user_id, f.user today (getUserList s))) := by
    refine cleanRow_line hname ?_
    simp only [List.forall_mem_cons, List.not_mem_nil, false_imp_iff, implies_true, and_true]
    refine ⟨plain_orBlank hunit, plain_orBlank hdepartment, plain_orBlank hstation,
      plain_orBlank hcode, htime, ?_, hnote, ?_⟩
    · show Plain (if f.user_is_public then bytes "1" else [])
      split_ifs <;> decide
    · show Plain (if f.modify then f.groups else [])
      split_ifs
      · exact hgroups
      · decide
  obtain ⟨e, he, rfl⟩ := List.mem_map.1 hrow
  have hall := Assoc.forall_mem_put hold ⟨hnew, hname⟩ e he
  exact ⟨rfl, hall.1, hall.2⟩

/-- The accounts after a form about someone else. -/
theorem accounts_save (o : Outcome) (h : Watch u s r) (hname : isName f.user_id = true)
    (hadmitted : f.admitted lim (getUserList s) = true) :
    u ∈ (changeAccount f o s.accounts).map Account.name ∧
      (∀ a ∈ changeAccount f o s.accounts, isName a.name = true) ∧
        ((changeAccount f o s.accounts).map Account.name).Nodup := by
  obtain ⟨done, place⟩ := o
  by_cases hdone : done = true
  swap
  · obtain rfl : done = false := by simpa using hdone
    exact ⟨h.account, h.names, h.nodup⟩
  subst hdone
  cases hmodify : f.modify with
  | true =>
    have hnames : (changeAccount f ⟨true, place⟩ s.accounts).map Account.name =
        s.accounts.map Account.name := by
      rw [changeAccount, hmodify, if_neg (by simp), if_pos rfl, List.map_map]
      refine List.map_congr_left fun a _ => ?_
      simp only [Function.comp_apply]
      split_ifs <;> rfl
    refine ⟨hnames ▸ h.account, fun a ha => ?_, hnames ▸ h.nodup⟩
    have hmem : a.name ∈ s.accounts.map Account.name := hnames ▸ List.mem_map_of_mem ha
    obtain ⟨a', ha', heq⟩ := List.mem_map.1 hmem
    rw [← heq]
    exact h.names a' ha'
  | false =>
    have hperm : (changeAccount f ⟨true, place⟩ s.accounts).Perm
        (⟨f.user_id, showInt f.boxSize⟩ :: s.accounts) := by
      have hmiddle := @List.perm_middle _ (⟨f.user_id, showInt f.boxSize⟩ : Account)
        (s.accounts.take place) (s.accounts.drop place)
      rw [List.take_append_drop] at hmiddle
      rw [changeAccount, hmodify]
      exact hmiddle
    have hknown : f.user_id ∉ s.accounts.map Account.name := by
      intro hmem
      obtain ⟨a, ha, heq⟩ := List.mem_map.1 hmem
      have hlookup : (getUserList s).lookup f.user_id =
          some (userOf (s.profile.getD []) a) := by
        rw [← heq, ← Assoc.mem_entries_iff, h.entries_getUserList]
        exact List.mem_map_of_mem ha
      simp [Form.admitted, hmodify, hlookup] at hadmitted
    refine ⟨?_, fun a ha => ?_, ?_⟩
    · exact (hperm.map Account.name).mem_iff.2 (List.mem_cons_of_mem _ h.account)
    · rcases List.mem_cons.1 (hperm.mem_iff.1 ha) with rfl | ha
      · exact hname
      · exact h.names a ha
    · exact (hperm.map Account.name).nodup_iff.2 (List.nodup_cons.2 ⟨hknown, h.nodup⟩)

theorem head_tableText {rows : List (List Bytes)} (hcols : ∀ row ∈ rows, row ≠ [])
    (hname : ∀ row ∈ rows, isName (col row 0) = true) :
    ∀ c ∈ (tableText 58 10 rows).head?, isTrim c = false := by
  intro c hc
  cases rows with
  | nil => cases hc
  | cons row rows =>
    obtain ⟨k, row, rfl⟩ := List.exists_cons_of_ne_nil (hcols row List.mem_cons_self)
    have hk : isName k = true := hname _ List.mem_cons_self
    cases k with
    | nil => cases hk
    | cons d k =>
      obtain rfl : d = c := by
        rw [tableText, List.map_cons, columnText_cons, joinFields_cons] at hc
        exact Option.some.inj hc
      have hrtrim := rtrim_of_isName hk
      by_contra htrim
      rw [Bool.not_eq_false] at htrim
      have hbyte := isNameByte_of_isName hk d List.mem_cons_self
      simp only [isTrim, Bool.or_eq_true, decide_eq_true_eq] at htrim
      rcases htrim with ((((rfl | rfl) | rfl) | rfl) | rfl) | rfl <;> exact absurd hbyte (by decide)

/-- The line of someone else is written. -/
theorem line_mem_savedRows (f : Form) (today : Bytes) {user : User} (hother : f.user_id ≠ u)
    (hlookup : (getUserList s).lookup u = some user) :
    line (u, user) ∈ savedRows f today s := by
  refine List.mem_map_of_mem (Assoc.mem_entries_iff.2 ?_)
  rw [Assoc.lookup_put, if_neg (Ne.symm hother), hlookup]

/-- No other line of the user is written. -/
theorem filter_savedRows {user : User}
    (hnames : ∀ {row}, row ∈ savedRows f today s → isName (col row 0) = true)
    (hother : f.user_id ≠ u) (hlookup : (getUserList s).lookup u = some user) :
    (savedRows f today s).filter (fun row => rtrim (col row 0) = u) = [line (u, user)] := by
  obtain ⟨users, husers⟩ : ∃ users, users =
      (getUserList s).put f.user_id (f.user today (getUserList s)) := ⟨_, rfl⟩
  have hrows : savedRows f today s = users.entries.map line := by rw [savedRows, husers]
  have huser : (u, user) ∈ users.entries := by
    rw [Assoc.mem_entries_iff, husers, Assoc.lookup_put, if_neg (Ne.symm hother), hlookup]
  have hkeys : users.entries.filter ((fun row => decide (rtrim (col row 0) = u)) ∘ line) =
      users.entries.filter (fun e => e.1 = u) := by
    refine List.filter_congr fun e he => ?_
    have hmem : line e ∈ savedRows f today s := by
      rw [hrows]
      exact List.mem_map_of_mem he
    have hkey : isName e.1 = true := hnames hmem
    show decide (rtrim e.1 = u) = decide (e.1 = u)
    rw [rtrim_of_isName hkey]
  rw [hrows, List.filter_map, hkeys, filter_fst_eq users.nodup huser]
  rfl

/-- Saving someone else: the columns stay but for the groups, whose commas go, and for the flag,
which is never off again. -/
theorem watch_save (h : Watch u s r) (habout : (Event.save f today o).About u)
    (hform : f.wellFormed = true) (hadmitted : f.admitted lim (getUserList s) = true)
    (hshort : ∀ row ∈ savedRows f today s, (joinFields 58 row).length < 1023) :
    ∃ r', Watch u (save lim f today o s) r' ∧
      After r r' (yesNo (col r 6)) (fullWidth (rtrim (col r 8))) := by
  obtain ⟨hother, hzero, hclean⟩ := habout
  have hname := isName_of_wellFormed hform hzero
  have hsave : save lim f today o s =
      ⟨changeAccount f o s.accounts, some (trim (tableText 58 10 (savedRows f today s)))⟩ := by
    simp [save, hform, hadmitted]
  have hrow {row : List Bytes} (hmem : row ∈ savedRows f today s) :=
    of_mem_savedRows h hname hclean hmem
  obtain ⟨user, hlookup, hcols, hflag, hgroup⟩ := h.exists_lookup
  have hline := line_mem_savedRows f today hother hlookup
  have hfilter := filter_savedRows (fun hmem => (hrow hmem).2.2) hother hlookup
  have hread := readProfile_trim_tableText (List.ne_nil_of_mem hline)
    (fun row hmem => by rw [(hrow hmem).1]; omega) (fun row hmem => (hrow hmem).2.1) hshort
    (head_tableText (fun row hmem => List.ne_nil_of_length_eq_add_one (hrow hmem).1)
      fun row hmem => (hrow hmem).2.2)
  have hne : u ≠ [] := by
    rintro rfl
    cases h.name
  obtain ⟨r', hr', hspells⟩ := rowsOf_eq hne (Or.inl rfl)
    (by rwa [List.append_nil]) hfilter
  have hpublic : col r' 6 = yesNo (col r 6) :=
    (hspells.col_eq (by decide : 6 + 1 < 9)).trans hflag
  have hhead : col r' 0 = u := hspells.col_eq (by decide : 0 + 1 < 9)
  obtain ⟨haccount, hnames, hnodup⟩ := accounts_save o h hname hadmitted
  refine ⟨r', ?_, ?_, hpublic, ?_⟩
  · rw [hsave]
    refine ⟨h.name, haccount, hnames, hnodup, hr', hhead, ?_⟩
    rw [hpublic, yesNo]
    split_ifs <;> rfl
  · intro i hi h6
    by_cases h0 : i = 0
    · rw [h0, hhead, h.head]
    · rw [hspells.rtrim_col i]
      exact hcols i (by omega) h0 h6 (by omega)
  · rw [hspells.rtrim_col 8]
    show rtrim user.group = _
    rw [hgroup, rtrim_rtrim, rtrim_fullWidth]

section Strike

variable {α : Type*} {key : α → Bytes} {x : α} {xs : List α}

theorem strike_sublist (key : α → Bytes) (ids : List Bytes) (xs : List α) :
    (strike key ids xs).2.Sublist xs := by
  induction xs generalizing ids with
  | nil => exact List.Sublist.refl []
  | cons y xs ih =>
    rw [strike]
    split_ifs
    · exact (ih _).cons y
    · exact (ih ids).cons_cons y

theorem strike_subset (key : α → Bytes) (ids : List Bytes) (xs : List α) :
    (strike key ids xs).1 ⊆ ids := by
  induction xs generalizing ids with
  | nil => exact List.Subset.refl ids
  | cons y xs ih =>
    rw [strike]
    split_ifs
    · exact List.Subset.trans (ih _) List.eraseP_subset
    · exact ih ids

/-- An entry stays if its key is not in `$id`. -/
theorem mem_strike (hx : x ∈ xs) (h : ∀ id ∈ ids, looseEq (key x) id = false) :
    x ∈ (strike key ids xs).2 := by
  induction xs generalizing ids with
  | nil => cases hx
  | cons y xs ih =>
    rw [strike]
    rcases List.mem_cons.1 hx with rfl | hx
    · rw [if_neg]
      · exact List.mem_cons_self
      · intro hany
        obtain ⟨id, hid, heq⟩ := List.any_eq_true.1 hany
        rw [h id hid] at heq
        cases heq
    · split_ifs
      · exact ih hx fun id hid => h id (List.eraseP_subset hid)
      · exact List.mem_cons_of_mem y (ih hx h)

end Strike

/-- The entries of `$userinfo_list` are lines of the file. -/
theorem exists_of_mem_userinfoList {file : Bytes} {e : Bytes × List Bytes}
    (he : e ∈ (userinfoList file).entries) : ∃ row ∈ readProfile file, rtrim (col row 0) = e.1 ∧
      (List.range 7).map (fun i => rtrim (col row (i + 1))) = e.2 := by
  have hmem := Assoc.mem_of_lookup_ofList (Assoc.mem_entries_iff.1 he)
  obtain ⟨row, hrow, heq⟩ := List.mem_map.1 hmem
  obtain ⟨hkey, hcols⟩ := Prod.mk.inj heq
  exact ⟨row, hrow, hkey, hcols⟩

theorem Watch.mem_userinfoList (h : Watch u s r) :
    (u, (List.range 7).map fun i => rtrim (col r (i + 1))) ∈
      (userinfoList (s.profile.getD [])).entries := by
  have hu : rtrim (col r 0) = u := by rw [h.head, rtrim_of_isName h.name]
  have hmem : (rtrim (col r 0), (List.range 7).map fun i => rtrim (col r (i + 1))) ∈
      (readProfile (s.profile.getD [])).map fun row =>
        (rtrim (col row 0), (List.range 7).map fun i => rtrim (col row (i + 1))) :=
    List.mem_map_of_mem h.mem
  obtain ⟨cols, hlookup⟩ := Assoc.exists_lookup_ofList hmem
  have hentry : (u, cols) ∈ (userinfoList (s.profile.getD [])).entries := by
    rw [Assoc.mem_entries_iff, ← hu]
    exact hlookup
  obtain ⟨row, hrow, hkey, hcols⟩ := exists_of_mem_userinfoList hentry
  -- there is no other line of the user
  have hone : row ∈ rowsOf u (s.profile.getD []) := List.mem_filter.2 ⟨hrow, by simpa using hkey⟩
  rw [h.rows, List.mem_singleton] at hone
  rw [← hone, show (List.range 7).map (fun i => rtrim (col row (i + 1))) = cols from hcols]
  exact hentry

/-- The entries of the lines that `del` writes. -/
def remainingEntries (ids : List Bytes) (s : State) : List (Bytes × List Bytes) :=
  (strike Prod.fst (keptAccounts ids s).1 ((userinfoList (s.profile.getD [])).filter fun e =>
    e.1 ∉ s.accounts.map Account.name ||
      e.1 ∈ (keptAccounts ids s).2.map Account.name).entries).2

theorem remainingRows_eq (ids : List Bytes) (s : State) :
    remainingRows ids s = (remainingEntries ids s).map fun e => e.1 :: e.2 := rfl

theorem nodup_remainingEntries (ids : List Bytes) (s : State) :
    ((remainingEntries ids s).map Prod.fst).Nodup :=
  ((strike_sublist ..).map Prod.fst).nodup (Assoc.nodup _)

/-- An entry that remains is a line of the file. -/
theorem exists_of_mem_remainingEntries {e : Bytes × List Bytes} (he : e ∈ remainingEntries ids s) :
    ∃ row ∈ readProfile (s.profile.getD []), rtrim (col row 0) = e.1 ∧
      (List.range 7).map (fun i => rtrim (col row (i + 1))) = e.2 :=
  exists_of_mem_userinfoList (List.mem_filter.1 ((strike_sublist ..).subset he)).1

theorem cleanRow_remainingRows : ∀ row ∈ remainingRows ids s, CleanRow 58 10 row := by
  rw [remainingRows_eq]
  refine List.forall_mem_map.2 fun e he => ?_
  obtain ⟨row, hrow, hkey, hcols⟩ := exists_of_mem_remainingEntries he
  rw [← hkey, ← hcols]
  refine List.forall_mem_cons.2 ⟨plain_rtrim_col hrow 0, List.forall_mem_map.2 fun i _ => ?_⟩
  exact plain_rtrim_col hrow (i + 1)

theorem Watch.looseEq_of_not_mem (h : Watch u s r) (habout : u ∉ ids) {ids' : List Bytes}
    (hids : ids' ⊆ ids) : ∀ id ∈ ids', looseEq u id = false := by
  intro id hid
  rw [looseEq_of_isName h.name, decide_eq_false_iff_not]
  rintro rfl
  exact habout (hids hid)

/-- The account of someone else is kept. -/
theorem Watch.mem_keptAccounts (h : Watch u s r) (habout : u ∉ ids) :
    u ∈ (keptAccounts ids s).2.map Account.name := by
  obtain ⟨a, ha, heq⟩ := List.mem_map.1 h.account
  rw [← heq]
  refine List.mem_map_of_mem (mem_strike ha ?_)
  rw [heq]
  exact h.looseEq_of_not_mem habout List.eraseP_subset

/-- The entry of someone else remains. -/
theorem Watch.mem_remainingEntries (h : Watch u s r) (habout : u ∉ ids) :
    (u, (List.range 7).map fun i => rtrim (col r (i + 1))) ∈ remainingEntries ids s := by
  refine mem_strike (List.mem_filter.2 ⟨h.mem_userinfoList, ?_⟩)
    (h.looseEq_of_not_mem habout (List.Subset.trans (strike_subset ..) List.eraseP_subset))
  simp [h.mem_keptAccounts habout]

/-- No other line of the user is written. -/
theorem Watch.filter_remainingRows (h : Watch u s r) (habout : u ∉ ids) :
    (remainingRows ids s).filter (fun row => rtrim (col row 0) = u) =
      [u :: (List.range 7).map fun i => rtrim (col r (i + 1))] := by
  have hkeys : (remainingEntries ids s).filter
      ((fun row => decide (rtrim (col row 0) = u)) ∘ fun e => e.1 :: e.2) =
        (remainingEntries ids s).filter (fun e => e.1 = u) := by
    refine List.filter_congr fun e he => ?_
    obtain ⟨row, -, hkey, -⟩ := exists_of_mem_remainingEntries he
    show decide (rtrim e.1 = u) = decide (e.1 = u)
    rw [← hkey, rtrim_rtrim]
  rw [remainingRows_eq, List.filter_map, hkeys,
    filter_fst_eq (nodup_remainingEntries ids s) (h.mem_remainingEntries habout)]
  rfl

/-- Deleting someone else: the columns stay but for the groups, which are not written. -/
theorem watch_del (h : Watch u s r) (habout : u ∉ ids)
    (hshort : ∀ row ∈ remainingRows ids s, (joinFields 58 row).length < 1023) :
    ∃ r', Watch u (del ids fails s) r' ∧ After r r' (col r 6) [] := by
  have hfile := readProfile_tableText (fun row hrow => by
    rw [remainingRows_eq] at hrow
    obtain ⟨e, -, rfl⟩ := List.mem_map.1 hrow
    exact List.cons_ne_nil _ _) cleanRow_remainingRows hshort
  have hne : u ≠ [] := by
    rintro rfl
    cases h.name
  obtain ⟨r', hr', hspells⟩ := rowsOf_eq hne (Or.inr rfl) hfile (h.filter_remainingRows habout)
  have haccount := h.mem_keptAccounts habout
  have hstays : (del ids fails s).accounts.Sublist s.accounts := List.filter_sublist
  have hhead : col r' 0 = u := hspells.col_eq (by simp)
  have hpublic : col r' 6 = col r 6 := (hspells.col_eq (by simp)).trans h.flag
  refine ⟨r', ?_, ?_, hpublic, ?_⟩
  · refine ⟨h.name, ?_, fun a ha => h.names a (hstays.subset ha),
      (hstays.map Account.name).nodup h.nodup, hr', hhead, ?_⟩
    · obtain ⟨a, ha, hname⟩ := List.mem_map.1 h.account
      rw [← hname]
      exact List.mem_map_of_mem (List.mem_filter.2 ⟨ha, by simp [hname, haccount]⟩)
    · rw [hpublic, h.flag]
  · intro i hi h6
    by_cases h0 : i = 0
    · rw [h0, hhead, h.head]
    · rw [hspells.rtrim_col i]
      obtain rfl | rfl | rfl | rfl | rfl | rfl : i = 1 ∨ i = 2 ∨ i = 3 ∨ i = 4 ∨ i = 5 ∨ i = 7 := by
        omega
      all_goals exact rtrim_rtrim _
  · exact hspells.rtrim_col 8

/-- What a request that fits makes of the line of someone else. -/
theorem watch_step {e : Event} (h : Watch u s r) (hfits : Fits lim u s e) :
    ∃ r', Watch u (step lim s e) r' ∧
      After r r' (if e.saves lim s then yesNo (col r 6) else col r 6)
        (if e.deletes then [] else
          if e.saves lim s then fullWidth (rtrim (col r 8)) else rtrim (col r 8)) := by
  obtain ⟨habout, hshort⟩ := hfits
  cases e with
  | save f today o =>
    have hkeeps : ¬(Event.save f today o).deletes = true := Bool.false_ne_true
    by_cases hsaves : (Event.save f today o).saves lim s = true
    · rw [if_pos hsaves, if_neg hkeeps, if_pos hsaves]
      have hrows : (Event.save f today o).rows lim s = savedRows f today s := if_pos hsaves
      obtain ⟨hform, hadmitted⟩ := Bool.and_eq_true_iff.1 hsaves
      exact watch_save h habout hform hadmitted (hrows ▸ hshort)
    · rw [if_neg hsaves, if_neg hkeeps, if_neg hsaves]
      -- a form that is refused leaves the file as it is
      have hsame : step lim s (.save f today o) = s := by
        obtain ⟨file, hfile⟩ := h.exists_profile
        have hprofile : ({ s with profile := some (s.profile.getD []) } : State) = s := by
          rw [hfile]
          cases s
          cases hfile
          rfl
        show save lim f today o s = s
        rw [save]
        cases hform : f.wellFormed with
        | false => rfl
        | true =>
          cases hadmitted : f.admitted lim (getUserList s) with
          | false => exact hprofile
          | true => exact absurd (Bool.and_eq_true_iff.2 ⟨hform, hadmitted⟩) hsaves
      rw [hsame]
      exact ⟨r, h, fun _ _ _ => rfl, rfl, rfl⟩
  | del ids fails => exact watch_del h habout hshort

theorem Watch.column_eq (h : Watch u s r) (i : ℕ) : column u s i = rtrim (col r i) := by
  rw [column, h.rowOf_eq, Option.getD_some]

end Step

/-! ## What stays -/

section Runs

variable {lim : Limits} {u g : Bytes} {s : State} {r : List Bytes} {es : List Event}

/-- **The other columns stay**: over any run of saving and deleting others, the name, the unit, the
department, the station, the identity card, the date and the note of a user stay. -/
theorem column_run (h : Watch u s r) (hfits : Meets (step lim) (Fits lim u) s es) {i : ℕ}
    (hi : i < 8) (h6 : i ≠ 6) : column u (run (step lim) s es) i = column u s i := by
  induction es generalizing s r with
  | nil => rfl
  | cons e es ih =>
    obtain ⟨r', h', hafter⟩ := watch_step h hfits.1
    rw [run_cons, ih h' hfits.2, h'.column_eq, h.column_eq, hafter.kept i hi h6]

theorem dropWhile_fullWidth (b : Bytes) :
    (fullWidth b).dropWhile isTrim = fullWidth (b.dropWhile isTrim) := by
  induction b with
  | nil => rfl
  | cons c b ih =>
    by_cases hc : isTrim c = true
    · have hne : c ≠ 44 := by
        rintro rfl
        cases hc
      have hcons : fullWidth (c :: b) = c :: fullWidth b := by simp [fullWidth, hne]
      rw [hcons, List.dropWhile_cons_of_pos hc, List.dropWhile_cons_of_pos hc, ih]
    · rw [List.dropWhile_cons_of_neg hc]
      by_cases hcomma : c = 44
      · rw [hcomma]
        rfl
      · have hcons : fullWidth (c :: b) = c :: fullWidth b := by simp [fullWidth, hcomma]
        rw [hcons, List.dropWhile_cons_of_neg hc]

theorem trim_fullWidth (b : Bytes) : trim (fullWidth b) = fullWidth (trim b) := by
  rw [trim, rtrim_fullWidth, dropWhile_fullWidth, trim]

theorem comma_not_mem_fullWidth (b : Bytes) : 44 ∉ fullWidth b := by
  intro hmem
  obtain ⟨c, -, hc⟩ := List.mem_flatMap.1 hmem
  split_ifs at hc with hcomma
  · exact absurd hc (by decide)
  · exact hcomma (List.mem_singleton.1 hc).symm

theorem fullWidth_of_not_mem {b : Bytes} (h : 44 ∉ b) : fullWidth b = b := by
  induction b with
  | nil => rfl
  | cons c b ih =>
    rw [List.mem_cons, not_or] at h
    have hcons : fullWidth (c :: b) = c :: fullWidth b := by simp [fullWidth, Ne.symm h.1]
    rw [hcons, ih h.2]

theorem length_le_fullWidth (b : Bytes) : b.length ≤ (fullWidth b).length := by
  induction b with
  | nil => exact Nat.le_refl 0
  | cons c b ih =>
    have hcons : fullWidth (c :: b) = fullWidth [c] ++ fullWidth b := by simp [fullWidth]
    have hone : 1 ≤ (fullWidth [c]).length := by
      by_cases hcomma : c = 44
      · rw [hcomma]
        decide
      · simp [fullWidth, hcomma]
    rw [hcons, List.length_append, List.length_cons]
    omega

theorem splitOn_of_not_mem {l : Bytes} (h : 44 ∉ l) : l.splitOn 44 = [l] := by
  have hsplit : ([44].intercalate [l]).splitOn 44 = [l] :=
    List.splitOn_intercalate 44 (by simpa using h) (by simp)
  simpa using hsplit

theorem infix_of_mem_splitOn {l f : Bytes} (h : f ∈ l.splitOn 44) : f <:+: l := by
  have hjoin : l = joinFields 44 (l.splitOn 44) := (List.intercalate_splitOn 44).symm
  obtain ⟨k, ks, hks⟩ := List.exists_cons_of_ne_nil (List.splitOn_ne_nil 44 l)
  rw [hks] at h hjoin
  rw [hjoin, joinFields_cons]
  rcases List.mem_cons.1 h with rfl | h
  · exact (List.prefix_append ..).isInfix
  · have hfield : 44 :: f <:+: (ks.map (44 :: ·)).flatten :=
      List.infix_of_mem_flatten (List.mem_map.2 ⟨f, h, rfl⟩)
    exact ((List.suffix_cons 44 f).isInfix.trans hfield).trans (List.suffix_append ..).isInfix

/-- Without the commas one group is left, which is one of the groups only if it was the only one. -/
theorem mem_splitOn_fullWidth_iff {b : Bytes} (hmem : g ∈ b.splitOn 44) :
    g ∈ (fullWidth b).splitOn 44 ↔ b.splitOn 44 = [g] := by
  rw [splitOn_of_not_mem (comma_not_mem_fullWidth b), List.mem_singleton]
  by_cases hcomma : 44 ∈ b
  · have hinfix := infix_of_mem_splitOn hmem
    constructor
    · intro hg
      -- a group is shorter than the list
      have hsame : g = b := hinfix.eq_of_length_le (by rw [hg]; exact length_le_fullWidth b)
      exact absurd (hsame ▸ hcomma) (not_mem_of_mem_splitOn hmem)
    · intro hone
      have hlength := length_splitOn 44 b
      rw [hone, List.length_singleton] at hlength
      have hcount : 0 < b.count 44 := List.count_pos_iff.2 hcomma
      omega
  · rw [splitOn_of_not_mem hcomma, List.mem_singleton] at hmem
    rw [splitOn_of_not_mem hcomma, fullWidth_of_not_mem hcomma, hmem]
    simp

/-- Who gets the mails to one group. -/
theorem receives_iff (h : Watch u s r) (hcomma : 44 ∉ g) (hnumber : isNumeric g = false) :
    receives g u s = true ↔ g ∈ groupsOf u s := by
  rw [receives, h.rowOf_eq, groupsOf, h.column_eq, trim_rtrim, splitOn_of_not_mem hcomma]
  simp [looseEq_of_not_isNumeric hnumber]

/-- The groups after a request about someone else. -/
theorem groupsOf_step {e : Event} (h : Watch u s r) (hfits : Fits lim u s e) :
    groupsOf u (step lim s e) =
      if e.deletes then [[]] else
        if e.saves lim s then (fullWidth (trim (column u s 8))).splitOn 44 else groupsOf u s := by
  obtain ⟨r', h', hafter⟩ := watch_step h hfits
  rw [groupsOf, groupsOf, h'.column_eq, h.column_eq, hafter.group]
  split_ifs
  · decide
  · rw [trim_fullWidth]
  · rfl

/-- A request leaves a user of a group in it exactly if it is not to delete anybody, and nobody is
saved unless the user is in that group only. -/
def Harmless (lim : Limits) (u g : Bytes) (s : State) (e : Event) : Prop :=
  e.deletes = false ∧ (e.saves lim s = true → groupsOf u s = [g])

theorem mem_groupsOf_step_iff {e : Event} (h : Watch u s r) (hfits : Fits lim u s e) (hne : g ≠ [])
    (hmember : g ∈ groupsOf u s) : g ∈ groupsOf u (step lim s e) ↔ Harmless lim u g s e := by
  rw [groupsOf_step h hfits, Harmless]
  cases e.deletes with
  | true => simp [hne]
  | false =>
    rw [if_neg Bool.false_ne_true]
    by_cases hsaves : e.saves lim s = true
    · rw [if_pos hsaves]
      exact (mem_splitOn_fullWidth_iff hmember).trans
        ⟨fun hone => ⟨rfl, fun _ => hone⟩, fun hok => hok.2 hsaves⟩
    · rw [if_neg hsaves]
      simp [hsaves, hmember]

/-- **A user stays in a group only as long as nobody else is deleted**: over any run of saving and
deleting others, a user of a group gets its mails all the time if and only if there is no request to
delete anybody, and nobody is saved either unless the user is in that group only. -/
theorem member_run_iff (h : Watch u s r) (hfits : Meets (step lim) (Fits lim u) s es)
    (hne : g ≠ []) (hcomma : 44 ∉ g) (hnumber : isNumeric g = false)
    (hmember : receives g u s = true) :
    (∀ es', es' <+: es → receives g u (run (step lim) s es') = true) ↔
      Meets (step lim) (Harmless lim u g) s es := by
  have hinv : (∃ r, Watch u s r) ∧ receives g u s = true := ⟨⟨r, h⟩, hmember⟩
  refine forall_prefix_iff_meets_of_fits
    (I := fun s => (∃ r, Watch u s r) ∧ receives g u s = true) (fun _ hs => hs.2) ?_ ?_ hinv hfits
  · rintro s e ⟨⟨r, h⟩, hmember⟩ hfits hok
    obtain ⟨r', h', -⟩ := watch_step h hfits
    rw [receives_iff h hcomma hnumber] at hmember
    refine ⟨⟨r', h'⟩, (receives_iff h' hcomma hnumber).2 ?_⟩
    exact (mem_groupsOf_step_iff h hfits hne hmember).2 hok
  · rintro s e ⟨⟨r, h⟩, hmember⟩ hfits hreceives
    obtain ⟨r', h', -⟩ := watch_step h hfits
    rw [receives_iff h hcomma hnumber] at hmember
    rw [receives_iff h' hcomma hnumber] at hreceives
    exact (mem_groupsOf_step_iff h hfits hne hmember).1 hreceives

/-- The flag that is saved is a letter, and a letter counts as true. -/
theorem yesNo_yesNo (b : Bytes) : yesNo (yesNo b) = bytes "Y" := by
  have hletter : yesNo b = bytes "N" ∨ yesNo b = bytes "Y" := by
    rw [yesNo]
    split_ifs
    · exact Or.inl rfl
    · exact Or.inr rfl
  rcases hletter with h | h <;> rw [h] <;> decide

theorem isPublic_iff (h : Watch u s r) : isPublic u s ↔ yesNo (col r 6) = bytes "Y" := by
  rw [isPublic, h.rowOf_eq]
  simp

/-- **A user stays hidden only as long as nobody else is saved**: over any run of saving and
deleting others, a user who is not displayed to others stays so all the time if and only if no form
is accepted. -/
theorem private_run_iff (h : Watch u s r) (hfits : Meets (step lim) (Fits lim u) s es)
    (hprivate : ¬isPublic u s) :
    (∀ es', es' <+: es → ¬isPublic u (run (step lim) s es')) ↔
      Meets (step lim) (fun s e => e.saves lim s = false) s es := by
  have hinv : (∃ r, Watch u s r) ∧ ¬isPublic u s := ⟨⟨r, h⟩, hprivate⟩
  refine forall_prefix_iff_meets_of_fits
    (I := fun s => (∃ r, Watch u s r) ∧ ¬isPublic u s) (fun _ hs => hs.2) ?_ ?_ hinv hfits
  · rintro s e ⟨⟨r, h⟩, hprivate⟩ hfits hok
    obtain ⟨r', h', hafter⟩ := watch_step h hfits
    refine ⟨⟨r', h'⟩, ?_⟩
    rw [isPublic_iff h] at hprivate
    rwa [isPublic_iff h', hafter.is_public, hok, if_neg Bool.false_ne_true]
  · rintro s e ⟨⟨r, h⟩, -⟩ hfits hprivate
    obtain ⟨r', h', hafter⟩ := watch_step h hfits
    rw [isPublic_iff h', hafter.is_public] at hprivate
    rw [Bool.eq_false_iff]
    intro hsaves
    rw [if_pos hsaves] at hprivate
    exact hprivate (yesNo_yesNo _)

end Runs

/-- Two users; the first is in two groups and not displayed to others. -/
def twoUsers : State where
  accounts := [⟨bytes "ann", bytes "20971520S"⟩, ⟨bytes "bob", bytes "20971520S"⟩]
  profile := some (bytes
    "ann: : : : :2005-01-01::on leave:sales,board\nbob: : : : :2005-01-01:1::sales")

/-- The form of the second user as it is shown. -/
def bobForm : Form where
  modify := true
  user_id := bytes "bob"
  passwd1 := []
  passwd2 := []
  user_name := bytes "Bob"
  user_unit := bytes " "
  user_department := bytes " "
  user_station := bytes " "
  user_id_code := bytes " "
  user_note := []
  user_is_public := true
  user_box_size := bytes "20"
  groups := bytes "sales"

/-- Saving it. -/
def saveBob : List Event := [.save bobForm (bytes "2005-06-01") {}]

theorem watch_ann : Watch (bytes "ann") twoUsers [bytes "ann", bytes " ", bytes " ", bytes " ",
    bytes " ", bytes "2005-01-01", [], bytes "on leave", bytes "sales,board\n"] where
  name := by decide
  account := by decide
  names := by decide
  nodup := by decide
  rows := by decide
  head := by decide
  flag := by decide

theorem fits_saveBob : Meets (step ⟨0, 0⟩) (Fits ⟨0, 0⟩ (bytes "ann")) twoUsers saveBob :=
  ⟨⟨by unfold Event.About; decide, by decide⟩, trivial⟩

theorem saves_saveBob :
    (Event.save bobForm (bytes "2005-06-01") {}).saves ⟨0, 0⟩ twoUsers = true := by
  decide

/-- The note of the first user is still there. -/
theorem column_run_ann :
    column (bytes "ann") (run (step ⟨0, 0⟩) twoUsers saveBob) 7 = bytes "on leave" :=
  (column_run watch_ann fits_saveBob (by decide) (by decide)).trans (by decide)

/-- The first user gets no mails to a group any more. -/
theorem member_run_iff_ann :
    ¬∀ es', es' <+: saveBob →
      receives (bytes "board") (bytes "ann") (run (step ⟨0, 0⟩) twoUsers es') = true := by
  rw [member_run_iff watch_ann fits_saveBob (by decide) (by decide) (by decide) (by decide)]
  rintro ⟨⟨-, hgroups⟩, -⟩
  exact absurd (hgroups saves_saveBob) (by decide)

/-- The first user is displayed to others. -/
theorem private_run_iff_ann :
    ¬∀ es', es' <+: saveBob →
      ¬isPublic (bytes "ann") (run (step ⟨0, 0⟩) twoUsers es') := by
  have hprivate : ¬isPublic (bytes "ann") twoUsers := by
    rw [isPublic_iff watch_ann]
    decide
  rw [private_run_iff watch_ann fits_saveBob hprivate]
  rintro ⟨hrefused, -⟩
  exact absurd (saves_saveBob.symm.trans hrefused) (by decide)

end NoSpam.Admin.UserList
