import Mathlib.Data.Int.Bitwise
import NoSpam.Base.Assoc
import NoSpam.Base.Columns
import NoSpam.Base.Php

/-!
# The configuration file

`ConfFile` of `classes.ns` keeps an array of sections, each with its parameters, and writes it as
lines `key=value` under headers `[section]`.  The reader goes by the first `=` of a trimmed line,
and takes lines that begin with `#` for comments and lines in brackets for headers.  What is written
is read back (`lookup_parseIni_iniText`): the section without a name comes first, and the trimming
of the whole text takes away only what the reader would not see (`parseIni_trim`).
-/

namespace NoSpam.Admin

open Text Php

/-! ## Permissions -/

def PERM_ADMIN_WRITE : ℤ := 0x00000004

/-- `havePerm`. -/
def havePerm (privilidge : Bytes) (PermVal : ℤ) : Bool := (intval privilidge).land PermVal ≠ 0

/-- `adminPerm`: nobody has a permission before `$Privilege` is set. -/
def adminPerm (Privilege : Option Bytes) (PermVal : ℤ) : Bool :=
  match Privilege with
  | some privilidge => havePerm privilidge PermVal
  | none => false

/-! ## Parameters -/

namespace ConfFile

/-- Sections, each with its parameters. -/
abbrev Params := Assoc Bytes (Assoc Bytes Bytes)

/-- The parameters of a section, none if it does not exist. -/
def sect (params : Params) (sec : Bytes) : Assoc Bytes Bytes :=
  (params.lookup sec).getD Assoc.empty

/-- `$params[$section][$key] = $value`. -/
def assign (params : Params) (sec key value : Bytes) : Params :=
  params.put sec ((sect params sec).put key value)

/-- The value of a parameter. -/
def param (params : Params) (sec key : Bytes) : Option Bytes :=
  (params.lookup sec).bind fun values => values.lookup key

/-- `getParam`. -/
def getParam (params : Params) (key sec : Bytes) : Bytes :=
  match params.lookup sec with
  | none => []
  | some values => (values.lookup key).getD []

/-- `setParam`, without the log. -/
def setParam (params : Params) (key value sec : Bytes) : Params :=
  let params : Params :=
    if (params.lookup sec).isNone then params.put sec Assoc.empty else params
  assign params sec key value

/-- `delParam`, without the log. -/
def delParam (params : Params) (key sec : Bytes) : Params :=
  match params.lookup sec with
  | none => params
  | some values => params.put sec (values.unset key)

/-! ## Reading -/

/-- The header of a section. -/
def isHeader (line : Bytes) : Bool := line.head? = some 91 ∧ line.getLast? = some 93

/-- `strpos`; what is not found counts as zero. -/
def strpos (c : UInt8) (b : Bytes) : ℕ := if c ∈ b then b.idxOf c else 0

/-- One round of the loop of `parse_ini`: `$sec_name` and `$ini_array` after a line. -/
def readIni (s : Bytes × Params) (line : Bytes) : Bytes × Params :=
  let line := trim line
  if line = [] ∨ line.head? = some 35 then s
  else if isHeader line then (trim ((line.drop 1).take (line.length - 2)), s.2)
  else
    let pos := strpos 61 line
    (s.1, assign s.2 s.1 (trim (line.take pos)) (trim (line.drop (pos + 1))))

/-- The loop over a text. -/
def readText (s : Bytes × Params) (text : Bytes) : Bytes × Params := (lines 10 text).foldl readIni s

/-- `parse_ini`, with the sections. -/
def parseIni (text : Bytes) : Params := (readText ([], Assoc.empty) text).2

/-! ## Writing -/

/-- `"$key=$value\n"`. -/
def row (e : Bytes × Bytes) : Bytes := e.1 ++ 61 :: (e.2 ++ [10])

/-- The lines of some parameters. -/
def rows (values : List (Bytes × Bytes)) : Bytes := values.flatMap row

/-- A section with its header. -/
def block (e : Bytes × Assoc Bytes Bytes) : Bytes :=
  91 :: (e.1 ++ 93 :: 10 :: (rows e.2.entries ++ [10]))

/-- The text of an array of parameters, before it is trimmed. -/
def iniText (params : Params) : Bytes :=
  let str := rows (sect params []).entries
  let str := if str ≠ [] then str ++ [10] else str
  str ++ (params.unset []).entries.flatMap block

/-- `save`: what the file holds afterwards. -/
def save (Privilege : Option Bytes) (params : Params) (file : Bytes) : Bytes :=
  if !adminPerm Privilege PERM_ADMIN_WRITE then file else trim (iniText params)

/-! ## Trimming the text -/

theorem readIni_of_trim_eq {line line' : Bytes} (h : trim line = trim line')
    (s : Bytes × Params) : readIni s line = readIni s line' := by
  rw [readIni, readIni, h]

theorem readIni_of_trim_eq_nil {line : Bytes} (h : trim line = []) (s : Bytes × Params) :
    readIni s line = s := by
  rw [readIni, h]
  exact if_pos (Or.inl rfl)

theorem readText_cons {c : UInt8} (h : isTrim c = true) (s : Bytes × Params) (text : Bytes) :
    readText s (c :: text) = readText s text := by
  by_cases hc : c = 10
  · rw [readText, lines, if_pos hc, List.foldl_cons, readIni_of_trim_eq_nil (trim_singleton h)]
    rfl
  · rw [readText, readText, lines_cons_of_ne hc]
    cases lines 10 text with
    | nil => exact readIni_of_trim_eq_nil (trim_singleton h) s
    | cons f fs =>
      rw [List.foldl_cons, List.foldl_cons]
      exact congrArg (fs.foldl readIni) (readIni_of_trim_eq (trim_cons h f) s)

theorem readText_concat {c : UInt8} (h : isTrim c = true) (s : Bytes × Params) (text : Bytes) :
    readText s (text ++ [c]) = readText s text := by
  rw [readText, readText]
  rcases lines_append_singleton 10 c text with hl | ⟨fs, f, hl, hl'⟩
  · rw [hl, List.foldl_append]
    exact readIni_of_trim_eq_nil (trim_singleton h) _
  · rw [hl, hl', List.foldl_append, List.foldl_append]
    exact readIni_of_trim_eq (trim_concat h f) _

theorem readText_rtrim (s : Bytes × Params) (text : Bytes) :
    readText s (rtrim text) = readText s text := by
  induction text using List.reverseRecOn with
  | nil => rfl
  | append_singleton text c ih =>
    by_cases hc : isTrim c = true
    · rw [rtrim_concat hc, ih, readText_concat hc]
    · rw [rtrim, List.rdropWhile_concat_neg isTrim text c hc]

theorem readText_dropWhile (s : Bytes × Params) (text : Bytes) :
    readText s (text.dropWhile isTrim) = readText s text := by
  induction text with
  | nil => rfl
  | cons c text ih =>
    by_cases hc : isTrim c = true
    · rw [List.dropWhile_cons_of_pos hc, ih, readText_cons hc]
    · rw [List.dropWhile_cons_of_neg hc]

/-- The reader does not see what `trim` takes away. -/
theorem parseIni_trim (text : Bytes) : parseIni (trim text) = parseIni text := by
  rw [parseIni, parseIni, trim, readText_dropWhile, readText_rtrim]

/-! ## Reading what was written -/

/-- A trimmed text on one line: a name of a section, or a value. -/
def IsLine (b : Bytes) : Prop := trim b = b ∧ 10 ∉ b

/-- A key that can be told from a comment, from a header and from its value. -/
structure IsKey (key : Bytes) : Prop where
  isLine : IsLine key
  ne_nil : key ≠ []
  eq_not_mem : 61 ∉ key
  not_comment : key.head? ≠ some 35
  not_header : key.head? ≠ some 91

instance (b : Bytes) : Decidable (IsLine b) := inferInstanceAs (Decidable (_ ∧ _))

instance (key : Bytes) : Decidable (IsKey key) :=
  decidable_of_iff
    (IsLine key ∧ key ≠ [] ∧ 61 ∉ key ∧ key.head? ≠ some 35 ∧ key.head? ≠ some 91)
    ⟨fun ⟨h₁, h₂, h₃, h₄, h₅⟩ => ⟨h₁, h₂, h₃, h₄, h₅⟩,
      fun ⟨h₁, h₂, h₃, h₄, h₅⟩ => ⟨h₁, h₂, h₃, h₄, h₅⟩⟩

/-- A key and a value whose row is read back. -/
structure IsRow (key value : Bytes) : Prop where
  key_isLine : IsLine key
  value_isLine : IsLine value
  eq_not_mem : 61 ∉ key
  not_comment : key.head? ≠ some 35
  not_header : isHeader (key ++ 61 :: value) = false

instance (key value : Bytes) : Decidable (IsRow key value) :=
  decidable_of_iff
    (IsLine key ∧ IsLine value ∧ 61 ∉ key ∧ key.head? ≠ some 35 ∧
      isHeader (key ++ 61 :: value) = false)
    ⟨fun ⟨h₁, h₂, h₃, h₄, h₅⟩ => ⟨h₁, h₂, h₃, h₄, h₅⟩,
      fun ⟨h₁, h₂, h₃, h₄, h₅⟩ => ⟨h₁, h₂, h₃, h₄, h₅⟩⟩

theorem IsKey.isRow {key value : Bytes} (hk : IsKey key) (hv : IsLine value) :
    IsRow key value := by
  refine ⟨hk.isLine, hv, hk.eq_not_mem, hk.not_comment, decide_eq_false fun h => ?_⟩
  obtain ⟨c, key', rfl⟩ := List.exists_cons_of_ne_nil hk.ne_nil
  exact hk.not_header h.1

/-- Keys and values that fit on their lines. -/
def IsSection (values : Assoc Bytes Bytes) : Prop :=
  ∀ e ∈ values.entries, IsKey e.1 ∧ IsLine e.2

/-- Names, keys and values that fit on their lines. -/
def IsParams (params : Params) : Prop := ∀ e ∈ params.entries, IsLine e.1 ∧ IsSection e.2

instance (values : Assoc Bytes Bytes) : Decidable (IsSection values) :=
  inferInstanceAs (Decidable (∀ e ∈ values.entries, IsKey e.1 ∧ IsLine e.2))

instance (params : Params) : Decidable (IsParams params) :=
  inferInstanceAs (Decidable (∀ e ∈ params.entries, IsLine e.1 ∧ IsSection e.2))

/-- Parameters whose rows are read back. -/
def AreRows (values : Assoc Bytes Bytes) : Prop := ∀ e ∈ values.entries, IsRow e.1 e.2

/-- Sections whose headers and rows are read back. -/
def IsConf (params : Params) : Prop := ∀ e ∈ params.entries, IsLine e.1 ∧ AreRows e.2

instance (values : Assoc Bytes Bytes) : Decidable (AreRows values) :=
  inferInstanceAs (Decidable (∀ e ∈ values.entries, IsRow e.1 e.2))

instance (params : Params) : Decidable (IsConf params) :=
  inferInstanceAs (Decidable (∀ e ∈ params.entries, IsLine e.1 ∧ AreRows e.2))

theorem IsParams.isConf {params : Params} (h : IsParams params) : IsConf params := fun e he =>
  ⟨(h e he).1, fun r hr => ((h e he).2 r hr).1.isRow ((h e he).2 r hr).2⟩

theorem readText_line {line : Bytes} (h : 10 ∉ line) (s : Bytes × Params) (text : Bytes) :
    readText s (line ++ 10 :: text) = readText (readIni s line) text := by
  rw [readText, lines_append_cons h, List.foldl_cons,
    readIni_of_trim_eq (trim_concat rfl line) s]
  rfl

theorem readIni_split {line key value : Bytes} (htrim : trim line = key ++ 61 :: value)
    (heq : 61 ∉ key) (hcomment : key.head? ≠ some 35)
    (hheader : isHeader (key ++ 61 :: value) = false) (s : Bytes × Params) :
    readIni s line = (s.1, assign s.2 s.1 (trim key) (trim value)) := by
  have hskip : ¬(key ++ 61 :: value = [] ∨ (key ++ 61 :: value).head? = some 35) := by
    cases key with
    | nil => simp
    | cons c key => simpa using hcomment
  have hheader : ¬isHeader (key ++ 61 :: value) = true := by simp [hheader]
  have hpos : strpos 61 (key ++ 61 :: value) = key.length := by
    rw [strpos, if_pos (by simp), List.idxOf_append_of_notMem heq, List.idxOf_cons_self,
      Nat.add_zero]
  have hdrop : (key ++ 61 :: value).drop (key.length + 1) = value := by
    rw [List.drop_append]
    simp
  rw [readIni, htrim]
  simp only [if_neg hskip, if_neg hheader, hpos, List.take_left', hdrop]

theorem readIni_row {key value : Bytes} (h : IsRow key value) (s : Bytes × Params) :
    readIni s (key ++ 61 :: value) = (s.1, assign s.2 s.1 key value) := by
  have htrim := trim_append_cons (c := 61) rfl h.key_isLine.1 h.value_isLine.1
  rw [readIni_split htrim h.eq_not_mem h.not_comment h.not_header, h.key_isLine.1,
    h.value_isLine.1]

theorem readIni_header {sec : Bytes} (h : IsLine sec) (s : Bytes × Params) :
    readIni s (91 :: (sec ++ [93])) = (sec, s.2) := by
  have htrim : trim (91 :: (sec ++ [93])) = 91 :: (sec ++ [93]) := by
    have hend : trim (sec ++ [93]) = sec ++ [93] := trim_append_cons rfl h.1 rfl
    exact trim_append_cons (c := 91) (b := []) rfl rfl hend
  have hlast : (91 :: (sec ++ [93])).getLast? = some 93 := by
    rw [← List.cons_append, List.getLast?_concat]
  have hheader : isHeader (91 :: (sec ++ [93])) = true := decide_eq_true ⟨rfl, hlast⟩
  have hname : ((91 :: (sec ++ [93])).drop 1).take ((91 :: (sec ++ [93])).length - 2) = sec := by
    simp
  rw [readIni, htrim]
  simp only [hheader, hname, h.1]
  simp

/-- Parameters assigned one after the other. -/
def assignAll (m : Params) (sec : Bytes) (values : List (Bytes × Bytes)) : Params :=
  values.foldl (fun m e => assign m sec e.1 e.2) m

theorem rows_cons_append (e : Bytes × Bytes) (values : List (Bytes × Bytes)) (text : Bytes) :
    rows (e :: values) ++ text = (e.1 ++ 61 :: e.2) ++ 10 :: (rows values ++ text) := by
  simp [rows, row]

theorem newline_not_mem_row {key value : Bytes} (hkey : IsLine key) (hvalue : 10 ∉ value) :
    10 ∉ key ++ 61 :: value := by
  rw [List.mem_append, List.mem_cons]
  rintro (hmem | hmem | hmem)
  · exact hkey.2 hmem
  · cases hmem
  · exact hvalue hmem

theorem readText_rows {values : List (Bytes × Bytes)} (h : ∀ e ∈ values, IsRow e.1 e.2)
    (s : Bytes × Params) (text : Bytes) :
    readText s (rows values ++ text) = readText (s.1, assignAll s.2 s.1 values) text := by
  induction values generalizing s with
  | nil => rfl
  | cons e values ih =>
    obtain ⟨he, hvalues⟩ := List.forall_mem_cons.1 h
    rw [rows_cons_append, readText_line (newline_not_mem_row he.key_isLine he.value_isLine.2),
      readIni_row he, ih hvalues]
    rfl

theorem readText_blank (s : Bytes × Params) (text : Bytes) :
    readText s (10 :: text) = readText s text := readText_cons rfl s text

theorem block_append (e : Bytes × Assoc Bytes Bytes) (text : Bytes) :
    block e ++ text = (91 :: (e.1 ++ [93])) ++ 10 :: (rows e.2.entries ++ 10 :: text) := by
  simp [block]

theorem newline_not_mem_header {sec : Bytes} (h : IsLine sec) : 10 ∉ 91 :: (sec ++ [93]) := by
  rw [List.mem_cons, List.mem_append, List.mem_singleton]
  rintro (hmem | hmem | hmem)
  · cases hmem
  · exact h.2 hmem
  · cases hmem

theorem readText_block {e : Bytes × Assoc Bytes Bytes} (he : IsLine e.1) (hvalues : AreRows e.2)
    (s : Bytes × Params) (text : Bytes) :
    readText s (block e ++ text) = readText (e.1, assignAll s.2 e.1 e.2.entries) text := by
  rw [block_append, readText_line (newline_not_mem_header he), readIni_header he,
    readText_rows hvalues, readText_blank]

theorem readText_blocks {es : List (Bytes × Assoc Bytes Bytes)}
    (h : ∀ e ∈ es, IsLine e.1 ∧ AreRows e.2) (s : Bytes × Params) :
    (readText s (es.flatMap block)).2 =
      es.foldl (fun m e => assignAll m e.1 e.2.entries) s.2 := by
  induction es generalizing s with
  | nil => rfl
  | cons e es ih =>
    obtain ⟨he, hes⟩ := List.forall_mem_cons.1 h
    rw [List.flatMap_cons, readText_block he.1 he.2, ih hes]
    rfl

/-! ## What was read -/

theorem head?_trim {b b' : Bytes} (h : trim (b ++ b') = b ++ b') :
    trim b = [] ∨ (trim b).head? = (b ++ b').head? := by
  cases b with
  | nil => exact Or.inl rfl
  | cons c b =>
    have hc : isTrim c = false := isTrim_head_of_trim h
    have hr : rtrim (c :: b) = c :: rtrim b := rtrim_append_cons hc [] b
    rw [trim, hr, List.dropWhile_cons_of_neg (by simp [hc])]
    exact Or.inr rfl

theorem getLast?_trim {b b' : Bytes} (h : trim (b ++ b') = b ++ b') :
    trim b' = [] ∨ (trim b').getLast? = (b ++ b').getLast? := by
  rcases b'.eq_nil_or_concat' with rfl | ⟨b', d, rfl⟩
  · exact Or.inl rfl
  · have hd : ¬isTrim d = true := by
      intro hd
      have hlen := congrArg List.length (rtrim_eq_self_of_trim h)
      rw [← List.append_assoc, rtrim_concat hd] at hlen
      have hle := (isPrefix_rtrim (b ++ b')).length_le
      simp only [List.length_append, List.length_singleton] at hlen hle
      omega
    have hsplit : (b' ++ [d]).takeWhile isTrim ++ (b' ++ [d]).dropWhile isTrim = b' ++ [d] :=
      List.takeWhile_append_dropWhile
    rw [trim, rtrim, List.rdropWhile_concat_neg isTrim b' d hd, ← List.append_assoc,
      List.getLast?_concat]
    rcases Decidable.em ((b' ++ [d]).dropWhile isTrim = []) with hnil | hne
    · exact Or.inl hnil
    · refine Or.inr ?_
      rw [← List.getLast?_append_of_ne_nil _ hne, hsplit, List.getLast?_concat]

/-- The two sides of a `=` of a line that is neither a comment nor a header. -/
theorem isRow_trim {t v : Bytes} (htrim : trim (t ++ 61 :: v) = t ++ 61 :: v)
    (hnl : 10 ∉ t ++ 61 :: v) (heq : 61 ∉ t) (hcomment : (t ++ 61 :: v).head? ≠ some 35)
    (hheader : isHeader (t ++ 61 :: v) = false) : IsRow (trim t) (trim v) := by
  have hhead := head?_trim htrim
  have hlast : trim v = [] ∨ (trim v).getLast? = (t ++ 61 :: v).getLast? := by
    rw [List.append_cons] at htrim ⊢
    exact getLast?_trim htrim
  refine ⟨⟨trim_trim t, fun h => hnl ?_⟩, ⟨trim_trim v, fun h => hnl ?_⟩,
    fun h => heq (mem_of_mem_trim h), ?_, decide_eq_false fun h => ?_⟩
  · exact List.mem_append_left _ (mem_of_mem_trim h)
  · exact List.mem_append_right _ (List.mem_cons_of_mem _ (mem_of_mem_trim h))
  · rcases hhead with hnil | hhead
    · simp [hnil]
    · rwa [hhead]
  · refine of_decide_eq_false hheader ⟨?_, ?_⟩
    · rcases hhead with hnil | hhead
      · simp [hnil] at h
      · have hne : trim t ≠ [] := by
          rintro hnil
          simp [hnil] at h
        rw [← hhead, ← h.1, List.head?_append_of_ne_nil _ hne]
    · rcases hlast with hnil | hlast
      · simp [hnil] at h
      · have hne : trim v ≠ [] := by
          rintro hnil
          simp [hnil] at h
        rw [← hlast, ← h.2, List.append_cons, List.getLast?_append_of_ne_nil _ hne]

theorem isRow_nil {value : Bytes} (h : IsLine value) : IsRow [] value :=
  ⟨⟨rfl, List.not_mem_nil⟩, h, List.not_mem_nil, by simp, decide_eq_false fun h => by simp at h⟩

theorem isLine_trim {b : Bytes} (h : 10 ∉ b) : IsLine (trim b) :=
  ⟨trim_trim b, fun hmem => h (mem_of_mem_trim hmem)⟩

/-! ## The sections come back -/

/-- There are parameters in a section. -/
def inhabited (values : Assoc Bytes Bytes) : Bool := values.entries ≠ []

theorem sect_put (m : Params) (sec : Bytes) (values : Assoc Bytes Bytes) :
    sect (m.put sec values) sec = values := by
  rw [sect, Assoc.lookup_put, if_pos rfl, Option.getD_some]

theorem assignAll_eq (m : Params) (sec : Bytes) (l : List (Bytes × Bytes)) :
    assignAll m sec l =
      if l = [] then m else m.put sec (l.foldl (fun m e => m.put e.1 e.2) (sect m sec)) := by
  induction l generalizing m with
  | nil => rfl
  | cons e l ih =>
    rw [assignAll, List.foldl_cons, ← assignAll, ih, if_neg (List.cons_ne_nil e l), assign,
      sect_put, Assoc.put_put]
    split_ifs with hl
    · rw [hl]
      rfl
    · rfl

theorem lookup_assignAll {m : Params} {sec : Bytes} (h : m.lookup sec = none)
    (values : Assoc Bytes Bytes) (s : Bytes) :
    (assignAll m sec values.entries).lookup s =
      if s = sec then (some values).filter inhabited else m.lookup s := by
  have hsect : sect m sec = Assoc.empty := by rw [sect, h, Option.getD_none]
  have hvalues := Assoc.ofList_entries values
  rw [Assoc.ofList] at hvalues
  rw [assignAll_eq, hsect, hvalues]
  by_cases hv : values.entries = []
  · have hempty : ¬inhabited values = true := by simp [inhabited, hv]
    rw [if_pos hv, Option.filter_some, if_neg hempty]
    split_ifs with hs
    · rw [hs, h]
    · rfl
  · have hin : inhabited values = true := by simp [inhabited, hv]
    rw [if_neg hv, Assoc.lookup_put, Option.filter_some, if_pos hin]

theorem lookup_foldl_assignAll {es : List (Bytes × Assoc Bytes Bytes)}
    (hes : (es.map Prod.fst).Nodup) {m : Params} (h : ∀ e ∈ es, m.lookup e.1 = none) (s : Bytes) :
    (es.foldl (fun m e => assignAll m e.1 e.2.entries) m).lookup s =
      ((Assoc.find s es).filter inhabited).or (m.lookup s) := by
  induction es generalizing m with
  | nil => rfl
  | cons e es ih =>
    obtain ⟨hnot, hnodup⟩ := List.nodup_cons.1 hes
    obtain ⟨he, hfresh⟩ := List.forall_mem_cons.1 h
    have hkeep : ∀ e' ∈ es, (assignAll m e.1 e.2.entries).lookup e'.1 = none := by
      intro e' he'
      have hne : e'.1 ≠ e.1 := by
        intro hk
        exact hnot (hk ▸ List.mem_map_of_mem he')
      rw [lookup_assignAll he, if_neg hne]
      exact hfresh e' he'
    rw [List.foldl_cons, ih hnodup hkeep, lookup_assignAll he, Assoc.find]
    by_cases hs : e.1 = s
    · have hnone : Assoc.find s es = none := by
        refine Assoc.find_eq_none_iff.2 fun e' he' hk => ?_
        exact hnot ((hs.trans hk.symm) ▸ List.mem_map_of_mem he')
      rw [if_pos hs, if_pos hs.symm, hnone, ← hs, he, Option.or_none]
      rfl
    · rw [if_neg hs, if_neg (Ne.symm hs)]

theorem areRows_sect {params : Params} (h : IsConf params) (sec : Bytes) :
    AreRows (sect params sec) := by
  rw [sect]
  cases hl : params.lookup sec with
  | none => exact fun e he => absurd he List.not_mem_nil
  | some values => exact (h _ (Assoc.mem_entries_iff.2 hl)).2

theorem parseIni_iniText {params : Params} (h : IsConf params) :
    parseIni (iniText params) =
      (params.unset []).entries.foldl (fun m e => assignAll m e.1 e.2.entries)
        (assignAll Assoc.empty [] (sect params []).entries) := by
  have hrest : ∀ e ∈ (params.unset []).entries, IsLine e.1 ∧ AreRows e.2 := fun e he =>
    h e (List.mem_of_mem_filter he)
  have hfirst := fun text => readText_rows (areRows_sect h []) ([], Assoc.empty) text
  rw [parseIni, iniText]
  by_cases hstr : rows (sect params []).entries = []
  · have hnil := hfirst ((params.unset []).entries.flatMap block)
    rw [hstr, List.nil_append] at hnil
    simp only [hstr, ne_eq, not_true_eq_false, if_false, List.nil_append]
    rw [hnil, readText_blocks hrest]
  · simp only [ne_eq, hstr, not_false_eq_true, if_true]
    rw [List.append_assoc, hfirst, List.singleton_append, readText_blank, readText_blocks hrest]

/-- **What is written is read back.**  The sections that have parameters come back with the same
parameters in the same order. -/
theorem lookup_parseIni_iniText {params : Params} (h : IsConf params) (s : Bytes) :
    (parseIni (iniText params)).lookup s = (params.lookup s).filter inhabited := by
  have hfirst := lookup_assignAll (Assoc.lookup_empty []) (sect params [])
  have hfresh : ∀ e ∈ (params.unset []).entries,
      (assignAll Assoc.empty [] (sect params []).entries).lookup e.1 = none := by
    intro e he
    have hne : e.1 ≠ [] := by simpa using (List.mem_filter.1 he).2
    rw [hfirst, if_neg hne, Assoc.lookup_empty]
  have hrest : Assoc.find s (params.unset []).entries = _ := Assoc.lookup_unset params [] s
  rw [parseIni_iniText h, lookup_foldl_assignAll (params.unset []).nodup hfresh, hrest, hfirst]
  by_cases hs : s = []
  · rw [if_pos hs, if_pos hs, hs, sect]
    cases params.lookup [] <;> rfl
  · rw [if_neg hs, if_neg hs, Assoc.lookup_empty, Option.or_none]

theorem save_of_adminPerm {Privilege : Option Bytes}
    (h : adminPerm Privilege PERM_ADMIN_WRITE = true) (params : Params) (file : Bytes) :
    save Privilege params file = trim (iniText params) := by
  rw [save, h]
  rfl

theorem param_filter (params : Option (Assoc Bytes Bytes)) (k : Bytes) :
    ((params.filter inhabited).bind fun values => values.lookup k) =
      params.bind fun values => values.lookup k := by
  cases params with
  | none => rfl
  | some values =>
    rw [Option.filter_some]
    split_ifs with hv
    · rfl
    · have hempty : values.entries = [] := by simpa [inhabited] using hv
      rw [Option.bind_none, Option.bind_some, Assoc.lookup, hempty]
      rfl

theorem param_parseIni_iniText {params : Params} (h : IsConf params) (s k : Bytes) :
    param (parseIni (iniText params)) s k = param params s k := by
  rw [param, lookup_parseIni_iniText h, param_filter]
  rfl

/-! ## Setting a parameter -/

theorem setParam_eq (params : Params) (key value sec : Bytes) :
    setParam params key value sec = assign params sec key value := by
  rw [setParam]
  cases hl : params.lookup sec with
  | none =>
    simp only [Option.isNone_none, if_true]
    rw [assign, assign, sect_put, Assoc.put_put, sect, hl, Option.getD_none]
  | some values => rfl

theorem lookup_sect (params : Params) (sec key : Bytes) :
    (sect params sec).lookup key = param params sec key := by
  rw [sect, param]
  cases params.lookup sec <;> rfl

theorem param_setParam (params : Params) (key value sec s k : Bytes) :
    param (setParam params key value sec) s k =
      if s = sec ∧ k = key then some value else param params s k := by
  rw [setParam_eq, assign, param, Assoc.lookup_put]
  by_cases hs : s = sec
  · rw [if_pos hs, Option.bind_some, Assoc.lookup_put, lookup_sect, hs]
    by_cases hk : k = key
    · rw [if_pos hk, if_pos ⟨rfl, hk⟩]
    · rw [if_neg hk, if_neg fun h => hk h.2]
  · rw [if_neg hs, if_neg fun h => hs h.1]
    rfl

theorem isConf_put {params : Params} (h : IsConf params) {sec : Bytes} {values : Assoc Bytes Bytes}
    (hsec : IsLine sec) (hvalues : AreRows values) : IsConf (params.put sec values) :=
  Assoc.forall_mem_put h ⟨hsec, hvalues⟩

theorem isConf_assign {params : Params} (h : IsConf params) {sec key value : Bytes}
    (hsec : IsLine sec) (hrow : IsRow key value) : IsConf (assign params sec key value) :=
  isConf_put h hsec (Assoc.forall_mem_put (areRows_sect h sec) hrow)

theorem isConf_setParam {params : Params} (h : IsConf params) {key value sec : Bytes}
    (hsec : IsLine sec) (hrow : IsRow key value) : IsConf (setParam params key value sec) := by
  rw [setParam_eq]
  exact isConf_assign h hsec hrow

theorem isConf_delParam {params : Params} (h : IsConf params) (key sec : Bytes) :
    IsConf (delParam params key sec) := by
  rw [delParam]
  cases hl : params.lookup sec with
  | none => exact h
  | some values =>
    obtain ⟨hsec, hrows⟩ := h _ (Assoc.mem_entries_iff.2 hl)
    exact isConf_put h hsec fun e he => hrows e (List.mem_of_mem_filter he)

theorem param_delParam (params : Params) (key sec s k : Bytes) :
    param (delParam params key sec) s k =
      if s = sec ∧ k = key then none else param params s k := by
  rw [delParam, param, param]
  cases hl : params.lookup sec with
  | none =>
    split_ifs with h
    · rw [h.1, hl, Option.bind_none]
    · rfl
  | some values =>
    simp only [Assoc.lookup_put]
    by_cases hs : s = sec
    · rw [if_pos hs, Option.bind_some, Assoc.lookup_unset, hs, hl, Option.bind_some]
      by_cases hk : k = key
      · rw [if_pos hk, if_pos ⟨rfl, hk⟩]
      · rw [if_neg hk, if_neg fun h => hk h.2]
    · rw [if_neg hs, if_neg fun h => hs h.1]

/-! ## What is loaded can be saved -/

theorem newline_not_mem_trim {l : Bytes} (h : 10 ∉ l.dropLast) : 10 ∉ trim l := by
  rcases l.eq_nil_or_concat' with rfl | ⟨l, d, rfl⟩
  · exact List.not_mem_nil
  · rw [List.dropLast_concat] at h
    by_cases hd : isTrim d = true
    · rw [trim_concat hd]
      exact fun hmem => h (mem_of_mem_trim hmem)
    · intro hmem
      rcases List.mem_append.1 (mem_of_mem_trim hmem) with hmem | hmem
      · exact h hmem
      · rw [← List.mem_singleton.1 hmem] at hd
        exact hd rfl

theorem isConf_readIni {s : Bytes × Params} (h : IsLine s.1 ∧ IsConf s.2) {line : Bytes}
    (hnl : 10 ∉ trim line) : IsLine (readIni s line).1 ∧ IsConf (readIni s line).2 := by
  rw [readIni]
  simp only
  split_ifs with hskip hheader
  · exact h
  · refine ⟨isLine_trim fun hmem => hnl ?_, h.2⟩
    exact List.mem_of_mem_drop (List.mem_of_mem_take hmem)
  · refine ⟨h.1, isConf_assign h.2 h.1 ?_⟩
    rw [strpos]
    split_ifs with heq
    · have hsplit : trim line = (trim line).take ((trim line).idxOf 61) ++
          61 :: (trim line).drop ((trim line).idxOf 61 + 1) := by
        have hlt := List.idxOf_lt_length_of_mem heq
        have hget : (trim line)[(trim line).idxOf 61] = 61 := List.getElem_idxOf hlt
        conv_lhs => rw [← List.take_append_drop ((trim line).idxOf 61) (trim line)]
        rw [List.drop_eq_getElem_cons hlt, hget]
      have hnot : 61 ∉ (trim line).take ((trim line).idxOf 61) := by
        intro hmem
        have hlt := List.mem_take_iff_idxOf_lt heq |>.1 hmem
        exact Nat.lt_irrefl _ hlt
      refine isRow_trim ?_ ?_ hnot ?_ ?_
      all_goals rw [← hsplit]
      · exact trim_trim line
      · exact hnl
      · exact fun h => hskip (Or.inr h)
      · simpa using hheader
    · exact isRow_nil (isLine_trim fun hmem => hnl (List.mem_of_mem_drop hmem))

theorem isConf_foldl_readIni {ls : List Bytes} (hls : ∀ l ∈ ls, 10 ∉ l.dropLast)
    {s : Bytes × Params} (h : IsLine s.1 ∧ IsConf s.2) :
    IsLine (ls.foldl readIni s).1 ∧ IsConf (ls.foldl readIni s).2 := by
  induction ls generalizing s with
  | nil => exact h
  | cons l ls ih =>
    obtain ⟨hl, hls⟩ := List.forall_mem_cons.1 hls
    exact ih hls (isConf_readIni h (newline_not_mem_trim hl))

/-- Whatever a file holds, what is loaded from it can be saved and read back. -/
theorem isConf_parseIni (text : Bytes) : IsConf (parseIni text) := by
  have hempty : IsConf Assoc.empty := fun e he => absurd he List.not_mem_nil
  exact (isConf_foldl_readIni (fun _ => not_mem_dropLast_of_mem_lines)
    ⟨⟨rfl, List.not_mem_nil⟩, hempty⟩).2

/-! ## Values with blanks around them -/

/-- The parameters with trimmed values. -/
def trimmed (params : Params) : Params := params.mapVal (Assoc.mapVal trim)

/-- A key and a value whose row is read back but for the blanks around the value. -/
structure IsEntry (key value : Bytes) : Prop where
  isRow : IsRow key (trim value)
  newline_not_mem : 10 ∉ value

/-- Sections whose headers and rows are read back but for the blanks around the values. -/
def IsLoose (params : Params) : Prop :=
  ∀ e ∈ params.entries, IsLine e.1 ∧ ∀ r ∈ e.2.entries, IsEntry r.1 r.2

theorem IsConf.isLoose {params : Params} (h : IsConf params) : IsLoose params := fun e he =>
  ⟨(h e he).1, fun r hr =>
    have hrow := (h e he).2 r hr
    ⟨hrow.value_isLine.1.symm ▸ hrow, hrow.value_isLine.2⟩⟩

theorem isConf_trimmed {params : Params} (h : IsLoose params) : IsConf (trimmed params) := by
  intro e he
  obtain ⟨e', he', rfl⟩ := List.mem_map.1 he
  refine ⟨(h e' he').1, fun r hr => ?_⟩
  obtain ⟨r', hr', rfl⟩ := List.mem_map.1 hr
  exact ((h e' he').2 r' hr').isRow

theorem getLast?_cons_rtrim (c : UInt8) (b : Bytes) :
    (c :: rtrim b).getLast? = (c :: trim b).getLast? := by
  have hsplit : (rtrim b).takeWhile isTrim ++ trim b = rtrim b := List.takeWhile_append_dropWhile
  rcases Decidable.em (trim b = []) with hnil | hne
  · have hr : rtrim b = [] := by
      by_contra hr
      refine List.rdropWhile_last_not isTrim b hr ?_
      exact List.dropWhile_eq_nil_iff.1 hnil _ (List.getLast_mem hr)
    rw [hr, hnil]
  · rw [← hsplit, ← List.cons_append, List.getLast?_append_of_ne_nil _ hne, ← List.singleton_append,
      List.getLast?_append_of_ne_nil _ hne]

theorem isHeader_rtrim (key value : Bytes) :
    isHeader (key ++ 61 :: rtrim value) = isHeader (key ++ 61 :: trim value) := by
  have hhead : (key ++ 61 :: rtrim value).head? = (key ++ 61 :: trim value).head? := by
    cases key <;> rfl
  have hne : ∀ b : Bytes, (61 : UInt8) :: b ≠ [] := fun b => List.cons_ne_nil 61 b
  rw [isHeader, isHeader, hhead, List.getLast?_append_of_ne_nil _ (hne _),
    List.getLast?_append_of_ne_nil _ (hne _), getLast?_cons_rtrim]

theorem readIni_entry {key value : Bytes} (h : IsEntry key value) (s : Bytes × Params) :
    readIni s (key ++ 61 :: value) = readIni s (key ++ 61 :: trim value) := by
  have hrow := h.isRow
  have htrim : trim (key ++ 61 :: value) = key ++ 61 :: rtrim value := by
    rw [trim, rtrim_append_cons rfl]
    cases key with
    | nil => exact List.dropWhile_cons_of_neg (by simp [isTrim])
    | cons c key =>
      exact List.dropWhile_cons_of_neg (by simp [isTrim_head_of_trim hrow.key_isLine.1])
  have hheader : isHeader (key ++ 61 :: rtrim value) = false := by
    rw [isHeader_rtrim]
    exact hrow.not_header
  rw [readIni_split htrim hrow.eq_not_mem hrow.not_comment hheader, hrow.key_isLine.1, trim_rtrim,
    readIni_row hrow]

theorem readText_entries {values : List (Bytes × Bytes)} (h : ∀ e ∈ values, IsEntry e.1 e.2)
    (s : Bytes × Params) (text : Bytes) :
    readText s (rows values ++ text) =
      readText s (rows (values.map fun e => (e.1, trim e.2)) ++ text) := by
  induction values generalizing s with
  | nil => rfl
  | cons e values ih =>
    obtain ⟨he, hvalues⟩ := List.forall_mem_cons.1 h
    have hkey := he.isRow.key_isLine
    have hvalue := he.isRow.value_isLine.2
    rw [List.map_cons, rows_cons_append, rows_cons_append,
      readText_line (newline_not_mem_row hkey he.newline_not_mem), readIni_entry he, ih hvalues,
      readText_line (newline_not_mem_row hkey hvalue)]

theorem readText_trimmed_blocks {es : List (Bytes × Assoc Bytes Bytes)}
    (h : ∀ e ∈ es, IsLine e.1 ∧ ∀ r ∈ e.2.entries, IsEntry r.1 r.2) (s : Bytes × Params) :
    readText s (es.flatMap block) =
      readText s ((es.map fun e => (e.1, e.2.mapVal trim)).flatMap block) := by
  induction es generalizing s with
  | nil => rfl
  | cons e es ih =>
    obtain ⟨he, hes⟩ := List.forall_mem_cons.1 h
    have hrows : AreRows (e.2.mapVal trim) := by
      intro r hr
      obtain ⟨r', hr', rfl⟩ := List.mem_map.1 hr
      exact (he.2 r' hr').isRow
    rw [List.map_cons, List.flatMap_cons, List.flatMap_cons, block_append,
      readText_line (newline_not_mem_header he.1), readIni_header he.1, readText_entries he.2,
      block_append (e.1, e.2.mapVal trim), readText_line (newline_not_mem_header he.1),
      readIni_header he.1]
    have hmap : (e.2.mapVal trim).entries = e.2.entries.map fun r => (r.1, trim r.2) := rfl
    rw [← hmap, readText_rows hrows, readText_rows hrows, readText_blank, readText_blank, ih hes]

theorem rows_eq_nil_iff {values : List (Bytes × Bytes)} : rows values = [] ↔ values = [] := by
  cases values with
  | nil => simp [rows]
  | cons e values => simp [rows, row]

theorem sect_trimmed (params : Params) (sec : Bytes) :
    sect (trimmed params) sec = (sect params sec).mapVal trim := by
  rw [sect, sect, trimmed, Assoc.lookup_mapVal]
  cases params.lookup sec <;> rfl

theorem isEntry_sect {params : Params} (h : IsLoose params) (sec : Bytes) :
    ∀ e ∈ (sect params sec).entries, IsEntry e.1 e.2 := by
  rw [sect]
  cases hl : params.lookup sec with
  | none => exact fun e he => absurd he List.not_mem_nil
  | some values => exact (h _ (Assoc.mem_entries_iff.2 hl)).2

theorem isLoose_setParam {params : Params} (h : IsLoose params) {key value sec : Bytes}
    (hsec : IsLine sec) (hentry : IsEntry key value) : IsLoose (setParam params key value sec) := by
  rw [setParam_eq]
  exact Assoc.forall_mem_put h ⟨hsec, Assoc.forall_mem_put (isEntry_sect h sec) hentry⟩

theorem isLoose_delParam {params : Params} (h : IsLoose params) (key sec : Bytes) :
    IsLoose (delParam params key sec) := by
  rw [delParam]
  cases hl : params.lookup sec with
  | none => exact h
  | some values =>
    obtain ⟨hsec, hentries⟩ := h _ (Assoc.mem_entries_iff.2 hl)
    exact Assoc.forall_mem_put h ⟨hsec, fun e he => hentries e (List.mem_of_mem_filter he)⟩

/-- Blanks around a value are lost, and nothing else is. -/
theorem parseIni_iniText_trimmed {params : Params} (h : IsLoose params) :
    parseIni (iniText params) = parseIni (iniText (trimmed params)) := by
  have hrest : ∀ e ∈ (params.unset []).entries,
      IsLine e.1 ∧ ∀ r ∈ e.2.entries, IsEntry r.1 r.2 := fun e he => h e (List.mem_of_mem_filter he)
  have hunset : ((trimmed params).unset []).entries =
      (params.unset []).entries.map fun e => (e.1, e.2.mapVal trim) := by
    rw [trimmed, Assoc.unset_mapVal]
    rfl
  have hfirst := readText_entries (isEntry_sect h []) ([], Assoc.empty)
  have hrows := readText_rows (areRows_sect (isConf_trimmed h) []) ([], Assoc.empty)
  have hnil : rows (sect params []).entries = [] ↔
      rows (sect (trimmed params) []).entries = [] := by
    rw [rows_eq_nil_iff, rows_eq_nil_iff, sect_trimmed]
    exact List.map_eq_nil_iff.symm
  rw [parseIni, parseIni, iniText, iniText, hunset]
  rw [sect_trimmed] at hrows hnil ⊢
  have hmap : ((sect params []).mapVal trim).entries =
      (sect params []).entries.map fun r => (r.1, trim r.2) := rfl
  rw [← hmap] at hfirst
  by_cases hstr : rows (sect params []).entries = []
  · simp only [hstr, hnil.1 hstr, ne_eq, not_true_eq_false, if_false, List.nil_append]
    rw [readText_trimmed_blocks hrest]
  · simp only [hstr, mt hnil.2 hstr, ne_eq, not_false_eq_true, if_true]
    rw [List.append_assoc, List.append_assoc, hfirst, hrows, hrows, List.singleton_append,
      List.singleton_append, readText_blank, readText_blank, readText_trimmed_blocks hrest]

/-- What is loaded again in a section. -/
theorem sect_parseIni_iniText {params : Params} (h : IsLoose params) (sec : Bytes) :
    sect (parseIni (iniText params)) sec = (sect params sec).mapVal trim := by
  rw [parseIni_iniText_trimmed h, sect, lookup_parseIni_iniText (isConf_trimmed h), ← sect_trimmed,
    sect]
  cases (trimmed params).lookup sec with
  | none => rfl
  | some values =>
    rw [Option.filter_some]
    split_ifs with hv
    · rfl
    · have hempty : values.entries = [] := by simpa [inhabited] using hv
      exact Assoc.ext hempty.symm

/-- What is loaded is trimmed. -/
theorem sect_parseIni_mapVal_trim (text sec : Bytes) :
    (sect (parseIni text) sec).mapVal trim = sect (parseIni text) sec := by
  rw [Assoc.mapVal_eq_self_iff]
  exact fun e he => (areRows_sect (isConf_parseIni text) sec e he).value_isLine.1

/-! ## Loading what was saved -/

/-- **Nothing is lost.**  What a caller who may write saves is loaded again: every section that has
parameters, with all of them, and no other.  A parameter that was set before the file is saved
changes what is loaded at its section and key only. -/
theorem lookup_parseIni_save {Privilege : Option Bytes}
    (hperm : adminPerm Privilege PERM_ADMIN_WRITE = true) {params : Params} (h : IsParams params)
    {sec key value : Bytes} (hsec : IsLine sec) (hkey : IsKey key) (hvalue : IsLine value)
    (file : Bytes) :
    (∀ s, (parseIni (save Privilege params file)).lookup s =
        (params.lookup s).filter inhabited) ∧
      ((∀ e ∈ params.entries, e.2.entries ≠ []) →
        ∀ s, (parseIni (save Privilege params file)).lookup s = params.lookup s) ∧
      ∀ s k, param (parseIni (save Privilege (setParam params key value sec) file)) s k =
        if s = sec ∧ k = key then some value
        else param (parseIni (save Privilege params file)) s k := by
  have hread : ∀ s, (parseIni (save Privilege params file)).lookup s =
      (params.lookup s).filter inhabited := by
    intro s
    rw [save_of_adminPerm hperm, parseIni_trim, lookup_parseIni_iniText h.isConf]
  refine ⟨hread, fun hne s => ?_, fun s k => ?_⟩
  · rw [hread s]
    cases hl : params.lookup s with
    | none => rfl
    | some values =>
      have hin : inhabited values = true :=
        decide_eq_true (hne _ (Assoc.mem_entries_iff.2 hl))
      rw [Option.filter_some, if_pos hin]
  · rw [save_of_adminPerm hperm, save_of_adminPerm hperm, parseIni_trim, parseIni_trim,
      param_parseIni_iniText h.isConf,
      param_parseIni_iniText (isConf_setParam h.isConf hsec (hkey.isRow hvalue)), param_setParam]

/-- A section without a name, and values with the symbols of comments and headers in them. -/
def sampleParams : Params :=
  setParam (setParam (setParam Assoc.empty (bytes "MyDomains") (bytes "a.cn=[b]") (bytes "Spam"))
    (bytes "Note") [] (bytes "Spam")) (bytes "Id") (bytes "#1") []

theorem lookup_parseIni_save_sampleParams :
    (∀ s, (parseIni (save (some (bytes "7")) sampleParams [])).lookup s =
        (sampleParams.lookup s).filter inhabited) ∧
      ((∀ e ∈ sampleParams.entries, e.2.entries ≠ []) →
        ∀ s, (parseIni (save (some (bytes "7")) sampleParams [])).lookup s =
          sampleParams.lookup s) ∧
      ∀ s k, param (parseIni (save (some (bytes "7"))
          (setParam sampleParams (bytes "Note") (bytes "]") (bytes "Spam")) [])) s k =
        if s = bytes "Spam" ∧ k = bytes "Note" then some (bytes "]")
        else param (parseIni (save (some (bytes "7")) sampleParams [])) s k :=
  lookup_parseIni_save (by decide) (by decide) (by decide) (by decide) (by decide) []

end ConfFile

end NoSpam.Admin
