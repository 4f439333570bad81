import Mathlib.Data.Set.Function
import NoSpam.License.Library

/-!
# What the licence library accepts

`accepts_iff` says which files `check_license_file` accepts, for all contents of its arrays.  From
it follow when a licence that was issued is accepted (`accepts_printed`, `issuable_of_accepts`) and
when two accepted files with one checksum have the same text and the line of the machine in it
(`same_text_iff`, `contains_iff`).
-/

namespace NoSpam.Library

open Text CString

/-! ## The text of a digest -/

/-- A symbol that neither ends a string, a line nor a token. -/
def IsPlain (c : UInt8) : Prop := c ≠ 0 ∧ c ≠ 10 ∧ c ≠ 61

instance (c : UInt8) : Decidable (IsPlain c) := inferInstanceAs (Decidable (_ ∧ _))

theorem isPlain_getD {alphabet : Bytes} (h : alphabet.all fun c => decide (IsPlain c)) {n : ℕ}
    (hn : n < alphabet.length) : IsPlain (alphabet.getD n 0) := by
  rw [List.getD_eq_getElem?_getD, List.getElem?_eq_getElem hn, Option.getD_some]
  exact of_decide_eq_true (List.all_eq_true.1 h _ (List.getElem_mem hn))

theorem isPlain_hex16 (digest : Bytes) : ∀ c ∈ hex16 digest, IsPlain c := by
  intro c hc
  obtain ⟨x, -, hx⟩ := List.mem_flatMap.1 hc
  have hlt := x.toNat_lt
  have hlength : hexdigits.length = 16 := by decide
  rcases List.mem_pair.1 hx with rfl | rfl
  · exact isPlain_getD (by decide) (by omega)
  · exact isPlain_getD (by decide) (by omega)

theorem length_hex16 (digest : Bytes) : (hex16 digest).length = 2 * digest.length := by
  induction digest with
  | nil => rfl
  | cons c digest ih =>
    rw [hex16, List.flatMap_cons, List.length_append, ← hex16, ih]
    simp only [List.length_cons, List.length_nil]
    omega

theorem isPlain_base64of16 (digest : Bytes) : ∀ c ∈ base64of16 digest, IsPlain c := by
  have hlength : base64.length = 64 := by decide +kernel
  have hall : base64.all fun c => decide (IsPlain c) := by decide +kernel
  fun_induction base64of16 digest with
  | case1 c1 c2 c3 rest ih =>
    have hlt1 := c1.toNat_lt
    have hlt2 := c2.toNat_lt
    have hlt3 := c3.toNat_lt
    intro c hc
    simp only [List.mem_cons] at hc
    rcases hc with rfl | rfl | rfl | rfl | hc
    · exact isPlain_getD hall (by omega)
    · exact isPlain_getD hall (by omega)
    · exact isPlain_getD hall (by omega)
    · exact isPlain_getD hall (by omega)
    · exact ih c hc
  | case2 c1 =>
    have hlt1 := c1.toNat_lt
    intro c hc
    rcases List.mem_pair.1 hc with rfl | rfl
    · exact isPlain_getD hall (by omega)
    · exact isPlain_getD hall (by omega)
  | case3 => nofun

theorem length_base64of16 (digest : Bytes) :
    digest.length % 3 = 1 → (base64of16 digest).length = digest.length / 3 * 4 + 2 := by
  fun_induction base64of16 digest with
  | case1 c1 c2 c3 rest ih =>
    intro h
    simp only [List.length_cons] at h ⊢
    rw [ih (by omega)]
    omega
  | case2 c1 =>
    intro _
    simp only [List.length_cons, List.length_nil]
  | case3 l hthree hone =>
    intro h
    match l, hthree, hone, h with
    | [c1], _, hone, _ => exact absurd rfl (hone c1)
    | c1 :: c2 :: c3 :: rest, hthree, _, _ => exact absurd rfl (hthree c1 c2 c3 rest)

variable (md5 : Md5)

theorem isPlain_hex (b : Bytes) : ∀ c ∈ md5.hex b, IsPlain c := isPlain_hex16 _

theorem isPlain_base64 (b : Bytes) : ∀ c ∈ md5.base64 b, IsPlain c := isPlain_base64of16 _

theorem length_hex (b : Bytes) : (md5.hex b).length = 32 := by
  rw [Md5.hex, length_hex16, md5.length_digest]

theorem length_base64 (b : Bytes) : (md5.base64 b).length = 22 := by
  have hlength := md5.length_digest b
  rw [Md5.base64, length_base64of16 _ (by omega), hlength]

theorem length_salted (data : Bytes) : (salted data).length = 2 * data.length + 13 := by
  have hzixia : (bytes "zixia").length = 5 := by decide
  have hk12 : (bytes "K12").length = 3 := by decide
  have hwmail : (bytes "wMail").length = 5 := by decide
  simp only [salted, List.length_append, hzixia, hk12, hwmail]
  omega

/-- The text twice between the salts tells the text. -/
theorem salted_injective : Function.Injective salted := by
  intro data data' h
  have hlength := congrArg List.length h
  rw [length_salted, length_salted] at hlength
  exact (List.append_inj (List.append_cancel_left h) (by omega)).1

/-! ## The loop -/

/-- The strings before the line of the checksum. -/
def before (cs : List Bytes) : List Bytes := cs.takeWhile fun c => !isExt c

/-- The last licence number in these strings, or what was there. -/
def licenseIn (p : Option Bytes) (cs : List Bytes) : Option Bytes :=
  cs.foldl (fun p c => (licenseOf c).or p) p

/-- The checksum in the first line for it, or what was there. -/
def extIn (e : Option Bytes) (cs : List Bytes) : Option Bytes :=
  match cs.find? isExt with
  | some c => (tokens 61 c).2.bind (strcpy 128)
  | none => e

/-- The strings fit into the arrays, the first one behind `s`. -/
def Fit (s : Bytes) (t : List Bytes) : Prop :=
  (s ++ t.flatten).length < 32768 ∧ ∀ c ∈ t, ∀ v ∈ licenseOf c, v.length < 128

theorem before_cons_of_isExt {c : Bytes} (h : isExt c = true) (cs : List Bytes) :
    before (c :: cs) = [] := List.takeWhile_cons_of_neg (by simp [h])

theorem before_cons_of_not_isExt {c : Bytes} (h : isExt c = false) (cs : List Bytes) :
    before (c :: cs) = c :: before cs := List.takeWhile_cons_of_pos (by simp [h])

theorem fit_cons_iff {s c : Bytes} {t : List Bytes} :
    Fit s (c :: t) ↔ (∀ v ∈ licenseOf c, v.length < 128) ∧ Fit (s ++ c) t := by
  rw [Fit, Fit, List.forall_mem_cons, List.flatten_cons, List.append_assoc]
  tauto

/-- The loop, from a string in `license_file`: it ends at the first line for the checksum, and what
it has read is in the arrays, if it fits and that line has a value. -/
theorem readLines_eq_some_iff {s : Bytes} (hs : s.length < 32768) (p e : Option Bytes)
    (cs : List Bytes) (r : Reading) :
    readLines ⟨some s, p, e⟩ cs = some r ↔
      Fit s (before cs) ∧ (cs.find? isExt ≠ none → extIn e cs ≠ none) ∧
        r = ⟨some (s ++ (before cs).flatten), licenseIn p (before cs), extIn e cs⟩ := by
  induction cs generalizing s p with
  | nil =>
    rw [readLines, Option.some_inj, extIn, List.find?_nil]
    have hfit : Fit s (before []) := ⟨by simpa [before] using hs, nofun⟩
    have hself : s ++ (before []).flatten = s := List.append_nil s
    rw [hself]
    exact ⟨fun h => ⟨hfit, fun h => absurd rfl h, h.symm⟩, fun h => h.2.2.symm⟩
  | cons c cs ih =>
    rw [readLines]
    by_cases hext : isExt c = true
    · have hfit : Fit s [] := ⟨by simpa using hs, nofun⟩
      rw [if_pos hext, before_cons_of_isExt hext, extIn, List.find?_cons_of_pos hext]
      dsimp only
      cases (tokens 61 c).2.bind (strcpy 128) with
      | none => exact iff_of_false nofun fun h => h.2.1 nofun rfl
      | some ext =>
        rw [Option.map_some, Option.some_inj]
        have hself : s ++ ([] : List Bytes).flatten = s := List.append_nil s
        rw [hself]
        exact ⟨fun h => ⟨hfit, fun _ => nofun, h.symm⟩, fun h => h.2.2.symm⟩
    · have hfind : extIn e (c :: cs) = extIn e cs := by
        rw [extIn, List.find?_cons_of_neg hext, extIn]
      rw [Bool.not_eq_true] at hext
      rw [if_neg (by simp [hext]), hfind, before_cons_of_not_isExt hext,
        List.find?_cons_of_neg (by simp [hext]), fit_cons_iff, strcat_some, List.flatten_cons,
        ← List.append_assoc, licenseIn, List.foldl_cons, ← licenseIn]
      by_cases hroom : (s ++ c).length < 32768
      · rw [strcpy, if_pos hroom, Option.bind_some]
        cases hlicense : licenseOf c with
        | none =>
          rw [Option.none_or]
          dsimp only
          rw [ih hroom]
          simp
        | some v =>
          rw [Option.some_or]
          dsimp only
          by_cases hv : v.length < 128
          · rw [strcpy, if_pos hv, Option.bind_some, ih hroom]
            simp [hv]
          · rw [strcpy, if_neg hv]
            exact iff_of_false nofun fun h => hv (h.1.1 v rfl)
      · rw [strcpy, if_neg hroom]
        refine iff_of_false nofun fun h => hroom ?_
        have hlength := h.1.2.1
        rw [List.length_append] at hlength
        omega

/-- From an array without a string nothing comes out. -/
theorem license_file_readLines {p e : Option Bytes} {cs : List Bytes} {r : Reading}
    (h : readLines ⟨none, p, e⟩ cs = some r) : r.license_file = none := by
  cases cs with
  | nil =>
    obtain rfl := Option.some.inj h
    rfl
  | cons c cs =>
    rw [readLines] at h
    split_ifs at h
    · obtain ⟨ext, -, rfl⟩ := Option.map_eq_some_iff.1 h
      rfl
    · cases h

/-! ## What is accepted -/

section Accepted

variable (serial : Bytes) (b : Buffers)

/-- The string in `license_file` at the start. -/
def Buffers.initial : Bytes := (ofArray b.license_file).getD []

/-- The line for this machine, without its line end. -/
def machineLine : Bytes :=
  bytes "ProductLicense=" ++ md5.getValidLicense (md5.getProdno serial)

/-- What the checksum is computed of, for the strings `t` before its line. -/
def digested (t : List Bytes) : Bytes := (b.initial ++ t.flatten).dropLast

/-- The strings `t`, with what the arrays held, stand under this checksum. -/
structure Sealed (t : List Bytes) (ext : Option Bytes) : Prop where
  terminated : ofArray b.license_file = some b.initial
  fit : Fit b.initial t
  fit_salted : (salted (digested b t)).length < 40960
  ne_nil : b.initial ++ t.flatten ≠ []
  license : chop (licenseIn (ofArray b.ProductLicense) t) =
    some (md5.getValidLicense (md5.getProdno serial))
  checksum : chop ext = some (md5.getChecksum (digested b t))

/-- `check_license_file` returns 0. -/
def Accepts (file : Bytes) : Prop :=
  ∀ filepath, checkLicenseFile md5 serial b filepath (some file) = some (0, [])

variable {md5 serial b}

theorem checkLicenseMatch_eq (license : Bytes) :
    md5.checkLicenseMatch serial license =
      some (if md5.getValidLicense (md5.getProdno serial) = license then 0 else -1) := by
  have hlength : (salted (md5.getProdno serial)).length < 1024 := by
    rw [length_salted, Md5.getProdno, length_hex]
    decide
  rw [Md5.checkLicenseMatch, Md5.getLicense, strcpy, if_pos hlength]
  rfl

theorem checkLicenseExMatch_eq (license_file license_ex : Bytes) :
    md5.checkLicenseExMatch license_file license_ex =
      if (salted license_file).length < 40960 then
        some (if md5.getChecksum license_file = license_ex then 0 else -1)
      else none := by
  rw [Md5.checkLicenseExMatch, Md5.getLicenseEx, strcpy]
  split_ifs <;> simp_all [Md5.getChecksum]

theorem chop_some_eq {s dat : Bytes} : chop (some s) = some dat ↔ s ≠ [] ∧ s.dropLast = dat := by
  rw [chop, Option.bind_some]
  split_ifs with h
  · refine iff_of_false (fun heq => ?_) fun heq => heq.1 h
    cases heq
  · rw [Option.some_inj]
    exact ⟨fun heq => ⟨h, heq⟩, fun heq => heq.2⟩

theorem initial_eq {s : Bytes} (h : ofArray b.license_file = some s) : b.initial = s := by
  rw [Buffers.initial, h, Option.getD_some]

theorem checkLicenseFile_eq_iff {filepath file : Bytes} :
    checkLicenseFile md5 serial b filepath (some file) = some (0, []) ↔
      ∃ r, readLines b.reading (bufs file) = some r ∧
        chop r.ProductLicense = some (md5.getValidLicense (md5.getProdno serial)) ∧
          ∃ dat, chop r.license_file = some dat ∧ (salted dat).length < 40960 ∧
            chop r.ProductLicenseExt = some (md5.getChecksum dat) := by
  simp only [checkLicenseFile, checkLicenseMatch_eq, checkLicenseExMatch_eq, Option.bind_eq_bind,
    Option.bind_eq_some_iff, Option.bind_some]
  refine exists_congr fun r => and_congr_right fun _ => ?_
  constructor
  · rintro ⟨license, hlicense, ext, hext, dat, hdat, h⟩
    by_cases hmatch : md5.getValidLicense (md5.getProdno serial) = license
    · rw [if_pos hmatch, if_neg (by decide)] at h
      by_cases hroom : (salted dat).length < 40960
      · rw [if_pos hroom, Option.bind_some] at h
        by_cases hsum : md5.getChecksum dat = ext
        · exact ⟨hmatch ▸ hlicense, dat, hdat, hroom, hsum ▸ hext⟩
        · rw [if_neg hsum, if_pos rfl] at h
          cases h
      · rw [if_neg hroom] at h
        cases h
    · rw [if_neg hmatch, if_pos rfl] at h
      cases h
  · rintro ⟨hlicense, dat, hdat, hroom, hext⟩
    refine ⟨_, hlicense, _, hext, dat, hdat, ?_⟩
    rw [if_pos rfl, if_pos hroom, if_pos rfl]
    rfl

/-- **What is accepted**: the strings before the line of the checksum stand under it, with what the
arrays held before. -/
theorem accepts_iff (file : Bytes) :
    Accepts md5 serial b file ↔ Sealed md5 serial b (before (bufs file))
      (extIn (ofArray b.ProductLicenseExt) (bufs file)) := by
  have hinitial : ofArray b.license_file = some b.initial → b.initial.length < 32768 := by
    intro h
    have hlength := ofArray_length_lt h
    rwa [b.length_license_file] at hlength
  simp only [Accepts, checkLicenseFile_eq_iff, forall_const]
  constructor
  · rintro ⟨r, hread, hlicense, dat, hdat, hroom, hext⟩
    cases hstart : ofArray b.license_file with
    | none =>
      rw [Buffers.reading, hstart] at hread
      rw [license_file_readLines hread] at hdat
      cases hdat
    | some s =>
      have hs := initial_eq hstart
      rw [Buffers.reading, hstart, ← hs, readLines_eq_some_iff (hinitial (hs ▸ hstart))] at hread
      obtain ⟨hfit, -, rfl⟩ := hread
      obtain ⟨hne, rfl⟩ := chop_some_eq.1 hdat
      exact ⟨hs ▸ hstart, hfit, hroom, hne, hlicense, hext⟩
  · rintro ⟨hstart, hfit, hroom, hne, hlicense, hext⟩
    refine ⟨⟨some (b.initial ++ (before (bufs file)).flatten),
      licenseIn (ofArray b.ProductLicense) (before (bufs file)),
      extIn (ofArray b.ProductLicenseExt) (bufs file)⟩, ?_, hlicense, _,
      chop_some_eq.2 ⟨hne, rfl⟩, hroom, hext⟩
    rw [Buffers.reading, hstart, readLines_eq_some_iff (hinitial hstart)]
    refine ⟨hfit, fun _ hnone => ?_, rfl⟩
    rw [hnone] at hext
    cases hext

end Accepted

/-! ## What is issued -/

section Issued

variable {md5 : Md5} {serial text : Bytes} {b : Buffers}

/-- A line of a licence of some name. -/
def IsLine (name : String) (line : Bytes) : Prop := bytes name ++ [61] <+: line

instance (name : String) (line : Bytes) : Decidable (IsLine name line) :=
  inferInstanceAs (Decidable (_ <+: _))

/-- A text that a licence can be issued for. -/
structure IsText (text : Bytes) : Prop where
  nul : 0 ∉ text
  length_lt : text.length < 16000
  line_length_lt : ∀ line ∈ text.splitOn 10, line.length < 4095
  not_license : ∀ line ∈ text.splitOn 10, ¬ IsLine "ProductLicense" line
  not_ext : ∀ line ∈ text.splitOn 10, ¬ IsLine "ProductLicenseExt" line

/-- The lines of a text with their ends. -/
def lineStrings (text : Bytes) : List Bytes := (text.splitOn 10).map (· ++ [10])

/-- The array for the text starts with a NUL and no value is too long for its array; or the text has
a line for the checksum of its own in it, under which it stands. -/
def Issuable (md5 : Md5) (serial : Bytes) (b : Buffers) (text : Bytes) : Prop :=
  if (lineStrings text).any isExt then
    Sealed md5 serial b (before (lineStrings text))
      (extIn (ofArray b.ProductLicenseExt) (lineStrings text))
  else b.license_file.head? = some 0 ∧ ∀ c ∈ lineStrings text, ∀ v ∈ licenseOf c, v.length < 128

/-- The text before the line of the checksum. -/
def issuedText (md5 : Md5) (serial text : Bytes) : Bytes :=
  text ++ 10 :: machineLine md5 serial

/-- The line of the checksum. -/
def extLine (md5 : Md5) (serial text : Bytes) : Bytes :=
  bytes "ProductLicenseExt=" ++ md5.getChecksum (issuedText md5 serial text)

theorem printed_eq :
    md5.printed text (md5.getProdno serial) =
      columnText 10 (text.splitOn 10 ++ [machineLine md5 serial, extLine md5 serial text]) := by
  have hlicense : bytes "\nProductLicense=" = 10 :: bytes "ProductLicense=" := by decide
  have hext : bytes "\nProductLicenseExt=" = 10 :: bytes "ProductLicenseExt=" := by decide
  have htext : columnText 10 (text.splitOn 10) = text ++ [10] := by
    rw [← joinFields_append_sep 10 (List.splitOn_ne_nil 10 text), joinFields,
      List.intercalate_splitOn]
  rw [columnText_append, htext]
  simp [Md5.printed, Md5.makeLicense, hlicense, hext, columnText, extLine, issuedText, machineLine]

theorem isPlain_machineLine : ∀ c ∈ machineLine md5 serial, c ≠ 0 ∧ c ≠ 10 := by
  have hname : ((bytes "ProductLicense=").all fun c => decide (c ≠ 0 ∧ c ≠ 10)) = true := by decide
  intro c hc
  rcases List.mem_append.1 hc with hc | hc
  · exact of_decide_eq_true (List.all_eq_true.1 hname c hc)
  · have hplain := isPlain_hex md5 _ c hc
    exact ⟨hplain.1, hplain.2.1⟩

theorem isPlain_extLine : ∀ c ∈ extLine md5 serial text, c ≠ 0 ∧ c ≠ 10 := by
  have hname : ((bytes "ProductLicenseExt=").all fun c => decide (c ≠ 0 ∧ c ≠ 10)) = true := by
    decide
  intro c hc
  rcases List.mem_append.1 hc with hc | hc
  · exact of_decide_eq_true (List.all_eq_true.1 hname c hc)
  · have hplain := isPlain_base64 md5 _ c hc
    exact ⟨hplain.1, hplain.2.1⟩

theorem length_machineLine : (machineLine md5 serial).length = 47 := by
  rw [machineLine, List.length_append, Md5.getValidLicense, length_hex]
  rfl

theorem length_extLine : (extLine md5 serial text).length = 40 := by
  rw [extLine, List.length_append, Md5.getChecksum, length_base64]
  rfl

/-- A name, a separator, a value and a line end. -/
theorem tokens_line {name : String} {value : Bytes} (hname : 61 ∉ bytes name)
    (hne : bytes name ≠ []) (hvalue : 61 ∉ value) :
    tokens 61 (bytes name ++ 61 :: (value ++ [10])) =
      (some (bytes name), some (value ++ [10])) := by
  refine tokens_append_cons hname hne ?_ (by simp)
  rw [List.mem_append, not_or]
  exact ⟨hvalue, by decide⟩

theorem tokens_machineLine : tokens 61 (machineLine md5 serial ++ [10]) =
    (some (bytes "ProductLicense"),
      some (md5.getValidLicense (md5.getProdno serial) ++ [10])) := by
  have hname : bytes "ProductLicense=" = bytes "ProductLicense" ++ [61] := by decide
  rw [machineLine, hname, List.append_assoc, List.append_assoc]
  exact tokens_line (by decide) (by decide) fun h => (isPlain_hex md5 _ _ h).2.2 rfl

theorem tokens_extLine : tokens 61 (extLine md5 serial text ++ [10]) =
    (some (bytes "ProductLicenseExt"),
      some (md5.getChecksum (issuedText md5 serial text) ++ [10])) := by
  have hname : bytes "ProductLicenseExt=" = bytes "ProductLicenseExt" ++ [61] := by decide
  rw [extLine, hname, List.append_assoc, List.append_assoc]
  exact tokens_line (by decide) (by decide) fun h => (isPlain_base64 md5 _ _ h).2.2 rfl

theorem isExt_machineLine : isExt (machineLine md5 serial ++ [10]) = false := by
  rw [isExt, tokens_machineLine]
  exact decide_eq_false
    (by decide : some (bytes "ProductLicense") ≠ some (bytes "ProductLicenseExt"))

theorem isExt_extLine : isExt (extLine md5 serial text ++ [10]) = true := by
  rw [isExt, tokens_extLine]
  exact decide_eq_true rfl

theorem licenseOf_machineLine : licenseOf (machineLine md5 serial ++ [10]) =
    some (md5.getValidLicense (md5.getProdno serial) ++ [10]) := by
  rw [licenseOf, tokens_machineLine]
  rfl

/-- Without a NUL in the file `buf` is what was read. -/
theorem bufs_eq_pieces {file : Bytes} (h : 0 ∉ file) : bufs file = pieces 10 4095 4095 file := by
  have hself : ∀ p ∈ pieces 10 4095 4095 file, p.takeWhile (· ≠ 0) = p := by
    intro p hp
    rw [List.takeWhile_eq_self_iff]
    intro c hc
    have hne : c ≠ 0 := by
      rintro rfl
      exact h (mem_of_mem_pieces hp hc)
    exact decide_eq_true hne
  rw [bufs, List.map_congr_left hself, List.map_id']

theorem bufs_printed (h : IsText text) : bufs (md5.printed text (md5.getProdno serial)) =
    lineStrings text ++ [machineLine md5 serial ++ [10], extLine md5 serial text ++ [10]] := by
  have hlines : ∀ l ∈ text.splitOn 10 ++ [machineLine md5 serial, extLine md5 serial text],
      10 ∉ l ∧ l.length < 4095 := by
    refine List.forall_mem_append.2 ⟨fun l hl => ?_, List.forall_mem_cons.2 ⟨?_, ?_⟩⟩
    · exact ⟨not_mem_of_mem_splitOn hl, h.line_length_lt l hl⟩
    · exact ⟨fun hmem => (isPlain_machineLine 10 hmem).2 rfl, by rw [length_machineLine]; decide⟩
    · rw [List.forall_mem_singleton]
      exact ⟨fun hmem => (isPlain_extLine 10 hmem).2 rfl, by rw [length_extLine]; decide⟩
  have hnul : 0 ∉ md5.printed text (md5.getProdno serial) := by
    rw [printed_eq, columnText]
    intro hmem
    obtain ⟨l, hl, hmem⟩ := List.mem_flatMap.1 hmem
    have hmem : 0 ∈ l := by simpa using hmem
    rcases List.mem_append.1 hl with hl | hl
    · exact h.nul (mem_of_mem_splitOn hl hmem)
    · rcases List.mem_pair.1 hl with rfl | rfl
      · exact (isPlain_machineLine 0 hmem).1 rfl
      · exact (isPlain_extLine 0 hmem).1 rfl
  rw [bufs_eq_pieces hnul, printed_eq, pieces_columnText hlines, List.map_append, lineStrings]
  rfl

/-- Behind a line for the checksum nothing is read. -/
theorem before_append_of_any {cs : List Bytes} (h : cs.any isExt = true) (ds : List Bytes)
    (e : Option Bytes) : before (cs ++ ds) = before cs ∧ extIn e (cs ++ ds) = extIn e cs := by
  obtain ⟨c, hc, hext⟩ := List.any_eq_true.1 h
  obtain ⟨d, hd⟩ := Option.isSome_iff_exists.1 (List.find?_isSome.2 ⟨c, hc, hext⟩)
  constructor
  · rw [before, List.takeWhile_append, if_neg, before]
    intro hlength
    have hself := (List.takeWhile_prefix (l := cs) fun c => !isExt c).eq_of_length hlength
    have hnot := List.takeWhile_eq_self_iff.1 hself c hc
    rw [hext] at hnot
    cases hnot
  · rw [extIn, extIn, List.find?_append, hd]
    rfl

theorem before_append_of_not_any {cs : List Bytes} (h : cs.any isExt = false) {c d : Bytes}
    (hc : isExt c = false) (hd : isExt d = true) (e : Option Bytes) :
    before (cs ++ [c, d]) = cs ++ [c] ∧
      extIn e (cs ++ [c, d]) = (tokens 61 d).2.bind (strcpy 128) := by
  have hcs : ∀ x ∈ cs, isExt x = false := by
    intro x hx
    exact Bool.eq_false_iff.2 (List.any_eq_false.1 h x hx)
  constructor
  · rw [before, List.takeWhile_append_of_pos fun x hx => by rw [hcs x hx]; rfl,
      List.takeWhile_cons_of_pos (by rw [hc]; rfl), List.takeWhile_cons_of_neg (by rw [hd]; simp)]
  · have hnone : cs.find? isExt = none := by
      rw [List.find?_eq_none]
      intro x hx
      rw [hcs x hx]
      decide
    rw [extIn, List.find?_append, hnone, Option.none_or,
      List.find?_cons_of_neg (by rw [hc]; decide), List.find?_cons_of_pos hd]

theorem flatten_issued :
    (lineStrings text ++ [machineLine md5 serial ++ [10]]).flatten =
      issuedText md5 serial text ++ [10] := by
  have htext : (lineStrings text).flatten = text ++ [10] := by
    have hjoin := joinFields_append_sep 10 (List.splitOn_ne_nil 10 text)
    rw [joinFields, List.intercalate_splitOn] at hjoin
    rw [hjoin, lineStrings, columnText, List.flatMap_def]
  rw [List.flatten_append, htext, issuedText]
  simp

theorem digested_issued : digested b (lineStrings text ++ [machineLine md5 serial ++ [10]]) =
    b.initial ++ issuedText md5 serial text := by
  rw [digested, flatten_issued, ← List.append_assoc, List.dropLast_concat]

/-- The text that is issued stands under its checksum. -/
theorem sealed_issued (h : IsText text) (hhead : b.license_file.head? = some 0)
    (hshort : ∀ c ∈ lineStrings text, ∀ v ∈ licenseOf c, v.length < 128) :
    Sealed md5 serial b (lineStrings text ++ [machineLine md5 serial ++ [10]])
      (some (md5.getChecksum (issuedText md5 serial text) ++ [10])) := by
  have hstart := ofArray_eq_nil_iff.2 hhead
  have hinitial : b.initial = [] := initial_eq hstart
  have hdigested := @digested_issued md5 serial text b
  have hlength : (issuedText md5 serial text).length < 16048 := by
    have hlt := h.length_lt
    rw [issuedText, List.length_append, List.length_cons, length_machineLine]
    omega
  rw [hinitial, List.nil_append] at hdigested
  refine ⟨hinitial.symm ▸ hstart, ⟨?_, ?_⟩, ?_, ?_, ?_, ?_⟩
  · rw [hinitial, List.nil_append, flatten_issued, List.length_append]
    show (issuedText md5 serial text).length + 1 < 32768
    omega
  · refine List.forall_mem_append.2 ⟨hshort, List.forall_mem_singleton.2 ?_⟩
    intro v hv
    rw [licenseOf_machineLine] at hv
    obtain rfl := Option.some.inj hv
    rw [List.length_append, Md5.getValidLicense, length_hex]
    decide
  · rw [hdigested, length_salted]
    omega
  · rw [flatten_issued]
    simp
  · rw [licenseIn, List.foldl_append, List.foldl_cons, licenseOf_machineLine, Option.some_or,
      List.foldl_nil, chop_concat]
  · rw [chop_concat, hdigested]

/-- Behind other text it does not. -/
theorem head?_of_sealed_issued
    (hmd5 : Set.InjOn md5.base64
      {salted (b.initial ++ issuedText md5 serial text), salted (issuedText md5 serial text)})
    (h : Sealed md5 serial b (lineStrings text ++ [machineLine md5 serial ++ [10]])
      (some (md5.getChecksum (issuedText md5 serial text) ++ [10]))) :
    b.license_file.head? = some 0 := by
  have hchecksum := h.checksum
  rw [chop_concat, Option.some_inj, digested_issued] at hchecksum
  have hsalted := hmd5 (Set.mem_insert_of_mem _ rfl) (Set.mem_insert _ _) hchecksum
  have hlength := congrArg List.length (salted_injective hsalted)
  rw [List.length_append] at hlength
  have hinitial : b.initial = [] := List.length_eq_zero_iff.1 (by omega)
  rw [← ofArray_eq_nil_iff, h.terminated, hinitial]

/-- What was issued, as it is read. -/
theorem accepts_printed_eq (h : IsText text) :
    Accepts md5 serial b (md5.printed text (md5.getProdno serial)) ↔
      if (lineStrings text).any isExt then
        Sealed md5 serial b (before (lineStrings text))
          (extIn (ofArray b.ProductLicenseExt) (lineStrings text))
      else Sealed md5 serial b (lineStrings text ++ [machineLine md5 serial ++ [10]])
        (some (md5.getChecksum (issuedText md5 serial text) ++ [10])) := by
  rw [accepts_iff, bufs_printed h]
  split_ifs with hany
  · obtain ⟨hbefore, hext⟩ := before_append_of_any hany
      [machineLine md5 serial ++ [10], extLine md5 serial text ++ [10]]
      (ofArray b.ProductLicenseExt)
    rw [hbefore, hext]
  · obtain ⟨hbefore, hext⟩ := before_append_of_not_any (Bool.eq_false_iff.2 hany)
      isExt_machineLine (@isExt_extLine md5 serial text) (ofArray b.ProductLicenseExt)
    have hroom : (md5.getChecksum (issuedText md5 serial text) ++ [10]).length < 128 := by
      rw [List.length_append, Md5.getChecksum, length_base64]
      decide
    rw [hbefore, hext, tokens_extLine]
    dsimp only
    rw [Option.bind_some, strcpy, if_pos hroom]

/-- **What was issued is accepted** if the array for the text starts with a NUL and no value is too
long for its array. -/
theorem accepts_printed (h : IsText text) (hissuable : Issuable md5 serial b text) :
    Accepts md5 serial b (md5.printed text (md5.getProdno serial)) := by
  rw [Issuable] at hissuable
  rw [accepts_printed_eq h]
  split_ifs at hissuable ⊢
  · exact hissuable
  · exact sealed_issued h hissuable.1 hissuable.2

/-- Otherwise it is not, unless the digest has a collision. -/
theorem issuable_of_accepts (h : IsText text)
    (hmd5 : Set.InjOn md5.base64
      {salted (b.initial ++ issuedText md5 serial text), salted (issuedText md5 serial text)})
    (haccepts : Accepts md5 serial b (md5.printed text (md5.getProdno serial))) :
    Issuable md5 serial b text := by
  rw [accepts_printed_eq h] at haccepts
  rw [Issuable]
  split_ifs at haccepts ⊢
  · exact haccepts
  · exact ⟨head?_of_sealed_issued hmd5 haccepts,
      fun c hc => haccepts.fit.2 c (List.mem_append_left _ hc)⟩

end Issued

/-! ## What two files have in common -/

section Common

variable {md5 : Md5} {serial file file' : Bytes} {b b' : Buffers}

/-- The text before the line of the checksum. -/
def textBefore (file : Bytes) : Bytes := (before (bufs file)).flatten

/-- The checksum that is compared. -/
def checksumOf (b : Buffers) (file : Bytes) : Option Bytes :=
  chop (extIn (ofArray b.ProductLicenseExt) (bufs file))

/-- A line starts behind this text. -/
def AtStart (x : Bytes) : Prop := ∀ c ∈ x.getLast?, c = 10

/-- The line of the machine stands in the text. -/
def Contains (md5 : Md5) (serial text : Bytes) : Prop :=
  ∃ x y, text = x ++ (machineLine md5 serial ++ 10 :: y) ∧ AtStart x

/-- The last of these strings that is read as a licence number is a line of its own, with the name
at its start, one separator and a line end. -/
def PlainLicense (cs : List Bytes) : Prop :=
  ∃ xs c ys, cs = xs ++ c :: ys ∧ AtStart xs.flatten ∧ (∀ d ∈ ys, licenseOf d = none) ∧
    ∃ w, 61 ∉ w ∧ c = bytes "ProductLicense=" ++ (w ++ [10])

/-- The line of the machine stands before another one that is read as a licence number. -/
def EarlierLicense (md5 : Md5) (serial : Bytes) (cs : List Bytes) : Prop :=
  ∃ xs ys, cs = xs ++ (machineLine md5 serial ++ [10]) :: ys ∧ AtStart xs.flatten ∧
    ∃ d ∈ ys, licenseOf d ≠ none

/-- **When two accepted files have the same text**: their checksums being the same, exactly if the
arrays held texts of one length before and the texts end in the same byte. -/
theorem same_text_iff (h : Accepts md5 serial b file) (h' : Accepts md5 serial b' file')
    (hsame : checksumOf b file = checksumOf b' file')
    (hmd5 : Set.InjOn md5.base64
      {salted (digested b (before (bufs file))), salted (digested b' (before (bufs file')))}) :
    textBefore file = textBefore file' ↔ b.initial.length = b'.initial.length ∧
      (textBefore file).getLast? = (textBefore file').getLast? := by
  have hsealed := (accepts_iff file).1 h
  have hsealed' := (accepts_iff file').1 h'
  rw [checksumOf, checksumOf, hsealed.checksum, hsealed'.checksum, Option.some_inj] at hsame
  have hdrop := salted_injective (hmd5 (Set.mem_insert _ _) (Set.mem_insert_of_mem _ rfl) hsame)
  have hne := hsealed.ne_nil
  have hne' := hsealed'.ne_nil
  rw [digested, digested, ← textBefore, ← textBefore] at hdrop
  rw [← textBefore] at hne hne'
  have hlength := congrArg List.length hdrop
  have hpos := List.length_pos_of_ne_nil hne
  have hpos' := List.length_pos_of_ne_nil hne'
  rw [List.length_dropLast, List.length_dropLast] at hlength
  rw [List.length_append] at hlength hpos
  rw [List.length_append] at hlength hpos'
  constructor
  · intro htext
    rw [htext] at hlength hpos
    exact ⟨by omega, by rw [htext]⟩
  · rintro ⟨hinitial, hlast⟩
    rcases List.eq_nil_or_concat (textBefore file) with hnil | ⟨t, c, ht⟩
    · rw [hnil, List.length_nil] at hlength hpos
      rw [hnil]
      exact (List.length_eq_zero_iff.1 (by omega)).symm
    · rcases List.eq_nil_or_concat (textBefore file') with hnil' | ⟨t', c', ht'⟩
      · rw [hnil', ht, List.concat_eq_append, List.getLast?_concat] at hlast
        cases hlast
      · rw [List.concat_eq_append] at ht ht'
        rw [ht, ht', List.getLast?_concat, List.getLast?_concat, Option.some_inj] at hlast
        rw [ht, ht', ← List.append_assoc, ← List.append_assoc, List.dropLast_concat,
          List.dropLast_concat] at hdrop
        rw [ht, ht', hlast, (List.append_inj hdrop hinitial).2]

theorem pieces_append_of_atStart {x : Bytes} (h : AtStart x) (z : Bytes) :
    pieces 10 4095 4095 (x ++ z) = pieces 10 4095 4095 x ++ pieces 10 4095 4095 z := by
  rcases List.eq_nil_or_concat x with rfl | ⟨l, c, rfl⟩
  · rfl
  · rw [List.concat_eq_append] at h ⊢
    obtain rfl : c = 10 := h c (by rw [List.getLast?_concat]; rfl)
    rw [List.append_assoc, List.singleton_append, pieces_append_newline]

/-- A line of the machine in the text is one of the strings that are read. -/
theorem exists_machineLine (hnul : 0 ∉ file) {x y : Bytes} (hx : AtStart x)
    (htext : textBefore file = x ++ (machineLine md5 serial ++ 10 :: y)) :
    ∃ ys, before (bufs file) =
      pieces 10 4095 4095 x ++ (machineLine md5 serial ++ [10]) :: ys := by
  have hpre : before (bufs file) <+: pieces 10 4095 4095 file := by
    rw [bufs_eq_pieces hnul]
    exact List.takeWhile_prefix _
  obtain ⟨rest, hrest⟩ := hpre
  have hfile : file = x ++ (machineLine md5 serial ++ 10 :: (y ++ rest.flatten)) := by
    have hflatten := flatten_pieces 10 4095 4095 file
    rw [← hrest, List.flatten_append, ← textBefore, htext] at hflatten
    rw [← hflatten]
    simp
  have hline : pieces 10 4095 4095 file = (pieces 10 4095 4095 x ++
      [machineLine md5 serial ++ [10]]) ++ pieces 10 4095 4095 (y ++ rest.flatten) := by
    rw [hfile, pieces_append_of_atStart hx, pieces_append_cons
      (fun hmem => (isPlain_machineLine 10 hmem).2 rfl) (by rw [length_machineLine]; decide)]
    simp
  rcases List.prefix_or_prefix_of_prefix ⟨rest, hrest⟩ ⟨_, hline.symm⟩ with hle | ⟨ys, hys⟩
  · rcases List.prefix_concat_iff.1 hle with heq | ⟨zs, hzs⟩
    · exact ⟨[], by rw [heq]⟩
    · -- too short a part of the file to hold the line
      have hflatten := congrArg List.flatten hzs
      rw [List.flatten_append, flatten_pieces, ← textBefore, htext] at hflatten
      have hlength := congrArg List.length hflatten
      simp only [List.length_append, List.length_cons] at hlength
      omega
  · exact ⟨ys, by rw [← hys]; simp⟩

theorem licenseIn_of_none {ys : List Bytes} (h : ∀ d ∈ ys, licenseOf d = none)
    (p : Option Bytes) : licenseIn p ys = p := by
  induction ys generalizing p with
  | nil => rfl
  | cons d ys ih =>
    obtain ⟨hd, hys⟩ := List.forall_mem_cons.1 h
    rw [licenseIn, List.foldl_cons, hd, Option.none_or]
    exact ih hys p

theorem contains_of_line {xs ys : List Bytes} (hstart : AtStart xs.flatten)
    (h : before (bufs file) = xs ++ (machineLine md5 serial ++ [10]) :: ys) :
    Contains md5 serial (textBefore file) := by
  refine ⟨xs.flatten, ys.flatten, ?_, hstart⟩
  rw [textBefore, h, List.flatten_append, List.flatten_cons, List.append_assoc]
  rfl

/-- **When an accepted file has the line of the machine**: exactly if the last licence number is
plainly written, or the line stands before another one. -/
theorem contains_iff (hnul : 0 ∉ file) (h : Accepts md5 serial b file) :
    Contains md5 serial (textBefore file) ↔ PlainLicense (before (bufs file)) ∨
      EarlierLicense md5 serial (before (bufs file)) := by
  have hname : bytes "ProductLicense=" = bytes "ProductLicense" ++ [61] := by decide
  constructor
  · rintro ⟨x, y, htext, hx⟩
    obtain ⟨ys, hys⟩ := exists_machineLine hnul hx htext
    have hstart : AtStart (pieces 10 4095 4095 x).flatten := by rwa [flatten_pieces]
    by_cases hlast : ∀ d ∈ ys, licenseOf d = none
    · refine .inl ⟨_, _, ys, hys, hstart, hlast, _, ?_, List.append_assoc _ _ _⟩
      exact fun hmem => (isPlain_hex md5 _ _ hmem).2.2 rfl
    · push Not at hlast
      exact .inr ⟨_, ys, hys, hstart, hlast⟩
  · rintro (⟨xs, c, ys, hcs, hstart, hnone, w, hw, rfl⟩ | ⟨xs, ys, hcs, hstart, -⟩)
    · have hvalue : licenseOf (bytes "ProductLicense=" ++ (w ++ [10])) = some (w ++ [10]) := by
        rw [licenseOf, hname, List.append_assoc, List.singleton_append,
          tokens_line (by decide) (by decide) hw]
        rfl
      have hlicense := ((accepts_iff file).1 h).license
      rw [hcs, licenseIn, List.foldl_append, List.foldl_cons, hvalue, Option.some_or, ← licenseIn,
        licenseIn_of_none hnone, chop_concat, Option.some_inj] at hlicense
      rw [hlicense, ← List.append_assoc] at hcs
      exact contains_of_line hstart hcs
    · exact contains_of_line hstart hcs

end Common

/-! ## The library -/

/-- **When the library accepts what was issued and nothing altered**, for all contents of its
arrays.  A text that was issued is accepted exactly if `license_file` starts with a NUL and no value
in the text is too long for its array (or the text, with a line for the checksum of its own in it,
stands under that).  Two accepted files with one checksum agree on the text before it, with the line
of the machine in it, exactly if their runs found texts of one length in `license_file`, the texts
end in the same byte, and the licence numbers are plainly written (or the line of the machine stands
before another one). -/
theorem library_iff (md5 : Md5) (serial : Bytes) :
    (∀ b text, IsText text →
      (Issuable md5 serial b text →
        Accepts md5 serial b (md5.printed text (md5.getProdno serial))) ∧
      (Set.InjOn md5.base64 {salted (b.initial ++ issuedText md5 serial text),
          salted (issuedText md5 serial text)} →
        Accepts md5 serial b (md5.printed text (md5.getProdno serial)) →
          Issuable md5 serial b text)) ∧
    ∀ b b' file file', 0 ∉ file → 0 ∉ file' → Accepts md5 serial b file →
      Accepts md5 serial b' file' → checksumOf b file = checksumOf b' file' →
      Set.InjOn md5.base64
        {salted (digested b (before (bufs file))), salted (digested b' (before (bufs file')))} →
      ((textBefore file = textBefore file' ∧ Contains md5 serial (textBefore file) ∧
          Contains md5 serial (textBefore file')) ↔
        (b.initial.length = b'.initial.length ∧
          (textBefore file).getLast? = (textBefore file').getLast?) ∧
        (PlainLicense (before (bufs file)) ∨ EarlierLicense md5 serial (before (bufs file))) ∧
          (PlainLicense (before (bufs file')) ∨
            EarlierLicense md5 serial (before (bufs file')))) := by
  refine ⟨fun b text h => ⟨accepts_printed h, issuable_of_accepts h⟩, ?_⟩
  intro b b' file file' hnul hnul' h h' hsame hmd5
  rw [same_text_iff h h' hsame hmd5, contains_iff hnul h, contains_iff hnul' h']

/-- Arrays of zeros. -/
def zeros : Buffers where
  license_file := List.replicate 32768 0
  ProductLicense := List.replicate 128 0
  ProductLicenseExt := List.replicate 128 0
  length_license_file := List.length_replicate
  length_ProductLicense := List.length_replicate
  length_ProductLicenseExt := List.length_replicate

/-- The serial numbers of one machine. -/
def sampleSerial : Bytes := bytes "00508d3b1c2f4e334e334e334e334e334e334e334e334e334e33"

/-- A text for it. -/
def sampleText : Bytes := bytes "ForSell=No\n\nFactoryName=K12\nProductName=WebMail\n"

/-- What MD5 makes of the serial numbers, the product number and the text. -/
def sampleMd5 : Md5 where
  digest x :=
    if x = sampleSerial then
      [125, 34, 17, 159, 151, 33, 96, 169, 127, 3, 207, 226, 184, 19, 197, 60]
    else if x = salted (bytes "7d22119f972160a97f03cfe2b813c53c") then
      [134, 28, 227, 209, 116, 87, 22, 107, 155, 56, 120, 115, 35, 32, 127, 189]
    else if x = salted (sampleText ++
        bytes "\nProductLicense=861ce3d17457166b9b38787323207fbd") then
      [73, 192, 53, 157, 224, 27, 220, 168, 93, 214, 117, 197, 98, 182, 108, 161]
    else List.replicate 16 0
  length_digest x := by split_ifs <;> rfl

theorem isText_sampleText : IsText sampleText where
  nul := by decide +kernel
  length_lt := by decide +kernel
  line_length_lt := by decide +kernel
  not_license := by decide +kernel
  not_ext := by decide +kernel

theorem library_sample :
    Accepts sampleMd5 sampleSerial zeros
        (sampleMd5.printed sampleText (sampleMd5.getProdno sampleSerial)) ∧
      Contains sampleMd5 sampleSerial
        (textBefore (sampleMd5.printed sampleText (sampleMd5.getProdno sampleSerial))) := by
  have hany : (lineStrings sampleText).any isExt = false := by decide +kernel
  have hshort : ∀ c ∈ lineStrings sampleText, ∀ v ∈ licenseOf c, v.length < 128 := by
    decide +kernel
  have haccepts := ((library_iff sampleMd5 sampleSerial).1 zeros sampleText isText_sampleText).1 (by
    rw [Issuable, hany]
    exact ⟨rfl, hshort⟩)
  have hbefore := (before_append_of_not_any hany (@isExt_machineLine sampleMd5 sampleSerial)
    (@isExt_extLine sampleMd5 sampleSerial sampleText) none).1
  rw [← bufs_printed isText_sampleText] at hbefore
  have hplain : PlainLicense (before (bufs
      (sampleMd5.printed sampleText (sampleMd5.getProdno sampleSerial)))) := by
    refine ⟨_, _, [], hbefore, ?_, nofun, _, ?_, List.append_assoc _ _ _⟩
    · rw [AtStart]
      decide +kernel
    · exact fun hmem => (isPlain_hex sampleMd5 _ _ hmem).2.2 rfl
  refine ⟨haccepts, ?_⟩
  have hcommon := (library_iff sampleMd5 sampleSerial).2 zeros zeros _ _ (by decide +kernel)
    (by decide +kernel) haccepts haccepts rfl (by
      rw [Set.pair_eq_singleton]
      exact Set.injOn_singleton _ _)
  exact (hcommon.2 ⟨⟨rfl, rfl⟩, .inl hplain, .inl hplain⟩).2.1

/-- Arrays full of what was there before. -/
def stale : Buffers where
  license_file := List.replicate 32768 120
  ProductLicense := List.replicate 128 0
  ProductLicenseExt := List.replicate 128 0
  length_license_file := List.length_replicate
  length_ProductLicense := List.length_replicate
  length_ProductLicenseExt := List.length_replicate

/-- The text is appended to what was there before, here beyond the end of the array. -/
theorem issued_rejected : ¬ ∀ md5 serial b text, IsText text →
    Accepts md5 serial b (md5.printed text (md5.getProdno serial)) := by
  intro h
  have haccepts := h sampleMd5 sampleSerial stale sampleText isText_sampleText
  have hstart := ((accepts_iff _).1 haccepts).terminated
  have hnone : ofArray stale.license_file = none :=
    if_neg fun hmem => absurd (List.eq_of_mem_replicate hmem) (by decide)
  rw [hnone] at hstart
  cases hstart

end NoSpam.Library
