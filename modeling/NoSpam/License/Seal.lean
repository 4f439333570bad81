import NoSpam.License.License

/-!
# Issued and sealed licences

What `make_license` issues is accepted by `check_license_file` on a machine that meets its
conditions (`checkLicenseFile_makeLicense`), and the checksum seals every other line of a file:
two accepted files with the same checksum have the same lines, up to line ends, unless the digest
has a collision on them (`sealedLines_eq`).
-/

namespace NoSpam.License

open Text Perl

/-! ## The lines under the seal -/

/-- Not the line of the checksum. -/
def isSealed (line : Bytes) : Bool := (valueOf "ProductLicenseExt" line).isNone

/-- The lines of a file without their ends, other than that of the checksum and without empty ones
at the end. -/
def sealedLines (file : Bytes) : List Bytes :=
  (((lines 10 file).map stripEnd).filter isSealed).rdropWhile (·.isEmpty)

@[simp] theorem setField_license_content (r : Reading) (line : Bytes) :
    (r.setField line).license_content = r.license_content := by
  rw [Reading.setField]
  repeat' split
  all_goals rfl

theorem scan_license_content (r : Reading) (line : Bytes) :
    (r.scan line).license_content =
      r.license_content ++ columnText 10 ([stripEnd line].filter isSealed) := by
  rw [Reading.scan]
  cases hv : valueOf "ProductLicenseExt" (stripEnd line) with
  | some v => simp [isSealed, hv, columnText]
  | none => simp [isSealed, hv, columnText]

theorem foldl_scan_license_content (ls : List Bytes) (r : Reading) :
    (ls.foldl Reading.scan r).license_content =
      r.license_content ++ columnText 10 ((ls.map stripEnd).filter isSealed) := by
  induction ls generalizing r with
  | nil => exact (List.append_nil _).symm
  | cons l ls ih =>
    rw [List.foldl_cons, ih, scan_license_content, List.append_assoc, ← columnText_append,
      ← List.filter_append, List.map_cons, List.singleton_append]

theorem newline_not_mem_stripEnd {file line : Bytes} (h : line ∈ lines 10 file) :
    10 ∉ stripEnd line := by
  have hdrop := not_mem_dropLast_of_mem_lines h
  have hchomp : 10 ∉ chomp line := by
    rw [chomp]
    split_ifs with hlast
    · exact hdrop
    · intro hmem
      have hne := List.ne_nil_of_mem hmem
      rw [← List.dropLast_append_getLast hne, List.mem_append, List.mem_singleton] at hmem
      rcases hmem with hmem | hmem
      · exact hdrop hmem
      · rw [List.getLast?_eq_some_getLast hne, ← hmem] at hlast
        exact hlast rfl
  exact fun hmem => hchomp ((List.rdropWhile_prefix _ _).subset hmem)

/-- What the checksum is made of. -/
def content (file : Bytes) : Bytes := trimTail (readLicense file).license_content

theorem content_eq (file : Bytes) :
    content file =
      (columnText 10 (((lines 10 file).map stripEnd).filter isSealed)).rdropWhile (· = 10) := by
  rw [content, readLicense, foldl_scan_license_content]
  rfl

/-- The content tells the sealed lines. -/
theorem sealedLines_eq_of_content {file file' : Bytes} (h : content file = content file') :
    sealedLines file = sealedLines file' := by
  have hlines : ∀ file : Bytes, ∀ l ∈ ((lines 10 file).map stripEnd).filter isSealed, 10 ∉ l := by
    intro file l hl
    obtain ⟨line, hline, rfl⟩ := List.mem_map.1 (List.mem_of_mem_filter hl)
    exact newline_not_mem_stripEnd hline
  rw [content_eq, content_eq] at h
  exact rdropWhile_columnText_injective (hlines file) (hlines file') h

/-- The text twice between the salts tells the text. -/
theorem salted_injective : Function.Injective salted := by
  intro data data' h
  have htail := List.append_cancel_left h
  have hlength := congrArg List.length htail
  simp only [List.length_append] at hlength
  exact (List.append_inj htail (by omega)).1

/-! ## Reading what was issued -/

/-- A line of the text of a licence: the loop reads it as it is, and it is not the line of the
checksum. -/
structure IsLicenseLine (line : Bytes) : Prop where
  newline : 10 ∉ line
  carriage : line.getLast? ≠ some 13
  not_ext : valueOf "ProductLicenseExt" line = none

theorem stripEnd_of_last {line : Bytes} (hn : line.getLast? ≠ some 10)
    (hr : line.getLast? ≠ some 13) : stripEnd line = line ∧ stripEnd (line ++ [10]) = line := by
  have hself : line.rdropWhile (fun c => c = 13 || c = 10) = line := by
    rw [List.rdropWhile_eq_self_iff]
    intro hne
    rw [List.getLast?_eq_some_getLast hne, ne_eq, Option.some.injEq] at hn hr
    simp [hn, hr]
  refine ⟨?_, ?_⟩
  · rw [stripEnd, chomp, if_neg hn, hself]
  · rw [stripEnd, chomp, List.getLast?_concat, if_pos rfl, List.dropLast_concat, hself]

theorem IsLicenseLine.stripEnd {line : Bytes} (h : IsLicenseLine line) :
    stripEnd (line ++ [10]) = line := by
  refine (stripEnd_of_last ?_ h.carriage).2
  intro hlast
  exact h.newline (List.mem_of_getLast? hlast)

theorem content_columnText {ls : List Bytes} (h : ∀ l ∈ ls, IsLicenseLine l) :
    (readLicense (columnText 10 ls)).license_content = columnText 10 ls := by
  have hstrip : (ls.map (· ++ [10])).map stripEnd = ls := by
    rw [List.map_map]
    exact (List.map_congr_left fun l hl => (h l hl).stripEnd).trans (List.map_id ls)
  have hsealed : ls.filter isSealed = ls := List.filter_eq_self.2 fun l hl => by
    rw [isSealed, (h l hl).not_ext, Option.isNone_none]
  rw [readLicense, columnText, lines_flatMap fun l hl => (h l hl).newline,
    foldl_scan_license_content, hstrip, hsealed]
  rfl

theorem scan_blank (r : Reading) :
    r.scan [10] = { r with license_content := r.license_content ++ [10] } := rfl

/-- The text of a digest. -/
def IsDigest (b : Bytes) : Prop := b ≠ [] ∧ ∀ c ∈ b, isWhite c = false

theorem IsDigest.last {b : Bytes} (h : IsDigest b) (l : Bytes) :
    (l ++ b).getLast? ≠ some 10 ∧ (l ++ b).getLast? ≠ some 13 := by
  have hlast : ∀ c, (l ++ b).getLast? = some c → isWhite c = false := by
    intro c hc
    rw [List.getLast?_append_of_ne_nil l h.1] at hc
    exact h.2 c (List.mem_of_getLast? hc)
  refine ⟨fun hc => ?_, fun hc => ?_⟩
  · cases hlast 10 hc
  · cases hlast 13 hc

theorem IsDigest.filter {b : Bytes} (h : IsDigest b) : (b.filter fun c => !isWhite c) = b := by
  rw [List.filter_eq_self]
  intro c hc
  rw [h.2 c hc]
  rfl

variable {data checksum : Bytes}

theorem scan_data (h : IsDigest data) (r : Reading) :
    r.scan (bytes "ProductLicense=" ++ data ++ [10]) =
      { r with
        license_data := some data
        license_content := r.license_content ++ (bytes "ProductLicense=" ++ data ++ [10]) } := by
  have hstrip := (stripEnd_of_last (h.last (bytes "ProductLicense=")).1
    (h.last (bytes "ProductLicense=")).2).2
  have hext : valueOf "ProductLicenseExt" (bytes "ProductLicense=" ++ data) = none := rfl
  have hvalue : valueOf "ProductLicense" (bytes "ProductLicense=" ++ data) = some data := by
    rw [valueOf, List.dropPrefix?_append_of_beq data (by decide), Option.filter_some,
      if_pos (by simpa using h.1)]
  have hset : r.setField (bytes "ProductLicense=" ++ data) =
      { r with license_data := some data } := by
    rw [Reading.setField]
    simp only [hvalue, h.filter]
  rw [Reading.scan, hstrip]
  simp only [hext, hset]

theorem scan_ext (h : IsDigest checksum) {tail : Bytes} (htail : tail ∈ [[], [10]])
    (r : Reading) :
    r.scan (bytes "ProductLicenseExt=" ++ checksum ++ tail) =
      { r with license_checksum := some checksum } := by
  have hlast := h.last (bytes "ProductLicenseExt=")
  have hstrip : stripEnd (bytes "ProductLicenseExt=" ++ checksum ++ tail) =
      bytes "ProductLicenseExt=" ++ checksum := by
    rcases List.mem_pair.1 htail with rfl | rfl
    · rw [List.append_nil]
      exact (stripEnd_of_last hlast.1 hlast.2).1
    · exact (stripEnd_of_last hlast.1 hlast.2).2
  have hvalue : valueOf "ProductLicenseExt" (bytes "ProductLicenseExt=" ++ checksum) =
      some checksum := by
    rw [valueOf, List.dropPrefix?_append_of_beq checksum (by decide), Option.filter_some,
      if_pos (by simpa using h.1)]
  rw [Reading.scan, hstrip]
  simp only [hvalue]

/-- The text before the line of the checksum. -/
def issued (ls : List Bytes) (data : Bytes) : Bytes :=
  columnText 10 ls ++ 10 :: (bytes "ProductLicense=" ++ data)

theorem readLicense_issued {ls : List Bytes} (h : ∀ l ∈ ls, IsLicenseLine l) (hdata : IsDigest data)
    (hchecksum : IsDigest checksum) {tail : Bytes} (htail : tail ∈ [[], [10]]) :
    readLicense (issued ls data ++ 10 :: (bytes "ProductLicenseExt=" ++ checksum ++ tail)) =
      { readLicense (columnText 10 ls) with
        license_checksum := some checksum
        license_data := some data
        license_content := issued ls data ++ [10] } := by
  have hnewline : ∀ {b : Bytes}, IsDigest b → ∀ l : Bytes, 10 ∉ l → 10 ∉ l ++ b := by
    intro b hb l hl hmem
    rcases List.mem_append.1 hmem with hmem | hmem
    · exact hl hmem
    · cases hb.2 10 hmem
  have hlines : ∀ l ∈ ls ++ [[], bytes "ProductLicense=" ++ data], 10 ∉ l := by
    refine List.forall_mem_append.2 ⟨fun l hl => (h l hl).newline, ?_⟩
    refine List.forall_mem_cons.2 ⟨List.not_mem_nil, List.forall_mem_singleton.2 ?_⟩
    exact hnewline hdata _ (by decide)
  have hext : lines 10 (bytes "ProductLicenseExt=" ++ checksum ++ tail) =
      [bytes "ProductLicenseExt=" ++ checksum ++ tail] := by
    have hnot := hnewline hchecksum (bytes "ProductLicenseExt=") (by decide)
    rcases List.mem_pair.1 htail with rfl | rfl
    · rw [List.append_nil]
      exact lines_of_not_mem hnot (by simp [hchecksum.1])
    · exact lines_append_cons hnot []
  have htext : issued ls data ++ 10 :: (bytes "ProductLicenseExt=" ++ checksum ++ tail) =
      columnText 10 (ls ++ [[], bytes "ProductLicense=" ++ data]) ++
        (bytes "ProductLicenseExt=" ++ checksum ++ tail) := by
    simp [issued, columnText]
  have hfirst : (ls.map (· ++ [10])).foldl Reading.scan {} = readLicense (columnText 10 ls) := by
    rw [readLicense, columnText, lines_flatMap fun l hl => (h l hl).newline]
  rw [readLicense, htext, lines_columnText_append hlines, hext, List.map_append, List.foldl_append,
    List.foldl_append, hfirst]
  simp only [List.map_cons, List.map_nil, List.nil_append, List.foldl_cons, List.foldl_nil]
  rw [scan_blank, scan_data hdata, scan_ext hchecksum htail]
  simp only [content_columnText h, issued, List.append_assoc, List.cons_append, List.nil_append]

/-! ## What is accepted -/

section Accepted

variable {md5_hex md5_base64 : Bytes → Bytes} {env : Machine} {loc : Locale}

/-- The machine meets the conditions of a text. -/
structure Permits (env : Machine) (loc : Locale) (text : Bytes) : Prop where
  hardware : ∀ v ∈ (readLicense text).hardware_license, v ≠ [] → (checkHardware env loc v).1 = true
  date : ∀ v ∈ (readLicense text).expire_date, v ≠ [] → (checkExpiredate env loc v).1 = true

theorem hardwareInfo_fst (r : Reading) :
    (r.hardwareInfo env loc).1 = true ↔
      ∀ v ∈ r.hardware_license, v ≠ [] → (checkHardware env loc v).1 = true := by
  rw [Reading.hardwareInfo]
  cases r.hardware_license with
  | none => simp
  | some v => by_cases hv : v = [] <;> simp [hv]

theorem dateInfo_fst (r : Reading) :
    (r.dateInfo env loc).1 = true ↔
      ∀ v ∈ r.expire_date, v ≠ [] → (checkExpiredate env loc v).1 = true := by
  rw [Reading.dateInfo]
  cases r.expire_date with
  | none => simp
  | some v => by_cases hv : v = [] <;> simp [hv]

theorem checkLicenseFile_iff (file : Bytes) :
    (checkLicenseFile md5_hex md5_base64 env loc (some file)).1 = true ↔
      content file ≠ [] ∧ (readLicense file).license_checksum.getD [] ≠ [] ∧
        getValidLicense md5_hex env.prodno = (readLicense file).license_data.getD [] ∧
        (readLicense file).license_checksum.getD [] = getChecksum md5_base64 (content file) ∧
        Permits env loc file := by
  have hpermits : Permits env loc file ↔ ((readLicense file).hardwareInfo env loc).1 = true ∧
      ((readLicense file).dateInfo env loc).1 = true := by
    rw [hardwareInfo_fst, dateInfo_fst]
    exact ⟨fun h => ⟨h.hardware, h.date⟩, fun h => ⟨h.1, h.2⟩⟩
  rw [hpermits, content, checkLicenseFile]
  simp only [isValidChecksum]
  split_ifs with h₁ h₂ h₃ h₄ h₅
  · simp only [false_iff]
    rintro ⟨hcontent, hchecksum, -⟩
    exact h₁.elim hcontent hchecksum
  · simp only [false_iff]
    exact fun h => h₂ h.2.2.1
  · simp only [false_iff]
    exact fun h => by simp [h.2.2.2.1] at h₃
  · simp only [Bool.not_eq_true'] at h₄
    simp [h₄]
  · simp only [Bool.not_eq_true'] at h₅
    simp [h₅]
  · rw [not_or] at h₁
    simp only [Bool.not_eq_true', Bool.not_eq_false, decide_eq_true_eq, not_not] at h₂ h₃ h₄ h₅
    exact ⟨fun _ => ⟨h₁.1, h₁.2, h₂, h₃, h₄, h₅⟩, fun _ => rfl⟩

/-- **Nothing under the seal is altered.**  Accepted files with the same checksum have the same
lines under it, up to their ends and to empty lines at the end. -/
theorem sealedLines_eq {env' : Machine} {file file' : Bytes}
    (h : (checkLicenseFile md5_hex md5_base64 env loc (some file)).1 = true)
    (h' : (checkLicenseFile md5_hex md5_base64 env' loc (some file')).1 = true)
    (he : (readLicense file).license_checksum = (readLicense file').license_checksum)
    (hmd5 : Set.InjOn md5_base64 {salted (content file), salted (content file')}) :
    sealedLines file = sealedLines file' := by
  have hsum := ((checkLicenseFile_iff file).1 h).2.2.2.1
  have hsum' := ((checkLicenseFile_iff file').1 h').2.2.2.1
  rw [he, hsum', getChecksum, getChecksum] at hsum
  have hsalted := hmd5 (Set.mem_insert _ _) (Set.mem_insert_of_mem _ rfl) hsum.symm
  exact sealedLines_eq_of_content (salted_injective hsalted)

theorem makeLicense_append {ls : List Bytes} {prodno tail : Bytes} :
    makeLicense md5_hex md5_base64 (columnText 10 ls) prodno ++ tail =
      issued ls (getValidLicense md5_hex prodno) ++ 10 :: (bytes "ProductLicenseExt=" ++
        getChecksum md5_base64 (issued ls (getValidLicense md5_hex prodno)) ++ tail) := by
  have hdata : bytes "\nProductLicense=" = 10 :: bytes "ProductLicense=" := by decide
  have hext : bytes "\nProductLicenseExt=" = 10 :: bytes "ProductLicenseExt=" := by decide
  simp only [makeLicense, issued, hdata, hext, List.append_assoc, List.cons_append]

/-- **What is issued is accepted** on a machine that meets the conditions. -/
theorem checkLicenseFile_makeLicense {ls : List Bytes} (hls : ∀ l ∈ ls, IsLicenseLine l)
    (hpermits : Permits env loc (columnText 10 ls)) (hhex : ∀ x, IsDigest (md5_hex x))
    (hbase : ∀ x, IsDigest (md5_base64 x)) {tail : Bytes} (htail : tail ∈ [[], [10]]) :
    (checkLicenseFile md5_hex md5_base64 env loc
      (some (makeLicense md5_hex md5_base64 (columnText 10 ls) env.prodno ++ tail))).1 = true := by
  set data := getValidLicense md5_hex env.prodno with hd
  have hdata : IsDigest data := hhex _
  have hread := readLicense_issued hls hdata (hbase (salted (issued ls data))) htail
  have hcontent : content (makeLicense md5_hex md5_base64 (columnText 10 ls) env.prodno ++ tail) =
      issued ls data := by
    have hlast := (hdata.last (columnText 10 ls ++ 10 :: bytes "ProductLicense=")).1
    rw [List.append_assoc, List.cons_append, ← issued] at hlast
    have hself : (issued ls data).rdropWhile (· = 10) = issued ls data := by
      rw [List.rdropWhile_eq_self_iff]
      intro hne
      rw [List.getLast?_eq_some_getLast hne, ne_eq, Option.some.injEq] at hlast
      simp [hlast]
    rw [content, makeLicense_append, ← hd, getChecksum, hread, trimTail,
      List.rdropWhile_concat_pos _ _ _ rfl, hself]
  rw [checkLicenseFile_iff, hcontent, makeLicense_append, ← hd, getChecksum, hread]
  refine ⟨by simp [issued], (hbase _).1, rfl, rfl, ⟨?_, ?_⟩⟩
  · rw [hread]
    exact hpermits.hardware
  · rw [hread]
    exact hpermits.date

/-! ## The licence check -/

/-- A digit of `md5_hex`. -/
def isHexDigit (c : UInt8) : Bool := isDigit c || (97 ≤ c && c ≤ 102)

/-- A symbol of `md5_base64`. -/
def isBase64 (c : UInt8) : Bool :=
  isDigit c || (65 ≤ c && c ≤ 90) || (97 ≤ c && c ≤ 122) || c = 43 || c = 47

theorem not_isWhite_of_isBase64 {c : UInt8} (h : isBase64 c = true) : isWhite c = false := by
  refine not_isWhite_of_lt ?_
  simp only [isBase64, isDigit, Bool.or_eq_true, Bool.and_eq_true, decide_eq_true_eq,
    UInt8.le_iff_toNat_le, UInt8.ext_iff] at h
  simp only [UInt8.reduceToNat] at h
  omega

theorem isBase64_of_isHexDigit {c : UInt8} (h : isHexDigit c = true) : isBase64 c = true := by
  simp only [isHexDigit, isBase64, isDigit, Bool.or_eq_true, Bool.and_eq_true, decide_eq_true_eq,
    UInt8.le_iff_toNat_le, UInt8.ext_iff] at h ⊢
  simp only [UInt8.reduceToNat] at h ⊢
  omega

theorem isDigest_of_all {b : Bytes} {n : ℕ} (hlen : b.length = n + 1) (h : b.all isBase64) :
    IsDigest b :=
  ⟨List.ne_nil_of_length_eq_add_one hlen, fun c hc =>
    not_isWhite_of_isBase64 (List.all_eq_true.1 h c hc)⟩

/-- **The licence check.** What `MakeLicense.pl` issues for the lines of a licence is accepted, with
or without a line end at its end, on the machine with the product number if its hardware and its
clock meet the conditions; and accepted files with the same checksum have the same other lines, up
to line ends, if the digest has no collision on their texts. -/
theorem licence_accepted_and_sealed
    (hhex : ∀ x, (md5_hex x).length = 32 ∧ (md5_hex x).all isHexDigit)
    (hbase : ∀ x, (md5_base64 x).length = 22 ∧ (md5_base64 x).all isBase64) :
    (∀ ls : List Bytes, (∀ l ∈ ls, IsLicenseLine l) → Permits env loc (columnText 10 ls) →
      ∀ tail ∈ [[], [10]], (checkLicenseFile md5_hex md5_base64 env loc
        (some (makeLicense md5_hex md5_base64 (columnText 10 ls) env.prodno ++ tail))).1 = true) ∧
    ∀ (env env' : Machine) (file file' : Bytes),
      (checkLicenseFile md5_hex md5_base64 env loc (some file)).1 = true →
      (checkLicenseFile md5_hex md5_base64 env' loc (some file')).1 = true →
      (readLicense file).license_checksum = (readLicense file').license_checksum →
      Set.InjOn md5_base64 {salted (content file), salted (content file')} →
      sealedLines file = sealedLines file' := by
  have hhex' : ∀ x, IsDigest (md5_hex x) := by
    intro x
    have hall := List.all_eq_true.1 (hhex x).2
    exact isDigest_of_all (hhex x).1
      (List.all_eq_true.2 fun c hc => isBase64_of_isHexDigit (hall c hc))
  have hbase' : ∀ x, IsDigest (md5_base64 x) := fun x => isDigest_of_all (hbase x).1 (hbase x).2
  exact ⟨fun ls hls hpermits tail htail =>
      checkLicenseFile_makeLicense hls hpermits hhex' hbase' htail,
    fun _ _ _ _ h h' he hmd5 => sealedLines_eq h h' he hmd5⟩

end Accepted

/-! ## Coded limits -/

/-- What is written with one alphabet is read with the other. -/
theorem transliterate_transliterate {src dst : Bytes} (hdst : dst.Nodup)
    (hlength : src.length = dst.length) (hmem : ∀ c ∈ dst, c ∈ src) (b : Bytes) :
    transliterate dst src (transliterate src dst b) = b := by
  rw [transliterate, transliterate, List.map_map]
  refine (List.map_congr_left fun c _ => ?_).trans (List.map_id b)
  rw [Function.comp_apply, id_eq]
  by_cases hc : c ∈ src
  · have hidx : src.idxOf c < dst.length := hlength ▸ List.idxOf_lt_length_of_mem hc
    have hget : dst.getD (src.idxOf c) c = dst.get ⟨src.idxOf c, hidx⟩ := by
      rw [List.getD_eq_getElem?_getD, List.getElem?_eq_getElem hidx]
      rfl
    have hback : dst.idxOf (dst.get ⟨src.idxOf c, hidx⟩) = src.idxOf c :=
      hdst.idxOf_getElem _ hidx
    rw [if_pos hc, hget, if_pos (List.get_mem _ _), hback, List.getD_eq_getElem?_getD,
      List.getElem?_idxOf hc, Option.getD_some]
  · rw [if_neg hc, if_neg fun hd => hc (hmem c hd)]

theorem decode_encode (str : Bytes) : decode (encode str) = str :=
  transliterate_transliterate (by decide +kernel) (by decide +kernel) (by decide +kernel) str

/-- The lines of a licence for machines of up to 6000 bogomips. -/
def sampleLines : List Bytes :=
  [bytes "ForSell=No", bytes "ExpireDate=2005-10-10", [], bytes "HardwareLicense=Oota5hhh"]

/-- The digest of the product number 1234. -/
def sampleHex (x : Bytes) : Bytes :=
  if x = salted (bytes "1234") then bytes "4f43a20a3a697b5a9d5daa9303a734c2"
  else List.replicate 32 48

/-- The digest of the licence for this product. -/
def sampleBase64 (x : Bytes) : Bytes :=
  if x = salted (issued sampleLines (bytes "4f43a20a3a697b5a9d5daa9303a734c2")) then
    bytes "Nw6fHdi+3D9ozDDlVxrlig"
  else List.replicate 22 65

def sampleMachine : Machine := ⟨bytes "1234", 5600, 1100000000⟩

def sampleLocale : Locale where
  mktime sec min hour mday mon year :=
    if [sec, min, hour, mday, mon, year] = [0, 0, 0, 10, 9, 105] then some 1128902400 else none
  text msg := msg
  textDays msg _ := msg

/-- The issued file. -/
def sampleFile : Bytes :=
  makeLicense sampleHex sampleBase64 (columnText 10 sampleLines) (bytes "1234")

/-- The same licence with the line of the checksum in front, and other line ends. -/
def movedFile : Bytes :=
  columnText 10 ((bytes "ProductLicenseExt=Nw6fHdi+3D9ozDDlVxrlig" ::
    (sampleLines ++ [[], bytes "ProductLicense=4f43a20a3a697b5a9d5daa9303a734c2", []])).map
      (· ++ [13]))

theorem licence_accepted_and_sealed_sampleFile :
    (checkLicenseFile sampleHex sampleBase64 sampleMachine sampleLocale (some sampleFile)).1 =
        true ∧
      sealedLines sampleFile = sealedLines movedFile := by
  have hhex : ∀ x, (sampleHex x).length = 32 ∧ (sampleHex x).all isHexDigit := by
    intro x
    rw [sampleHex]
    split_ifs <;> decide
  have hbase : ∀ x, (sampleBase64 x).length = 22 ∧ (sampleBase64 x).all isBase64 := by
    intro x
    rw [sampleBase64]
    split_ifs <;> decide
  have hseal := @licence_accepted_and_sealed sampleHex sampleBase64 sampleMachine sampleLocale
    hhex hbase
  have hlines : ∀ l ∈ sampleLines,
      10 ∉ l ∧ l.getLast? ≠ some 13 ∧ valueOf "ProductLicenseExt" l = none := by decide
  have hpermits : Permits sampleMachine sampleLocale (columnText 10 sampleLines) := by
    have hhardware : (readLicense (columnText 10 sampleLines)).hardware_license =
        some (bytes "Oota5hhh") := by decide +kernel
    have hdate : (readLicense (columnText 10 sampleLines)).expire_date =
        some (bytes "2005-10-10") := by decide +kernel
    constructor
    · rw [hhardware]
      rintro v ⟨⟩ -
      decide +kernel
    · rw [hdate]
      rintro v ⟨⟩ -
      decide +kernel
  have haccepted : (checkLicenseFile sampleHex sampleBase64 sampleMachine sampleLocale
      (some sampleFile)).1 = true := by
    have hissued := hseal.1 sampleLines (fun l hl => ⟨(hlines l hl).1, (hlines l hl).2.1,
      (hlines l hl).2.2⟩) hpermits [] (by simp)
    rwa [List.append_nil] at hissued
  have hmoved : (checkLicenseFile sampleHex sampleBase64 sampleMachine sampleLocale
      (some movedFile)).1 = true := by decide +kernel
  have hcontent : content sampleFile = content movedFile := by decide +kernel
  refine ⟨haccepted, hseal.2 sampleMachine sampleMachine _ _ haccepted hmoved
    (by decide +kernel) ?_⟩
  rw [hcontent, Set.pair_eq_singleton]
  exact Set.injOn_singleton _ _

end NoSpam.License
