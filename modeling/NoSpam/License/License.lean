import NoSpam.Base.Assoc
import NoSpam.Base.Columns
import NoSpam.Base.Scalar

/-!
# Licences

`MakeLicense.pl` appends to the text of a licence a line with a digest of the product number and a
line with a digest of everything before it.  `check_license_file` of `AKA::Mail` reads the file line
by line, takes the digests out and computes them again.  The digests are those of `Digest::MD5`;
they, `mktime` and the translation of messages are arguments.
-/

namespace NoSpam.License

open Text Perl

/-! ## Encoding -/

/-- The symbols with codes from `a` to `b`. -/
def range (a b : ℕ) : Bytes := (List.range' a (b + 1 - a)).map UInt8.ofNat

/-- `=;,:_\-+0-9A-Za-z`. -/
def plainAlphabet : Bytes := bytes "=;,:_-+" ++ range 48 57 ++ range 65 90 ++ range 97 122

/-- `a-m5-9N-Zn-zA-M0-4:_\-+;,=`. -/
def codeAlphabet : Bytes :=
  range 97 109 ++ range 53 57 ++ range 78 90 ++ range 110 122 ++ range 65 77 ++ range 48 52 ++
    bytes ":_-+;,="

/-- `y/from/to/`. -/
def transliterate (src dst b : Bytes) : Bytes :=
  b.map fun c => if c ∈ src then dst.getD (src.idxOf c) c else c

/-- `encode`. -/
def encode (str : Bytes) : Bytes := transliterate plainAlphabet codeAlphabet str

/-- `decode`. -/
def decode (str : Bytes) : Bytes := transliterate codeAlphabet plainAlphabet str

/-! ## Digests -/

section Digests

variable (md5_hex md5_base64 : Bytes → Bytes)

/-- What is digested for a text. -/
def salted (data : Bytes) : Bytes :=
  bytes "okboy" ++ (data ++ (bytes "zixia" ++ (data ++ bytes "@2004-03-07")))

/-- `get_valid_license`. -/
def getValidLicense (hd_serialno : Bytes) : Bytes := md5_hex (salted hd_serialno)

/-- `get_checksum`. -/
def getChecksum (data : Bytes) : Bytes := md5_base64 (salted data)

/-- `is_valid_checksum`. -/
def isValidChecksum (license_content license_checksum : Bytes) : Bool :=
  license_checksum = getChecksum md5_base64 license_content

/-- `make_license`. -/
def makeLicense (license_orig prodno : Bytes) : Bytes :=
  let license_ret := license_orig ++ (bytes "\nProductLicense=" ++ getValidLicense md5_hex prodno)
  license_ret ++ (bytes "\nProductLicenseExt=" ++ getChecksum md5_base64 license_ret)

end Digests

/-! ## Conditions -/

/-- What the checks ask of the machine: its product number, its speed and its clock. -/
structure Machine where
  prodno : Bytes
  bogomips : ℤ
  now : ℤ

/-- `mktime`, and `__` and `__x` of `Locale::TextDomain`. -/
structure Locale where
  mktime : ℤ → ℤ → ℤ → ℤ → ℤ → ℤ → Option ℤ
  text : Bytes → Bytes
  textDays : Bytes → ℤ → Bytes

/-- The last `=` with something after it: what stands before it, and after it. -/
def cutLast : Bytes → Option (Bytes × Bytes)
  | [] => none
  | c :: l =>
      match cutLast l with
      | some m => some (c :: m.1, m.2)
      | none => if c = 61 ∧ l ≠ [] then some ([], l) else none

/-- `/(.+)=(.+)/`. -/
def keyValue : Bytes → Option (Bytes × Bytes)
  | [] => none
  | c :: l => (cutLast l).map fun m => (c :: m.1, m.2)

section Checks

variable (env : Machine) (loc : Locale)

/-- `check_hardware`. -/
def checkHardware (hardware_license : Bytes) : Bool × Bytes :=
  let hl := Assoc.ofList ((fields 59 (decode hardware_license)).filterMap keyValue)
  match hl.lookup (bytes "CPU") with
  | some cpu =>
      if num cpu < env.bogomips then (false, loc.text (bytes "CPU is not licensed"))
      else (true, loc.text (bytes "Hareward system OK"))
  | none => (true, loc.text (bytes "Hareward system OK"))

/-- Three runs of digits, empty if they are not found. -/
def triple (sep : UInt8) (b : Bytes) : Bytes × Bytes × Bytes :=
  match findRuns sep 2 b with
  | some [x, y, z] => (x, y, z)
  | _ => ([], [], [])

/-- `check_expiredate`. -/
def checkExpiredate (expire_date : Bytes) : Bool × Option Bytes :=
  let (year, month, date) := triple 45 expire_date
  let (hour, minute, second) := triple 58 expire_date
  if !(isTrue year && isTrue month && isTrue date) then (true, none)
  else
    let expire_time := (loc.mktime (num second) (num minute) (num hour) (num date) (num month - 1)
      (num year - 1900)).getD 0
    if expire_time < env.now then (false, some (loc.text (bytes "License expired")))
    else
      let days_left := (expire_time - env.now) / 86400 + 1
      if days_left < 30 then
        (true, some (bytes "<b><font color='red'>" ++
          loc.textDays (bytes "License will expired after {days_left} days.") days_left ++
          bytes "</font></b>"))
      else (true, none)

end Checks

/-! ## The check of a file -/

/-- What the loop over the lines has found. -/
structure Reading where
  license_checksum : Option Bytes := none
  license_data : Option Bytes := none
  LicenseHTML : Option Bytes := none
  hardware_license : Option Bytes := none
  expire_date : Option Bytes := none
  license_content : Bytes := []

/-- `chomp; s/[\r\n]+$//`. -/
def stripEnd (line : Bytes) : Bytes := (chomp line).rdropWhile fun c => c = 13 || c = 10

/-- `/^name=(.+)$/`. -/
def valueOf (name : String) (line : Bytes) : Option Bytes :=
  (line.dropPrefix? (bytes name ++ [61])).filter (· ≠ [])

/-- What a line other than that of the checksum is good for. -/
def Reading.setField (r : Reading) (line : Bytes) : Reading :=
  match valueOf "ProductLicense" line with
  | some v => { r with license_data := some (v.filter fun c => !isWhite c) }
  | none =>
    match valueOf "LicenseHTML" line with
    | some v => { r with LicenseHTML := some (v ++ bytes "<br>") }
    | none =>
      match valueOf "HardwareLicense" line with
      | some v => { r with hardware_license := some v }
      | none =>
        match valueOf "ExpireDate" line with
        | some v => { r with expire_date := some v }
        | none => r

/-- One round of the loop. -/
def Reading.scan (r : Reading) (line : Bytes) : Reading :=
  let line := stripEnd line
  match valueOf "ProductLicenseExt" line with
  | some v => { r with license_checksum := some v }
  | none =>
    let r := r.setField line
    { r with license_content := r.license_content ++ (line ++ [10]) }

/-- The loop over a file. -/
def readLicense (file : Bytes) : Reading := (lines 10 file).foldl Reading.scan {}

/-- `s/\n+$//`. -/
def trimTail (b : Bytes) : Bytes := b.rdropWhile (· = 10)

section Check

variable (md5_hex md5_base64 : Bytes → Bytes) (env : Machine) (loc : Locale)

/-- The check of the hardware, if there is a line for it. -/
def Reading.hardwareInfo (r : Reading) : Bool × Bytes :=
  match r.hardware_license with
  | some v => if v = [] then (true, []) else checkHardware env loc v
  | none => (true, [])

/-- The check of the date, if there is a line for it. -/
def Reading.dateInfo (r : Reading) : Bool × Option Bytes :=
  match r.expire_date with
  | some v => if v = [] then (true, none) else checkExpiredate env loc v
  | none => (true, none)

/-- `check_license_file`, for the file if it can be opened. -/
def checkLicenseFile (file : Option Bytes) : Bool × Bytes :=
  match file with
  | none => (false, loc.text (bytes "System has no valid license now"))
  | some file =>
    let r := readLicense file
    let license_content := trimTail r.license_content
    let license_checksum := r.license_checksum.getD []
    if license_content = [] ∨ license_checksum = [] then
      (false, loc.text (bytes "License error ") ++ bytes "#1")
    else if getValidLicense md5_hex env.prodno ≠ r.license_data.getD [] then
      (false, loc.text (bytes "License error ") ++ bytes "#2")
    else if !isValidChecksum md5_base64 license_content license_checksum then
      (false, loc.text (bytes "License error ") ++ bytes "#3")
    else
      let hw := r.hardwareInfo env loc
      if !hw.1 then hw
      else
        let date := r.dateInfo env loc
        if !date.1 then (false, date.2.getD [])
        else
          let LicenseHTML := r.LicenseHTML.getD [] ++ date.2.getD []
          (true, orElse LicenseHTML (loc.text (bytes "License is valid!")))

end Check

end NoSpam.License
