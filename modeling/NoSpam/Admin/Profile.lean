import NoSpam.Base.Php
import NoSpam.Base.Records

/-!
# The file of administrators

`ADMINFILE` has a line of six columns for every administrator.  `addAdmin` appends a line;
`setPassword`, `modifyAdminPrivilidge`, `setIPList`, `modifyAdmin` and `deleteAdmin` read the file
into an array, empty it and write the array back.  Each checks some of its arguments.  The file can
be opened, locked and written here, and `crypt` is an argument.
-/

namespace NoSpam.Admin

open Text Php

/-! ## Return codes -/

def OK : ℤ := 0
def ERR_NOSUCHID : ℤ := -100
def ERR_FORMAT_ID : ℤ := -201
def ERR_FORMAT_PASSWORD : ℤ := -202
def ERR_FORMAT_PRIVILIDGE : ℤ := -203
def ERR_FORMAT_NOTE : ℤ := -204
def ERR_FORMAT_IP : ℤ := -205
def ERR_FORMAT_DOMAIN : ℤ := -206
def ERR_IDEXIST : ℤ := -300

/-! ## Checks -/

/-- A symbol of an identifier; the backslash of the pattern stands for itself. -/
def isIDByte (c : UInt8) : Bool := isAlpha c || isDigit c || c = 95 || c = 92 || c = 46

/-- `^[A-Za-z][_0-9A-Za-z\.]*$`. -/
def idPattern : Bytes → Bool
  | [] => false
  | c :: l => isAlpha c && l.all isIDByte

/-- `isIDFormatOK`. -/
def isIDFormatOK (id : Bytes) : Bool := idPattern (cstr id)

/-- `isPasswordFormatOK`. -/
def isPasswordFormatOK (passwd : Bytes) : Bool :=
  cstr passwd ≠ [] && (cstr passwd).all fun c => isAlpha c || isDigit c

/-- `isPrivilidgeFormatOK`. -/
def isPrivilidgeFormatOK (privilidge : Bytes) : Bool := intval privilidge ≠ 0

/-- `isNoteFormatOK`. -/
def isNoteFormatOK (note : Bytes) : Bool := 58 ∉ cstr note

/-- Four numbers with dots between them. -/
def isOctets (ip : Bytes) : Bool :=
  (ip.splitOn 46).length = 4 && (ip.splitOn 46).all fun p => isNumeric p && intval p ≤ 255

/-- `checkipaddr`. -/
def checkipaddr (str : Bytes) (flag : Bool) : Bool :=
  if 47 ∈ str ∧ str.head? ≠ some 47 ∧ flag then
    let mask := (str.splitOn 47).getD 1 []
    isNumeric mask && 0 ≤ intval mask && intval mask ≤ 32 && isOctets ((str.splitOn 47).getD 0 [])
  else isOctets str

/-- `isIpFormatOK`. -/
def isIpFormatOK (sip : Bytes) : Bool :=
  match trim sip with
  | [] => true
  | c :: l =>
      let ip := if c = 43 ∨ c = 45 then l else c :: l
      ((trim ip).splitOn 44).all fun value => checkipaddr (trim value) true

/-- `isDomainFormatOK`. -/
def isDomainFormatOK (_ : Bytes) : Bool := true

/-! ## Records -/

/-- The columns of a line. -/
structure Record where
  id : Bytes := []
  passwd : Bytes := []
  privilidge : Bytes := []
  note : Bytes := []
  ip : Bytes := []
  domain : Bytes := []
  deriving DecidableEq

/-- The columns in their order. -/
def Record.fields (r : Record) : List Bytes :=
  [r.id, r.passwd, r.privilidge, r.note, r.ip, r.domain]

/-- The line of a record, without its end. -/
def Record.text (r : Record) : Bytes := joinFields 58 r.fields

/-- The file of some records. -/
def profile (rs : List Record) : Bytes := columnText 10 (rs.map Record.text)

/-- `explode` and `list`: the first six columns, the missing ones empty. -/
def ofLine (line : Bytes) : Record :=
  let cols := line.splitOn 58
  ⟨cols.getD 0 [], cols.getD 1 [], cols.getD 2 [], cols.getD 3 [], cols.getD 4 [], cols.getD 5 []⟩

/-- A record with `rtrim` on its columns. -/
def Record.trimmed (r : Record) : Record :=
  ⟨rtrim r.id, rtrim r.passwd, rtrim r.privilidge, rtrim r.note, rtrim r.ip, rtrim r.domain⟩

/-- The records of a file as the loops read them: at most 1023 bytes with every `fgets`, and at
last, at the end of the file, nothing. -/
def readProfile (file : Bytes) : List Record := (pieces 10 1023 1023 file ++ [[]]).map ofLine

/-- The array written back: the entries without an identifier are left out. -/
def rewrite (userinfo_list : List Record) (new : Record → Record) : Bytes :=
  profile ((userinfo_list.filter fun r => r.id ≠ []).map new)

/-! ## Calls -/

section Calls

variable (crypt : Bytes → Bytes)

/-- `addAdmin`. -/
def addAdmin (id passwd privilidge note ip domain file : Bytes) : ℤ × Bytes :=
  if !isIDFormatOK id then (ERR_FORMAT_ID, file)
  else if !isPasswordFormatOK passwd then (ERR_FORMAT_PASSWORD, file)
  else if !isPrivilidgeFormatOK privilidge then (ERR_FORMAT_PRIVILIDGE, file)
  else if !isNoteFormatOK note then (ERR_FORMAT_NOTE, file)
  else if !isIpFormatOK ip then (ERR_FORMAT_IP, file)
  else if !isDomainFormatOK domain then (ERR_FORMAT_DOMAIN, file)
  else if (readProfile file).any fun r => r.id = id then (ERR_IDEXIST, file)
  else (OK, file ++ profile [⟨id, crypt passwd, privilidge, note, ip, domain⟩])

/-- The calls that change a record: `check` comes after the search, `new` is what becomes of the
record. -/
def modify (id : Bytes) (check : Bool) (err : ℤ) (new : Record → Record) (file : Bytes) :
    ℤ × Bytes :=
  if !isIDFormatOK id then (ERR_FORMAT_ID, file)
  else if !(readProfile file).any fun r => r.id = id then (ERR_NOSUCHID, file)
  else if !check then (err, file)
  else
    (OK, rewrite ((readProfile file).map Record.trimmed) fun r => if r.id = id then new r else r)

/-- `setPassword`. -/
def setPassword (id passwd : Bytes) : Bytes → ℤ × Bytes :=
  modify id (isPasswordFormatOK passwd) ERR_FORMAT_PASSWORD fun r =>
    { r with passwd := crypt passwd }

/-- `modifyAdminPrivilidge`. -/
def modifyAdminPrivilidge (id perm : Bytes) : Bytes → ℤ × Bytes :=
  modify id (isPrivilidgeFormatOK perm) ERR_FORMAT_PRIVILIDGE fun r => { r with privilidge := perm }

/-- `setIPList`. -/
def setIPList (id iplist : Bytes) : Bytes → ℤ × Bytes :=
  modify id (isIpFormatOK iplist) ERR_FORMAT_IP fun r => { r with ip := iplist }

/-- `modifyAdmin`; an empty password leaves the one there is. -/
def modifyAdmin (id passwd privilidge note ip domain : Bytes) : Bytes → ℤ × Bytes :=
  modify id (isPrivilidgeFormatOK privilidge) ERR_FORMAT_PRIVILIDGE fun r =>
    ⟨r.id, if passwd = [] then r.passwd else crypt passwd, privilidge, note, ip, domain⟩

/-- `deleteAdmin`. -/
def deleteAdmin (id file : Bytes) : ℤ × Bytes :=
  if !isIDFormatOK id then (ERR_FORMAT_ID, file)
  else if !(readProfile file).any fun r => r.id = id then (ERR_NOSUCHID, file)
  else
    (OK, rewrite (((readProfile file).filter fun r => r.id ≠ id).map Record.trimmed) fun r => r)

/-- A call with its arguments. -/
inductive Call where
  | addAdmin (id passwd privilidge note ip domain : Bytes)
  | setPassword (id passwd : Bytes)
  | modifyAdminPrivilidge (id perm : Bytes)
  | setIPList (id iplist : Bytes)
  | modifyAdmin (id passwd privilidge note ip domain : Bytes)
  | deleteAdmin (id : Bytes)

/-- The administrator a call is about. -/
def Call.id : Call → Bytes
  | .addAdmin id .. | .setPassword id _ | .modifyAdminPrivilidge id _ | .setIPList id _
  | .modifyAdmin id .. | .deleteAdmin id => id

/-- The return code of a call, and the file after it. -/
def Call.run : Call → Bytes → ℤ × Bytes
  | .addAdmin id passwd privilidge note ip domain =>
      Admin.addAdmin crypt id passwd privilidge note ip domain
  | .setPassword id passwd => Admin.setPassword crypt id passwd
  | .modifyAdminPrivilidge id perm => Admin.modifyAdminPrivilidge id perm
  | .setIPList id iplist => Admin.setIPList id iplist
  | .modifyAdmin id passwd privilidge note ip domain =>
      Admin.modifyAdmin crypt id passwd privilidge note ip domain
  | .deleteAdmin id => Admin.deleteAdmin id

end Calls

end NoSpam.Admin
