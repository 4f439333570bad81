import NoSpam.Base.CString
import NoSpam.Base.Records

/-!
# The licence library

`license.c` checks a licence for programs in C, `MakeLicense.pl` beside it issues one: the text, a
line with a digest of the product number, and a line with a digest of everything before it.
`check_license_file` never initialises its arrays, so what they hold when it is called is an
argument here.
-/

namespace NoSpam.Library

open Text CString

/-! ## Digests -/

/-- MD5. -/
structure Md5 where
  digest : Bytes → Bytes
  length_digest : ∀ b, (digest b).length = 16

/-- The digits of `hex_16`. -/
def hexdigits : Bytes := bytes "0123456789abcdef"

/-- `hex_16`. -/
def hex16 (digest : Bytes) : Bytes :=
  digest.flatMap fun c => [hexdigits.getD (c.toNat / 16) 0, hexdigits.getD (c.toNat % 16) 0]

/-- The symbols of `base64_16`. -/
def base64 : Bytes := bytes "ABCDEFGHIJKLMNOPQRSTUVWXYZabcdefghijklmnopqrstuvwxyz0123456789+/"

/-- `base64_16`; sixteen bytes are five times three and one. -/
def base64of16 : Bytes → Bytes
  | c1 :: c2 :: c3 :: rest =>
      base64.getD (c1.toNat / 4) 0 :: base64.getD (c1.toNat % 4 * 16 + c2.toNat / 16) 0 ::
        base64.getD (c2.toNat % 16 * 4 + c3.toNat / 64) 0 :: base64.getD (c3.toNat % 64) 0 ::
          base64of16 rest
  | [c1] => [base64.getD (c1.toNat / 4) 0, base64.getD (c1.toNat % 4 * 16) 0]
  | _ => []

/-- What is digested for a text. -/
def salted (data : Bytes) : Bytes :=
  bytes "zixia" ++ (data ++ (bytes "K12" ++ (data ++ bytes "wMail")))

namespace Md5

variable (md5 : Md5)

/-- `md5_hex`, here and in `Digest::MD5`. -/
def hex (b : Bytes) : Bytes := hex16 (md5.digest b)

/-- `md5_base64`, here and in `Digest::MD5`. -/
def base64 (b : Bytes) : Bytes := base64of16 (md5.digest b)

/-! ## The generator -/

/-- `get_valid_license`. -/
def getValidLicense (prod_no : Bytes) : Bytes := md5.hex (salted prod_no)

/-- `get_checksum`. -/
def getChecksum (license_dat : Bytes) : Bytes := md5.base64 (salted license_dat)

/-- `make_license`. -/
def makeLicense (license_orig prodno : Bytes) : Bytes :=
  let license_ret := license_orig ++ (bytes "\nProductLicense=" ++ md5.getValidLicense prodno)
  license_ret ++ (bytes "\nProductLicenseExt=" ++ md5.getChecksum license_ret)

/-- What `MakeLicense.pl` prints for this text. -/
def printed (license_orig prodno : Bytes) : Bytes := md5.makeLicense license_orig prodno ++ [10]

/-! ## The checks of the digests -/

/-- `get_prodno`, for the serial numbers of the hardware. -/
def getProdno (serial : Bytes) : Bytes := md5.hex serial

/-- `get_license_ex`. -/
def getLicenseEx (license_dat : Bytes) : Option Bytes :=
  (strcpy 40960 (salted license_dat)).map md5.base64

/-- `get_license`. -/
def getLicense (prodno : Bytes) : Option Bytes := (strcpy 1024 (salted prodno)).map md5.hex

/-- `check_license_match`. -/
def checkLicenseMatch (serial license : Bytes) : Option ℤ :=
  (md5.getLicense (md5.getProdno serial)).map fun right_license =>
    if right_license = license then 0 else -1

/-- `check_license_ex_match`. -/
def checkLicenseExMatch (license_file license_ex : Bytes) : Option ℤ :=
  (md5.getLicenseEx license_file).map fun right_license_ex =>
    if right_license_ex = license_ex then 0 else -1

end Md5

/-! ## The check of a file -/

/-- What the three arrays hold when `check_license_file` is called. -/
structure Buffers where
  license_file : Bytes
  ProductLicense : Bytes
  ProductLicenseExt : Bytes
  length_license_file : license_file.length = 32768
  length_ProductLicense : ProductLicense.length = 128
  length_ProductLicenseExt : ProductLicenseExt.length = 128

/-- The strings in the three arrays. -/
structure Reading where
  license_file : Option Bytes
  ProductLicense : Option Bytes
  ProductLicenseExt : Option Bytes

/-- The strings that are there from before. -/
def Buffers.reading (b : Buffers) : Reading where
  license_file := ofArray b.license_file
  ProductLicense := ofArray b.ProductLicense
  ProductLicenseExt := ofArray b.ProductLicenseExt

/-- The key of a line is `ProductLicenseExt`. -/
def isExt (buf : Bytes) : Bool := (tokens 61 buf).1 = some (bytes "ProductLicenseExt")

/-- The value of a line with the key `ProductLicense`. -/
def licenseOf (buf : Bytes) : Option Bytes :=
  match tokens 61 buf with
  | (some key, some val) => if key = bytes "ProductLicense" then some val else none
  | _ => none

/-- The loop of `fgets`, over the strings it puts into `buf`. -/
def readLines : Reading → List Bytes → Option Reading
  | r, [] => some r
  | r, buf :: rest =>
      if isExt buf then
        ((tokens 61 buf).2.bind (strcpy 128)).map fun ext =>
          { r with ProductLicenseExt := some ext }
      else
        (strcat 32768 r.license_file buf).bind fun file =>
          match licenseOf buf with
          | some val =>
              (strcpy 128 val).bind fun license =>
                readLines { r with license_file := some file, ProductLicense := some license } rest
          | none => readLines { r with license_file := some file } rest

/-- What `fgets` puts into `buf`. -/
def bufs (file : Bytes) : List Bytes := (pieces 10 4095 4095 file).map (·.takeWhile (· ≠ 0))

/-- `check_license_file`: what it returns and prints, for the file if it can be opened. -/
def checkLicenseFile (md5 : Md5) (serial : Bytes) (b : Buffers) (filepath : Bytes)
    (file : Option Bytes) : Option (ℤ × Bytes) :=
  match file with
  | none => some (-1, bytes "Can't open license file: " ++ filepath ++ [10])
  | some file => do
      let r ← readLines b.reading (bufs file)
      let license ← chop r.ProductLicense
      let license_ex ← chop r.ProductLicenseExt
      let license_file ← chop r.license_file
      if (← md5.checkLicenseMatch serial license) = -1 then return (-1, [])
      if (← md5.checkLicenseExMatch license_file license_ex) = -1 then return (-1, [])
      return (0, [])

end NoSpam.Library
