import NoSpam.Base.Store
import NoSpam.Mail.Info

/-!
# The quarantine

`AKA::Mail::Quarantine`: a quarantined mail is a second name for the message file in a directory of
the recipient or of the administrator, beside a file of six lines that says what it is.  File
operations succeed, except that `link` needs its source and a free target.
-/

namespace NoSpam.Quarantine

open Text Perl Conf

/-- `{define}->{quarantinedir}`. -/
def quarantinedir : Bytes := bytes "/home/NoSPAM/Quarantine"

/-- `{define}->{sysdir}`. -/
def sysdir : Bytes := bytes "nospam"

/-- The lines of an info file. -/
structure Info where
  mailfrom : Bytes
  mailto : Bytes
  subject : Bytes
  size : Bytes
  reason : Bytes
  desc : Bytes
  deriving DecidableEq

/-- `make_info_content`. -/
def makeInfoContent (i : Info) : Bytes :=
  joinFields 10 [i.mailfrom, i.mailto, i.subject, i.size, i.reason, i.desc]

/-- `get_quarantine_info`, on the content of the info file. -/
def getQuarantineInfo (content : Bytes) : Info :=
  let line (i : ℕ) := (content.splitOn 10).getD i []
  ⟨line 0, line 1, line 2, line 3, line 4, line 5⟩

/-- Sender and recipient are read as they were written, if they are lines. -/
theorem getQuarantineInfo_makeInfoContent (i : Info) (hfrom : 10 ∉ i.mailfrom)
    (hto : 10 ∉ i.mailto) :
    (getQuarantineInfo (makeInfoContent i)).mailfrom = i.mailfrom ∧
      (getQuarantineInfo (makeInfoContent i)).mailto = i.mailto := by
  have hlines : ∃ rest, (makeInfoContent i).splitOn 10 = i.mailfrom :: i.mailto :: rest := by
    unfold makeInfoContent
    rw [joinFields_cons, List.flatMap_cons, List.flatMap_cons, List.cons_append,
      List.splitOn_append_cons_self_of_not_mem hfrom, List.cons_append,
      List.splitOn_append_cons_self_of_not_mem hto]
    exact ⟨_, rfl⟩
  obtain ⟨rest, hrest⟩ := hlines
  unfold getQuarantineInfo
  rw [hrest]
  exact ⟨rfl, rfl⟩

/-- User and domain of a word, cut at the last `@` that has a symbol on either side. -/
def splitAddress (word : Bytes) : Option (Bytes × Bytes) :=
  let rec search : ℕ → Option (Bytes × Bytes)
    | 0 => none
    | n + 1 =>
        if word[n + 1]? = some 64 then some (word.take (n + 1), word.drop (n + 2)) else search n
  search (word.length - 2)

/-- `/(\S+)\@(\S+)/`, in lower case. -/
def parseAddress (mailto : Bytes) : Option (Bytes × Bytes) :=
  ((mailto.splitOnP isWhite).findSome? splitAddress).map fun p => (lc p.1, lc p.2)

/-- The name of a file in the directory of a user. -/
def userPath (user domain filename : Bytes) : Bytes :=
  quarantinedir ++ bytes "/" ++ domain ++ bytes "/" ++ user ++ bytes "/" ++ filename

/-- The name of a file in the directory of the administrator. -/
def adminPath (filename : Bytes) : Bytes :=
  quarantinedir ++ bytes "/" ++ sysdir ++ bytes "/" ++ filename

/-- The name of the info file beside a file. -/
def infoPath (path : Bytes) : Bytes := path ++ bytes ".info"

/-- The name of the message file, without its directory. -/
def baseName (mailfile : Bytes) : Bytes := lastField 47 mailfile

/-- Write the info file, then give the message file its second name. -/
def deposit (mailfile path : Bytes) (i : Info) (fs : Store Bytes Bytes) : Store Bytes Bytes :=
  Store.link mailfile path (Store.write (infoPath path) (makeInfoContent i) fs)

/-- One turn of the loop over the addresses of `$mailto`. -/
def depositUser (mailfile : Bytes) (i : Info) (fs : Store Bytes Bytes) (mailto : Bytes) :
    Store Bytes Bytes :=
  match parseAddress mailto with
  | some (user, domain) =>
      deposit mailfile (userPath user domain (baseName mailfile)) { i with mailto } fs
  | none => fs

/-- `quarantine`: the message file loses its first name at the end. -/
def quarantine (qType : QuarantineType) (mailfile : Bytes) (i : Info) (fs : Store Bytes Bytes) :
    Store Bytes Bytes :=
  match qType with
  | .admin => Store.unlink mailfile (deposit mailfile (adminPath (baseName mailfile)) i fs)
  | .user => Store.unlink mailfile ((fields 44 i.mailto).foldl (depositUser mailfile i) fs)

/-- A size as Perl's `-s` prints it. -/
def showSize (size : ℕ) : Bytes := if size = 0 then [] else decimal size

/-- The info of a mail, for one recipient. -/
def infoOf (a : Aka) (reason desc mailto : Bytes) : Info :=
  ⟨a.returnpath, mailto, a.subject, showSize a.size, reason, desc⟩

/-- The recipients that the user database knows. -/
def registered (a : Aka) : List Bytes :=
  (fields 44 a.recips).filter fun r => r ∈ (a.engine .quarantine).qUsers

/-- `quarantine_action`: the mail is put into quarantine once for every registered recipient. -/
def quarantineAction (qType : QuarantineType) (reason desc : Bytes) (a : Aka)
    (fs : Store Bytes Bytes) : Store Bytes Bytes :=
  (registered a).foldl
    (fun fs r => quarantine qType a.emlfilename (infoOf a reason desc r) fs) fs

end NoSpam.Quarantine
