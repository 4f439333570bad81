import Mathlib.Data.List.AList
import NoSpam.Conf

/-!
# The content parser

`AKA::Mail::Content::Parser`: the facts about a mail that the content rules look at, collected
from the entity tree that `MIME::Parser` builds from the message file.  The parser keeps what it
found in `mail_info` and answers from there until `clean` is called.
-/

namespace NoSpam.Content

open Text Perl

/-! ## Entities -/

/-- A decoded and unfolded header: its text, and its fields in order. -/
structure Head where
  content : Bytes
  fields : List (Bytes × Bytes)
  deriving DecidableEq

/-- A decoded body, and the file it was written to. -/
structure Body where
  path : Bytes
  data : Bytes
  deriving DecidableEq

/-- An entity of `MIME::Parser`: header, media type, recommended file name, body and parts. -/
inductive Entity
  | mk (head : Head) (mimeType : Bytes) (filename : Option Bytes) (body : Option Body)
      (parts : List Entity)

namespace Head

/-- `$head->get($tag)` in list context. -/
def getAll (h : Head) (tag : Bytes) : List Bytes :=
  (h.fields.filter fun f => lc f.1 = lc tag).map Prod.snd

/-- `$head->get($tag) || ''`. -/
def get (h : Head) (tag : Bytes) : Bytes := (h.getAll tag).headD []

end Head

/-! ## Mail information -/

/-- `mail_info->{head}`. -/
structure HeadInfo where
  content : Bytes
  fromField : Bytes
  toField : Bytes
  cc : Bytes
  bcc : Bytes
  subject : Bytes
  toCcBccNum : ℕ
  serverIp : Bytes
  senderIp : Bytes
  deriving DecidableEq

/-- An entry of `mail_info->{body}`. -/
structure BodyPart where
  nofilename : Bool
  path : Bytes
  type : Bytes
  subtype : Bytes
  content : Bytes
  size : ℕ
  typeclass : ℕ
  deriving DecidableEq

/-- `mail_info` as the parser leaves it.  The sizes that stay undefined when no part contributes
to them are optional. -/
structure MailInfo where
  head : HeadInfo
  headSize : ℕ
  body : AList fun _ : Bytes => BodyPart
  bodyText : Bytes
  bodySize : Option ℕ
  attachmentSize : Option ℕ
  attachmentNum : Option ℕ
  attachment : Bool

/-- A class of file types: its number and its extensions. -/
structure FileType where
  num : ℕ
  exts : List Bytes
  deriving DecidableEq

/-- The built-in classes. -/
def fileTypes : List FileType :=
  [⟨1, [bytes "zip", bytes "rar", bytes "tgz", bytes "gz", bytes "bz2"]⟩,
    ⟨2, [bytes "mp3", bytes "wav", bytes "wmv"]⟩,
    ⟨3, [bytes "jpg", bytes "jpeg", bytes "gif", bytes "pcx"]⟩,
    ⟨4, [bytes "txt"]⟩,
    ⟨5, [bytes "exe", bytes "com", bytes "bat", bytes "pif", bytes "scr", bytes "vbs"]⟩]

/-- `get_attachment_type`, over the classes in the order the hash yields them, for extensions whose
only signs of the pattern language are dots. -/
def getAttachmentType (types : List FileType) (filename : Bytes) : ℕ :=
  match types.find? fun t => t.exts.any fun e => endsWith e filename with
  | some t => t.num
  | none => 6

/-- The loop over the extensions of a class: `$filename =~ /$_$/`, for any way in which the pattern
is searched. -/
def FileType.isFound (search : Bytes → Option (Bytes → Bool)) (filename : Bytes) (t : FileType) :
    Option Bool :=
  t.exts.anyM fun e => (search (e ++ [36])).map (· filename)

/-- `get_attachment_type` for all extensions: it dies in a pattern that does not compile. -/
def getAttachmentTypeWith (search : Bytes → Option (Bytes → Bool)) (filename : Bytes) :
    List FileType → Option ℕ
  | [] => some 6
  | t :: types =>
    match t.isFound search filename with
    | none => none
    | some true => some t.num
    | some false => getAttachmentTypeWith search filename types

/-- The search for patterns in which only dots, and the `$` at the end, have a meaning. -/
def searchEnd (pattern : Bytes) : Option (Bytes → Bool) := some (endsWith pattern.dropLast)

/-- The patterns of the extensions are searched so. -/
def SearchesEnds (search : Bytes → Option (Bytes → Bool)) (types : List FileType) : Prop :=
  ∀ t ∈ types, ∀ e ∈ t.exts, search (e ++ [36]) = some (endsWith e)

theorem searchesEnds_searchEnd (types : List FileType) : SearchesEnds searchEnd types := by
  intro t _ e _
  rw [searchEnd, List.dropLast_concat]

theorem FileType.isFound_eq {search : Bytes → Option (Bytes → Bool)} {t : FileType}
    (h : ∀ e ∈ t.exts, search (e ++ [36]) = some (endsWith e)) (filename : Bytes) :
    t.isFound search filename = some (t.exts.any fun e => endsWith e filename) := by
  obtain ⟨num, exts⟩ := t
  unfold FileType.isFound
  induction exts with
  | nil => rfl
  | cons e exts ih =>
    rw [List.forall_mem_cons] at h
    rw [List.anyM_cons, List.any_cons, h.1, ih h.2]
    cases hends : endsWith e filename <;> simp [hends]

/-- Both are the same where dots are the only signs in the extensions. -/
theorem getAttachmentTypeWith_eq {search : Bytes → Option (Bytes → Bool)} {types : List FileType}
    (h : SearchesEnds search types) (filename : Bytes) :
    getAttachmentTypeWith search filename types = some (getAttachmentType types filename) := by
  induction types with
  | nil => rfl
  | cons t types ih =>
    unfold SearchesEnds at h
    rw [List.forall_mem_cons] at h
    rw [getAttachmentTypeWith, FileType.isFound_eq h.1, getAttachmentType, List.find?_cons]
    cases t.exts.any fun e => endsWith e filename with
    | true => rfl
    | false => exact ih h.2

/-! ## The header -/

/-- The first dotted quad of a text: `(\d+\.\d+\.\d+\.\d+)`. -/
def findDottedQuad (l : Bytes) : Option Bytes := (findRuns 46 3 l).map (joinFields 46)

/-- The number of addresses in a header field: `scalar (@_ = split (/,/, $field))`. -/
def countAddresses (field : Bytes) : ℕ := (fields 44 field).length

/-- `get_additional_receiver_num`. -/
def getAdditionalReceiverNum (h : Head) : ℕ :=
  ([bytes "Apparently-To", bytes "Resent-To", bytes "Resent-Cc", bytes "Resent-Bcc"].map
    fun tag => countAddresses (h.get tag)).sum

/-- `get_head_info`: the first address found in the `Received` fields is the server's, the last
one the sender's. -/
def getHeadInfo (h : Head) : HeadInfo :=
  let toField := chomp (h.get (bytes "To"))
  let cc := h.get (bytes "CC")
  let bcc := h.get (bytes "BCC")
  let ips := (h.getAll (bytes "Received")).filterMap findDottedQuad
  { content := h.content
    fromField := chomp (h.get (bytes "From"))
    toField, cc, bcc
    subject := chomp (h.get (bytes "Subject"))
    toCcBccNum := countAddresses toField + countAddresses cc + countAddresses bcc +
      getAdditionalReceiverNum h
    serverIp := ips.headD []
    senderIp := ips.getLastD [] }

/-! ## The body -/

/-- The name of a part that recommends none: the path after the last `/AMCF-`. -/
def partName (path : Bytes) : Bytes :=
  let rec strip : Bytes → Bytes → Bytes
    | best, [] => best
    | best, c :: l => strip ((dropPattern (bytes "/AMCF-") (c :: l)).getD best) l
  strip path path

/-- What the parser has collected while it walks the parts. -/
structure Collected where
  body : AList fun _ : Bytes => BodyPart := ∅
  bodyText : Bytes := []
  bodySize : Option ℕ := none
  attachmentSize : Option ℕ := none
  attachmentNum : Option ℕ := none

/-- Perl's `+=` on a number that may be undefined. -/
def addTo (a : Option ℕ) (n : ℕ) : Option ℕ := some (a.getD 0 + n)

/-- The leaf case of `get_body_info`. -/
def getLeafInfo (types : List FileType) (mimeType : Bytes) (recommended : Option Bytes) (b : Body)
    (m : Collected) : Collected :=
  let size := if isTrue b.path then b.data.length else 0
  let filename := recommended.getD (partName b.path)
  let type := orElse ((fields 47 mimeType).headD []) (bytes "text")
  let subtype := orElse ((fields 47 mimeType).tail.headD []) (bytes "plain")
  let isText := type = bytes "text" || (bytes ".txt" <:+ filename || bytes ".txt\n" <:+ filename)
  let text := if isTrue b.path then b.data else []
  let old := (m.body.lookup filename).elim [] BodyPart.content
  { body := m.body.insert filename
      { nofilename := recommended.isNone, path := b.path, type, subtype
        content := if isText then text else old
        size, typeclass := getAttachmentType types filename }
    bodyText := if isText then m.bodyText ++ text else m.bodyText
    bodySize := addTo m.bodySize size
    attachmentSize := if recommended.isSome then addTo m.attachmentSize size else m.attachmentSize
    attachmentNum := if recommended.isSome then addTo m.attachmentNum 1 else m.attachmentNum }

mutual

/-- `get_body_info`: a part without a body is a container, whose parts are walked in order. -/
def getBodyInfo (types : List FileType) : Entity → Collected → Collected
  | .mk _ mimeType filename (some b) _, m => getLeafInfo types mimeType filename b m
  | .mk _ _ _ none parts, m => getPartsInfo types parts m

/-- `get_body_info` on each of several parts. -/
def getPartsInfo (types : List FileType) : List Entity → Collected → Collected
  | [], m => m
  | e :: es, m => getPartsInfo types es (getBodyInfo types e m)

end

/-! ## The parser object -/

/-- What `get_mail_info` finds out about an entity. -/
def mailInfo (types : List FileType) : Entity → MailInfo
  | .mk head mimeType filename body parts =>
    let m := match parts with
      | [] => getBodyInfo types (.mk head mimeType filename body []) {}
      | e :: es => getPartsInfo types (e :: es) {}
    { head := getHeadInfo head
      headSize := head.content.length
      body := m.body
      bodyText := m.bodyText
      bodySize := m.bodySize
      attachmentSize := m.attachmentSize
      attachmentNum := m.attachmentNum
      attachment := m.body.entries.any fun e => !e.2.nofilename }

/-- The parser object: its table of file types and its cache. -/
structure Parser where
  types : List FileType := fileTypes
  mailInfo : Option MailInfo := none

namespace Parser

/-- `get_mail_info` on a file for which `MIME::Parser` returns `entity`, or dies. -/
def getMailInfo (p : Parser) (entity : Option Entity) : Option MailInfo × Parser :=
  match p.mailInfo with
  | some m => (some m, p)
  | none =>
    match entity with
    | some e =>
      (some (Content.mailInfo p.types e), { p with mailInfo := some (Content.mailInfo p.types e) })
    | none => (none, p)

/-- `clean`. -/
def clean (p : Parser) : Parser := { p with mailInfo := none }

/-- A parser that has not been cleaned answers with the previous mail. -/
theorem getMailInfo_of_cached {p : Parser} {m : MailInfo} (h : p.mailInfo = some m)
    (e : Option Entity) : p.getMailInfo e = (some m, p) := by
  unfold getMailInfo
  rw [h]

end Parser

end NoSpam.Content
