import NoSpam.Admin.Profile
import NoSpam.Base.Form
import NoSpam.Base.Numeric
import NoSpam.Base.Scalar

/-!
# The form of a content rule

`showinfo` writes a stored rule into a form, `checkParams` and `saveParams` make a rule of what is
submitted.  Both go by the names of the fields, so `Field` has one constructor for each name.
-/

namespace NoSpam.Admin.RuleForm

open Text Php Form Perl

/-! ## Names -/

/-- The fields of the form that decide what a rule matches and does. -/
inductive Field
  | ruleLogic
  | keywordLogic
  | keywordNum
  | keyPos (i : ℕ)
  | decode (i : ℕ)
  | caseSensitive (i : ℕ)
  | keyMatchType (i : ℕ)
  | keyword (i : ℕ)
  | sizeLogic
  | sizeNum
  | sizePos (i : ℕ)
  | sizeValue (i : ℕ)
  | attachLogic
  | attachmentNum
  | fileName (i : ℕ)
  | fileType (i : ℕ)
  | attachSize (i : ℕ)
  | action
  | actionParam
  deriving DecidableEq

namespace Field

/-- The word that a name begins with. -/
def word : Field → Bytes
  | ruleLogic => bytes "rule_logic"
  | keywordLogic => bytes "keyword_logic"
  | keywordNum => bytes "KeywordNum"
  | keyPos _ => bytes "KeyPos"
  | decode _ => bytes "Decode"
  | caseSensitive _ => bytes "Case"
  | keyMatchType _ => bytes "KeyMatchType"
  | keyword _ => bytes "Keyword"
  | sizeLogic => bytes "size_logic"
  | sizeNum => bytes "SizeNum"
  | sizePos _ => bytes "SizePos"
  | sizeValue _ => bytes "SizeValue"
  | attachLogic => bytes "attach_logic"
  | attachmentNum => bytes "AttachmentNum"
  | fileName _ => bytes "FileName"
  | fileType _ => bytes "FileType"
  | attachSize _ => bytes "AttachSize"
  | action => bytes "Action"
  | actionParam => bytes "ActionParam"

/-- The number that a name ends with. -/
def index : Field → Option ℕ
  | keyPos i | decode i | caseSensitive i | keyMatchType i | keyword i => some i
  | sizePos i | sizeValue i => some i
  | fileName i | fileType i | attachSize i => some i
  | _ => none

/-- The name of a field. -/
def name (f : Field) : Bytes := f.word ++ f.index.elim [] decimal

/-- The parts of the form. -/
inductive Part
  | rule
  | keywords
  | sizes
  | attachments
  | action
  deriving DecidableEq

/-- The part of the form to which a field belongs. -/
def part : Field → Part
  | ruleLogic => .rule
  | keywordLogic | keywordNum | keyPos _ | decode _ | caseSensitive _ | keyMatchType _
  | keyword _ => .keywords
  | sizeLogic | sizeNum | sizePos _ | sizeValue _ => .sizes
  | attachLogic | attachmentNum | fileName _ | fileType _ | attachSize _ => .attachments
  | action | actionParam => .action

end Field

/-! ## Rules -/

/-- The attributes of a `rule_keyword` element. -/
structure Keyword where
  keyword : Bytes
  key : Bytes
  decode : Bytes
  type : Bytes
  caseSensitive : Bytes
  deriving DecidableEq

/-- The attributes of a `size` element. -/
structure Size where
  key : Bytes
  sizevalue : Bytes
  deriving DecidableEq

/-- The attributes of an `attachment` element. -/
structure Attachment where
  sizevalue : Bytes
  filename : Option Bytes
  filetype : Option Bytes
  deriving DecidableEq

/-- A stored rule, with what decides about a mail. -/
structure Rule where
  ruleLogic : Bytes
  keywordLogic : Bytes
  keywords : List Keyword
  sizeLogic : Bytes
  sizes : List Size
  attachLogic : Bytes
  attachments : List Attachment
  action : Bytes
  actionParam : Bytes
  deriving DecidableEq

/-! ## Writing the form -/

/-- The options of the logics. -/
def logics : List Bytes := [bytes "AND", bytes "OR", bytes "NOT"]

/-- `$KeyPos`. -/
def keyPosTable : List ℕ := [1, 2, 3, 4, 5, 6, 7, 8, 9, 10]

/-- `$KeyMatchType`. -/
def keyMatchTypeTable : List ℕ := [0, 1, 6, 7, 8, 9]

/-- `$SizePos`. -/
def sizePosTable : List ℕ := [1, 2, 3, 4, 5, 150]

/-- The predefined part of `$FileType`. -/
def fileTypeTable : List ℕ := [1, 2, 3, 4, 5, 6]

/-- `$Actions`. -/
def actionTable : List ℕ := [0, 1, 2, 3, 4, 5, 6, 7, 8, 9, 10, 11, 12, 13, 14]

/-- A text in an `input` or a hidden number. -/
def text (f : Field) (raw : Bytes) : Control Field := { field := f, value := some raw }

/-- The option that is chosen for a logic. -/
def logicChoice (v : Bytes) : Option Bytes := choice (logics.map fun o => (o, decide (v = o)))

/-- The option that is chosen from a table of numbers: `==` compares with the attribute as a
number. -/
def tableChoice (table : List ℕ) (v : Bytes) : Option Bytes :=
  choice (table.map fun k => (decimal k, decide (toNumber v = k)))

def logicSelect (f : Field) (v : Bytes) : Control Field := { field := f, value := logicChoice v }

def tableSelect (f : Field) (table : List ℕ) (v : Bytes) : Control Field :=
  { field := f, value := tableChoice table v }

/-- `array_key_exists` of a Boolean: no key of an array is one. -/
def booleanKeyExists (_ : Bool) (_ : List ℕ) : Bool := false

/-- The controls of keyword number `i`. -/
def keywordControls (i : ℕ) (k : Keyword) : List (Control Field) :=
  [tableSelect (.keyPos i) keyPosTable k.key, tableSelect (.decode i) [0, 1] k.decode,
    tableSelect (.caseSensitive i) [0, 1] k.caseSensitive,
    tableSelect (.keyMatchType i) keyMatchTypeTable k.type,
    text (.keyword i) (utf8Decode k.keyword)]

/-- The controls of size number `i`. -/
def sizeControls (i : ℕ) (s : Size) : List (Control Field) :=
  [tableSelect (.sizePos i) sizePosTable s.key, text (.sizeValue i) s.sizevalue]

/-- The controls of attachment number `i`. -/
def attachmentControls (i : ℕ) (a : Attachment) : List (Control Field) :=
  [{ text (.fileName i) (utf8Decode (a.filename.getD [])) with disabled := a.filename.isNone },
    { tableSelect (.fileType i) fileTypeTable (a.filetype.getD []) with
      disabled := a.filetype.isNone || !booleanKeyExists a.filetype.isSome fileTypeTable },
    text (.attachSize i) a.sizevalue]

/-- The keywords of the form. -/
def keywordPart (r : Rule) : List (Control Field) :=
  (if r.keywords.length > 0 then [logicSelect .keywordLogic r.keywordLogic] else []) ++
    text .keywordNum (decimal r.keywords.length) :: numbered keywordControls 1 r.keywords

/-- The sizes of the form. -/
def sizePart (r : Rule) : List (Control Field) :=
  (if r.sizes.length > 0 then
    [text .sizeNum (decimal r.sizes.length), logicSelect .sizeLogic r.sizeLogic] else []) ++
    numbered sizeControls 1 r.sizes

/-- The attachments of the form; their logic goes under the name of the rule's. -/
def attachmentPart (r : Rule) : List (Control Field) :=
  (if r.attachments.length > 0 then
    [text .attachmentNum (decimal r.attachments.length), logicSelect .ruleLogic r.attachLogic]
    else []) ++
    numbered attachmentControls 1 r.attachments

/-- The action of the form. -/
def actionPart (r : Rule) : List (Control Field) :=
  [tableSelect .action actionTable r.action, text .actionParam (utf8Decode r.actionParam)]

/-- `showinfo`. -/
def showinfo (r : Rule) : List (Control Field) :=
  logicSelect .ruleLogic r.ruleLogic ::
    (keywordPart r ++ (sizePart r ++ (attachmentPart r ++ actionPart r)))

/-! ## Reading the form -/

/-- `$_POST`. -/
abbrev Post := Field → Option Bytes

/-- `$_POST[...]`, where null is as good as the empty string. -/
def Post.get (p : Post) (f : Field) : Bytes := (p f).getD []

/-- How often a loop from 1 on runs with `$i <= $_POST[...]`. -/
def Post.count (p : Post) (f : Field) : ℕ := (p f).elim 0 fun v => (toNumber v).floor.toNat

/-- The addresses of a range with `-`. -/
def isRange (keyword : Bytes) : Bool :=
  (keyword.splitOn 45).length = 2 && (keyword.splitOn 45).all isOctets

/-- A network with `/`. -/
def isNetwork (keyword : Bytes) : Bool :=
  (keyword.splitOn 47).length = 2 && isNumeric (part 47 keyword 1) &&
    0 ≤ long (part 47 keyword 1) && long (part 47 keyword 1) ≤ 32 &&
    isOctets (part 47 keyword 0)

/-- The check of one keyword: an address position needs what the type of the match says. -/
def keywordOk (key type keyword : Bytes) : Bool :=
  if long key = 9 || long key = 10 then
    if long type = 7 then isRange keyword
    else if long type = 8 then isNetwork keyword
    else if long type = 6 then isOctets keyword
    else true
  else true

/-- The check of one size: two numbers, the second zero or not smaller than the first. -/
def sizeOk (v : Bytes) : Bool :=
  (v.splitOn 45).length = 2 && isNumeric (part 45 v 0) && isNumeric (part 45 v 1) &&
    !(long (part 45 v 0) > long (part 45 v 1) && long (part 45 v 1) ≠ 0)

/-- `checkParams`. -/
def checkParams (p : Post) : Bool :=
  ((List.range (p.count .keywordNum)).all fun i =>
    keywordOk (p.get (.keyPos (i + 1))) (p.get (.keyMatchType (i + 1)))
      (p.get (.keyword (i + 1)))) &&
  ((List.range (p.count .sizeNum)).all fun i => sizeOk (p.get (.sizeValue (i + 1)))) &&
  ((List.range (p.count .attachmentNum)).all fun i => sizeOk (p.get (.attachSize (i + 1))))

/-- One `rule_keyword` of what `saveParams` stores. -/
def savedKeyword (p : Post) (i : ℕ) : Keyword where
  keyword := utf8Encode (p.get (.keyword i))
  key := p.get (.keyPos i)
  decode := p.get (.decode i)
  type := p.get (.keyMatchType i)
  caseSensitive := p.get (.caseSensitive i)

/-- One `size` of what `saveParams` stores. -/
def savedSize (p : Post) (i : ℕ) : Size where
  key := p.get (.sizePos i)
  sizevalue := p.get (.sizeValue i)

/-- One `attachment` of what `saveParams` stores. -/
def savedAttachment (p : Post) (i : ℕ) : Attachment where
  sizevalue := p.get (.attachSize i)
  filename := if isTrue (p.get (.fileName i)) then some (utf8Encode (p.get (.fileName i))) else none
  filetype := if isTrue (p.get (.fileType i)) then some (p.get (.fileType i)) else none

/-- `saveParams`. -/
def saveParams (p : Post) : Rule where
  ruleLogic := p.get .ruleLogic
  keywordLogic := p.get .keywordLogic
  keywords := (List.range (p.count .keywordNum)).map fun i => savedKeyword p (i + 1)
  sizeLogic := p.get .sizeLogic
  sizes := (List.range (p.count .sizeNum)).map fun i => savedSize p (i + 1)
  attachLogic := p.get .attachLogic
  attachments := (List.range (p.count .attachmentNum)).map fun i => savedAttachment p (i + 1)
  action := p.get .action
  actionParam := utf8Encode (p.get .actionParam)

/-- `$_POST` after the form of a rule has been submitted as it is. -/
def reopened (b : Browser) (r : Rule) : Post := submit b (showinfo r)

/-- The unchanged form is accepted and makes the same rule. -/
def Keeps (b : Browser) (r : Rule) : Prop :=
  checkParams (reopened b r) = true ∧ saveParams (reopened b r) = r

end NoSpam.Admin.RuleForm
