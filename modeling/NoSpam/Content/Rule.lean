import NoSpam.Base.Steady
import NoSpam.Base.Table
import NoSpam.Content.Parser

/-!
# The content rules

`AKA::Mail::Content::Rule`: the two rule databases, the checks of a rule's attachment, size and
keyword parts, and the search for the first rule that a mail matches.  The bounds that
`check_size_value` reads from a size are package globals, so every check runs over them; the check
of one keyword is a parameter, its text being missing from the source.
-/

namespace NoSpam.Content

open Text Perl

/-! ## Rules -/

/-- One attachment condition. -/
structure AttachmentRule where
  filename : Option Bytes := none
  filetype : Option Bytes := none
  sizevalue : Option Bytes := none
  deriving DecidableEq

/-- One size condition. -/
structure SizeRule where
  key : Bytes
  sizevalue : Bytes
  deriving DecidableEq

/-- One keyword condition: its attributes. -/
abbrev KeywordRule := List (Bytes × Bytes)

/-- The conditions of one kind: a hash when there is one, an array when there are several. -/
inductive SubRules (α : Type)
  | hash (rule : α)
  | array (rules : List α)
  deriving DecidableEq

/-- The conditions as a list. -/
def SubRules.toList {α : Type} : SubRules α → List α
  | .hash r => [r]
  | .array rs => rs

/-- A rule of a rule database. -/
structure RuleInfo where
  ruleId : Bytes := []
  ruleLogic : Bytes := []
  attachLogic : Bytes := []
  sizeLogic : Bytes := []
  keywordLogic : Bytes := []
  attachment : Option (SubRules AttachmentRule) := none
  size : Option (SubRules SizeRule) := none
  ruleKeyword : Option (SubRules KeywordRule) := none
  action : Bytes := []
  actionParam : Bytes := []
  idType : Bytes := []
  deriving DecidableEq

/-- A rule database, keyed by rule id. -/
abbrev FilterDB := AList fun _ : Bytes => RuleInfo

/-- The package globals `$size_low` and `$size_high`. -/
structure SizeBounds where
  low : ℕ := 0
  high : ℕ := 0
  deriving DecidableEq

/-! ## Sizes -/

/-- The first match of `(\d+)\-(\d+)`. -/
def matchRange (l : Bytes) : Option (ℕ × ℕ) :=
  match findRuns 45 1 l with
  | some [low, high] => some (value low, value high)
  | _ => none

/-- The first match of `(\d+)`. -/
def matchNumber (l : Bytes) : Option ℕ :=
  match findRuns 45 0 l with
  | some [n] => some (value n)
  | _ => none

/-- A natural number rounded to the 53 bits of a double, ties to even. -/
def round53 (p : ℕ) : ℕ :=
  if p < 2 ^ 53 then p
  else
    let unit := 2 ^ (Nat.log2 p - 52)
    let q := p / unit
    let r := p % unit
    if 2 * r > unit || (2 * r = unit && q % 2 = 1) then (q + 1) * unit else q * unit

/-- `$size > ($1*0.7) && $size < ($1*1.3)` in double precision; the factors are
6305039478318694 and 11709359031163290 over 2 ^ 53. -/
def nearSize (n size : ℕ) : Bool :=
  size * 2 ^ 53 > round53 (round53 n * 6305039478318694) &&
    size * 2 ^ 53 < round53 (round53 n * 11709359031163290)

/-- The three comparisons of `check_size_value`; a bound 0 stands for no bound. -/
def SizeBounds.covers (b : SizeBounds) (size : ℕ) : Bool :=
  b.low = 0 && size ≤ b.high || b.high = 0 && size ≥ b.low || size ≥ b.low && size ≤ b.high

/-- `check_size_value`: a size without a range and without a number is compared with the bounds
that an earlier check has left. -/
def checkSizeValue (size : Option ℕ) (spec : Bytes) : StateM SizeBounds Bool :=
  match size with
  | none => pure false
  | some n =>
    match matchRange spec with
    | some (low, high) => do
        set (SizeBounds.mk low high)
        return (SizeBounds.mk low high).covers n
    | none =>
      match matchNumber spec with
      | some k => pure (nearSize k n)
      | none => fun b => (b.covers n, b)

/-! ## Single conditions -/

/-- `check_single_attachment_rule`, over the parts still to be looked at. -/
def checkAttachments (rule : AttachmentRule) :
    List (Sigma fun _ : Bytes => BodyPart) → StateM SizeBounds Bool
  | [] => pure false
  | ⟨filename, part⟩ :: rest =>
      if part.nofilename then checkAttachments rule rest
      else if rule.filename.any fun f => lc filename ≠ lc f then checkAttachments rule rest
      else if rule.filetype.any fun t => (part.typeclass : ℤ) ≠ num t then
        checkAttachments rule rest
      else
        match rule.sizevalue with
        | none => pure true
        | some spec => do
            if ← checkSizeValue (some part.size) spec then pure true else checkAttachments rule rest

/-- `check_single_attachment_rule`. -/
def checkSingleAttachmentRule (rule : AttachmentRule) (m : MailInfo) : StateM SizeBounds Bool :=
  checkAttachments rule m.body.entries

/-- `check_single_size_rule`. -/
def checkSingleSizeRule (rule : SizeRule) (m : MailInfo) : StateM SizeBounds Bool :=
  if !isTrue rule.key || !isTrue rule.sizevalue then pure false
  else if num rule.key = 1 then
    checkSizeValue (some (m.bodySize.getD 0 + m.headSize)) rule.sizevalue
  else if num rule.key = 2 then checkSizeValue (some m.headSize) rule.sizevalue
  else if num rule.key = 3 then checkSizeValue m.bodySize rule.sizevalue
  else if num rule.key = 4 then checkSizeValue m.attachmentSize rule.sizevalue
  else if num rule.key = 5 then checkSizeValue m.attachmentNum rule.sizevalue
  else if num rule.key = 150 then checkSizeValue (some m.head.toCcBccNum) rule.sizevalue
  else pure false

/-! ## The conditions of one kind -/

section SubRules

variable {α : Type} (single : α → StateM SizeBounds Bool) (logic : Bytes)

/-- The loop over several conditions: `OR` ends at the first that holds, `NOT` and `AND` at the
first that decides against the rule. -/
def checkArray : List α → StateM SizeBounds Bool
  | [] => pure (logic ≠ bytes "OR")
  | r :: rs => do
      let holds ← single r
      if logic = bytes "OR" then if holds then pure true else checkArray rs
      else if logic = bytes "NOT" then if holds then pure false else checkArray rs
      else if holds then checkArray rs else pure false

/-- The common body of the three checks. -/
def checkSubRules : SubRules α → StateM SizeBounds Bool
  | .array rs => checkArray single logic rs
  | .hash r => do
      let holds ← single r
      if logic = bytes "NOT" then pure !holds else pure holds

end SubRules

/-- `check_attachment_rule`: a mail without attachments matches no attachment rule. -/
def checkAttachmentRule (logic : Bytes) (rule : SubRules AttachmentRule) (m : MailInfo) :
    StateM SizeBounds Bool :=
  if !m.attachment then pure false
  else checkSubRules (fun r => checkSingleAttachmentRule r m) logic rule

/-- `check_size_rule`. -/
def checkSizeRule (logic : Bytes) (rule : SubRules SizeRule) (m : MailInfo) :
    StateM SizeBounds Bool :=
  checkSubRules (fun r => checkSingleSizeRule r m) logic rule

/-- `check_keyword_rule`, over the check of a single keyword. -/
def checkKeywordRule (checkSingleKeywordRule : KeywordRule → MailInfo → Bool) (logic : Bytes)
    (rule : SubRules KeywordRule) (m : MailInfo) : StateM SizeBounds Bool :=
  checkSubRules (fun r => pure (checkSingleKeywordRule r m)) logic rule

/-! ## Rules and databases -/

section Backend

variable (checkSingleKeywordRule : KeywordRule → MailInfo → Bool) (m : MailInfo)

/-- The parts of a rule in the order they are checked.  Under `OR` a part that holds returns the
rule; otherwise a part that fails goes on to the next rule. -/
def checkParts (logic : Bytes) : List (Option (StateM SizeBounds Bool)) → Bool →
    StateM SizeBounds Bool
  | [], hasRule => pure hasRule
  | none :: parts, hasRule => checkParts logic parts hasRule
  | some part :: parts, hasRule => do
      let holds ← part
      if logic = bytes "OR" then if holds then pure true else checkParts logic parts hasRule
      else if logic = bytes "NOT" then if holds then pure false else checkParts logic parts true
      else if holds then checkParts logic parts true else pure false

/-- The body of the loop of `check_all_rule_backend`. -/
def checkRule (r : RuleInfo) : StateM SizeBounds Bool :=
  let logic (l : Bytes) := orElse l (bytes "AND")
  checkParts (logic r.ruleLogic)
    [r.attachment.map fun a => checkAttachmentRule (logic r.attachLogic) a m,
      r.size.map fun s => checkSizeRule (logic r.sizeLogic) s m,
      r.ruleKeyword.map fun k => checkKeywordRule checkSingleKeywordRule (logic r.keywordLogic) k m]
    false

/-- The loop of `check_all_rule_backend`, over the rule ids still to be checked. -/
def checkRules (db : FilterDB) : List Bytes → StateM SizeBounds (Option Bytes)
  | [] => pure none
  | id :: ids =>
      if !isTrue id then checkRules db ids
      else do
        if ← checkRule checkSingleKeywordRule m ((db.lookup id).getD {}) then pure (some id)
        else checkRules db ids

/-- `check_all_rule_backend`: the rule ids in the order of their strings. -/
def checkAllRuleBackend (db : FilterDB) : StateM SizeBounds (Option Bytes) :=
  checkRules checkSingleKeywordRule m db (Table.sortedKeys db)

end Backend

/-- The rule object: the databases loaded at start and the package globals. -/
structure Ruler where
  filterdb : FilterDB
  userFilterdb : FilterDB
  bounds : SizeBounds := {}

/-- `get_match_rule`: the matching rule and whether it is a GA rule.  For a user rule the id type
is noted in the GA database, under the id of the user rule. -/
def getMatchRule (checkSingleKeywordRule : KeywordRule → MailInfo → Bool) (r : Ruler)
    (m : MailInfo) : Option (Bool × RuleInfo) × Ruler :=
  let ga := checkAllRuleBackend checkSingleKeywordRule m r.filterdb r.bounds
  match ga.1 with
  | some id => (some (true, (r.filterdb.lookup id).getD {}), { r with bounds := ga.2 })
  | none =>
    let user := checkAllRuleBackend checkSingleKeywordRule m r.userFilterdb ga.2
    match user.1 with
    | some id =>
        (some (false, (r.userFilterdb.lookup id).getD {}),
          { r with
            bounds := user.2
            filterdb := r.filterdb.insert id
              { (r.filterdb.lookup id).getD {} with idType := bytes "user" } })
    | none => (none, { r with bounds := user.2 })

end NoSpam.Content
