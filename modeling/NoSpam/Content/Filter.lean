import NoSpam.Mail.Info

/-!
# The content filter

`AKA::Mail::Content`: a parser and a rule object, asked for the rule that a mail matches.  The
result is the content entry of the engine hash.  `clean` resets the parser; nothing resets the rule
object.
-/

namespace NoSpam.Content

open Text Perl Conf

/-- The object: its parser and its rules. -/
structure Filter where
  parser : Parser
  ruler : Ruler

namespace Filter

/-- `new`, with the file types and the rule databases read from their files. -/
def new (types : List FileType) (filterdb userFilterdb : FilterDB) : Filter :=
  ⟨{ types }, { filterdb, userFilterdb }⟩

/-- `clean`. -/
def clean (c : Filter) : Filter := { c with parser := c.parser.clean }

/-- `get_rule`, inside the `eval` of its caller: no rule when the parser dies. -/
def getRule (checkSingleKeywordRule : KeywordRule → MailInfo → Bool) (c : Filter)
    (entity : Option Entity) : Option RuleInfo × Filter :=
  match c.parser.getMailInfo entity with
  | (none, parser) => (none, { c with parser })
  | (some m, parser) =>
    let r := getMatchRule checkSingleKeywordRule c.ruler m
    (r.1.map Prod.snd, ⟨parser, r.2⟩)

/-- The content entry for a matched rule. -/
def entryOf (rule : Option RuleInfo) : Entry :=
  match rule with
  | some r =>
      { ran (orElse r.ruleId (bytes "0")) r.actionParam r.action true with ruleInfo := some r }
  | none => ran (bytes "0") [] actionNull true

/-- `process`: the content entry for the message file. -/
def process (tr : Bytes → Bytes) (checkSingleKeywordRule : KeywordRule → MailInfo → Bool)
    (mime : Bytes → Option Entity) (file : Option Bytes) (c : Filter) : Entry × Filter :=
  match file with
  | none => (ran (bytes "0") (tr (bytes "internal error")) actionPass true, c)
  | some message =>
    let r := c.getRule checkSingleKeywordRule (mime message)
    (entryOf r.1, r.2)

end Filter

end NoSpam.Content
