import NoSpam.Content.Rule

/-!
# What is known about one mail

`mail_info->{aka}`: what the loader sent, what `get_mail_base_info` found, one entry for each
engine, and the reply.  The engine hash has seven keys, of which `interactive` has no engine behind
it and never an action.
-/

namespace NoSpam

open Text Perl Conf Content

/-- The keys of the engine hash. -/
inductive Engine
  | quarantine
  | antivirus
  | dynamic
  | spam
  | content
  | interactive
  | archive
  deriving DecidableEq

/-- The engines in the order in which `process` runs them. -/
def Engine.all : List Engine :=
  [.quarantine, .antivirus, .dynamic, .spam, .content, .interactive, .archive]

theorem Engine.mem_all (e : Engine) : e ∈ Engine.all := by
  cases e <;> decide

/-- The name of an engine. -/
def Engine.name : Engine → Bytes
  | .quarantine => bytes "quarantine"
  | .antivirus => bytes "antivirus"
  | .dynamic => bytes "dynamic"
  | .spam => bytes "spam"
  | .content => bytes "content"
  | .interactive => bytes "interactive"
  | .archive => bytes "archive"

/-- What an engine has left in the engine hash. -/
structure Entry where
  result : Bytes := []
  desc : Bytes := []
  action : Bytes := []
  enabled : Bool := false
  runned : Bool := false
  qUsers : List Bytes := []
  ruleInfo : Option RuleInfo := none
  deriving DecidableEq

/-- An entry of an engine that has run. -/
def ran (result desc action : Bytes) (enabled : Bool) : Entry :=
  { result, desc, action, enabled, runned := true }

/-- The reply to the SMTP side. -/
structure Resp where
  smtpCode : Bytes := []
  smtpInfo : Bytes := []
  exitCode : Bytes := []
  deriving DecidableEq

/-- `mail_info->{aka}`. -/
structure Aka where
  relayclient : Bytes := []
  tcpremoteip : Bytes := []
  tcpremoteinfo : Bytes := []
  emlfilename : Bytes := []
  fd1 : Bytes := []
  engine : Engine → Entry := fun _ => {}
  drop : Bool := false
  subject : Bytes := []
  size : ℕ := 0
  returnpath : Bytes := []
  recips : Bytes := []
  envReturnpath : Bytes := []
  envRecips : Bytes := []
  resp : Resp := {}

namespace Aka

/-- Store an entry. -/
def setEntry (a : Aka) (e : Engine) (x : Entry) : Aka :=
  { a with engine := Function.update a.engine e x }

/-- Raise the drop flag: `drop ||= c`. -/
def dropIf (a : Aka) (c : Bool) : Aka := { a with drop := a.drop || c }

section Simp

variable (a : Aka) (e e' : Engine) (x : Entry) (c : Bool)

@[simp] theorem engine_setEntry_self : (a.setEntry e x).engine e = x := Function.update_self ..

@[simp] theorem engine_setEntry_of_ne (h : e' ≠ e) : (a.setEntry e x).engine e' = a.engine e' :=
  Function.update_of_ne h ..

@[simp] theorem drop_setEntry : (a.setEntry e x).drop = a.drop := rfl
@[simp] theorem engine_dropIf : (a.dropIf c).engine = a.engine := rfl
@[simp] theorem drop_dropIf : (a.dropIf c).drop = (a.drop || c) := rfl

end Simp

/-- The mail comes from inside or from an authenticated user, as the engines test it. -/
def outgoing (a : Aka) : Bool := isTrue a.relayclient || isTrue a.tcpremoteinfo

end Aka

/-- `if_action_is_drop`. -/
def ifActionIsDrop (action : Bytes) : Bool :=
  action = actionReject || action = actionDiscard || action = actionQuarantine

/-- `init_engine_info`; the entry of `interactive` is the empty one that the run times create. -/
def initEngineInfo (tr : Bytes → Bytes) (a : Aka) : Aka :=
  let notRun : Entry := { result := bytes "0", desc := tr (bytes "not run"), action := actionPass }
  { a with engine := fun e => if e = .interactive then {} else notRun }

@[simp] theorem ifActionIsDrop_pass : ifActionIsDrop actionPass = false := by decide

theorem isTrue_of_ifActionIsDrop {action : Bytes} (h : ifActionIsDrop action = true) :
    isTrue action = true := by
  simp only [ifActionIsDrop, Bool.or_eq_true, decide_eq_true_eq] at h
  rcases h with (rfl | rfl) | rfl <;> decide

theorem ifActionIsDrop_initEngineInfo (tr : Bytes → Bytes) (a : Aka) (e : Engine) :
    ifActionIsDrop ((initEngineInfo tr a).engine e).action = false := by
  unfold initEngineInfo
  dsimp only
  split_ifs
  · decide
  · exact ifActionIsDrop_pass

/-! ## The envelope and the header -/

/-- The MIME decoders. -/
structure Decoders where
  base64 : Bytes → Bytes
  qp : Bytes → Bytes

/-- The lines of a file, chomped, up to the first empty one. -/
def headerLines (message : Bytes) : List Bytes := (message.splitOn 10).takeWhile (· ≠ [])

/-- An encoded word `=?charset?X?text?=`, with `X` the given letter; the text. -/
def encodedWord (letter : UInt8) (subject : Bytes) : Option Bytes :=
  match dropPattern (bytes "=?") subject with
  | none => none
  | some rest =>
    let isCharset (c : UInt8) : Bool :=
      isDigit c || (65 ≤ c && c ≤ 90) || (97 ≤ c && c ≤ 122) || c = 95 || c = 45
    let charset := rest.takeWhile isCharset
    let text := (rest.dropWhile isCharset).drop 3
    if charset ≠ [] && (rest.dropWhile isCharset).take 3 = [63, letter, 63] &&
        bytes "?=" <:+ text then
      some (text.take (text.length - 2))
    else none

/-- The subject of a header line, when it is a `Subject` line. -/
def subjectOf (decode : Decoders) (line : Bytes) : Option Bytes :=
  if lc (line.take 9) = bytes "subject: " && line.length > 9 then
    let subject := (orElse (line.drop 9) []).rdropWhile fun c => c = 13 || c = 10
    match encodedWord 66 subject, encodedWord 81 subject with
    | some text, _ => some (decode.base64 text)
    | none, some text => some (decode.qp text)
    | none, none => some subject
  else none

/-- The last subject of a header. -/
def subject (decode : Decoders) (message : Bytes) : Bytes :=
  ((headerLines message).filterMap (subjectOf decode)).getLastD []

/-- `$recips` from what follows the first NUL of the envelope: one `T` off the front, the NULs off
the end, and a comma for every `NUL T` between.  `stale` is what `$1` holds when no NUL ends the
recipients. -/
def recipsOf (stale envRecips : Bytes) : Bytes :=
  let r := if envRecips.head? = some 84 then envRecips.tail else envRecips
  let r := if r.getLast? = some 0 then r.dropLast
    else if envRecips.head? = some 84 then [] else stale
  replacePair 0 84 44 (r.rdropWhile (· = 0))

/-- The envelope part of `get_mail_base_info`. -/
def readEnvelope (a : Aka) : Aka :=
  let cut := cutAt 0 a.fd1
  let envRecips := cut.2.getD []
  if cut.1.head? = some 70 then
    { a with
      envReturnpath := cut.1
      envRecips
      returnpath := cut.1.tail
      recips := recipsOf cut.1.tail envRecips }
  else { a with envReturnpath := cut.1, envRecips, returnpath := cut.1, recips := [] }

/-- `get_mail_base_info`, on the content of the message file; nothing is read when it cannot be
opened. -/
def getMailBaseInfo (decode : Decoders) (file : Option Bytes) (a : Aka) : Aka :=
  match file with
  | none => a
  | some message =>
    { readEnvelope a with subject := subject decode message, size := message.length }

end NoSpam
