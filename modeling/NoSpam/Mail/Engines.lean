import Mathlib.Data.Rat.Init
import NoSpam.Content.Filter
import NoSpam.Dynamic.Limiter
import NoSpam.Mail.Queue

/-!
# The engines

The engines of `AKA::Mail`, each a function of the mail so far: it leaves an entry in the engine
hash and, when its own action drops the mail, raises the drop flag.  What an engine asks of
programs and files outside the pipeline comes in as `Outside`.
-/

namespace NoSpam

open Text Perl Conf Content

/-- What the pipeline asks of the world while it handles a mail. -/
structure Outside where
  /-- The message catalogue. -/
  tr : Bytes → Bytes
  decode : Decoders
  /-- `MIME::Parser`, which may die. -/
  mime : Bytes → Option Entity
  checkSingleKeywordRule : KeywordRule → MailInfo → Bool
  pid : ℕ
  now : Dynamic.Time
  /-- The DBM file of the rate limiter can be attached. -/
  attached : Bool
  clamdUp : Bool
  /-- The answer of `check_file_socket_tcp`. -/
  clamd : Option Bytes
  isUserListed : ListType → Bytes → List Bytes → Bool
  spamChecker : Bytes → Bytes → Bytes × Bytes
  /-- Score and test names that SpamAssassin returns. -/
  saResult : Option (ℚ × Bytes)
  isIpInRange : Bytes → Bytes → Bool
  queue : QueueWorld

/-- A world in which every mail is one text part, a keyword is looked for in the text, and no
engine finds anything. -/
def Outside.plain : Outside where
  tr := id
  decode := ⟨id, id⟩
  mime message :=
    some (.mk ⟨[], []⟩ (bytes "text/plain") none (some ⟨bytes "/AMCF-1", message⟩) [])
  checkSingleKeywordRule rule m := rule.all fun a => contains a.2 m.bodyText
  pid := 1
  now := (0, 0)
  attached := true
  clamdUp := true
  clamd := none
  isUserListed _ _ _ := false
  spamChecker _ _ := ([], [])
  saResult := none
  isIpInRange _ _ := false
  queue := {}

/-- The action a configured letter stands for. -/
def actionOf (setting : Bytes) : Bytes :=
  let s := uc setting
  if contains (bytes "R") s then actionReject
  else if contains (bytes "D") s then actionDiscard
  else if contains (bytes "Q") s then actionQuarantine
  else if contains (bytes "F") s then actionAccept
  else if contains (bytes "T") s then actionTag
  else actionNull

section Engines

variable (cfg : Config) (o : Outside)

/-! ## Quarantine -/

/-- `is_user_exist`: every address is taken for a registered user. -/
def isUserExist (emails : List Bytes) : Option (List Bytes) :=
  if emails = [] then none else some emails

/-- The entry `quarantine_engine` leaves for an inbound mail, unless the setting is unknown. -/
def quarantineEntry (a : Aka) : Option Entry :=
  match cfg.quarantineEngine.userListDB with
  | none => some (ran (bytes "0") (o.tr (bytes "OFF")) actionPass false)
  | some db =>
    if db = bytes "Disabled" then some (ran (bytes "0") (o.tr (bytes "OFF")) actionPass false)
    else if db = bytes "File" then
      match isUserExist (fields 44 a.recips) with
      | none =>
        let nosuchuseraction := uc cfg.quarantineEngine.noSuchUserAction
        let action := if nosuchuseraction = bytes "D" then actionDiscard
          else if nosuchuseraction = bytes "R" then actionReject
          else actionAccept
        some (ran (bytes "1") (o.tr (bytes "User does not exist")) action true)
      | some qUsers =>
        some { ran (bytes "0") (o.tr (bytes "registered user")) actionAccept true with qUsers }
    else none

/-- The mail is not subject to the quarantine: it comes from inside or from an authenticated
user. -/
def quarantineSkips (a : Aka) : Bool := a.relayclient = bytes "1" || a.tcpremoteinfo ≠ []

/-- `quarantine_engine`. -/
def quarantineEngine (a : Aka) : Aka :=
  if quarantineSkips a then a
  else
    let a' := match quarantineEntry cfg o a with
      | some x => a.setEntry .quarantine x
      | none => a
    a'.dropIf (ifActionIsDrop (a'.engine .quarantine).action)

/-! ## Antivirus -/

/-- The text before the last match of ` FOUND` that has a symbol before it. -/
def beforeFound (text : Bytes) : Option Bytes :=
  let rec search : ℕ → Option Bytes
    | 0 => none
    | n + 1 => if bytes " FOUND" <+: text.drop (n + 1) then some (text.take (n + 1)) else search n
  search text.length

/-- The virus name in an answer of clamd on `file`: what `(OK)|(.+) FOUND` captures in the text
after the file name.  Where neither alternative matches, `$1` still holds that text. -/
def virusName (file answer : Bytes) : Option Bytes :=
  match dropPattern (file ++ bytes ": ") answer with
  | none => none
  | some rest =>
    let text := rest.takeWhile (· ≠ 10)
    if text = [] || bytes "OK" <+: text then none else beforeFound text

/-- `catch_virus`. -/
def catchVirus (file : Bytes) : Entry :=
  if !o.clamdUp then ran (bytes "0") (o.tr (bytes "Updating")) actionPass true
  else
    match o.clamd with
    | none => ran (bytes "0") (bytes "内部错误") actionPass true
    | some answer =>
      if endsWith (bytes "ERROR") answer then ran (bytes "0") (bytes "内部错误") actionPass true
      else
        match virusName file answer with
        | some name =>
            ran (bytes "1") (orElse name []) (actionOf cfg.antiVirusEngine.virusAction) true
        | none => ran (bytes "0") [] actionAccept true

/-- A protected direction excludes the mail. -/
def unprotected (protectDirection : Bytes) (a : Aka) : Bool :=
  !contains (if a.outgoing then bytes "Out" else bytes "In") protectDirection

/-- The reason for which `antivirus_engine` does not scan, when there is one. -/
def antivirusSkips (a : Aka) : Option Entry :=
  let av := cfg.antiVirusEngine
  if !isY av.antiVirusEngine then some (ran (bytes "0") (o.tr (bytes "OFF")) actionPass false)
  else if unprotected av.protectDirection a then
    some (ran (bytes "0") (o.tr (if a.outgoing then bytes "Need not check outgoing mail"
      else bytes "Need not check incoming mail")) actionPass true)
  else if isY av.sampleCheck && num av.sampleProbability < (o.pid % 100 : ℕ) then
    some (ran (bytes "0") (o.tr (bytes "This mail is not in circle of check")) actionPass true)
  else none

/-- `antivirus_engine`. -/
def antivirusEngine (a : Aka) : Aka :=
  match antivirusSkips cfg o a with
  | some x => a.setEntry .antivirus x
  | none =>
    let a' := a.setEntry .antivirus (catchVirus cfg o a.emlfilename)
    a'.dropIf (ifActionIsDrop (a'.engine .antivirus).action)

/-! ## Rate limits -/

/-- One of the three checks of `dynamic_engine`: the white list, then the limiter.  The result is
the entry and whether the mail is dropped, when the check decides. -/
def dynamicCheck (key : Bytes) (white : Bool) (whiteDesc overrunDesc : Bytes)
    (limiter : Dynamic.DynamicInfo → Bool × Bytes × Dynamic.DynamicInfo)
    (info : Dynamic.DynamicInfo) : Option (Entry × Bool) × Dynamic.DynamicInfo :=
  if !isTrue key then (none, info)
  else if white then (some (ran (bytes "0") whiteDesc actionPass true, false), info)
  else
    let r := limiter info
    if r.1 then (some (ran (bytes "1") (overrunDesc ++ r.2.1) actionReject true, true), r.2.2)
    else (none, r.2.2)

/-- The check of the sender. -/
def checkMailfrom (mailfrom : Bytes) :=
  dynamicCheck mailfrom (cfg.dynamicEngine.whiteFromList.contains mailfrom)
    (o.tr (bytes "Sender white list")) (o.tr (bytes "Mail sender"))
    (Dynamic.isOverrunRatePerMailfrom o.tr o.attached o.now {} cfg.dynamicEngine mailfrom)

/-- The check of the subject. -/
def checkSubject (subject : Bytes) :=
  dynamicCheck subject (cfg.dynamicEngine.whiteSubjectList.contains subject)
    (o.tr (bytes "Mail subject whitelist")) (o.tr (bytes "Mail"))
    (Dynamic.isOverrunRatePerSubject o.tr o.attached o.now {} cfg.dynamicEngine subject)

/-- The check of the client address. -/
def checkIp (ip : Bytes) :=
  dynamicCheck ip (cfg.dynamicEngine.whiteIPRateList.any (o.isIpInRange ip))
    (bytes "IP" ++ o.tr (bytes "whitelist")) (bytes "IP")
    (Dynamic.isOverrunRatePerIp o.tr o.attached o.now {} cfg.dynamicEngine ip)

/-- The three checks in order. -/
def dynamicChecks (a : Aka) (info : Dynamic.DynamicInfo) :
    Option (Entry × Bool) × Dynamic.DynamicInfo :=
  match checkMailfrom cfg o a.returnpath info with
  | (some x, info) => (some x, info)
  | (none, info) =>
    match checkSubject cfg o a.subject info with
    | (some x, info) => (some x, info)
    | (none, info) => checkIp cfg o a.tcpremoteip info

/-- The reason for which `dynamic_engine` does not check, when there is one. -/
def dynamicSkips (a : Aka) : Option Entry :=
  let d := cfg.dynamicEngine
  if !isY d.dynamicEngine then some (ran (bytes "0") (o.tr (bytes "OFF")) actionPass false)
  else if unprotected d.protectDirection a then
    some (ran (bytes "0") (o.tr (if a.outgoing then bytes "outgoing mail is not limited"
      else bytes "incoming mail is not limited")) actionPass true)
  else none

/-- `dynamic_engine`. -/
def dynamicEngine (a : Aka) (info : Dynamic.DynamicInfo) : Aka × Dynamic.DynamicInfo :=
  match dynamicSkips cfg o a with
  | some x => (a.setEntry .dynamic x, info)
  | none =>
    match dynamicChecks cfg o a info with
    | (some (x, drop), info) => ((a.setEntry .dynamic x).dropIf drop, info)
    | (none, info) =>
        (a.setEntry .dynamic
          (ran (bytes "0") (o.tr (bytes "Overrun check was passed")) actionPass true), info)

/-! ## Spam -/

/-- `get_sa_result`: whether SpamAssassin takes the mail for spam, and the names of the tests. -/
def getSaResult (a : Aka) : Option (Bytes × Bytes) :=
  if !isY cfg.spamEngine.smartEngine then none
  else if (a.size : ℤ) < num (orElse cfg.intconf.spamAssassinMaxMailSize (bytes "153600")) then
    match o.saResult with
    | none => none
    | some (score, tests) =>
      if score > 10 then some (if score < 15 then resultSpamMaybe else resultSpamMust, tests)
      else none
  else none

/-- An authenticated sender: whether it is spam, and the reason. -/
def authorizedSpam (a : Aka) : Bytes × Bytes :=
  let s := cfg.spamEngine
  let authUser := if contains (bytes "@") a.tcpremoteinfo then a.tcpremoteinfo
    else a.tcpremoteinfo ++ bytes "@" ++ cfg.mailHostName
  let traced := if authUser ≠ a.returnpath && isY s.traceEngine &&
      containsFold (bytes "Out") s.traceProtectDirection then
      (resultSpamMaybe, o.tr (bytes "Sender must as same as auth user"))
    else (resultSpamNot, o.tr (bytes "Authorized user"))
  if isY s.smartEngine && containsFold (bytes "Out") s.smartProtectDirection then
    (getSaResult cfg o a).getD traced
  else traced

/-- An inbound mail: whether it is spam, and the reason.  The sender's place on a list of one of
the recipients exempts the mail from all other tests. -/
def inboundSpam (a : Aka) : Bytes × Bytes :=
  let s := cfg.spamEngine
  let listed (t : ListType) :=
    a.returnpath ≠ [] && o.isUserListed t a.returnpath (fields 44 a.recips)
  if listed .black then (resultSpamBlack, o.tr (bytes "User Blacklist"))
  else if listed .white then (resultSpamNot, o.tr (bytes "User Whitelist"))
  else
    let traced := if isY s.traceEngine && containsFold (bytes "In") s.traceProtectDirection then
        o.spamChecker a.tcpremoteip a.returnpath
      else (resultSpamNot, o.tr (bytes "AntiSpam Engine"))
    if !isTrue traced.1 && isY s.smartEngine &&
        containsFold (bytes "In") s.smartProtectDirection then
      (getSaResult cfg o a).getD traced
    else traced

/-- Whether the mail is spam, and the reason. -/
def spamVerdict (a : Aka) : Bytes × Bytes :=
  if !isY cfg.spamEngine.noSPAMEngine then (resultSpamNot, o.tr (bytes "OFF"))
  else if isTrue a.relayclient then (resultSpamNot, o.tr (bytes "Traceable"))
  else if isTrue a.tcpremoteinfo then authorizedSpam cfg o a
  else inboundSpam cfg o a

/-- `spam_engine`. -/
def spamEngine (a : Aka) : Aka :=
  let v := spamVerdict cfg o a
  let action := if isTrue v.1 then actionOf cfg.spamEngine.spamAction else actionAccept
  let a' := a.setEntry .spam (ran v.1 v.2 action true)
  a'.dropIf (ifActionIsDrop (a'.engine .spam).action)

/-! ## Content -/

/-- The reason for which the content engine does not run, when there is one: the negation of
`content_engine_is_enabled`. -/
def contentSkips (a : Aka) : Option Entry :=
  let c := cfg.contentEngine
  if !isY c.contentFilterEngine then some (ran (bytes "0") (o.tr (bytes "OFF")) actionPass true)
  else if unprotected c.protectDirection a then
    some (ran (bytes "0") (o.tr (if a.outgoing then bytes "Outgoing mail need not filter"
      else bytes "Incoming mail need not filter")) actionPass true)
  else if isTrue cfg.intconf.contentEngineMaxMailSize &&
      (a.size : ℤ) > num cfg.intconf.contentEngineMaxMailSize then
    some (ran (bytes "0") (o.tr (bytes "Maximum size exceeds")) actionPass true)
  else none

/-- `content_engine`, on the content of the message file. -/
def contentEngine (file : Option Bytes) (a : Aka) (c : Filter) : Aka × Filter :=
  match contentSkips cfg o a with
  | some x => (a.setEntry .content x, c)
  | none =>
    let r := c.process o.tr o.checkSingleKeywordRule o.mime file
    let a' := a.setEntry .content r.1
    (a'.dropIf (ifActionIsDrop (a'.engine .content).action), r.2)

/-! ## Archive -/

/-- `grep(/^name$/, @types)`: the pattern lets a line end follow the name. -/
def grepType (name : Bytes) (types : List Bytes) : Bool :=
  types.contains name || types.contains (name ++ [10])

/-- The archive types that concern the outcome of one engine. -/
def archiveWants (types : List Bytes) (positive negative : Bytes) (x : Entry) : Bool :=
  !(grepType positive types && (!x.runned || !isTrue x.result)) &&
    !(grepType negative types && (!x.runned || isTrue x.result))

/-- All conditions on an archived mail. -/
def needArchive (a : Aka) : Bool :=
  let types := cfg.archiveEngine.archiveType
  grepType (bytes "All") types ||
    (archiveWants types (bytes "Spam") (bytes "NotSpam") (a.engine .spam) &&
      archiveWants types (bytes "Virus") (bytes "NotVirus") (a.engine .antivirus) &&
      archiveWants types (bytes "Excessive") (bytes "NotExcessive") (a.engine .dynamic) &&
      archiveWants types (bytes "MatchRule") (bytes "NotMatchRule") (a.engine .content) &&
      (!grepType (bytes "Address") types ||
        (fields 44 a.recips).any cfg.archiveEngine.archiveAddress.contains))

/-- The entry `archive_engine` leaves; `isFile` says whether the message file is there. -/
def archiveEntry (isFile : Bool) (a : Aka) : Entry :=
  if !isY cfg.archiveEngine.archiveEngine then
    ran (bytes "0") (o.tr (bytes "OFF")) actionPass false
  else if cfg.archiveEngine.archiveType = [] then
    ran (bytes "0") (o.tr (bytes "not set")) actionPass false
  else if !needArchive cfg a then
    ran (bytes "0") (o.tr (bytes "not fit condition")) actionPass false
  else if !(isTrue a.emlfilename && isFile) then
    ran (bytes "0") (o.tr (bytes "internal error")) actionPass false
  else ran (bytes "1") (o.tr (bytes "submmited")) actionPass true

/-- `archive_engine`. -/
def archiveEngine (isFile : Bool) (a : Aka) : Aka :=
  a.setEntry .archive (archiveEntry cfg o isFile a)

end Engines

end NoSpam
