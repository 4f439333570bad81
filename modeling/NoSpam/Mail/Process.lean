import NoSpam.Base.Gate
import NoSpam.Mail.Engines
import NoSpam.Mail.Quarantine

/-!
# Handling one mail

`AKA::Mail::process`: the engines in their order, each unless an earlier one drops the mail, then
the action of the engine that drops it, or else the requeue.  The state is the object (its content
filter and `mail_info`) together with the files, the rate limiter's data and the envelopes that
qmail-queue has taken.
-/

namespace NoSpam

open Text Perl Conf Content

/-- An order of the keys of the engine hash. -/
def HashOrder := { l : List Engine // l.Perm Engine.all }

/-- The `AKA::Mail` object and what it works on. -/
structure Mail where
  config : Config
  licenseOk : Bool
  content : Filter
  aka : Aka := {}
  dynamicInfo : Dynamic.DynamicInfo := {}
  fs : Store Bytes Bytes := fun _ => none
  sent : List Bytes := []

namespace Mail

/-! ## Ends of a mail -/

/-- `cleanup`. -/
def cleanup (m : Mail) : Mail :=
  { m with content := m.content.clean, fs := Store.unlink m.aka.emlfilename m.fs }

/-- Set the reply. -/
def reply (resp : Resp) (m : Mail) : Mail := { m with aka := { m.aka with resp } }

/-- `close_smtp`. -/
def closeSmtp (f : Failure) (m : Mail) : Mail :=
  m.cleanup.reply ⟨decimal f.smtpCode, f.smtpInfo, decimal f.errcode⟩

/-- The envelope that `qmail_requeue` writes. -/
def envelope (a : Aka) : Bytes :=
  if isTrue a.envReturnpath || isTrue a.envRecips then a.envReturnpath ++ 0 :: a.envRecips
  else [70, 0, 84, 0, 0]

/-- `qmail_requeue`. -/
def qmailRequeue (q : QueueWorld) (m : Mail) : Mail :=
  let m := if q.Accepted then { m with sent := m.sent ++ [envelope m.aka] } else m
  match q.qmailRequeue with
  | some f => m.closeSmtp f
  | none => m

/-- What follows the label `REQUEUE`; the message file has to be there to be opened. -/
def requeue (o : Outside) (m : Mail) : Mail :=
  let found := (m.fs m.aka.emlfilename).isSome
  (m.qmailRequeue { o.queue with openMsg := o.queue.openMsg && found }).cleanup

/-- The queue as the requeue finds it. -/
def queueFor (o : Outside) (m : Mail) : QueueWorld :=
  { o.queue with openMsg := o.queue.openMsg && (m.fs m.aka.emlfilename).isSome }

theorem requeue_eq (o : Outside) (m : Mail) :
    m.requeue o = (m.qmailRequeue (queueFor o m)).cleanup := rfl

/-- The reply to a rejected mail. -/
def rejection (tr : Bytes → Bytes) (e : Engine) (desc : Bytes) : Resp where
  smtpCode := if e = .dynamic then bytes "451" else bytes "553"
  smtpInfo := if e = .content then orElse desc (bytes "This message was rejected.")
    else tr (bytes "Sorry, due to ") ++ orElse desc (tr (bytes "Security Policy")) ++
      tr (bytes "System rejects your mail.")
  exitCode := bytes "150"

/-- Where a mail goes that an engine puts into quarantine, and the reason. -/
def quarantineOf : Engine → QuarantineType × Bytes
  | .spam => (.user, bytes "S")
  | .antivirus => (.user, bytes "V")
  | .content => (.admin, bytes "C")
  | _ => (.admin, [])

/-- The action of engine `e` when it drops the mail. -/
def act (o : Outside) (e : Engine) (m : Mail) : Mail :=
  let x := m.aka.engine e
  if x.action = actionReject then m.cleanup.reply (rejection o.tr e x.desc)
  else if x.action = actionDiscard then
    m.cleanup.reply { m.aka.resp with exitCode := bytes "0" }
  else
    let fs := Quarantine.quarantineAction (quarantineOf e).1 (quarantineOf e).2 x.desc m.aka m.fs
    { m with fs }.reply { m.aka.resp with exitCode := bytes "0" }

/-- The loop over the engine hash: the action of the first engine found to drop the mail. -/
def actionLoop (o : Outside) : List Engine → Mail → Option Mail
  | [], _ => none
  | e :: es, m =>
    let action := (m.aka.engine e).action
    if !isTrue action then actionLoop o es m
    else if action = actionPass then actionLoop o es m
    else if action = actionReject then some (m.act o e)
    else if action = actionDiscard then some (m.act o e)
    else if action = actionQuarantine then some (m.act o e)
    else actionLoop o es m

/-! ## Recipients -/

/-- `action_rcpts`.  The guards on the form of the parameter never hold: `!` binds tighter than
`=~`. -/
def actionRcpts (m : Mail) : Mail :=
  let x := m.aka.engine .content
  let edit (envRecips : Bytes) : Mail := { m with aka := { m.aka with envRecips } }
  if !x.enabled || !isTrue x.action then m
  else if x.action = actionAddrcpt then edit (84 :: x.desc ++ 0 :: m.aka.envRecips)
  else if x.action = actionDelrcpt then
    let envRecips := substPattern (84 :: x.desc ++ [0]) m.aka.envRecips
    if envRecips.length < 3 then
      { m.cleanup with aka := { m.aka with envRecips } }
    else edit envRecips
  else if x.action = actionChgrcpt then edit (84 :: x.desc ++ [0, 0])
  else m

/-! ## The pipeline -/

section Stages

variable (o : Outside)

def quarantineStage (m : Mail) : Mail := { m with aka := quarantineEngine m.config o m.aka }

def antivirusStage (m : Mail) : Mail := { m with aka := antivirusEngine m.config o m.aka }

def dynamicStage (m : Mail) : Mail :=
  let r := dynamicEngine m.config o m.aka m.dynamicInfo
  { m with aka := r.1, dynamicInfo := r.2 }

def spamStage (m : Mail) : Mail := { m with aka := spamEngine m.config o m.aka }

def contentStage (m : Mail) : Mail :=
  let r := contentEngine m.config o (m.fs m.aka.emlfilename) m.aka m.content
  { m with aka := r.1, content := r.2 }

def archiveStage (m : Mail) : Mail :=
  { m with aka := archiveEngine m.config o (m.fs m.aka.emlfilename).isSome m.aka }

/-- The mail is dropped. -/
def Dropped (m : Mail) : Prop := m.aka.drop = true

instance : DecidablePred Dropped := fun m => inferInstanceAs (Decidable (m.aka.drop = true))

/-- The engines before the content engine. -/
def firstStages (m : Mail) : Mail :=
  Gate.guarded Dropped (spamStage o) (Gate.guarded Dropped (dynamicStage o)
    (Gate.guarded Dropped (antivirusStage o) (Gate.guarded Dropped (quarantineStage o) m)))

/-- All engines; the archive engine runs whether the mail is dropped or not. -/
def runEngines (m : Mail) : Mail :=
  archiveStage o (Gate.guarded Dropped (contentStage o) (firstStages o m))

/-- `init_engine_info` and `get_mail_base_info`. -/
def start (m : Mail) : Mail :=
  { m with
    aka := getMailBaseInfo o.decode (m.fs m.aka.emlfilename) (initEngineInfo o.tr m.aka) }

/-- What follows the engines: the action loop, or the requeue. -/
def finish (order : HashOrder) (m : Mail) : Mail :=
  match actionLoop o order.1 m with
  | some m => m
  | none => (actionRcpts m).requeue o

/-- `process`. -/
def process (order : HashOrder) (m : Mail) : Mail :=
  if !m.licenseOk then (m.start o).requeue o else ((m.start o).runEngines o).finish o order

end Stages

end Mail

end NoSpam
