import NoSpam.Base.Scalar

/-!
# Configuration

The constants of `AKA::Mail::Conf` and the configuration as `init_config`, `init_intconf` and
`init_licconf` leave it: one record for each section of `NoSPAM.conf`, with the parameters the
mail pipeline reads and, as field defaults, the defaults the source fills in.  Actions are strings,
because a content rule carries its action as the text of an XML attribute.
-/

namespace NoSpam

open Text Perl

namespace Conf

/-! ## Constants -/

def resultSpamNot : Bytes := bytes "0"
def resultSpamMaybe : Bytes := bytes "1"
def resultSpamMust : Bytes := bytes "2"
def resultSpamBlack : Bytes := bytes "3"

def actionPass : Bytes := bytes "0"
def actionReject : Bytes := bytes "1"
def actionDiscard : Bytes := bytes "2"
def actionQuarantine : Bytes := bytes "3"
def actionNull : Bytes := bytes "6"
def actionAccept : Bytes := bytes "7"
def actionAddrcpt : Bytes := bytes "8"
def actionDelrcpt : Bytes := bytes "9"
def actionChgrcpt : Bytes := bytes "10"
def actionTag : Bytes := bytes "14"

/-- `QUARANTINE_USER` and `QUARANTINE_ADMIN`. -/
inductive QuarantineType
  | user
  | admin
  deriving DecidableEq

/-- `WHITE_LIST` and `BLACK_LIST`. -/
inductive ListType
  | white
  | black
  deriving DecidableEq

/-! ## Sections -/

structure QuarantineEngine where
  userListDB : Option Bytes := none
  noSuchUserAction : Bytes := []
  timeOutAction : Bytes := []
  deriving DecidableEq

structure AntiVirusEngine where
  antiVirusEngine : Bytes := []
  protectDirection : Bytes := []
  sampleCheck : Bytes := []
  sampleProbability : Bytes := []
  virusAction : Bytes := []
  deriving DecidableEq

structure SpamEngine where
  noSPAMEngine : Bytes := []
  traceEngine : Bytes := bytes "N"
  traceProtectDirection : Bytes := []
  smartEngine : Bytes := []
  smartProtectDirection : Bytes := []
  spamAction : Bytes := bytes "N"
  deriving DecidableEq

structure DynamicEngine where
  dynamicEngine : Bytes := []
  protectDirection : Bytes := []
  connRatePerIP : Bytes := bytes "0/0/0"
  sendRatePerSubject : Bytes := bytes "0/0/0"
  sendRatePerFrom : Bytes := bytes "0/0/0"
  whiteFromList : List Bytes := []
  whiteSubjectList : List Bytes := []
  whiteIPRateList : List Bytes := []
  deriving DecidableEq

structure ContentEngine where
  contentFilterEngine : Bytes := []
  protectDirection : Bytes := []
  deriving DecidableEq

structure ArchiveEngine where
  archiveEngine : Bytes := bytes "N"
  archiveType : List Bytes := []
  archiveAddress : List Bytes := []
  deriving DecidableEq

/-- `NoSPAM.intconf`. -/
structure IntConf where
  contentEngineMaxMailSize : Bytes := []
  spamAssassinMaxMailSize : Bytes := []
  deriving DecidableEq

/-- The configuration. -/
structure Config where
  quarantineEngine : QuarantineEngine := {}
  antiVirusEngine : AntiVirusEngine := {}
  spamEngine : SpamEngine := {}
  dynamicEngine : DynamicEngine := {}
  contentEngine : ContentEngine := {}
  archiveEngine : ArchiveEngine := {}
  /-- `MailServer`'s `MailHostName`. -/
  mailHostName : Bytes := []
  intconf : IntConf := {}
  deriving DecidableEq

end Conf

/-- A parameter that switches something on: `'Y' eq uc $parameter`. -/
def isY (b : Bytes) : Bool := uc b = bytes "Y"

end NoSpam
