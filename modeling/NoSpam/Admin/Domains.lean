import Mathlib.Algebra.Order.BigOperators.Group.Finset
import NoSpam.Admin.ConfFile
import NoSpam.Admin.Profile
import NoSpam.Base.Capture
import NoSpam.Base.Numeric
import NoSpam.Base.Run
import NoSpam.Base.Scalar

/-!
# Protected and virtual domains

The pages `protectdomain.ns` and `mailserver.ns` keep the domains in the section `MailServer` of the
configuration, several keys for each, and look for them there with patterns.  The licence limits
their number, their names, and what the virtual domains are given.  Each request loads the file,
checks what it is sent against the limits, and saves.  Integers have 32 bits; sums and products that
go beyond them are floats, which hold whole numbers exactly up to `2 ^ 53`.
-/

namespace NoSpam.Admin.Domains

open Text Php ConfFile

/-! ## Keys -/

/-- The two kinds of domains. -/
inductive Kind
  | protect
  | virtual
  deriving DecidableEq

/-- What the keys of a kind begin with. -/
def Kind.stem : Kind → Bytes
  | .protect => bytes "ProtectDomain_"
  | .virtual => bytes "VirtualDomain_"

/-- What is kept of a domain. -/
def Kind.fields : Kind → List Bytes
  | .protect => [bytes "IPPort", bytes "Cate"]
  | .virtual => [bytes "Admin", bytes "Quota", bytes "MaxUser", bytes "Memo"]

/-- What the keys of a kind end with. -/
def Kind.ends (k : Kind) : List Bytes := k.fields.map (95 :: ·)

/-- The other kind. -/
def Kind.other : Kind → Kind
  | .protect => .virtual
  | .virtual => .protect

/-- The key of a field of a domain. -/
def Kind.key (k : Kind) (domain field : Bytes) : Bytes := k.stem ++ (domain ++ 95 :: field)

/-- `preg_match`, with what it captures. -/
def Kind.capture (k : Kind) (key : Bytes) : Option Bytes := Pattern.capture 10 k.stem k.ends key

/-- The section of the domains. -/
def MailServer : Bytes := bytes "MailServer"

/-- A section. -/
abbrev Section := Assoc Bytes Bytes

/-- `in_array`. -/
def inArray (needle : Bytes) (haystack : List Bytes) : Bool :=
  haystack.any fun d => looseEq needle d

/-- One round of a loop that collects what a pattern finds. -/
def addRound (m : Bytes → Option Bytes) (Domains : List Bytes) (key : Bytes) : List Bytes :=
  match m key with
  | some d => if inArray d Domains then Domains else Domains ++ [d]
  | none => Domains

/-- The round for the virtual domains. -/
def virtualRound : List Bytes → Bytes → List Bytes := addRound Kind.virtual.capture

/-- One round of the loop of `check_new_domain`; `continue` skips the second pattern. -/
def domainRound (Domains : List Bytes) (key : Bytes) : List Bytes :=
  match Kind.protect.capture key with
  | some d => if inArray d Domains then Domains else virtualRound (Domains ++ [d]) key
  | none => virtualRound Domains key

/-- The keys of a section. -/
def keys (sec : Section) : List Bytes := sec.entries.map Prod.fst

/-! ## Limits -/

/-- The limits of the licence. -/
structure License where
  MaxProtectDomainNumber : ℤ
  RestrictDomainList : Bytes
  MaxUser : ℤ
  MaxDomain : ℤ
  MaxQuota : ℤ

/-- The ways a request is refused. -/
inductive Refusal
  | permission
  | ipFormat
  | port
  | restricted
  | tooMany
  | existed
  | reserved
  | maxDomain
  | userNotPositive
  | maxUser
  | quotaNotPositive
  | maxQuota
  deriving DecidableEq

/-- The loop over `$RestrictDomainList`.  Its `break` stands outside of the `if`. -/
def inRestrictList (newDomain : Bytes) : List Bytes → Bool
  | [] => false
  | buf :: _ => Perl.lc newDomain = Perl.lc (trim buf)

/-- `check_new_domain`. -/
def check_new_domain (L : License) (sec : Section) (newDomain : Bytes) : Option Refusal :=
  if Perl.isTrue L.RestrictDomainList && Perl.isTrue newDomain &&
      !inRestrictList newDomain ((trim L.RestrictDomainList).splitOn 44) then some .restricted
  else if L.MaxProtectDomainNumber < 0 then none
  else if ((keys sec).foldl domainRound []).length + 1 > L.MaxProtectDomainNumber then some .tooMany
  else none

/-- Names that cannot be added. -/
def isReserved (domain : Bytes) : Bool :=
  domain = bytes "localhost" || domain = bytes "localhost.localdomain"

/-! ## Requests -/

/-- What is sent to `protectdomain.ns`. -/
structure ProtectForm where
  modify : Bool
  Domain : Bytes
  IP : Bytes
  Port : Bytes
  Cate : Bytes

/-- What is sent to `mailserver.ns`. -/
structure VirtualForm where
  modify : Bool
  Domain : Bytes
  admin : Bytes
  Quota : Bytes
  QuotaUnit : Bytes
  MaxUser : Bytes
  Memo : Bytes

/-- `$Port`. -/
def ProtectForm.port (f : ProtectForm) : Bytes := if Perl.isTrue f.Port then f.Port else bytes "25"

/-- The checks of `save` of `protectdomain.ns`.  `$Domain` is not set, so the key that is looked for
has no name in it. -/
def ProtectForm.refusal (L : License) (sec : Section) (f : ProtectForm) : Option Refusal :=
  let domain := trim f.Domain
  if !checkipaddr f.IP false then some .ipFormat
  else if !isNumeric f.port || long f.port < 1 || long f.port > 65535 then some .port
  else match check_new_domain L sec domain with
  | some e => some e
  | none =>
      if !f.modify && (sec.lookup (Kind.protect.key [] (bytes "IPPort"))).isSome then some .existed
      else if !f.modify && isReserved domain then some .reserved
      else none

/-- What is set for a protected domain. -/
def ProtectForm.values (f : ProtectForm) : List (Bytes × Bytes) :=
  [(bytes "IPPort", f.IP ++ 58 :: f.port), (bytes "Cate", f.Cate)]

/-- The virtual domains, as `save` of `mailserver.ns` finds them. -/
def vDomains (sec : Section) : List Bytes := (keys sec).foldl virtualRound []

/-- The user limit of a virtual domain. -/
def users (sec : Section) (domain : Bytes) : ℤ :=
  long ((sec.lookup (Kind.virtual.key domain (bytes "MaxUser"))).getD [])

/-- The quota of a virtual domain. -/
def quota (sec : Section) (domain : Bytes) : ℤ :=
  long ((sec.lookup (Kind.virtual.key domain (bytes "Quota"))).getD [])

/-- The virtual domains that a request leaves as they are. -/
def VirtualForm.others (sec : Section) (f : VirtualForm) : List Bytes :=
  (vDomains sec).filter fun value => !(f.modify && looseEq value (trim f.Domain))

/-- The quota that is sent. -/
def VirtualForm.quota (f : VirtualForm) : ℤ := long f.Quota * long f.QuotaUnit

/-- The checks of `save` of `mailserver.ns`. -/
def VirtualForm.refusal (L : License) (sec : Section) (f : VirtualForm) : Option Refusal :=
  let domain := trim f.Domain
  let TotalUser := ((f.others sec).map (users sec)).sum
  let TotalQuota := ((f.others sec).map (Domains.quota sec)).sum
  match check_new_domain L sec domain with
  | some e => some e
  | none =>
      if !f.modify && ((vDomains sec).length : ℤ) = L.MaxDomain then some .maxDomain
      else if !f.modify && (sec.lookup (Kind.virtual.key domain (bytes "Quota"))).isSome then
        some .existed
      else if L.MaxUser ≠ 0 && long f.MaxUser ≤ 0 then some .userNotPositive
      else if L.MaxUser ≠ 0 && L.MaxUser < TotalUser + long f.MaxUser then some .maxUser
      else if L.MaxQuota ≠ 0 && long f.Quota ≤ 0 then some .quotaNotPositive
      else if L.MaxQuota ≠ 0 && L.MaxQuota < TotalQuota + f.quota then some .maxQuota
      else if isReserved domain then some .reserved
      else none

section Requests

variable (showFloat : ℤ → Bytes)

/-- A whole number as a text.  From 15 digits on (the `precision` of `php.ini`) it is written with
an exponent, in a way that depends on the version. -/
def showNumber (z : ℤ) : Bytes := if z.natAbs < 10 ^ 14 then showInt z else showFloat z

/-- What is set for a virtual domain. -/
def VirtualForm.values (f : VirtualForm) : List (Bytes × Bytes) :=
  [(bytes "Admin", f.admin), (bytes "Quota", showNumber showFloat f.quota),
    (bytes "MaxUser", f.MaxUser), (bytes "Memo", f.Memo)]

/-- The requests that change the domains; a deletion is sent a name or an array of names. -/
inductive Request
  | del (k : Kind) (domains : List Bytes)
  | saveProtect (f : ProtectForm)
  | saveVirtual (f : VirtualForm)

/-- The checks. -/
def Request.refusal (L : License) (sec : Section) : Request → Option Refusal
  | .del _ _ => none
  | .saveProtect f => f.refusal L sec
  | .saveVirtual f => f.refusal L sec

/-- `delParam` for the keys of some domains. -/
def delDomains (k : Kind) (domains : List Bytes) (params : Params) : Params :=
  domains.foldl (fun params value =>
    k.fields.foldl (fun params field => delParam params (k.key value field) MailServer) params)
    params

/-- `setParam` for the keys of a domain. -/
def setDomain (k : Kind) (domain : Bytes) (values : List (Bytes × Bytes)) (params : Params) :
    Params :=
  values.foldl (fun params e => setParam params (k.key domain e.1) e.2 MailServer) params

/-- The parameters that a request comes to, if it is not refused. -/
def Request.result (params : Params) : Request → Params
  | .del k domains => delDomains k domains params
  | .saveProtect f => setDomain .protect (trim f.Domain) f.values params
  | .saveVirtual f => setDomain .virtual (trim f.Domain) (f.values showFloat) params

/-- The section of the domains in a file. -/
def domainSection (file : Bytes) : Section := sect (parseIni file) MailServer

/-- What comes of a request: a refusal, or parameters to save. -/
def Request.outcome (L : License) (Privilege : Option Bytes) (file : Bytes) (r : Request) :
    Except Refusal Params :=
  if !adminPerm Privilege PERM_ADMIN_WRITE then .error .permission
  else match r.refusal L (domainSection file) with
  | some e => .error e
  | none => .ok (r.result showFloat (parseIni file))

/-- The file after a request. -/
def step (L : License) (Privilege : Option Bytes) (file : Bytes) (r : Request) : Bytes :=
  match r.outcome showFloat L Privilege file with
  | .error _ => file
  | .ok params => ConfFile.save Privilege params file

end Requests

/-! ## What the licence asks for -/

/-- The name in a key of a kind. -/
def Kind.domain (k : Kind) (key : Bytes) : Option Bytes := Pattern.between k.stem k.ends key

/-- The configured domains of a kind. -/
def Kind.domains (k : Kind) (sec : Section) : Finset Bytes :=
  ((keys sec).filterMap k.domain).toFinset

/-- The configured domains. -/
def configured (sec : Section) : Finset Bytes := Kind.protect.domains sec ∪ Kind.virtual.domains sec

/-- The domain is an entry of the list, at any position and in any case. -/
def Listed (L : License) (domain : Bytes) : Prop :=
  ∃ e ∈ (trim L.RestrictDomainList).splitOn 44, Perl.lc domain = Perl.lc (trim e)

/-- The number of users that a virtual domain is given. -/
def userLimit (sec : Section) (domain : Bytes) : ℤ :=
  intval ((sec.lookup (Kind.virtual.key domain (bytes "MaxUser"))).getD [])

/-- The quota that a virtual domain is given. -/
def quotaLimit (sec : Section) (domain : Bytes) : ℤ :=
  intval ((sec.lookup (Kind.virtual.key domain (bytes "Quota"))).getD [])

/-- A section that respects the licence. -/
structure Within (L : License) (sec : Section) : Prop where
  number : 0 ≤ L.MaxProtectDomainNumber → ((configured sec).card : ℤ) ≤ L.MaxProtectDomainNumber
  listed : L.RestrictDomainList ≠ [] → ∀ d ∈ configured sec, Listed L d
  domains : L.MaxDomain ≠ 0 → ((Kind.virtual.domains sec).card : ℤ) ≤ L.MaxDomain
  users : L.MaxUser ≠ 0 → ∑ d ∈ Kind.virtual.domains sec, userLimit sec d ≤ L.MaxUser
  quota : L.MaxQuota ≠ 0 → ∑ d ∈ Kind.virtual.domains sec, quotaLimit sec d ≤ L.MaxQuota

/-- A refusal for a limit of the licence. -/
def Refusal.IsLimit : Refusal → Prop
  | .restricted | .tooMany | .maxDomain | .maxUser | .maxQuota => True
  | _ => False

/-- The request adds a domain of a kind that is configured already. -/
def Request.Duplicate (sec : Section) : Request → Prop
  | .del _ _ => False
  | .saveProtect f => f.modify = false ∧ trim f.Domain ∈ Kind.protect.domains sec
  | .saveVirtual f => f.modify = false ∧ trim f.Domain ∈ Kind.virtual.domains sec

/-- The request is treated as the licence asks for: what it leaves respects the limits, it is not
refused for a limit that its result would respect, and a domain is not added twice. -/
structure Lawful (showFloat : ℤ → Bytes) (L : License) (Privilege : Option Bytes) (file : Bytes)
    (r : Request) : Prop where
  within : Within L (domainSection (step showFloat L Privilege file r))
  not_refused : ¬ r.Duplicate (domainSection file) →
    Within L (sect (r.result showFloat (parseIni file)) MailServer) →
      ∀ e, r.outcome showFloat L Privilege file = .error e → ¬ e.IsLimit
  duplicate : r.Duplicate (domainSection file) →
    (∃ e, r.outcome showFloat L Privilege file = .error e) ∧
      step showFloat L Privilege file r = file

/-! ## When it is -/

/-- The name of a domain that can be told from other names, and whose keys fit on their lines. -/
structure Fits (sec : Section) (k : Kind) (domain : Bytes) : Prop where
  ne_nil : domain ≠ []
  newline_not_mem : 10 ∉ domain
  eq_not_mem : 61 ∉ domain
  alone : ∀ field ∈ k.fields, k.other.capture (k.key domain field) = none
  distinct : ∀ d ∈ configured sec, looseEq domain d = true → domain = d

/-- The domain is the first entry of the list. -/
def FirstListed (L : License) (domain : Bytes) : Prop :=
  Perl.lc domain = Perl.lc (trim (((trim L.RestrictDomainList).splitOn 44).headD []))

/-- `check_new_domain` comes to what the licence asks for: the domain is the first entry of the list
if it is one, neither the list nor a domain that is not on it passes for false, and a configured
domain is not saved when no more domains are allowed. -/
structure Checked (L : License) (sec : Section) (domain : Bytes) : Prop where
  first : L.RestrictDomainList ≠ [] → Listed L domain → Perl.isTrue L.RestrictDomainList = true →
    Perl.isTrue domain = true → FirstListed L domain
  unlisted : L.RestrictDomainList ≠ [] → ¬ Listed L domain →
    Perl.isTrue L.RestrictDomainList = true ∧ Perl.isTrue domain = true
  number : 0 ≤ L.MaxProtectDomainNumber → domain ∈ configured sec →
    ((configured sec).card : ℤ) < L.MaxProtectDomainNumber

/-- The form of a protected domain is refused whatever the domains are. -/
def ProtectForm.Malformed (f : ProtectForm) : Prop :=
  checkipaddr f.IP false = false ∨ isNumeric f.port = false ∨ long f.port < 1 ∨
    65535 < long f.port ∨ isReserved (trim f.Domain) = true

/-- The number of users is an integer, or the limit is one and refuses the largest integer. -/
def UsersFit (L : License) (f : VirtualForm) : Prop :=
  L.MaxUser ≠ 0 → intval f.MaxUser < 2 ^ 31 ∨ L.MaxUser < 2 ^ 31 - 1

/-- The unit of the quota is not negative; and the quota is an integer, or is beyond the limit and
written so that it reads as beyond it. -/
def QuotaFits (showFloat : ℤ → Bytes) (L : License) (f : VirtualForm) : Prop :=
  L.MaxQuota ≠ 0 → 0 < long f.Quota → 0 ≤ long f.QuotaUnit ∧
    (f.quota < 2 ^ 31 ∨
      L.MaxQuota < f.quota ∧ L.MaxQuota < intval (showNumber showFloat f.quota))

/-- The requests that are treated as the licence asks for. -/
def Regular (showFloat : ℤ → Bytes) (L : License) (sec : Section) : Request → Prop
  | .del _ _ => True
  | .saveProtect f =>
      Fits sec .protect (trim f.Domain) ∧ Checked L sec (trim f.Domain) ∧
        (∀ e ∈ f.values, 10 ∉ e.2) ∧
        (f.modify = false → trim f.Domain ∈ Kind.protect.domains sec → f.Malformed)
  | .saveVirtual f =>
      Fits sec .virtual (trim f.Domain) ∧ Checked L sec (trim f.Domain) ∧
        (∀ e ∈ f.values showFloat, 10 ∉ e.2) ∧
        (f.modify = false → L.MaxDomain = 0 → Kind.virtual.domains sec ≠ ∅) ∧
        (f.modify = true → trim f.Domain ∈ Kind.virtual.domains sec ∨ L.MaxDomain = 0 ∨
          ((Kind.virtual.domains sec).card : ℤ) < L.MaxDomain) ∧
        UsersFit L f ∧ QuotaFits showFloat L f

instance (L : License) (domain : Bytes) : Decidable (Listed L domain) :=
  inferInstanceAs (Decidable (∃ e ∈ _, _))

instance (L : License) (domain : Bytes) : Decidable (FirstListed L domain) :=
  inferInstanceAs (Decidable (_ = _))

instance (f : ProtectForm) : Decidable f.Malformed := inferInstanceAs (Decidable (_ ∨ _))

instance (sec : Section) (k : Kind) (domain : Bytes) : Decidable (Fits sec k domain) :=
  decidable_of_iff (domain ≠ [] ∧ 10 ∉ domain ∧ 61 ∉ domain ∧
      (∀ field ∈ k.fields, k.other.capture (k.key domain field) = none) ∧
      ∀ d ∈ configured sec, looseEq domain d = true → domain = d)
    ⟨fun ⟨h₁, h₂, h₃, h₄, h₅⟩ => ⟨h₁, h₂, h₃, h₄, h₅⟩,
      fun ⟨h₁, h₂, h₃, h₄, h₅⟩ => ⟨h₁, h₂, h₃, h₄, h₅⟩⟩

instance (L : License) (sec : Section) (domain : Bytes) : Decidable (Checked L sec domain) :=
  decidable_of_iff
    ((L.RestrictDomainList ≠ [] → Listed L domain → Perl.isTrue L.RestrictDomainList = true →
        Perl.isTrue domain = true → FirstListed L domain) ∧
      (L.RestrictDomainList ≠ [] → ¬ Listed L domain →
        Perl.isTrue L.RestrictDomainList = true ∧ Perl.isTrue domain = true) ∧
      (0 ≤ L.MaxProtectDomainNumber → domain ∈ configured sec →
        ((configured sec).card : ℤ) < L.MaxProtectDomainNumber))
    ⟨fun ⟨h₁, h₂, h₃⟩ => ⟨h₁, h₂, h₃⟩, fun ⟨h₁, h₂, h₃⟩ => ⟨h₁, h₂, h₃⟩⟩

instance (L : License) (f : VirtualForm) : Decidable (UsersFit L f) :=
  inferInstanceAs (Decidable (_ → _))

instance (showFloat : ℤ → Bytes) (L : License) (f : VirtualForm) :
    Decidable (QuotaFits showFloat L f) := inferInstanceAs (Decidable (_ → _))

instance (showFloat : ℤ → Bytes) (L : License) (sec : Section) :
    (r : Request) → Decidable (Regular showFloat L sec r)
  | .del _ _ => isTrue trivial
  | .saveProtect _ => inferInstanceAs (Decidable (_ ∧ _))
  | .saveVirtual _ => inferInstanceAs (Decidable (_ ∧ _))

/-- Limits that a configuration without domains respects. -/
structure License.Plain (L : License) : Prop where
  maxDomain : 0 ≤ L.MaxDomain
  maxUser : 0 ≤ L.MaxUser
  maxQuota : 0 ≤ L.MaxQuota

/-- There is no key of a domain, nor one that would be taken for it. -/
def WithoutDomains (sec : Section) : Prop :=
  ∀ key ∈ keys sec, ∀ k : Kind, k.capture key = none ∧ k.domain key = none

end NoSpam.Admin.Domains
