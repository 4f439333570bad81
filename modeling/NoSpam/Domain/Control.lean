import Mathlib.Data.List.AList
import NoSpam.Base.Columns
import NoSpam.Base.Scalar

/-!
# The control files of the mail server

`ProtectDomain_reset` makes `rcpthosts`, `smtproutes` and `/etc/hosts` from the configuration: the
protected domains with their servers, the name and address of the gateway, and the virtual domains
that qmail has in `virtualdomains`.  A hash is visited in an order of its own, which the functions
take as an argument.  `write_file` gives its `open` three arguments, of which the second is the
mode: the functions take the modes that `open` knows as an argument too, and `Perl.isOpenMode` are
those that it knows.
-/

namespace NoSpam.Domain

open Text Perl

/-! ## The configuration -/

/-- A letter, a digit, `-`, `.` or `_`. -/
def isDomainByte (c : UInt8) : Bool :=
  isDigit c || (65 ≤ c && c ≤ 90) || (97 ≤ c && c ≤ 122) || c = 45 || c = 46 || c = 95

/-- A name with the symbols of a domain. -/
def IsDomain (d : Bytes) : Prop := d ≠ [] ∧ ∀ c ∈ d, isDomainByte c = true

/-- Digits and dots. -/
def IsAddress (a : Bytes) : Prop := a ≠ [] ∧ ∀ c ∈ a, isDigit c = true ∨ c = 46

instance (d : Bytes) : Decidable (IsDomain d) :=
  decidable_of_iff (d ≠ [] ∧ d.all isDomainByte = true) (by rw [IsDomain, List.all_eq_true])

instance (a : Bytes) : Decidable (IsAddress a) :=
  decidable_of_iff (a ≠ [] ∧ (a.all fun c => isDigit c || c = 46) = true) (by simp [IsAddress])

/-- The server of a protected domain; without a port it is at port 25. -/
structure Server where
  ip : Bytes
  port : Bytes
  deriving DecidableEq

/-- An entry of a hash. -/
abbrev Entry := Sigma fun _ : Bytes => Server

/-- What the control files are made from: the section `ProtectDomain`, the name and address of the
gateway, and the lines of `virtualdomains` as domains with what follows the colon. -/
structure MailConf where
  protectDomain : AList fun _ : Bytes => Server
  networkIP : Option Bytes := none
  networkHostname : Option Bytes := none
  mailGatewayInternalIP : Bytes := []
  virtualdomains : Option (List (Bytes × Bytes)) := none
  legal_protect : ∀ e ∈ protectDomain.entries,
    IsDomain e.1 ∧ IsAddress e.2.ip ∧ e.2.port.all isDigit = true
  legal_gateway : (∀ ip ∈ networkIP, IsAddress ip) ∧ (∀ h ∈ networkHostname, 10 ∉ h) ∧
    (mailGatewayInternalIP = [] ∨ IsAddress mailGatewayInternalIP)
  legal_virtual : ∀ e ∈ virtualdomains.getD [], IsDomain e.1 ∧ 10 ∉ e.2

/-- The virtual domains. -/
def MailConf.virtualDomains (c : MailConf) : List Bytes := (c.virtualdomains.getD []).map Prod.fst

/-- The text of `virtualdomains`. -/
def MailConf.virtualText (c : MailConf) : Option Bytes :=
  c.virtualdomains.map fun es => es.flatMap fun e => e.1 ++ 58 :: e.2 ++ [10]

/-- The files. -/
structure Files where
  rcpthosts : Option Bytes := none
  smtproutes : Option Bytes := none
  hosts : Option Bytes := none

/-! ## The generators -/

/-- `write_file`: a content that is not true is not written, and nothing is where
`open (LFD, ">$filename.new", 0644)` fails. -/
def writeFile (knows : Bytes → Bool) (filename content : Bytes) (old : Option Bytes) :
    Option Bytes :=
  if isTrue content && isTrue filename && knows (62 :: (filename ++ bytes ".new")) then some content
  else old

/-- `b =~ /^pat$/`. -/
def matchesWhole (pat b : Bytes) : Bool :=
  dropPattern pat b = some [] || dropPattern pat b = some [10]

/-- One line of `virtualdomains`: the domain before the colon takes the place of what it matches as
a pattern. -/
def addVirtual (domains : List Bytes) (line : Bytes) : List Bytes :=
  let v := line.takeWhile (· ≠ 58)
  if v = [] then domains else domains.filter (fun d => !matchesWhole v d) ++ [v]

/-- `_file_update_rcpthosts`. -/
def fileUpdateRcpthosts (knows : Bytes → Bool) (domains : List Bytes)
    (virtualText old : Option Bytes) : Option Bytes :=
  if domains = [] then old
  else
    match virtualText with
    | none => old
    | some text =>
        writeFile knows (bytes "/var/qmail/control/rcpthosts")
          (joinFields 10 ((lines 10 text).foldl addVirtual domains) ++ [10]) old

/-- The route of a domain, with what `ProtectDomain_reset` has as its port. -/
def route (e : Entry) : Bytes :=
  e.1 ++ 58 :: e.2.ip ++ 58 :: orElse (orElse e.2.port (bytes "25")) (bytes "25")

/-- `_file_update_smtproutes`. -/
def fileUpdateSmtproutes (knows : Bytes → Bool) (servers : List Entry) (old : Option Bytes) :
    Option Bytes :=
  if servers = [] then old
  else
    writeFile knows (bytes "/var/qmail/control/smtproutes") (joinFields 10 (servers.map route)) old

/-- `%host_map`. -/
def hostMap (c : MailConf) (servers : List Entry) : AList fun _ : Bytes => Bytes :=
  let m := AList.singleton (bytes "127.0.0.1") (bytes "localhost.localdomain localhost")
  let m :=
    match c.networkIP, c.networkHostname with
    | some ip, some hostname => m.insert ip hostname
    | _, _ => m.insert (orElse c.mailGatewayInternalIP (bytes "10.4.3.7"))
        (bytes "factory.gw.nospam.cn")
  servers.foldl (fun m e => m.insert e.2.ip e.1) m

/-- What precedes the first dot, if anything does. -/
def shortName (hostname : Bytes) : Bytes :=
  let label := hostname.takeWhile (· ≠ 46)
  if label ≠ [] && label.length < hostname.length then 32 :: label else []

/-- A line of `/etc/hosts`: the address, the name, and the short name when there is one name. -/
def hostLine (e : Sigma fun _ : Bytes => Bytes) : Bytes :=
  let hostname := (e.2.dropWhile isWhite).rdropWhile isWhite
  e.1 ++ 9 :: hostname ++ if hostname.any isWhite then [] else shortName hostname

/-- `_file_update_hosts`, with the order of `each`. -/
def fileUpdateHosts (knows : Bytes → Bool)
    (each : List (Sigma fun _ : Bytes => Bytes) → List (Sigma fun _ : Bytes => Bytes))
    (c : MailConf) (servers : List Entry) (old : Option Bytes) : Option Bytes :=
  writeFile knows (bytes "/etc/hosts")
    ((each (hostMap c servers).entries).flatMap fun e => hostLine e ++ [10]) old

/-- `ProtectDomain_reset`, as far as the three files, with the order of the protected domains. -/
def protectDomainReset (knows : Bytes → Bool)
    (each : List (Sigma fun _ : Bytes => Bytes) → List (Sigma fun _ : Bytes => Bytes))
    (c : MailConf) (servers : List Entry) (f : Files) : Files where
  hosts := fileUpdateHosts knows each c servers f.hosts
  rcpthosts := fileUpdateRcpthosts knows (servers.map Sigma.fst) c.virtualText f.rcpthosts
  smtproutes := fileUpdateSmtproutes knows servers f.smtproutes

end NoSpam.Domain
