import NoSpam.Base.Columns
import NoSpam.Base.Runs

/-!
# The proxy of SMTP authentication

`smtp_auth_proxy.pl` takes a user, a password and a challenge from descriptor 3.  Where `smtproutes`
has a server for the user's domain, that server decides by a LOGIN; otherwise the local checker is
handed what was read.  The descriptor is read once, for 128 bytes: `getInfo_credentials` says what
is left of longer credentials, and `decides_iff` when the proxy still decides by those that were
sent.
-/

namespace NoSpam.AuthProxy

open Text Perl

/-! ## The route of a user -/

/-- The files under `/var/qmail/control` that are read. -/
structure Control where
  me : Bytes
  smtproutes : Bytes

/-- `$user =~ /^([^sep]+)sep(.+)$/`. -/
def splitAt (sep : UInt8) (user : Bytes) : Option (Bytes × Bytes) :=
  match cutAt sep user with
  | (raw, some rest) =>
      if raw ≠ [] ∧ chomp rest ≠ [] ∧ 10 ∉ chomp rest then some (raw, chomp rest) else none
  | (_, none) => none

/-- The local part and the domain: the first of the four separators that has something on both
sides. -/
def splitUser (user : Bytes) : Option (Bytes × Bytes) :=
  [64, 37, 38, 33].findSome? (splitAt · user)

/-- The user's domain, by default the first line of `me`. -/
def userDomain (control : Control) (user : Bytes) : Bytes :=
  let domain := (splitUser user).elim [] Prod.snd
  if domain = [] then chomp ((lines 10 control.me).headD []) else domain

/-- `$line =~ /^([^:]+):(\d+\.\d+\.\d+\.\d+)/`. -/
def parseRoute (line : Bytes) : Option (Bytes × Bytes) :=
  match cutAt 58 line with
  | (domain, some rest) =>
      if domain = [] then none else (runsAt 46 3 rest).map fun runs => (domain, joinFields 46 runs)
  | (_, none) => none

/-- The walk through the lines of `smtproutes`: the address, empty where there is none, or what is
said before the end with status 255. -/
def findRoute (domain : Bytes) : List Bytes → Except Bytes Bytes
  | [] => .ok []
  | line :: rest =>
      match parseRoute (chomp line) with
      | none => .error (bytes "501 auth exchange cancelled (#5.0.1)\r\n")
      | some (name, ip) =>
          if isTrue domain ∧ name = domain then
            if isTrue ip then .ok ip else .error (bytes "501 auth exchange cancelled (#5.0.2)\r\n")
          else findRoute domain rest

/-- The route of the user's domain. -/
def routeOf (control : Control) (user : Bytes) : Except Bytes Bytes :=
  findRoute (userDomain control user) (lines 10 control.smtproutes)

/-- The route, and the user's local part. -/
def getRemoteSmtpIp (control : Control) (user : Bytes) : Except Bytes (Bytes × Bytes) :=
  (routeOf control user).map fun ip => (ip, (splitUser user).elim [] Prod.fst)

/-! ## The two authorities -/

/-- A server, as `Net::SMTP_auth` meets it in one session: what it offers, and its answer to a LOGIN
after the ones it has refused. -/
structure Server where
  authTypes : List Bytes
  auth : List (Bytes × Bytes) → Bytes → Bytes → Bool

/-- `grep (/LOGIN/, $smtp->auth_types ())`. -/
def Server.offersLogin (server : Server) : Bool :=
  server.authTypes.any (contains (bytes "LOGIN"))

/-- The machine the proxy runs on: the pipe and its read end, whether the checker can be run, and
the system's text for what fails. -/
structure Machine where
  pipe : Bool
  fileno : ℕ
  exec : Bool
  error : Bytes

/-- The pipe is made on descriptor 3 and the checker runs. -/
def Machine.Works (machine : Machine) : Prop :=
  machine.pipe = true ∧ machine.fileno = 3 ∧ machine.exec = true

/-- How the proxy ends: with a status and what it has said, by a `die`, or as the local checker with
this text on descriptor 3. -/
inductive Outcome
  | ended (status : ℕ) (said : Bytes)
  | died
  | checker (handed : Bytes)
deriving DecidableEq

/-- A LOGIN and its answer. -/
structure Login where
  ip : Bytes
  name : Bytes
  password : Bytes
  accepted : Bool
deriving DecidableEq

/-- The end of the proxy and the LOGINs it has made. -/
structure Run where
  outcome : Outcome
  logins : List Login
deriving DecidableEq

/-- `local_auth`. -/
def localAuth (machine : Machine) (authInfo : Bytes) : Outcome :=
  if machine.pipe = false then
    .ended 150 (bytes "535 Unable to create a pipe. - " ++ machine.error ++ bytes "\r\n")
  else if machine.fileno ≠ 3 then .ended 150 (bytes "535 Unable to create a right pipe.\r\n")
  else if machine.exec then .checker authInfo
  else .ended 150 (bytes "535 Unable to exec for auth! " ++ machine.error ++ bytes "\r\n")

/-- The LOGIN under the user's name, and under the local part after a refusal. -/
def remoteAuth (server : Server) (ip user raw pass : Bytes) : Run :=
  if server.offersLogin then
    if server.auth [] user pass then ⟨.ended 0 [], [⟨ip, user, pass, true⟩]⟩
    else if raw = [] then ⟨.ended 20 [], [⟨ip, user, pass, false⟩]⟩
    else if server.auth [(user, pass)] raw pass then
      ⟨.ended 0 [], [⟨ip, user, pass, false⟩, ⟨ip, raw, pass, true⟩]⟩
    else ⟨.ended 20 [], [⟨ip, user, pass, false⟩, ⟨ip, raw, pass, false⟩]⟩
  else ⟨.ended 0 [], []⟩

/-! ## The proxy -/

/-- Credentials as they stand on descriptor 3. -/
def credentials (user pass challenge : Bytes) : Bytes :=
  user ++ 0 :: (pass ++ 0 :: (challenge ++ [0]))

/-- `get_info`: one read of 128 bytes, cut at the NULs. -/
def getInfo (fd : Bytes) : Bytes × Bytes × Bytes :=
  let buf := fd.take 128
  if 0 ∈ buf then
    ((fields 0 buf).getD 0 [], (fields 0 buf).getD 1 [], (fields 0 buf).getD 2 [])
  else ([], [], [])

/-- The main program, with the text on descriptor 3 if that is open. -/
def smtpAuthProxy (control : Control) (network : Bytes → Option Server) (machine : Machine)
    (fd : Option Bytes) : Run :=
  match fd with
  | none => ⟨.ended 255 (bytes "only talk with qmail-smtpd!\r\n"), []⟩
  | some text =>
      let (user, pass, challenge) := getInfo text
      match getRemoteSmtpIp control user with
      | .error said => ⟨.ended 255 said, []⟩
      | .ok (ip, raw) =>
          if isTrue ip then
            match network ip with
            | none => ⟨.died, []⟩
            | some server => remoteAuth server ip user raw pass
          else ⟨localAuth machine (credentials user pass challenge), []⟩

/-! ## What is read -/

section

variable {user pass challenge : Bytes}

/-- **What is read of the credentials**: nothing of a user of 128 bytes or more, otherwise the user
and what is left of 128 bytes for the password and for the challenge. -/
theorem getInfo_credentials (huser : 0 ∉ user) (hpass : 0 ∉ pass) (hchallenge : 0 ∉ challenge) :
    getInfo (credentials user pass challenge) =
      if user.length < 128 then
        (user, pass.take (127 - user.length), challenge.take (126 - user.length - pass.length))
      else ([], [], []) := by
  have hcut := splitOn_take_append huser (pass ++ 0 :: (challenge ++ [0])) 128
  have hcut' := splitOn_take_append hpass (challenge ++ [0]) (128 - user.length - 1)
  have hcut'' := splitOn_take_append hchallenge [] (128 - user.length - 1 - pass.length - 1)
  simp only [getInfo, credentials, getD_fields, hcut]
  by_cases hlength : user.length < 128
  · have hmem : (0 : UInt8) ∈ (user ++ 0 :: (pass ++ 0 :: (challenge ++ [0]))).take 128 := by
      obtain ⟨k, hk⟩ : ∃ k, 128 - user.length = k + 1 := ⟨127 - user.length, by omega⟩
      rw [List.take_append, hk, List.take_succ_cons]
      exact List.mem_append_right _ List.mem_cons_self
    rw [if_pos hmem, if_pos hlength, if_neg (by omega), hcut',
      List.take_of_length_le (by omega : user.length ≤ 128)]
    have hsub : 128 - user.length - 1 = 127 - user.length := by omega
    rw [hsub] at hcut'' ⊢
    by_cases hroom : 127 - user.length ≤ pass.length
    · rw [if_pos hroom, (by omega : 126 - user.length - pass.length = 0)]
      rfl
    · rw [if_neg hroom, hcut'',
        (by omega : 127 - user.length - pass.length - 1 = 126 - user.length - pass.length)]
      rfl
  · have hmem : (0 : UInt8) ∉ (user ++ 0 :: (pass ++ 0 :: (challenge ++ [0]))).take 128 := by
      rw [List.take_append_of_le_length (by omega)]
      exact fun h => huser (List.mem_of_mem_take h)
    rw [if_neg hmem, if_neg hlength]

end

/-! ## Routes and LOGINs -/

/-- An address is a truth value: it has points in it. -/
theorem isTrue_of_parseRoute {line name ip : Bytes} (h : parseRoute line = some (name, ip)) :
    isTrue ip = true := by
  unfold parseRoute at h
  split at h
  · split_ifs at h
    obtain ⟨runs, hruns, heq⟩ := Option.map_eq_some_iff.1 h
    obtain ⟨-, rfl⟩ := Prod.mk.inj heq
    exact isTrue_of_mem (sep_mem_of_runsAt hruns) (by decide)
  · cases h

theorem isTrue_of_findRoute {domain ip : Bytes} {routes : List Bytes}
    (h : findRoute domain routes = .ok ip) : ip = [] ∨ isTrue ip = true := by
  induction routes with
  | nil =>
    obtain rfl := Except.ok.inj h
    exact .inl rfl
  | cons line routes ih =>
    rw [findRoute] at h
    cases hline : parseRoute (chomp line) with
    | none =>
      rw [hline] at h
      cases h
    | some route =>
      rw [hline] at h
      dsimp only at h
      rw [if_pos (isTrue_of_parseRoute hline)] at h
      split_ifs at h
      · obtain rfl := Except.ok.inj h
        exact .inr (isTrue_of_parseRoute hline)
      · exact ih h

/-- Where some domain has no route, every line is well formed. -/
theorem findRoute_ne_error {domain : Bytes} {routes : List Bytes}
    (h : findRoute domain routes = .ok []) (domain' said : Bytes) :
    findRoute domain' routes ≠ .error said := by
  induction routes with
  | nil => nofun
  | cons line routes ih =>
    rw [findRoute] at h ⊢
    cases hline : parseRoute (chomp line) with
    | none =>
      rw [hline] at h
      cases h
    | some route =>
      have htrue := isTrue_of_parseRoute hline
      rw [hline] at h
      dsimp only at h ⊢
      rw [if_pos htrue] at h ⊢
      split_ifs at h
      · rw [Except.ok.inj h] at htrue
        cases htrue
      · split_ifs
        · nofun
        · exact ih h

section

variable {server : Server} {ip user raw pass : Bytes}

/-- Status 0 is the server's word. -/
theorem remoteAuth_ended {said : Bytes}
    (h : (remoteAuth server ip user raw pass).outcome = .ended 0 said) :
    server.offersLogin = false ∨ ∃ login ∈ (remoteAuth server ip user raw pass).logins,
      login.accepted = true ∧ login.ip = ip ∧ login.password = pass ∧
        (login.name = user ∨ raw ≠ [] ∧ login.name = raw) := by
  unfold remoteAuth at h ⊢
  split_ifs at h ⊢ with hlogin hfirst hraw hsecond
  · exact .inr ⟨_, List.mem_singleton_self _, rfl, rfl, rfl, .inl rfl⟩
  · cases h
  · exact .inr ⟨_, List.mem_cons_of_mem _ (List.mem_singleton_self _), rfl, rfl, rfl,
      .inr ⟨hraw, rfl⟩⟩
  · cases h
  · exact .inl (Bool.eq_false_iff.2 hlogin)

/-- A server that takes every LOGIN. -/
def Server.trusting : Server where
  authTypes := [bytes "LOGIN"]
  auth _ _ _ := true

theorem offersLogin_trusting : Server.trusting.offersLogin = true := by decide +kernel

theorem remoteAuth_trusting :
    remoteAuth Server.trusting ip user raw pass = ⟨.ended 0 [], [⟨ip, user, pass, true⟩]⟩ := by
  rw [remoteAuth, if_pos offersLogin_trusting]
  rfl

end

theorem localAuth_of_works {machine : Machine} (h : machine.Works) (authInfo : Bytes) :
    localAuth machine authInfo = .checker authInfo := by
  obtain ⟨hpipe, hfileno, hexec⟩ := h
  rw [localAuth, hpipe, if_neg (by decide), if_neg (not_not.2 hfileno), hexec]
  rfl

theorem localAuth_ne_ended (machine : Machine) (authInfo said : Bytes) :
    localAuth machine authInfo ≠ .ended 0 said := by
  unfold localAuth
  split_ifs <;> nofun

/-! ## The law -/

section

variable (control : Control) (user pass challenge : Bytes)

/-- What authentication by these credentials means: status 0 is the word of the server routed for
the user's domain, on this password and this user or its local part, or that server offers no LOGIN;
and where there is no route the local checker is handed these credentials. -/
structure Lawful (network : Bytes → Option Server) (machine : Machine) (run : Run) : Prop where
  accepted : ∀ said, run.outcome = .ended 0 said →
    ∃ ip server, routeOf control user = .ok ip ∧ ip ≠ [] ∧ network ip = some server ∧
      (server.offersLogin = false ∨ ∃ login ∈ run.logins, login.accepted = true ∧ login.ip = ip ∧
        login.password = pass ∧
          (login.name = user ∨ ∃ domain, splitUser user = some (login.name, domain)))
  handed : routeOf control user = .ok [] → machine.Works →
    run.outcome = .checker (credentials user pass challenge)

/-- The credentials are short enough for what the user's route asks of them; or they are not, and
the routes that are found refuse or keep away from the checker. -/
def Fits : Prop :=
  if user.length < 128 then
    (∃ said, routeOf control user = .error said) ∨
      user.length + pass.length ≤ 127 ∧ (routeOf control user = .ok [] →
        challenge = [] ∨ user.length + pass.length + challenge.length ≤ 126)
  else
    (∃ said, routeOf control [] = .error said) ∨
      routeOf control [] = .ok [] ∧ routeOf control user ≠ .ok []

end

section

variable {control : Control} {network : Bytes → Option Server} {machine : Machine}
variable {user pass challenge fd user' pass' challenge' : Bytes}

/-- What the proxy does with what it has read, by the route of the user it has read. -/
theorem run_cases (control : Control) (h : getInfo fd = (user', pass', challenge')) :
    (∃ said, routeOf control user' = .error said ∧ ∀ network machine,
      smtpAuthProxy control network machine (some fd) = ⟨.ended 255 said, []⟩) ∨
    (routeOf control user' = .ok [] ∧ ∀ network machine,
      smtpAuthProxy control network machine (some fd) =
        ⟨localAuth machine (credentials user' pass' challenge'), []⟩) ∨
    (∃ ip, routeOf control user' = .ok ip ∧ ip ≠ [] ∧ ∀ network machine,
      smtpAuthProxy control network machine (some fd) = (network ip).elim ⟨.died, []⟩
        fun server => remoteAuth server ip user' ((splitUser user').elim [] Prod.fst) pass') := by
  simp only [smtpAuthProxy, h, getRemoteSmtpIp]
  cases hroute : routeOf control user' with
  | error said => exact .inl ⟨said, rfl, fun _ _ => rfl⟩
  | ok ip =>
    right
    rcases isTrue_of_findRoute hroute with rfl | htrue
    · exact .inl ⟨rfl, fun _ _ => rfl⟩
    · have hne : ip ≠ [] := by
        rintro rfl
        cases htrue
      refine .inr ⟨ip, rfl, hne, fun network machine => ?_⟩
      simp only [Except.map, htrue, if_true]
      cases network ip <;> rfl

/-- A run that neither ends with status 0 nor owes the checker anything. -/
theorem lawful_of_ne {run : Run} (hended : ∀ said, run.outcome ≠ .ended 0 said)
    (hroute : routeOf control user ≠ .ok []) :
    Lawful control user pass challenge network machine run :=
  ⟨fun said h => absurd h (hended said), fun h => absurd h hroute⟩

theorem name_of_local_part {name : Bytes}
    (h : (splitUser user).elim [] Prod.fst ≠ [] ∧ name = (splitUser user).elim [] Prod.fst) :
    ∃ domain, splitUser user = some (name, domain) := by
  cases hsplit : splitUser user with
  | none =>
    rw [hsplit] at h
    exact absurd rfl h.1
  | some parts =>
    rw [hsplit] at h
    rw [h.2]
    exact ⟨parts.2, rfl⟩

/-- Where the password is read whole, the server's word is about it. -/
theorem lawful_remote {ip : Bytes} (hroute : routeOf control user = .ok ip) (hne : ip ≠ []) :
    Lawful control user pass challenge network machine ((network ip).elim ⟨.died, []⟩
      fun server => remoteAuth server ip user ((splitUser user).elim [] Prod.fst) pass) := by
  refine ⟨fun said hended => ?_, fun h => ?_⟩
  · cases hserver : network ip with
    | none =>
      rw [hserver] at hended
      cases hended
    | some server =>
      rw [hserver] at hended
      refine ⟨ip, server, hroute, hne, hserver, (remoteAuth_ended hended).imp_right ?_⟩
      rintro ⟨login, hlogin, haccepted, hip, hpassword, hname⟩
      exact ⟨login, hlogin, haccepted, hip, hpassword, hname.imp_right name_of_local_part⟩
  · rw [hroute] at h
    exact absurd (Except.ok.inj h) hne

theorem local_part_ne_nil {raw domain : Bytes} (h : splitUser user = some (raw, domain)) :
    raw ≠ [] := by
  obtain ⟨sep, -, hsep⟩ := List.exists_of_findSome?_eq_some h
  unfold splitAt at hsep
  split at hsep
  · split_ifs at hsep with hparts
    obtain ⟨rfl, -⟩ := Prod.mk.inj (Option.some.inj hsep)
    exact hparts.1
  · cases hsep

/-- With a server that takes every LOGIN the run ends with status 0. -/
theorem accepted_trusting {ip raw : Bytes}
    (h : Lawful control user pass challenge (fun _ => some Server.trusting) machine
      (remoteAuth Server.trusting ip user' raw pass')) :
    pass' = pass ∧ (user' = user ∨ ∃ domain, splitUser user = some (user', domain)) := by
  rw [remoteAuth_trusting] at h
  obtain ⟨_, server, -, -, hserver, hword⟩ := h.accepted [] rfl
  obtain rfl := Option.some.inj hserver
  rcases hword with hnone | ⟨login, hlogin, -, -, hpassword, hname⟩
  · rw [offersLogin_trusting] at hnone
    cases hnone
  · obtain rfl := List.mem_singleton.1 hlogin
    exact ⟨hpassword, hname⟩

theorem length_credentials (user pass challenge : Bytes) :
    (credentials user pass challenge).length =
      user.length + pass.length + challenge.length + 3 := by
  simp only [credentials, List.length_append, List.length_cons, List.length_nil]
  omega

/-- A machine where the checker runs. -/
def Machine.working : Machine where
  pipe := true
  fileno := 3
  exec := true
  error := []

theorem works_working : Machine.working.Works := ⟨rfl, rfl, rfl⟩

/-- What a working machine hands the checker has the length of the credentials. -/
theorem length_handed {network : Bytes → Option Server}
    (h : Lawful control user pass challenge network Machine.working
      ⟨localAuth Machine.working (credentials user' pass' challenge'), []⟩)
    (hroute : routeOf control user = .ok []) :
    user'.length + pass'.length + challenge'.length =
      user.length + pass.length + challenge.length := by
  have houtcome := h.handed hroute works_working
  rw [localAuth_of_works works_working] at houtcome
  have hlength := congrArg List.length (Outcome.checker.inj houtcome)
  rw [length_credentials, length_credentials] at hlength
  omega

end

section

variable {control : Control} {user pass challenge : Bytes}

/-- The law of the proxy with these credentials, whatever the servers and the machine do. -/
def Decides (control : Control) (user pass challenge : Bytes) : Prop :=
  ∀ network machine, Lawful control user pass challenge network machine
    (smtpAuthProxy control network machine (some (credentials user pass challenge)))

theorem decides_short_iff (hlength : user.length < 128)
    (hread : getInfo (credentials user pass challenge) =
      (user, pass.take (127 - user.length), challenge.take (126 - user.length - pass.length))) :
    Decides control user pass challenge ↔
      (∃ said, routeOf control user = .error said) ∨
        user.length + pass.length ≤ 127 ∧ (routeOf control user = .ok [] →
          challenge = [] ∨ user.length + pass.length + challenge.length ≤ 126) := by
  rcases run_cases control hread with
    ⟨said, hroute, hrun⟩ | ⟨hroute, hrun⟩ | ⟨ip, hroute, hne, hrun⟩
  · refine iff_of_true (fun network machine => ?_) (.inl ⟨said, hroute⟩)
    rw [hrun]
    exact lawful_of_ne nofun (by rw [hroute]; nofun)
  · simp only [Decides, hrun, hroute, reduceCtorEq, exists_false, false_or, true_imp_iff]
    constructor
    · intro h
      have hhanded := length_handed (h (fun _ => none) Machine.working) hroute
      rw [List.length_take, List.length_take] at hhanded
      refine ⟨by omega, ?_⟩
      rw [← List.length_eq_zero_iff]
      omega
    · rintro ⟨hpass, hchallenge⟩ network machine
      have htake : challenge.take (126 - user.length - pass.length) = challenge := by
        rcases hchallenge with rfl | hchallenge
        · exact List.take_nil
        · exact List.take_of_length_le (by omega)
      rw [htake, List.take_of_length_le (by omega)]
      exact ⟨fun said h => absurd h (localAuth_ne_ended machine _ said),
        fun _ hworks => localAuth_of_works hworks _⟩
  · have hnone : ¬ (Except.ok ip : Except Bytes Bytes) = .ok [] := fun h => hne (Except.ok.inj h)
    simp only [Decides, hrun, hroute, reduceCtorEq, exists_false, false_or, hnone, false_imp_iff,
      and_true]
    constructor
    · intro h
      have hpass := (accepted_trusting (h (fun _ => some Server.trusting) Machine.working)).1
      have htake := congrArg List.length hpass
      rw [List.length_take] at htake
      omega
    · intro hpass network machine
      rw [List.take_of_length_le (by omega)]
      exact lawful_remote hroute hne

theorem decides_long_iff (hlength : ¬ user.length < 128)
    (hread : getInfo (credentials user pass challenge) = ([], [], [])) :
    Decides control user pass challenge ↔ (∃ said, routeOf control [] = .error said) ∨
      routeOf control [] = .ok [] ∧ routeOf control user ≠ .ok [] := by
  have hempty : splitUser [] = none := by decide
  rcases run_cases control hread with
    ⟨said, hroute, hrun⟩ | ⟨hroute, hrun⟩ | ⟨ip, hroute, hne, hrun⟩
  · refine iff_of_true (fun network machine => ?_) (.inl ⟨said, hroute⟩)
    rw [hrun]
    refine lawful_of_ne nofun fun hown => ?_
    exact findRoute_ne_error hown _ _ hroute
  · simp only [Decides, hrun, hroute, reduceCtorEq, exists_false, false_or, true_and]
    constructor
    · intro h hown
      have hhanded := length_handed (h (fun _ => none) Machine.working) hown
      simp only [List.length_nil] at hhanded
      omega
    · intro hown network machine
      exact lawful_of_ne (localAuth_ne_ended machine _) hown
  · have hnone : ¬ (Except.ok ip : Except Bytes Bytes) = .ok [] := fun h => hne (Except.ok.inj h)
    simp only [Decides, hrun, hroute, reduceCtorEq, exists_false, false_or, hnone, false_and,
      iff_false]
    intro h
    rcases (accepted_trusting (h (fun _ => some Server.trusting) Machine.working)).2 with
      rfl | ⟨domain, hsplit⟩
    · exact hlength (by decide)
    · exact local_part_ne_nil hsplit rfl

/-- **When the proxy decides by the credentials that were sent**: for all credentials without NULs
and all routes, exactly if the user is shorter than 128 bytes and, as far as the route has it
looked at, the password and the challenge fit in what is left of 128; or if the lines of
`smtproutes` stop the proxy, or send a longer user's empty name to the checker where the user has a
route. -/
theorem decides_iff (huser : 0 ∉ user) (hpass : 0 ∉ pass) (hchallenge : 0 ∉ challenge) :
    Decides control user pass challenge ↔ Fits control user pass challenge := by
  have hread := getInfo_credentials huser hpass hchallenge
  by_cases hlength : user.length < 128
  · rw [if_pos hlength] at hread
    rw [Fits, if_pos hlength]
    exact decides_short_iff hlength hread
  · rw [if_neg hlength] at hread
    rw [Fits, if_neg hlength]
    exact decides_long_iff hlength hread

end

/-- One domain with a server. -/
def oneRoute : Control where
  me := bytes "b.cn\n"
  smtproutes := bytes "a.cn:10.0.0.1\n"

theorem lawful_ann : Decides oneRoute (bytes "ann@a.cn") (bytes "secret") [] :=
  (decides_iff (by decide +kernel) (by decide +kernel) (by decide +kernel)).2 (by
    rw [Fits, if_pos (by decide +kernel)]
    exact .inr ⟨by decide +kernel, fun _ => .inl rfl⟩)

/-- A server where the password of every name is 119 times `x`. -/
def oneHundredNineteen : Server where
  authTypes := [bytes "LOGIN PLAIN"]
  auth _ _ pass := pass = List.replicate 119 120

/-- A longer password is cut down to the one that the server takes. -/
theorem longer_password_accepted :
    ¬ ∀ control network machine user pass challenge,
      (0 : UInt8) ∉ user → (0 : UInt8) ∉ pass → (0 : UInt8) ∉ challenge →
        Lawful control user pass challenge network machine
          (smtpAuthProxy control network machine (some (credentials user pass challenge))) := by
  intro h
  have hlaw := h oneRoute (fun _ => some oneHundredNineteen) Machine.working (bytes "ann@a.cn")
    (List.replicate 120 120) [] (by decide +kernel) (by decide +kernel) (by decide +kernel)
  have hrun : smtpAuthProxy oneRoute (fun _ => some oneHundredNineteen) Machine.working
      (some (credentials (bytes "ann@a.cn") (List.replicate 120 120) [])) =
        ⟨.ended 0 [], [⟨bytes "10.0.0.1", bytes "ann@a.cn", List.replicate 119 120, true⟩]⟩ := by
    decide +kernel
  rw [hrun] at hlaw
  obtain ⟨_, server, -, -, hserver, hword⟩ := hlaw.accepted [] rfl
  obtain rfl := Option.some.inj hserver
  rcases hword with hnone | ⟨login, hlogin, -, -, hpassword, -⟩
  · exact absurd hnone (by decide +kernel)
  · obtain rfl := List.mem_singleton.1 hlogin
    exact absurd hpassword (by decide +kernel)

end NoSpam.AuthProxy
