import NoSpam.Mail.AuthProxy

/-!
# The two copies of the route lookup

`NoSPAM.pl` looks for a user's server in `smtproutes` as the authentication proxy does, to let the
user in to the quarantine.  It takes the user's domain in the same words, but where the proxy ends
at a line that is no route, `NoSPAM.pl` goes on to the next line.
-/

namespace NoSpam.Route

open Text Perl AuthProxy

/-! ## The copy of `NoSPAM.pl` -/

/-- The walk through the lines of `smtproutes`: the address, empty where there is none. -/
def lookupRoute (domain : Bytes) : List Bytes → Bytes
  | [] => []
  | line :: rest =>
      match parseRoute (chomp line) with
      | none => lookupRoute domain rest
      | some (name, ip) =>
          if isTrue domain ∧ name = domain then
            if isTrue ip then ip else lookupRoute domain rest
          else lookupRoute domain rest

/-- `get_remote_smtp_ip` of `NoSPAM.pl`: the route, the user's local part and domain. -/
def getRemoteSmtpIp (control : Control) (user : Bytes) : Bytes × Bytes × Bytes :=
  (lookupRoute (userDomain control user) (lines 10 control.smtproutes),
    (splitUser user).elim [] Prod.fst, userDomain control user)

/-! ## Lines that end the walk -/

variable {domain line : Bytes} {routes : List Bytes}

/-- The line routes the domain. -/
def Serves (domain line : Bytes) : Prop :=
  isTrue domain = true ∧ ∃ ip, parseRoute (chomp line) = some (domain, ip)

/-- Whatever is no route stands behind a line that routes the domain. -/
def Readable (domain : Bytes) (routes : List Bytes) : Prop :=
  ∀ pre line post, routes = pre ++ line :: post → parseRoute (chomp line) = none →
    ∃ route ∈ pre, Serves domain route

theorem readable_nil : Readable domain [] := by
  intro pre line post h
  cases pre <;> cases h

theorem readable_cons_iff :
    Readable domain (line :: routes) ↔
      parseRoute (chomp line) ≠ none ∧ (Serves domain line ∨ Readable domain routes) := by
  constructor
  · intro h
    refine ⟨fun hnone => ?_, ?_⟩
    · obtain ⟨route, hroute, -⟩ := h [] line routes rfl hnone
      cases hroute
    · by_cases hline : Serves domain line
      · exact .inl hline
      · refine .inr fun pre bad post heq hbad => ?_
        obtain ⟨route, hroute, hserves⟩ := h (line :: pre) bad post (by rw [heq]; rfl) hbad
        rcases List.mem_cons.1 hroute with rfl | hroute
        · exact absurd hserves hline
        · exact ⟨route, hroute, hserves⟩
  · rintro ⟨hline, hrest⟩ pre bad post heq hbad
    cases pre with
    | nil =>
      obtain ⟨rfl, -⟩ := List.cons.inj heq
      exact absurd hbad hline
    | cons first pre =>
      obtain ⟨rfl, htail⟩ := List.cons.inj heq
      rcases hrest with hserves | hrest
      · exact ⟨line, List.mem_cons_self, hserves⟩
      · obtain ⟨route, hroute, hserves⟩ := hrest pre bad post htail hbad
        exact ⟨route, List.mem_cons_of_mem _ hroute, hserves⟩

/-! ## The two walks -/

theorem findRoute_eq_lookupRoute_iff (routes : List Bytes) :
    findRoute domain routes = .ok (lookupRoute domain routes) ↔ Readable domain routes := by
  induction routes with
  | nil => exact iff_of_true rfl readable_nil
  | cons line routes ih =>
    rw [readable_cons_iff, findRoute, lookupRoute]
    cases hline : parseRoute (chomp line) with
    | none => exact iff_of_false (fun h => by cases h) fun h => h.1 rfl
    | some route =>
      obtain ⟨name, ip⟩ := route
      dsimp only
      rw [if_pos (isTrue_of_parseRoute hline), if_pos (isTrue_of_parseRoute hline)]
      by_cases hserves : isTrue domain = true ∧ name = domain
      · rw [if_pos hserves, if_pos hserves]
        refine iff_of_true rfl ⟨Option.some_ne_none _, .inl ⟨hserves.1, ip, ?_⟩⟩
        rw [hline, hserves.2]
      · rw [if_neg hserves, if_neg hserves, ih]
        refine ⟨fun h => ⟨Option.some_ne_none _, .inr h⟩, fun h => h.2.resolve_left ?_⟩
        rintro ⟨htrue, ip', hip'⟩
        rw [hline] at hip'
        exact hserves ⟨htrue, (Prod.mk.inj (Option.some.inj hip')).1⟩

/-- **When the two copies agree**: for all files and users, exactly if each line of `smtproutes`
that is no route stands behind one that routes the user's domain. -/
theorem copies_agree_iff (control : Control) (user : Bytes) :
    AuthProxy.getRemoteSmtpIp control user =
        .ok ((getRemoteSmtpIp control user).1, (getRemoteSmtpIp control user).2.1) ↔
      Readable (userDomain control user) (lines 10 control.smtproutes) := by
  rw [← findRoute_eq_lookupRoute_iff, AuthProxy.getRemoteSmtpIp, routeOf]
  dsimp only [getRemoteSmtpIp]
  cases findRoute (userDomain control user) (lines 10 control.smtproutes) with
  | error said => exact iff_of_false (fun h => by cases h) fun h => by cases h
  | ok ip =>
    constructor
    · intro h
      rw [(Prod.mk.inj (Except.ok.inj h)).1]
    · intro h
      rw [← Except.ok.inj h]
      rfl

/-- A comment over the routes of two domains. -/
def commentedRoutes : Control where
  me := []
  smtproutes := bytes "# servers of the branches\na.cn:10.0.0.1\nb.cn:10.0.0.2:26\n"

/-- The comment ends the proxy and not the other walk. -/
theorem copies_differ_at_comment :
    ¬ ∀ control user, AuthProxy.getRemoteSmtpIp control user =
      .ok ((getRemoteSmtpIp control user).1, (getRemoteSmtpIp control user).2.1) := by
  intro h
  have hproxy : AuthProxy.getRemoteSmtpIp commentedRoutes (bytes "ann@b.cn") =
      .error (bytes "501 auth exchange cancelled (#5.0.1)\r\n") := by decide +kernel
  have hagree := h commentedRoutes (bytes "ann@b.cn")
  rw [hproxy] at hagree
  cases hagree

end NoSpam.Route
