import Mathlib.Data.List.Count
import NoSpam.Domain.Control

/-!
# The translated addresses of the mail servers

`_network_reset_smtp_dnat` leads the mail that is sent to the server of a protected domain to the
gateway: a rule for each address and port for mail from outside, and a rule for each address for
mail from inside.  The second rule of a domain is not tried when its first one has failed, and the
address counts as done nevertheless: it has its inner rule only if the outer rule of its first
domain succeeds (`rules_complete_iff`).
-/

namespace NoSpam.Dnat

open Text Perl Domain

/-! ## The commands -/

/-- The calls of iptables on the table `nat`: those that make an empty chain `SMTP`, the rule for
mail from outside, and the rule for mail from inside. -/
inductive Command
  | flush
  | newChain
  | unhook
  | hook
  | outer (ip port target : Bytes)
  | inner (ip target : Bytes)
deriving DecidableEq

/-- A command of the loop over the domains. -/
def Command.isRule : Command → Bool
  | .outer _ _ _ | .inner _ _ => true
  | _ => false

/-- `$GWIP`. -/
def gwip (c : MailConf) : Bytes :=
  c.networkIP.getD (orElse c.mailGatewayInternalIP (bytes "10.4.3.7"))

/-- `$port`. -/
def portOf (e : Entry) : Bytes := orElse e.2.port (bytes "25")

/-- The rule for mail from outside. -/
def outerRule (gw : Bytes) (e : Entry) : Command := .outer e.2.ip (portOf e) (gw ++ bytes ":25")

/-- The rule for mail from inside. -/
def innerRule (gw : Bytes) (e : Entry) : Command := .inner e.2.ip (gw ++ bytes ":26")

/-! ## The loop -/

/-- The commands so far, `$ret`, `$err` and the keys of `$has_set`. -/
structure State where
  log : List Command
  ret : ℤ
  err : Bool
  hasSet : List Bytes

/-- The key of an address and its port. -/
def key (e : Entry) : Bytes := e.2.ip ++ 58 :: portOf e

section

variable (system : Command → ℤ)

/-- `system`. -/
def State.call (s : State) (c : Command) : State :=
  { s with log := s.log ++ [c], ret := system c }

/-- `$err = 1 if $ret`. -/
def State.note (s : State) : State := { s with err := s.err || s.ret ≠ 0 }

/-- One turn of the loop. -/
def turn (gw : Bytes) (s : State) (e : Entry) : State :=
  let s := if key e ∈ s.hasSet then s else (s.call system (outerRule gw e)).note
  let s :=
    if e.2.ip ∈ s.hasSet then s
    else (if s.ret = 0 then s.call system (innerRule gw e) else s).note
  { s with hasSet := e.2.ip :: key e :: s.hasSet }

/-- The chain is emptied, or made, and hooked. -/
def prepare : State :=
  let s : State := ⟨[], 0, false, []⟩
  let s := s.call system .flush
  let s := if s.ret ≠ 0 then s.call system .newChain else s
  (s.call system .unhook).call system .hook

/-- `_network_reset_smtp_dnat`: the commands, and whether a failure is reported. -/
def networkResetSmtpDnat (isValid : Bool) (c : MailConf) (domainIp : Option (List Entry)) :
    List Command × Bool :=
  match domainIp with
  | none => ([], false)
  | some servers =>
      if !isValid then ([], false)
      else
        let s := servers.foldl (turn system (gwip c)) (prepare system)
        (s.log, s.err)

/-- The rules as they should be: one outer rule for each address and port, one inner rule for each
address, no others, and a report if and only if one of them has failed. -/
structure Complete (gw : Bytes) (servers : List Entry) (run : List Command × Bool) : Prop where
  outer : ∀ ip port target, run.1.count (.outer ip port target) =
    if ∃ e ∈ servers, outerRule gw e = .outer ip port target then 1 else 0
  inner : ∀ ip target, run.1.count (.inner ip target) =
    if ∃ e ∈ servers, innerRule gw e = .inner ip target then 1 else 0
  reported : run.2 = true ↔ ∃ c ∈ run.1, c.isRule = true ∧ system c ≠ 0

/-- The outer rule of the first domain at this address succeeds. -/
def Opens (gw : Bytes) (servers : List Entry) (ip : Bytes) : Prop :=
  ∃ e, servers.find? (fun e => e.2.ip = ip) = some e ∧ system (outerRule gw e) = 0

instance (gw : Bytes) (servers : List Entry) (ip : Bytes) :
    Decidable (Opens system gw servers ip) :=
  match h : servers.find? (fun e => e.2.ip = ip) with
  | none => .isFalse fun ⟨_, he, _⟩ => by cases h.symm.trans he
  | some e => decidable_of_iff (system (outerRule gw e) = 0)
      ⟨fun hs => ⟨e, h, hs⟩, fun ⟨_, he, hs⟩ => Option.some.inj (h.symm.trans he) ▸ hs⟩

end

/-! ## One turn -/

section

variable {system : Command → ℤ} {gw : Bytes} {pre servers : List Entry} {e : Entry} {s : State}

/-- The commands of a turn. -/
def fresh (system : Command → ℤ) (gw : Bytes) (s : State) (e : Entry) : List Command :=
  if key e ∈ s.hasSet then []
  else outerRule gw e ::
    if e.2.ip ∈ s.hasSet ∨ system (outerRule gw e) ≠ 0 then [] else [innerRule gw e]

theorem count_outer_fresh (ip port target : Bytes) :
    (fresh system gw s e).count (.outer ip port target) =
      if key e ∉ s.hasSet ∧ outerRule gw e = .outer ip port target then 1 else 0 := by
  have hnil : (if e.2.ip ∈ s.hasSet ∨ system (outerRule gw e) ≠ 0 then []
      else [innerRule gw e]).count (.outer ip port target) = 0 := by
    split_ifs <;> simp [innerRule]
  unfold fresh
  generalize (if e.2.ip ∈ s.hasSet ∨ system (outerRule gw e) ≠ 0 then []
    else [innerRule gw e]) = tail at hnil ⊢
  by_cases hkey : key e ∈ s.hasSet
  · simp [hkey]
  · by_cases hrule : outerRule gw e = .outer ip port target
    · rw [if_neg hkey, if_pos ⟨hkey, hrule⟩, hrule, List.count_cons_self, hnil]
    · rw [if_neg hkey, if_neg fun h => hrule h.2, List.count_cons_of_ne hrule, hnil]

theorem count_inner_fresh (ip target : Bytes) :
    (fresh system gw s e).count (.inner ip target) =
      if (key e ∉ s.hasSet ∧ e.2.ip ∉ s.hasSet ∧ system (outerRule gw e) = 0) ∧
        innerRule gw e = .inner ip target then 1 else 0 := by
  have hne : outerRule gw e ≠ .inner ip target := by simp [outerRule]
  unfold fresh
  by_cases hkey : key e ∈ s.hasSet
  · simp [hkey]
  · rw [if_neg hkey, List.count_cons_of_ne hne]
    by_cases hopen : e.2.ip ∈ s.hasSet ∨ system (outerRule gw e) ≠ 0
    · rw [if_pos hopen, if_neg, List.count_nil]
      rintro ⟨⟨-, hip, hret⟩, -⟩
      exact hopen.elim hip fun h => h hret
    · rw [if_neg hopen, List.count_singleton]
      rw [not_or, not_not] at hopen
      simp [hkey, hopen]

/-- A turn runs its commands and notes if one of them fails. -/
theorem turn_eq (h : key e ∈ s.hasSet → e.2.ip ∈ s.hasSet) :
    (turn system gw s e).log = s.log ++ fresh system gw s e ∧
      (turn system gw s e).err = (s.err || (fresh system gw s e).any (system · ≠ 0)) := by
  unfold turn fresh
  by_cases hkey : key e ∈ s.hasSet
  · simp [hkey, h hkey]
  · by_cases hip : e.2.ip ∈ s.hasSet
    · by_cases hret : system (outerRule gw e) = 0 <;>
        simp [hkey, hip, hret, State.call, State.note]
    · by_cases hret : system (outerRule gw e) = 0
      · simp [hkey, hip, hret, State.call, State.note]
      · simp [hkey, hip, hret, State.call, State.note]

theorem hasSet_turn (s : State) (e : Entry) :
    (turn system gw s e).hasSet = e.2.ip :: key e :: s.hasSet := by
  unfold turn
  dsimp only
  split_ifs <;> rfl

theorem outerRule_eq_iff {e' : Entry} :
    outerRule gw e = outerRule gw e' ↔ e.2.ip = e'.2.ip ∧ portOf e = portOf e' := by
  simp [outerRule]

theorem key_inj_iff {e' : Entry} (he : 58 ∉ e.2.ip) (he' : 58 ∉ e'.2.ip) :
    key e = key e' ↔ outerRule gw e = outerRule gw e' := by
  rw [outerRule_eq_iff]
  constructor
  · intro h
    have hcut := congrArg (cutAt 58) h
    rw [key, key, cutAt_append he, cutAt_append he'] at hcut
    exact ⟨(Prod.mk.inj hcut).1, Option.some.inj (Prod.mk.inj hcut).2⟩
  · rintro ⟨hip, hport⟩
    rw [key, key, hip, hport]

theorem key_ne_ip {e' : Entry} (he' : 58 ∉ e'.2.ip) : key e ≠ e'.2.ip :=
  fun h => he' (h ▸ List.mem_append_right _ List.mem_cons_self)

/-- What holds after the domains of `pre`. -/
structure Inv (system : Command → ℤ) (gw : Bytes) (pre : List Entry) (s : State) : Prop where
  hasSet : ∀ k, k ∈ s.hasSet ↔ ∃ e ∈ pre, k = e.2.ip ∨ k = key e
  outer : ∀ ip port target, s.log.count (.outer ip port target) =
    if ∃ e ∈ pre, outerRule gw e = .outer ip port target then 1 else 0
  inner : ∀ ip target, s.log.count (.inner ip target) =
    if Opens system gw pre ip ∧ target = gw ++ bytes ":26" then 1 else 0
  reported : s.err = true ↔ ∃ c ∈ s.log, c.isRule = true ∧ system c ≠ 0

theorem opens_concat {ip : Bytes} : Opens system gw (pre ++ [e]) ip ↔
    Opens system gw pre ip ∨
      (∀ e' ∈ pre, e'.2.ip ≠ ip) ∧ e.2.ip = ip ∧ system (outerRule gw e) = 0 := by
  simp only [Opens, List.find?_append]
  cases hfind : pre.find? (fun e => e.2.ip = ip) with
  | some e' =>
    have hip : e'.2.ip = ip := by simpa using List.find?_some hfind
    have hmem := List.mem_of_find?_eq_some hfind
    rw [Option.some_or, iff_self_or]
    exact fun h => absurd hip (h.1 e' hmem)
  | none =>
    have hne : ∀ e' ∈ pre, e'.2.ip ≠ ip := by simpa using hfind
    by_cases hip : e.2.ip = ip
    · simpa [hip] using fun _ : system (outerRule gw e) = 0 => hne
    · simp [hip]

theorem inv_prepare : Inv system gw [] (prepare system) := by
  have hlog : ∀ c ∈ (prepare system).log, c.isRule = false := by
    unfold prepare
    dsimp only
    split_ifs <;> simp [State.call, Command.isRule]
  have hcount : ∀ c : Command, c.isRule = true → (prepare system).log.count c = 0 := by
    intro c hc
    refine List.count_eq_zero_of_not_mem fun hmem => ?_
    rw [hlog c hmem] at hc
    cases hc
  have hstate : (prepare system).hasSet = [] ∧ (prepare system).err = false := by
    unfold prepare
    dsimp only
    split_ifs <;> exact ⟨rfl, rfl⟩
  refine ⟨fun k => ?_, fun ip port target => ?_, fun ip target => ?_, ?_⟩
  · simp [hstate.1]
  · simp [hcount (.outer ip port target) rfl]
  · simp [hcount (.inner ip target) rfl, Opens]
  · rw [hstate.2]
    refine iff_of_false Bool.false_ne_true ?_
    rintro ⟨c, hc, hrule, -⟩
    rw [hlog c hc] at hrule
    cases hrule

/-- The key of an address and port is set if they have come before. -/
theorem Inv.key_mem_iff (h : Inv system gw pre s) (hpre : ∀ e' ∈ e :: pre, 58 ∉ e'.2.ip) :
    key e ∈ s.hasSet ↔ ∃ e' ∈ pre, outerRule gw e' = outerRule gw e := by
  obtain ⟨he, hpre⟩ := List.forall_mem_cons.1 hpre
  rw [h.hasSet]
  constructor
  · rintro ⟨e', he', hip | hkey⟩
    · exact absurd hip (key_ne_ip (hpre e' he'))
    · exact ⟨e', he', ((key_inj_iff he (hpre e' he')).1 hkey).symm⟩
  · rintro ⟨e', he', hrule⟩
    exact ⟨e', he', .inr ((key_inj_iff he (hpre e' he')).2 hrule.symm)⟩

/-- The address is set if it has come before. -/
theorem Inv.ip_mem_iff (h : Inv system gw pre s) (hpre : ∀ e' ∈ e :: pre, 58 ∉ e'.2.ip) :
    e.2.ip ∈ s.hasSet ↔ ∃ e' ∈ pre, e'.2.ip = e.2.ip := by
  obtain ⟨he, hpre⟩ := List.forall_mem_cons.1 hpre
  rw [h.hasSet]
  constructor
  · rintro ⟨e', he', hip | hkey⟩
    · exact ⟨e', he', hip.symm⟩
    · exact absurd hkey.symm (key_ne_ip he)
  · rintro ⟨e', he', hip⟩
    exact ⟨e', he', .inl hip.symm⟩

/-- A server that has been seen has an address that has been seen. -/
theorem Inv.ip_mem_of_key_mem (h : Inv system gw pre s) (hpre : ∀ e' ∈ e :: pre, 58 ∉ e'.2.ip)
    (hseen : key e ∈ s.hasSet) : e.2.ip ∈ s.hasSet := by
  rw [h.key_mem_iff (e := e) hpre] at hseen
  rw [h.ip_mem_iff (e := e) hpre]
  obtain ⟨e', he', hrule⟩ := hseen
  exact ⟨e', he', (outerRule_eq_iff.1 hrule).1⟩

/-- An address with an inner rule is not new. -/
theorem not_new_of_opens {ip : Bytes} (h : Opens system gw pre ip) :
    ¬ ∀ e' ∈ pre, e'.2.ip ≠ ip := by
  obtain ⟨e', hfind, -⟩ := h
  intro hfirst
  exact hfirst e' (List.mem_of_find?_eq_some hfind) (by simpa using List.find?_some hfind)

theorem isRule_of_mem_fresh {c : Command} (h : c ∈ fresh system gw s e) : c.isRule = true := by
  have hrules : ∀ c ∈ fresh system gw s e, c.isRule = true := by
    unfold fresh
    split_ifs <;> simp [outerRule, innerRule, Command.isRule]
  exact hrules c h

theorem Inv.turn (h : Inv system gw pre s) (hpre : ∀ e' ∈ e :: pre, 58 ∉ e'.2.ip) :
    Inv system gw (pre ++ [e]) (turn system gw s e) := by
  have hkey := h.key_mem_iff (e := e) hpre
  have hip := h.ip_mem_iff (e := e) hpre
  have himp := h.ip_mem_of_key_mem hpre
  obtain ⟨hlog, herr⟩ := @turn_eq system gw _ _ himp
  refine ⟨fun k => ?_, fun ip port target => ?_, fun ip target => ?_, ?_⟩
  · rw [hasSet_turn, List.mem_cons, List.mem_cons, h.hasSet]
    simp only [List.mem_append, List.mem_singleton, or_and_right, exists_or, exists_eq_left]
    rw [← or_assoc, or_comm]
  · rw [hlog, List.count_append, h.outer, count_outer_fresh]
    simp only [hkey, List.mem_append, List.mem_singleton, or_and_right, exists_or, exists_eq_left]
    by_cases hrule : outerRule gw e = .outer ip port target
    · by_cases hseen : ∃ e' ∈ pre, outerRule gw e' = .outer ip port target <;> simp [hrule, hseen]
    · simp only [hrule, or_false, and_false, if_false, add_zero]
  · have hrule : innerRule gw e = .inner ip target ↔
        e.2.ip = ip ∧ target = gw ++ bytes ":26" := by
      rw [innerRule, Command.inner.injEq, eq_comm (a := target)]
    have hnew : (key e ∉ s.hasSet ∧ e.2.ip ∉ s.hasSet ∧ system (outerRule gw e) = 0) ∧
        innerRule gw e = .inner ip target ↔ ((∀ e' ∈ pre, e'.2.ip ≠ ip) ∧ e.2.ip = ip ∧
          system (outerRule gw e) = 0) ∧ target = gw ++ bytes ":26" := by
      rw [hrule, hip]
      constructor
      · rintro ⟨⟨-, hfirst, hret⟩, rfl, htarget⟩
        exact ⟨⟨fun e' he' heq => hfirst ⟨e', he', heq⟩, rfl, hret⟩, htarget⟩
      · rintro ⟨⟨hfirst, rfl, hret⟩, htarget⟩
        have hnot : ¬ ∃ e' ∈ pre, e'.2.ip = e.2.ip := fun ⟨e', he', heq⟩ => hfirst e' he' heq
        exact ⟨⟨fun hseen => hnot (hip.1 (himp hseen)), hnot, hret⟩, rfl, htarget⟩
    rw [hlog, List.count_append, h.inner, count_inner_fresh]
    simp only [hnew, opens_concat]
    by_cases htarget : target = gw ++ bytes ":26"
    · by_cases hopens : Opens system gw pre ip
      · simp [hopens, htarget, not_new_of_opens hopens]
      · simp [hopens, htarget]
    · simp [htarget]
  · rw [herr, hlog, Bool.or_eq_true, h.reported, List.any_eq_true]
    simp only [List.mem_append, or_and_right, exists_or]
    refine or_congr Iff.rfl ?_
    constructor
    · rintro ⟨c, hc, hfail⟩
      exact ⟨c, hc, isRule_of_mem_fresh hc, by simpa using hfail⟩
    · rintro ⟨c, hc, -, hfail⟩
      exact ⟨c, hc, by simpa using hfail⟩

theorem inv_foldl (h : ∀ e ∈ servers, 58 ∉ e.2.ip) :
    Inv system gw servers (servers.foldl (turn system gw) (prepare system)) := by
  induction servers using List.reverseRecOn with
  | nil => exact inv_prepare
  | append_singleton pre e ih =>
    rw [List.forall_mem_append, List.forall_mem_singleton] at h
    rw [List.foldl_concat]
    exact (ih h.1).turn (List.forall_mem_cons.2 ⟨h.2, h.1⟩)

/-- **When the rules are complete**: for all protected domains, in every order of the hash and for
every pattern of failures, exactly if for each address the outer rule of the first domain at it
succeeds. -/
theorem rules_complete_iff (system : Command → ℤ) (c : MailConf)
    (horder : servers.Perm c.protectDomain.entries) :
    Complete system (gwip c) servers (networkResetSmtpDnat system true c (some servers)) ↔
      ∀ e ∈ servers, Opens system (gwip c) servers e.2.ip := by
  have hcolon : ∀ e ∈ servers, 58 ∉ e.2.ip := by
    intro e he hmem
    have haddress := (c.legal_protect e (horder.mem_iff.1 he)).2.1.2 58 hmem
    exact absurd haddress (by decide)
  have hinv := @inv_foldl system (gwip c) _ hcolon
  constructor
  · intro h e he
    have hcount := h.inner e.2.ip (gwip c ++ bytes ":26")
    rw [if_pos ⟨e, he, rfl⟩] at hcount
    by_contra hnot
    have hnone := hinv.inner e.2.ip (gwip c ++ bytes ":26")
    rw [if_neg fun h => hnot h.1] at hnone
    exact absurd (hcount.symm.trans hnone) one_ne_zero
  · intro h
    refine ⟨hinv.outer, fun ip target => (hinv.inner ip target).trans (if_congr ?_ rfl rfl),
      hinv.reported⟩
    constructor
    · rintro ⟨⟨e, hfind, -⟩, rfl⟩
      have hip : e.2.ip = ip := by simpa using List.find?_some hfind
      exact ⟨e, List.mem_of_find?_eq_some hfind, by rw [innerRule, hip]⟩
    · rintro ⟨e, he, hrule⟩
      obtain ⟨rfl, rfl⟩ := Command.inner.inj hrule
      exact ⟨h e he, rfl⟩

end

/-- One protected domain. -/
def oneDomain : MailConf where
  protectDomain := AList.singleton (bytes "a.cn") ⟨bytes "10.0.0.1", []⟩
  networkIP := some (bytes "10.0.0.254")
  legal_protect := by decide +kernel
  legal_gateway := by decide +kernel
  legal_virtual := by decide

/-- Three protected domains, two of them on one server. -/
def threeDomains : MailConf where
  protectDomain := ((AList.singleton (bytes "a.cn") ⟨bytes "10.0.0.1", []⟩).insert (bytes "b.cn")
    ⟨bytes "10.0.0.2", []⟩).insert (bytes "c.cn") ⟨bytes "10.0.0.1", bytes "2525"⟩
  networkIP := some (bytes "10.0.0.254")
  legal_protect := by decide +kernel
  legal_gateway := by decide +kernel
  legal_virtual := by decide

/-- An inner rule that fails. -/
def secondRefused (c : Command) : ℤ :=
  if c = .inner (bytes "10.0.0.2") (bytes "10.0.0.254:26") then 256 else 0

theorem complete_threeDomains :
    Complete secondRefused (gwip threeDomains) threeDomains.protectDomain.entries
      (networkResetSmtpDnat secondRefused true threeDomains
        (some threeDomains.protectDomain.entries)) :=
  (rules_complete_iff secondRefused threeDomains (List.Perm.refl _)).2 (by decide +kernel)

/-- Where the outer rule fails, the inner one is not tried. -/
theorem inner_rule_skipped :
    ¬ ∀ (system : Command → ℤ) (c : MailConf) (servers : List Entry),
      servers.Perm c.protectDomain.entries →
        Complete system (gwip c) servers (networkResetSmtpDnat system true c (some servers)) := by
  intro h
  have hinner := (h (fun c => if c = .outer (bytes "10.0.0.1") (bytes "25") (bytes "10.0.0.254:25")
    then 256 else 0) oneDomain oneDomain.protectDomain.entries (List.Perm.refl _)).inner
      (bytes "10.0.0.1") (bytes "10.0.0.254:26")
  exact absurd hinner (by decide +kernel)

end NoSpam.Dnat
