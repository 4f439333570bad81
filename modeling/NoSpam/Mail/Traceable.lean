import NoSpam.Mail.IPUtil
import NoSpam.Mail.SpamChecker

/-!
# Tracing a sender

`is_traceable` on given answers of the name service.  Its loop runs over the addresses of the sender
domain, and what it returns depends on whether there is one, whether one is near the client and
whether a name of the client matches the domain (`isTraceable_answered`), so that the order of the
answers does not matter.
-/

namespace NoSpam.Spam

open Text Perl

/-! ## The purpose -/

/-- The answers to the three queries. -/
structure Answers where
  mx : List Bytes
  address : List Bytes
  ptr : List Bytes

/-- The same answers, in any order. -/
def Answers.Same (a a' : Answers) : Prop :=
  (∀ x, x ∈ a.mx ↔ x ∈ a'.mx) ∧ (∀ x, x ∈ a.address ↔ x ∈ a'.address) ∧
    ∀ x, x ∈ a.ptr ↔ x ∈ a'.ptr

namespace Checker

variable (k : Checker) (a : Answers) (smtp_ip from_domain : Bytes)

/-- The checker with the ranges of `AKA::IPUtil`, when the name service answers in time. -/
def answered : Checker :=
  { k with
    is_ip_in_range := fun ip range => IPUtil.isIpInRange {} ip (some range)
    dns := fun _ _ => ⟨true, some a.mx, some a.address, some a.ptr⟩ }

/-- A trace type is enabled. -/
def isOn (name : String) : Bool := k.TraceType.any fun t => lc (chomp t) = bytes name

/-- The addresses of the domain that the enabled trace types ask for. -/
def addresses : List Bytes :=
  (if k.isOn "mail" then a.mx else []) ++ if k.isOn "ip" then a.address else []

/-- The names of the client, if the trace type is enabled. -/
def names : List Bytes := if k.isOn "domain" then a.ptr else []

/-- An address in the network of the client with these bits. -/
def near (mask ip : Bytes) : Bool := IPUtil.isIpInRange {} ip (some (smtp_ip ++ 47 :: mask))

/-- The bits of the strict network. -/
def strictMask : Bytes := orElse k.TraceMaybeSpamMask (bytes "22")

/-- The bits of the wide network. -/
def wideMask : Bytes := orElse k.TraceSpamMask (bytes "24")

/-- A name is the domain or ends with a dot and the domain; the case of letters does not matter. -/
def BelongsTo (name domain : Bytes) : Prop := lc name = lc domain ∨ 46 :: lc domain <:+ lc name

instance (name domain : Bytes) : Decidable (BelongsTo name domain) :=
  inferInstanceAs (Decidable (_ ∨ _))

/-- A name of the client belongs to the domain. -/
def Belongs : Prop := ∃ name ∈ k.names a, BelongsTo name from_domain

/-- A name of the client matches the domain as a pattern. -/
def Matches : Prop := ∃ name ∈ k.names a, isMatch k.search name from_domain = some true

/-- The domain is a pattern that compiles, or it is not used as one. -/
def DomainCompiles : Prop := k.names a = [] ∨ k.search from_domain ≠ none

/-- An address of the domain is in the strict network of the client. -/
def Strict : Prop := ∃ ip ∈ k.addresses a, near smtp_ip k.strictMask ip = true

/-- An address of the domain is in the wide network of the client. -/
def Wide : Prop := ∃ ip ∈ k.addresses a, near smtp_ip k.wideMask ip = true

instance : Decidable (k.Matches a from_domain) := inferInstanceAs (Decidable (∃ _ ∈ _, _))

instance : Decidable (k.Strict a smtp_ip) := inferInstanceAs (Decidable (∃ _ ∈ _, _))

instance : Decidable (k.Wide a smtp_ip) := inferInstanceAs (Decidable (∃ _ ∈ _, _))

/-- The verdict that the answers call for. -/
def Verdict (v : Trace) : Prop :=
  (v = .strictly ↔ k.Belongs a from_domain ∨ k.Strict a smtp_ip) ∧
    (v = .traceable ↔ ¬(k.Belongs a from_domain ∨ k.Strict a smtp_ip) ∧ k.Wide a smtp_ip) ∧
    (v = .untraceable ↔ ¬(k.Belongs a from_domain ∨ k.Strict a smtp_ip) ∧ ¬k.Wide a smtp_ip)

/-- There is an address to look at whenever a name of the client belongs to the domain, the domain
compiles where there is one, and if none is in the strict network, a name that matches belongs to
the domain and the other way round.  Without a client or a domain there is nothing to trace. -/
def Traceable : Prop :=
  if isTrue smtp_ip = true ∧ isTrue from_domain = true then
    if k.addresses a = [] then ¬k.Belongs a from_domain
    else k.DomainCompiles a from_domain ∧
      (k.Strict a smtp_ip ∨ (k.Matches a from_domain ↔ k.Belongs a from_domain))
  else ¬(k.Belongs a from_domain ∨ k.Strict a smtp_ip) ∧ ¬k.Wide a smtp_ip

end Checker

/-! ## The loop -/

section Loop

variable {strict loose : Bytes → Bool}

theorem traceLoop_true (ptr : Option Bool) (ips : List Bytes) :
    traceLoop ptr strict loose true true ips = some .strictly := by
  cases ips with
  | nil => rfl
  | cons ip ips => rfl

/-- The loop as a test of all addresses. -/
theorem traceLoop_cons (ptr traceable : Bool) (ip : Bytes) (ips : List Bytes) :
    traceLoop (some ptr) strict loose traceable false (ip :: ips) =
      some (if ptr || (ip :: ips).any strict then .strictly
        else if traceable || (ip :: ips).any loose then .traceable else .untraceable) := by
  cases ptr with
  | true =>
    rw [traceLoop, traceLoop_true]
    simp
  | false =>
    induction ips generalizing traceable ip with
    | nil => cases hs : strict ip <;> simp [traceLoop, hs]
    | cons ip' ips ih =>
      rw [traceLoop, ih]
      cases hs : strict ip <;> simp [hs, or_assoc]

end Loop

/-! ## The verdict -/

namespace Checker

variable {k : Checker} {a a' : Answers} {smtp_ip from_domain : Bytes}

theorem gather_answered :
    Dns.gather k.TraceType ⟨true, some a.mx, some a.address, some a.ptr⟩ =
      (k.addresses a, k.names a, false) := by
  have hask : ∀ (name : String) (answer : List Bytes),
      (if k.TraceType.any fun t => lc (chomp t) = bytes name then some answer else some []) =
        some (if k.isOn name then answer else []) := fun name answer => by
    rw [isOn]
    split_ifs <;> rfl
  simp only [Dns.gather, hask]
  rfl

/-- The verdict is that of the loop over the addresses. -/
theorem isTraceable_answered :
    (k.answered a).isTraceable smtp_ip from_domain =
      if isTrue smtp_ip = true ∧ isTrue from_domain = true then
        traceLoop (k.isPtr from_domain (k.names a)) (near smtp_ip k.strictMask)
          (near smtp_ip k.wideMask) false false (k.addresses a)
      else some .untraceable := by
  have hgather := @gather_answered k a
  simp only [isTraceable, answered, hgather]
  by_cases hip : isTrue smtp_ip = true
  · by_cases hdomain : isTrue from_domain = true
    · rw [if_neg (by simp [hip, hdomain]), if_neg (by simp), if_pos ⟨hip, hdomain⟩]
      rfl
    · rw [if_pos (by simp [hdomain]), if_neg fun h => hdomain h.2]
  · rw [if_pos (by simp [hip]), if_neg fun h => hip h.1]

/-- The names are compared with a domain that compiles. -/
theorem isPtr_of_compiles (h : k.DomainCompiles a from_domain) :
    ∃ b, k.isPtr from_domain (k.names a) = some b ∧ (b = true ↔ k.Matches a from_domain) := by
  rw [isPtr, Matches]
  unfold isMatch
  cases hsearch : k.search from_domain with
  | none =>
    rw [h.resolve_right (not_not.2 hsearch)]
    exact ⟨false, rfl, by simp⟩
  | some p => exact ⟨(k.names a).any p, List.anyM_pure, by simp⟩

/-- The program dies in one that does not compile. -/
theorem isPtr_of_not_compiles (h : ¬k.DomainCompiles a from_domain) :
    k.isPtr from_domain (k.names a) = none := by
  obtain ⟨hne, hnone⟩ := not_or.1 h
  obtain ⟨name, names, hnames⟩ := List.exists_cons_of_ne_nil hne
  rw [isPtr, hnames, List.anyM_cons, isMatch, not_not.1 hnone]
  rfl

/-- With an address to look at, the verdict goes by the names that match and by the addresses. -/
theorem traceLoop_addresses (h : k.addresses a ≠ []) (hcompiles : k.DomainCompiles a from_domain) :
    traceLoop (k.isPtr from_domain (k.names a)) (near smtp_ip k.strictMask)
        (near smtp_ip k.wideMask) false false (k.addresses a) =
      some (if k.Matches a from_domain ∨ k.Strict a smtp_ip then .strictly
        else if k.Wide a smtp_ip then .traceable else .untraceable) := by
  have hstrict : (k.addresses a).any (near smtp_ip k.strictMask) = true ↔ k.Strict a smtp_ip :=
    List.any_eq_true
  have hwide : (k.addresses a).any (near smtp_ip k.wideMask) = true ↔ k.Wide a smtp_ip :=
    List.any_eq_true
  obtain ⟨ip, ips, hips⟩ := List.exists_cons_of_ne_nil h
  obtain ⟨b, hptr, hb⟩ := isPtr_of_compiles hcompiles
  rw [hptr, hips, traceLoop_cons, ← hips]
  simp only [Bool.or_eq_true, Bool.false_or, hb, hstrict, hwide]

/-- With an address to look at, a domain that does not compile is fatal. -/
theorem traceLoop_dies (h : k.addresses a ≠ []) (hdies : ¬k.DomainCompiles a from_domain) :
    traceLoop (k.isPtr from_domain (k.names a)) (near smtp_ip k.strictMask)
      (near smtp_ip k.wideMask) false false (k.addresses a) = none := by
  obtain ⟨ip, ips, hips⟩ := List.exists_cons_of_ne_nil h
  rw [isPtr_of_not_compiles hdies, hips]
  rfl

/-- A verdict by three conditions is right for two of them and a third if and only if that decides
no differently. -/
theorem verdict_iff {M B S W : Prop} [Decidable M] [Decidable S] [Decidable W] {v : Trace}
    (hv : v = if M ∨ S then .strictly else if W then .traceable else .untraceable) :
    (v = .strictly ↔ B ∨ S) ∧ (v = .traceable ↔ ¬(B ∨ S) ∧ W) ∧
      (v = .untraceable ↔ ¬(B ∨ S) ∧ ¬W) ↔ S ∨ (M ↔ B) := by
  by_cases hS : S
  · rw [hv, if_pos (.inr hS)]
    simp [hS]
  · by_cases hM : M
    · rw [hv, if_pos (.inl hM)]
      by_cases hB : B <;> simp [hS, hM, hB]
    · by_cases hB : B <;> by_cases hW : W <;> simp [hv, hS, hM, hB, hW]

/-- Nobody is traced. -/
theorem verdict_untraceable_iff {B S W : Prop} :
    ((Trace.untraceable = .strictly ↔ B ∨ S) ∧ (Trace.untraceable = .traceable ↔ ¬(B ∨ S) ∧ W) ∧
      (Trace.untraceable = .untraceable ↔ ¬(B ∨ S) ∧ ¬W)) ↔ ¬(B ∨ S) ∧ ¬W := by
  by_cases hB : B ∨ S <;> by_cases hW : W <;> simp [hB, hW]

theorem addresses_congr (h : a.Same a') (x : Bytes) :
    x ∈ k.addresses a ↔ x ∈ k.addresses a' := by
  rw [addresses, addresses, List.mem_append, List.mem_append]
  refine or_congr ?_ ?_
  · split_ifs
    · exact h.1 x
    · exact Iff.rfl
  · split_ifs
    · exact h.2.1 x
    · exact Iff.rfl

theorem names_congr (h : a.Same a') (x : Bytes) : x ∈ k.names a ↔ x ∈ k.names a' := by
  rw [names, names]
  split_ifs
  · exact h.2.2 x
  · exact Iff.rfl

theorem domainCompiles_congr (h : a.Same a') :
    k.DomainCompiles a from_domain ↔ k.DomainCompiles a' from_domain := by
  refine or_congr_left ?_
  rw [List.eq_nil_iff_forall_not_mem, List.eq_nil_iff_forall_not_mem]
  exact forall_congr' fun x => not_congr (names_congr h x)

/-- The order of the answers does not matter. -/
theorem isTraceable_congr (h : a.Same a') :
    (k.answered a).isTraceable smtp_ip from_domain =
      (k.answered a').isTraceable smtp_ip from_domain := by
  rw [isTraceable_answered, isTraceable_answered]
  have hnil : k.addresses a = [] ↔ k.addresses a' = [] := by
    rw [List.eq_nil_iff_forall_not_mem, List.eq_nil_iff_forall_not_mem]
    exact forall_congr' fun x => not_congr (addresses_congr h x)
  have hmatches : k.Matches a from_domain ↔ k.Matches a' from_domain :=
    exists_congr fun x => and_congr_left' (names_congr h x)
  have hstrict : k.Strict a smtp_ip ↔ k.Strict a' smtp_ip :=
    exists_congr fun x => and_congr_left' (addresses_congr h x)
  have hwide : k.Wide a smtp_ip ↔ k.Wide a' smtp_ip :=
    exists_congr fun x => and_congr_left' (addresses_congr h x)
  by_cases he : k.addresses a = []
  · rw [he, hnil.1 he, traceLoop, traceLoop]
  · have he' : k.addresses a' ≠ [] := fun he' => he (hnil.2 he')
    by_cases hcompiles : k.DomainCompiles a from_domain
    · rw [traceLoop_addresses he hcompiles,
        traceLoop_addresses he' ((domainCompiles_congr h).1 hcompiles)]
      simp only [hmatches, hstrict, hwide]
    · rw [traceLoop_dies he hcompiles, traceLoop_dies he' (mt (domainCompiles_congr h).2 hcompiles)]

/-- **The verdict**: `is_traceable` returns the same for the same answers in any order, and it
returns what the answers call for if and only if the sender is traceable. -/
theorem verdict_iff_traceable (k : Checker) (a : Answers) (smtp_ip from_domain : Bytes) :
    (∀ a', a.Same a' → (k.answered a').isTraceable smtp_ip from_domain =
      (k.answered a).isTraceable smtp_ip from_domain) ∧
    ((∃ v, (k.answered a).isTraceable smtp_ip from_domain = some v ∧
        k.Verdict a smtp_ip from_domain v) ↔
      k.Traceable a smtp_ip from_domain) := by
  refine ⟨fun a' h => (isTraceable_congr h).symm, ?_⟩
  rw [isTraceable_answered, Traceable]
  by_cases hboth : isTrue smtp_ip = true ∧ isTrue from_domain = true
  · rw [if_pos hboth, if_pos hboth]
    by_cases hnil : k.addresses a = []
    · have hstrict : ¬k.Strict a smtp_ip := by
        rintro ⟨ip, hip, -⟩
        rw [hnil] at hip
        exact List.not_mem_nil hip
      have hwide : ¬k.Wide a smtp_ip := by
        rintro ⟨ip, hip, -⟩
        rw [hnil] at hip
        exact List.not_mem_nil hip
      rw [if_pos hnil, hnil, traceLoop]
      simp only [Option.some_inj, exists_eq_left', Bool.false_eq_true, if_false]
      rw [Verdict]
      refine verdict_untraceable_iff.trans ?_
      rw [or_iff_left hstrict, and_iff_left hwide]
    · rw [if_neg hnil]
      by_cases hcompiles : k.DomainCompiles a from_domain
      · rw [traceLoop_addresses hnil hcompiles, and_iff_right hcompiles]
        simp only [Option.some_inj, exists_eq_left']
        rw [Verdict]
        exact verdict_iff rfl
      · rw [traceLoop_dies hnil hcompiles]
        exact ⟨fun ⟨v, hv, _⟩ => (nomatch hv), fun h => absurd h.1 hcompiles⟩
  · rw [if_neg hboth, if_neg hboth]
    simp only [Option.some_inj, exists_eq_left']
    rw [Verdict]
    exact verdict_untraceable_iff

/-- Only names are asked for, and one of the client is in the domain. -/
def onlyNames : Checker where
  tr := id
  is_ip_in_range _ _ := false
  search pattern := some fun text => (findPattern pattern text).isSome
  dns _ _ := ⟨true, none, none, none⟩
  TraceType := [bytes "Domain"]
  TraceSpamMask := []
  TraceMaybeSpamMask := []

/-- Without an address of the domain the name is not looked at. -/
theorem not_forall_verdict :
    ¬∀ (k : Checker) (a : Answers) (smtp_ip from_domain : Bytes),
      (∀ a', a.Same a' → (k.answered a').isTraceable smtp_ip from_domain =
        (k.answered a).isTraceable smtp_ip from_domain) ∧
      ∃ v, (k.answered a).isTraceable smtp_ip from_domain = some v ∧
        k.Verdict a smtp_ip from_domain v := by
  intro h
  obtain ⟨-, v, hv, hstrictly, -⟩ := h onlyNames ⟨[], [], [bytes "mail.example.com"]⟩
    (bytes "192.0.2.1") (bytes "example.com")
  have hverdict : (onlyNames.answered ⟨[], [], [bytes "mail.example.com"]⟩).isTraceable
      (bytes "192.0.2.1") (bytes "example.com") = some .untraceable := by decide +kernel
  have hbelongs : onlyNames.Belongs ⟨[], [], [bytes "mail.example.com"]⟩ (bytes "example.com") :=
    ⟨bytes "mail.example.com", by decide +kernel, by decide +kernel⟩
  rw [hverdict, Option.some_inj] at hv
  rw [← hv] at hstrictly
  cases hstrictly.2 (.inl hbelongs)

end Checker

end NoSpam.Spam
