import NoSpam.Mail.Engines
import NoSpam.Mail.Spam

/-!
# The lists and the engines after them

`spam_checker` asks the system's lists for a mail and then traces its sender; `spam_engine` takes
its answer, and asks SpamAssassin where it says that the mail is none.  `lawful_iff` says when the
lists have the last word.
-/

namespace NoSpam.Spam

open Text Perl Conf

/-! ## The program -/

/-- What `is_traceable` returns. -/
inductive Trace
  | untraceable
  | traceable
  | strictly
  deriving DecidableEq

/-- `2-$traceable`. -/
def Trace.isSpam : Trace → Bytes
  | .untraceable => resultSpamMust
  | .traceable => resultSpamMaybe
  | .strictly => resultSpamNot

/-- What the name service says about a client and a domain; the alarm may go off in a query. -/
structure Dns where
  resolver : Bool
  mx : Option (List Bytes)
  address : Option (List Bytes)
  ptr : Option (List Bytes)

/-- What the queries leave: addresses of the domain, names of the client, and the alarm. -/
def Dns.gather (TraceType : List Bytes) (dns : Dns) : List Bytes × List Bytes × Bool :=
  let ask (name : String) (answer : Option (List Bytes)) : Option (List Bytes) :=
    if TraceType.any fun t => lc (chomp t) = bytes name then answer else some []
  match ask "mail" dns.mx with
  | none => ([], [], true)
  | some mx =>
    match ask "ip" dns.address with
    | none => (mx, [], true)
    | some address =>
      match ask "domain" dns.ptr with
      | none => (mx ++ address, [], true)
      | some ptr => (mx ++ address, ptr, false)

/-- The loop over the addresses of the domain: `ptr` says whether a name of the client matches the
domain, or dies, `strict` and `loose` whether an address is near the client. -/
def traceLoop (ptr : Option Bool) (strict loose : Bytes → Bool) :
    Bool → Bool → List Bytes → Option Trace
  | traceable, strict_traceable, [] =>
      some (if strict_traceable then .strictly else if traceable then .traceable else .untraceable)
  | traceable, strict_traceable, ip :: rest =>
      if strict_traceable && traceable then some .strictly
      else if strict_traceable then traceLoop ptr strict loose true true rest
      else
        match ptr with
        | none => none
        | some true => traceLoop ptr strict loose true true rest
        | some false =>
          if strict ip then some .strictly
          else traceLoop ptr strict loose (traceable || loose ip) false rest

/-- What `spam_checker` works with. -/
structure Checker where
  tr : Bytes → Bytes
  is_ip_in_range : Bytes → Bytes → Bool
  /-- The search for a pattern, which need not compile. -/
  search : Bytes → Option (Bytes → Bool)
  dns : Bytes → Bytes → Dns
  TraceType : List Bytes
  TraceSpamMask : Bytes
  TraceMaybeSpamMask : Bytes

namespace Checker

variable (k : Checker)

/-- The test for the names of the client: `/$from_domain/`. -/
def isPtr (from_domain : Bytes) (ptr_domain : List Bytes) : Option Bool :=
  ptr_domain.anyM fun ptr => isMatch k.search ptr from_domain

/-- `is_traceable`. -/
def isTraceable (smtp_ip from_domain : Bytes) : Option Trace :=
  let dns := k.dns smtp_ip from_domain
  if !isTrue smtp_ip || !isTrue from_domain || !dns.resolver then some .untraceable
  else
    let (mx_n_a, ptr_domain, alarm) := dns.gather k.TraceType
    if alarm && !isTrue (mx_n_a.headD []) then some .strictly
    else
      let near (mask ip : Bytes) : Bool := k.is_ip_in_range ip (smtp_ip ++ 47 :: mask)
      traceLoop (k.isPtr from_domain ptr_domain) (near (orElse k.TraceMaybeSpamMask (bytes "22")))
        (near (orElse k.TraceSpamMask (bytes "24"))) false false mx_n_a

/-- What `/\@(\S+)/` captures. -/
def emailDomain : Bytes → Option Bytes
  | [] => none
  | c :: text =>
      let domain := text.takeWhile (!isWhite ·)
      if c = 64 && domain ≠ [] then some domain else emailDomain text

/-- `spam_checker`: whether a mail is spam, and the reason. -/
def spamChecker (config : Lists) (TraceEngine smtp_ip from_addr : Bytes) :
    Option (Bytes × Bytes) :=
  match emailDomain from_addr with
  | none => some (resultSpamNot, k.tr (bytes "bounced mail"))
  | some email_domain => do
    if ← isWhiteIP k.is_ip_in_range config smtp_ip then
      return (resultSpamNot, k.tr (bytes "IP WhiteList"))
    if ← isWhiteDomain k.search config email_domain then
      return (resultSpamNot, k.tr (bytes "Domain WhiteList"))
    if ← isWhiteAddr k.search config from_addr then
      return (resultSpamNot, k.tr (bytes "Sender WhiteList"))
    if ← isBlackIP k.is_ip_in_range config smtp_ip then
      return (resultSpamBlack, k.tr (bytes "IP BlackList"))
    if ← isBlackDomain k.search config email_domain then
      return (resultSpamBlack, k.tr (bytes "Domain BlackList"))
    if ← isBlackAddr k.search config from_addr then
      return (resultSpamBlack, k.tr (bytes "Sender BlackList"))
    if isY TraceEngine then
      let trace ← k.isTraceable smtp_ip email_domain
      return (trace.isSpam, k.tr (bytes "Traceable check"))
    return (resultSpamNot, k.tr (bytes "OFF"))

end Checker

/-- The sender is on a list of one of the recipients. -/
def isListed (o : Outside) (a : Aka) (t : ListType) : Bool :=
  a.returnpath ≠ [] && o.isUserListed t a.returnpath (fields 44 a.recips)

/-- `spam_engine` asks `spam_checker`. -/
def asksChecker (cfg : Config) (o : Outside) (a : Aka) : Bool :=
  isY cfg.spamEngine.noSPAMEngine && !isTrue a.relayclient && !isTrue a.tcpremoteinfo &&
    !isListed o a .black && !isListed o a .white && isY cfg.spamEngine.traceEngine &&
    containsFold (bytes "In") cfg.spamEngine.traceProtectDirection

/-- The pipeline with an answer of `spam_checker`. -/
def answering (o : Outside) (answer : Bytes × Bytes) : Outside :=
  { o with spamChecker := fun _ _ => answer }

/-- The result of `spam_engine` on a mail, which dies with `spam_checker`. -/
def result (k : Checker) (config : Lists) (cfg : Config) (o : Outside) (a : Aka) : Option Bytes :=
  if asksChecker cfg o a then
    (k.spamChecker config cfg.spamEngine.traceEngine a.tcpremoteip a.returnpath).map fun answer =>
      ((spamEngine cfg (answering o answer) a).engine .spam).result
  else some ((spamEngine cfg o a).engine .spam).result

/-! ## What is expected -/

/-- The lists and the tracing are on, and the mail comes in from outside, with a sender who has a
domain and is on no recipient's own list. -/
structure Inbound (config : Lists) (cfg : Config) (o : Outside) (a : Aka) (domain : Bytes) :
    Prop where
  engine_on : isY cfg.spamEngine.noSPAMEngine = true
  trace_on : isY cfg.spamEngine.traceEngine = true
  trace_in : containsFold (bytes "In") cfg.spamEngine.traceProtectDirection = true
  ip_on : uc config.BlockIP = bytes "Y"
  domain_on : uc config.BlockDomain = bytes "Y"
  from_on : uc config.BlockFrom = bytes "Y"
  not_relayed : isTrue a.relayclient = false
  not_authenticated : isTrue a.tcpremoteinfo = false
  emailDomain_eq : Checker.emailDomain a.returnpath = some domain
  not_personal : ∀ t, o.isUserListed t a.returnpath (fields 44 a.recips) = false

/-- More entries on the white lists. -/
structure Whiter (config config' : Lists) : Prop where
  switches : config'.BlockIP = config.BlockIP ∧ config'.BlockDomain = config.BlockDomain ∧
    config'.BlockFrom = config.BlockFrom
  black : config'.BlackIPList = config.BlackIPList ∧
    config'.BlackDomainList = config.BlackDomainList ∧ config'.BlackFromList = config.BlackFromList
  white : config.WhiteIPList ⊆ config'.WhiteIPList ∧
    config.WhiteDomainList ⊆ config'.WhiteDomainList ∧ config.WhiteFromList ⊆ config'.WhiteFromList

/-- Spam beyond doubt: by its score or its trace, or by a black list. -/
def Certain (result : Bytes) : Prop := result = resultSpamMust ∨ result = resultSpamBlack

namespace Checker

variable (k : Checker) (config : Lists) (smtp_ip email_domain from_addr : Bytes)

/-- What the entries of the white lists say to a mail, in their order. -/
def whites : List (Option Bool) :=
  config.WhiteIPList.map (fun e => some (k.is_ip_in_range smtp_ip e)) ++
    config.WhiteDomainList.map (fun e => isMatch k.search email_domain (e ++ [36])) ++
    config.WhiteFromList.map fun e => isMatch k.search from_addr (94 :: (e ++ [36]))

/-- What the entries of the black lists say to a mail, in their order. -/
def blacks : List (Option Bool) :=
  config.BlackIPList.map (fun e => some (k.is_ip_in_range smtp_ip e)) ++
    config.BlackDomainList.map (fun e => isMatch k.search email_domain (e ++ [36])) ++
    config.BlackFromList.map fun e => isMatch k.search from_addr (94 :: (e ++ [36]))

/-- The client address, the domain or the sender is on a white list. -/
def IsWhite : Prop := some true ∈ k.whites config smtp_ip email_domain from_addr

/-- The client address, the domain or the sender is on a black list. -/
def IsBlack : Prop := some true ∈ k.blacks config smtp_ip email_domain from_addr

/-- No pattern before the first entry that is found fails to compile. -/
def Compiles : Prop :=
  ∀ t ∈ (k.whites config smtp_ip email_domain from_addr ++
    k.blacks config smtp_ip email_domain from_addr).find? (· ≠ some false), t = some true

instance : Decidable (k.IsWhite config smtp_ip email_domain from_addr) :=
  inferInstanceAs (Decidable (_ ∈ _))

instance : Decidable (k.IsBlack config smtp_ip email_domain from_addr) :=
  inferInstanceAs (Decidable (_ ∈ _))

end Checker

/-- The lists have the last word. -/
structure Lawful (k : Checker) (config : Lists) (cfg : Config) (o : Outside) (a : Aka)
    (domain : Bytes) : Prop where
  exempt : k.IsWhite config a.tcpremoteip domain a.returnpath →
    result k config cfg o a = some resultSpamNot
  condemn : ¬k.IsWhite config a.tcpremoteip domain a.returnpath →
    k.IsBlack config a.tcpremoteip domain a.returnpath →
    ∃ r, result k config cfg o a = some r ∧ Certain r
  monotone : ∀ config', Whiter config config' → result k config cfg o a = some resultSpamNot →
    ∀ r, result k config' cfg o a = some r → r = resultSpamNot

/-- SpamAssassin is asked about inbound mail, the mail is not too large for it, and its score is
above 10. -/
def Scored (cfg : Config) (o : Outside) (a : Aka) : Prop :=
  isY cfg.spamEngine.smartEngine = true ∧
    containsFold (bytes "In") cfg.spamEngine.smartProtectDirection = true ∧
    (a.size : ℤ) < num (orElse cfg.intconf.spamAssassinMaxMailSize (bytes "153600")) ∧
    ∃ r ∈ o.saResult, 10 < r.1

/-! ## The lists -/

section Lists

variable {k : Checker} {config config' : Lists} {TraceEngine smtp_ip email_domain from_addr : Bytes}

/-- The first of some lists that is asked in turn: `v` if an entry of it is found, and what comes
after it if none is. -/
def askList {α : Type*} (v : α) (rest : Option α) : List (Option Bool) → Option α
  | [] => rest
  | t :: ts => t.bind fun b => if b then some v else askList v rest ts

theorem askList_append {α : Type*} (v : α) (rest : Option α) (l l' : List (Option Bool)) :
    askList v rest (l ++ l') = askList v (askList v rest l') l := by
  induction l with
  | nil => rfl
  | cons t l ih => rw [List.cons_append, askList, askList, ih]

/-- A list with an entry that is found gives its answer, unless a pattern before it does not
compile. -/
theorem askList_of_mem {α : Type*} (v : α) (rest : Option α) {l : List (Option Bool)}
    (h : some true ∈ l) :
    askList v rest l = if l.find? (· ≠ some false) = some (some true) then some v else none := by
  induction l with
  | nil => cases h
  | cons t l ih =>
    rw [askList, List.find?_cons]
    rcases t with _ | _ | _
    · rfl
    · exact ih ((List.mem_cons.1 h).resolve_left (by decide))
    · rfl

/-- A list without one gives what comes after it, unless a pattern does not compile. -/
theorem askList_of_not_mem {α : Type*} (v : α) (rest : Option α) {l : List (Option Bool)}
    (h : some true ∉ l) : askList v rest l = if none ∈ l then none else rest := by
  induction l with
  | nil => rfl
  | cons t l ih =>
    obtain ⟨ht, hl⟩ := not_or.1 (mt List.mem_cons.2 h)
    rw [askList]
    rcases t with _ | _ | _
    · rw [if_pos List.mem_cons_self]
      rfl
    · rw [Option.bind_some, if_neg Bool.false_ne_true, ih hl]
      simp
    · exact absurd rfl ht

/-- The first entry of a list that is not passed over, if none is found. -/
theorem find?_of_not_mem {l : List (Option Bool)} (h : some true ∉ l) :
    l.find? (· ≠ some false) = if none ∈ l then some none else none := by
  induction l with
  | nil => rfl
  | cons t l ih =>
    obtain ⟨ht, hl⟩ := not_or.1 (mt List.mem_cons.2 h)
    rw [List.find?_cons]
    rcases t with _ | _ | _
    · rw [if_pos List.mem_cons_self]
      rfl
    · simpa using ih hl
    · exact absurd rfl ht

theorem find?_of_mem {l : List (Option Bool)} (h : some true ∈ l) (l' : List (Option Bool)) :
    (∀ t ∈ (l ++ l').find? (· ≠ some false), t = some true) ↔
      l.find? (· ≠ some false) = some (some true) := by
  rw [List.find?_append]
  cases hfind : l.find? (· ≠ some false) with
  | none => exact absurd (List.find?_eq_none.1 hfind _ h) (by simp)
  | some t => simp

/-- For a mail on a white list. -/
theorem compiles_of_white (h : k.IsWhite config smtp_ip email_domain from_addr) :
    k.Compiles config smtp_ip email_domain from_addr ↔
      (k.whites config smtp_ip email_domain from_addr).find? (· ≠ some false) =
        some (some true) :=
  find?_of_mem h _

/-- For a mail on a black list only. -/
theorem compiles_of_black (hwhite : ¬k.IsWhite config smtp_ip email_domain from_addr)
    (h : k.IsBlack config smtp_ip email_domain from_addr) :
    k.Compiles config smtp_ip email_domain from_addr ↔
      none ∉ k.whites config smtp_ip email_domain from_addr ∧
        (k.blacks config smtp_ip email_domain from_addr).find? (· ≠ some false) =
          some (some true) := by
  rw [Checker.Compiles, List.find?_append, find?_of_not_mem hwhite]
  split_ifs with hnone
  · simp [hnone]
  · rw [Option.none_or, and_iff_right hnone]
    simpa using find?_of_mem h []

/-- A list that is turned on, as one that is asked. -/
theorem bind_found {block : Bytes} (hon : uc block = bytes "Y") (test : Bytes → Option Bool)
    (list : List Bytes) {v : Bytes × Bytes} {rest : Option (Bytes × Bytes)} {r : Option Bytes}
    (hrest : rest.map Prod.fst = r) :
    ((found block test list).bind fun b => if b then some v else rest).map Prod.fst =
      askList v.1 r (list.map test) := by
  rw [found, if_neg (not_not.2 hon)]
  induction list with
  | nil => exact hrest
  | cons e list ih =>
    rw [List.map_cons, askList, List.anyM_cons]
    cases test e with
    | none => rfl
    | some b =>
      cases b with
      | true => rfl
      | false => exact ih

/-- What `spam_checker` answers to a mail that is on no list. -/
def traced (k : Checker) (TraceEngine smtp_ip email_domain : Bytes) : Option Bytes :=
  if isY TraceEngine then (k.isTraceable smtp_ip email_domain).map Trace.isSpam
  else some resultSpamNot

/-- The lists are turned on. -/
def AllOn (config : Lists) : Prop :=
  uc config.BlockIP = bytes "Y" ∧ uc config.BlockDomain = bytes "Y" ∧
    uc config.BlockFrom = bytes "Y"

/-- The answer is that of the white lists, the black lists and the trace in turn. -/
theorem spamChecker_eq (hdomain : Checker.emailDomain from_addr = some email_domain)
    (hon : AllOn config) :
    (k.spamChecker config TraceEngine smtp_ip from_addr).map Prod.fst =
      askList resultSpamNot (askList resultSpamBlack (traced k TraceEngine smtp_ip email_domain)
          (k.blacks config smtp_ip email_domain from_addr))
        (k.whites config smtp_ip email_domain from_addr) := by
  obtain ⟨hip, hdom, hfrom⟩ := hon
  rw [Checker.spamChecker, hdomain, Checker.whites, Checker.blacks]
  simp only [askList_append]
  refine bind_found hip _ _ (bind_found hdom _ _ (bind_found hfrom _ _ (bind_found hip _ _
    (bind_found hdom _ _ (bind_found hfrom _ _ ?_)))))
  rw [traced]
  split_ifs
  · cases k.isTraceable smtp_ip email_domain <;> rfl
  · rfl

/-- With more entries on the white lists, a mail that passed is not taken for spam. -/
theorem spamChecker_mono (hdomain : Checker.emailDomain from_addr = some email_domain)
    (hon : AllOn config) (h : Whiter config config')
    (hnot : (k.spamChecker config TraceEngine smtp_ip from_addr).map Prod.fst =
      some resultSpamNot) {r : Bytes}
    (hr : (k.spamChecker config' TraceEngine smtp_ip from_addr).map Prod.fst = some r) :
    r = resultSpamNot := by
  obtain ⟨⟨hip, hdom, hfrom⟩, ⟨hips, hdomains, hfroms⟩, hips', hdomains', hfroms'⟩ := h
  have hon' : AllOn config' := ⟨hip ▸ hon.1, hdom ▸ hon.2.1, hfrom ▸ hon.2.2⟩
  have hblacks : k.blacks config' smtp_ip email_domain from_addr =
      k.blacks config smtp_ip email_domain from_addr := by
    rw [Checker.blacks, Checker.blacks, hips, hdomains, hfroms]
  have hwhites : k.whites config smtp_ip email_domain from_addr ⊆
      k.whites config' smtp_ip email_domain from_addr := by
    intro t ht
    rw [Checker.whites, List.mem_append, List.mem_append] at ht ⊢
    exact ht.imp (Or.imp (fun h => List.map_subset _ hips' h)
      fun h => List.map_subset _ hdomains' h) fun h => List.map_subset _ hfroms' h
  rw [spamChecker_eq hdomain hon'] at hr
  rw [spamChecker_eq hdomain hon] at hnot
  by_cases hwhite : some true ∈ k.whites config' smtp_ip email_domain from_addr
  · rw [askList_of_mem _ _ hwhite] at hr
    split_ifs at hr
    exact (Option.some_inj.1 hr).symm
  · rw [askList_of_not_mem _ _ hwhite] at hr
    split_ifs at hr with hnone
    rw [askList_of_not_mem _ _ fun hmem => hwhite (hwhites hmem),
      if_neg fun hmem => hnone (hwhites hmem), ← hblacks, hr] at hnot
    exact Option.some_inj.1 hnot

/-- An answer is no empty text. -/
theorem ne_nil_of_askList {v r : Bytes} (hv : v ≠ []) {rest : Option Bytes}
    (hrest : ∀ r ∈ rest, r ≠ []) {l : List (Option Bool)} (h : askList v rest l = some r) :
    r ≠ [] := by
  by_cases hmem : some true ∈ l
  · rw [askList_of_mem _ _ hmem] at h
    split_ifs at h
    rwa [← Option.some_inj.1 h]
  · rw [askList_of_not_mem _ _ hmem] at h
    split_ifs at h
    exact hrest r h

theorem isTrue_spamChecker (hdomain : Checker.emailDomain from_addr = some email_domain)
    (hon : AllOn config) {r : Bytes}
    (h : (k.spamChecker config TraceEngine smtp_ip from_addr).map Prod.fst = some r) :
    isTrue r = false ↔ r = resultSpamNot := by
  have htrace : ∀ t : Trace, t.isSpam ≠ [] := by
    intro t
    cases t <;> decide
  have htraced : ∀ r ∈ traced k TraceEngine smtp_ip email_domain, r ≠ [] := by
    intro r hr
    rw [traced] at hr
    split_ifs at hr
    · obtain ⟨t, -, rfl⟩ := Option.mem_map.1 hr
      exact htrace t
    · rw [← Option.some_inj.1 hr]
      decide
  rw [spamChecker_eq hdomain hon] at h
  have hne : r ≠ [] :=
    ne_nil_of_askList (by decide) (fun _ => ne_nil_of_askList (by decide) htraced) h
  rw [isTrue_eq_false_iff]
  exact ⟨fun h => h.resolve_left hne, .inr⟩

end Lists

/-! ## The engine -/

section Engine

variable {k : Checker} {config config' : Lists} {cfg : Config} {o : Outside} {a : Aka}
  {domain : Bytes}

/-- What SpamAssassin says of an inbound mail, if it is asked and has anything to say. -/
def inboundScore (cfg : Config) (o : Outside) (a : Aka) : Option (Bytes × Bytes) :=
  if isY cfg.spamEngine.smartEngine &&
      containsFold (bytes "In") cfg.spamEngine.smartProtectDirection then
    getSaResult cfg o a
  else none

theorem inboundScore_isSome_iff : (inboundScore cfg o a).isSome = true ↔ Scored cfg o a := by
  unfold inboundScore getSaResult Scored
  by_cases hon : isY cfg.spamEngine.smartEngine = true
  · by_cases hin : containsFold (bytes "In") cfg.spamEngine.smartProtectDirection = true
    · by_cases hsize : (a.size : ℤ) <
          num (orElse cfg.intconf.spamAssassinMaxMailSize (bytes "153600"))
      · cases hsa : o.saResult with
        | none => simp [hon, hin, hsize]
        | some r => by_cases hscore : r.1 > 10 <;> simp [hon, hin, hsize, hscore]
      · simp [hon, hin, hsize]
    · simp [hin]
  · simp [hon]

theorem isTrue_of_inboundScore {v : Bytes × Bytes} (h : inboundScore cfg o a = some v) :
    isTrue v.1 = true := by
  have hmaybe : isTrue resultSpamMaybe = true := by decide
  have hmust : isTrue resultSpamMust = true := by decide
  unfold inboundScore getSaResult at h
  cases hsa : o.saResult with
  | none =>
    rw [hsa] at h
    split_ifs at h
  | some r =>
    rw [hsa] at h
    dsimp only at h
    split_ifs at h
    · rwa [← Option.some.inj h]
    · rwa [← Option.some.inj h]

/-- A mail on which `spam_checker` is not asked has a result without it. -/
theorem spamEngine_answering (h : asksChecker cfg o a = false) (answer : Bytes × Bytes) :
    spamEngine cfg (answering o answer) a = spamEngine cfg o a := by
  have hverdict : spamVerdict cfg (answering o answer) a = spamVerdict cfg o a := by
    simp only [asksChecker, isListed, Bool.and_eq_false_iff, Bool.not_eq_false'] at h
    simp only [spamVerdict, inboundSpam, authorizedSpam, getSaResult, answering]
    grind
  rw [spamEngine, spamEngine, hverdict]

theorem Inbound.allOn (h : Inbound config cfg o a domain) : AllOn config :=
  ⟨h.ip_on, h.domain_on, h.from_on⟩

/-- The result on an inbound mail. -/
theorem result_eq (h : Inbound config cfg o a domain) :
    result k config cfg o a =
      ((k.spamChecker config cfg.spamEngine.traceEngine a.tcpremoteip a.returnpath).map
        Prod.fst).map fun r =>
          if isTrue r then r else ((inboundScore cfg o a).map Prod.fst).getD r := by
  have hlisted (t : ListType) : isListed o a t = false := by
    rw [isListed, h.not_personal, Bool.and_false]
  have hasks : asksChecker cfg o a = true := by
    simp only [asksChecker, h.engine_on, h.not_relayed, h.not_authenticated, hlisted, h.trace_on,
      h.trace_in, Bool.not_false, Bool.and_self]
  rw [result, if_pos hasks, Option.map_map]
  congr 1
  funext answer
  have hverdict : spamVerdict cfg (answering o answer) a =
      inboundSpam cfg (answering o answer) a := by
    rw [spamVerdict, h.engine_on, h.not_relayed, h.not_authenticated]
    rfl
  rw [spamEngine, Aka.engine_dropIf, Aka.engine_setEntry_self, hverdict, inboundSpam]
  simp only [answering, h.not_personal, h.trace_on, h.trace_in, Bool.and_false, Bool.false_eq_true,
    if_false, if_true, Bool.and_self, ran, inboundScore, Function.comp_apply]
  rw [Bool.and_assoc]
  cases isTrue answer.1 with
  | true => rfl
  | false =>
    rw [Bool.not_false, Bool.true_and, if_neg Bool.false_ne_true]
    split_ifs
    · cases hscore : getSaResult cfg o a with
      | none => exact congrArg (fun r => (Option.getD r answer).1) hscore
      | some v => exact congrArg (fun r => (Option.getD r answer).1) hscore
    · rfl

/-- A mail passes exactly if `spam_checker` lets it pass and SpamAssassin has nothing to say. -/
theorem result_eq_not_iff (h : Inbound config cfg o a domain) :
    result k config cfg o a = some resultSpamNot ↔
      (k.spamChecker config cfg.spamEngine.traceEngine a.tcpremoteip a.returnpath).map Prod.fst =
        some resultSpamNot ∧ ¬Scored cfg o a := by
  have hnot : isTrue resultSpamNot = false := by decide
  rw [result_eq h, ← inboundScore_isSome_iff]
  cases htraced : (k.spamChecker config cfg.spamEngine.traceEngine a.tcpremoteip
      a.returnpath).map Prod.fst with
  | none => simp
  | some r =>
    rw [Option.map_some, Option.some_inj, Option.some_inj]
    have hr := isTrue_spamChecker h.emailDomain_eq h.allOn htraced
    cases htrue : isTrue r with
    | true =>
      have hne : r ≠ resultSpamNot := by
        rintro rfl
        rw [hnot] at htrue
        cases htrue
      rw [if_pos rfl]
      exact ⟨fun heq => absurd heq hne, fun hand => absurd hand.1 hne⟩
    | false =>
      rw [if_neg Bool.false_ne_true]
      cases hscore : inboundScore cfg o a with
      | none => simp
      | some v =>
        have hv := isTrue_of_inboundScore hscore
        refine iff_of_false (fun heq => ?_) fun hand => hand.2 rfl
        rw [Option.map_some, Option.getD_some] at heq
        rw [heq, hnot] at hv
        cases hv

/-- **When the lists have the last word**: for every configuration, all lists and every inbound
mail, exactly if a mail on a white list has no score that counts, and for a mail on a list no
pattern before the first entry that is found fails to compile. -/
theorem lawful_iff (h : Inbound config cfg o a domain) :
    Lawful k config cfg o a domain ↔
      (k.IsWhite config a.tcpremoteip domain a.returnpath → ¬Scored cfg o a) ∧
        (k.IsWhite config a.tcpremoteip domain a.returnpath ∨
          k.IsBlack config a.tcpremoteip domain a.returnpath →
            k.Compiles config a.tcpremoteip domain a.returnpath) := by
  have hchecker := @spamChecker_eq k config cfg.spamEngine.traceEngine a.tcpremoteip domain
    a.returnpath h.emailDomain_eq h.allOn
  constructor
  · refine fun hlaw =>
      ⟨fun hwhite => ((result_eq_not_iff h).1 (hlaw.exempt hwhite)).2, fun hlisted => ?_⟩
    by_cases hwhite : k.IsWhite config a.tcpremoteip domain a.returnpath
    · have hpassed := ((result_eq_not_iff h).1 (hlaw.exempt hwhite)).1
      rw [hchecker, askList_of_mem _ _ hwhite] at hpassed
      split_ifs at hpassed with hfind
      exact (compiles_of_white hwhite).2 hfind
    · have hblack := hlisted.resolve_left hwhite
      obtain ⟨r, hr, -⟩ := hlaw.condemn hwhite hblack
      rw [result_eq h, hchecker, askList_of_not_mem _ _ hwhite,
        askList_of_mem _ _ hblack] at hr
      split_ifs at hr with hnone hfind
      · cases hr
      · exact (compiles_of_black hwhite hblack).2 ⟨hnone, hfind⟩
      · cases hr
  · rintro ⟨hscore, hcompiles⟩
    refine ⟨fun hwhite => ?_, fun hwhite hblack => ?_, fun config' hwhiter hnot r hr => ?_⟩
    · have hfind := (compiles_of_white hwhite).1 (hcompiles (.inl hwhite))
      exact (result_eq_not_iff h).2
        ⟨by rw [hchecker, askList_of_mem _ _ hwhite, if_pos hfind], hscore hwhite⟩
    · obtain ⟨hnone, hfind⟩ := (compiles_of_black hwhite hblack).1 (hcompiles (.inr hblack))
      refine ⟨resultSpamBlack, ?_, .inr rfl⟩
      rw [result_eq h, hchecker, askList_of_not_mem _ _ hwhite, if_neg hnone,
        askList_of_mem _ _ hblack, if_pos hfind]
      rfl
    · obtain ⟨hpassed, hunscored⟩ := (result_eq_not_iff h).1 hnot
      have h' : Inbound config' cfg o a domain :=
        { h with
          ip_on := hwhiter.switches.1 ▸ h.ip_on
          domain_on := hwhiter.switches.2.1 ▸ h.domain_on
          from_on := hwhiter.switches.2.2 ▸ h.from_on }
      have hanswer := hr
      rw [result_eq h', Option.map_eq_some_iff] at hanswer
      obtain ⟨t, ht, -⟩ := hanswer
      rw [spamChecker_mono h.emailDomain_eq h.allOn hwhiter hpassed ht] at ht
      rw [(result_eq_not_iff h').2 ⟨ht, hunscored⟩] at hr
      exact (Option.some_inj.1 hr).symm

/-- The lists and SpamAssassin are on; patterns are literal, and an entry is one address. -/
def literalChecker : Checker where
  tr := id
  is_ip_in_range ip range := ip = range
  search pattern := some fun text =>
    if pattern.head? = some 94 then pattern = 94 :: (text ++ [36])
    else pattern.dropLast <:+ text
  dns _ _ := ⟨true, some [], some [], some []⟩
  TraceType := []
  TraceSpamMask := []
  TraceMaybeSpamMask := []

def partnerLists : Lists where
  BlockIP := bytes "Y"
  BlockDomain := bytes "Y"
  BlockFrom := bytes "Y"
  WhiteDomainList := [bytes "partner.cn"]
  BlackIPList := [bytes "10.0.0.9"]

def allEngines : Config where
  spamEngine :=
    { noSPAMEngine := bytes "Y"
      traceEngine := bytes "Y"
      traceProtectDirection := bytes "In"
      smartEngine := bytes "Y"
      smartProtectDirection := bytes "In" }

/-- A mail of the partner from a black address. -/
def partnerMail : Aka where
  tcpremoteip := bytes "10.0.0.9"
  returnpath := bytes "ann@partner.cn"
  recips := bytes "bob@b.cn"
  size := 1000

theorem inbound_partnerMail (o : Outside)
    (h : ∀ t l, o.isUserListed t (bytes "ann@partner.cn") l = false) :
    Inbound partnerLists allEngines o partnerMail (bytes "partner.cn") where
  engine_on := by decide
  trace_on := by decide
  trace_in := by decide
  ip_on := rfl
  domain_on := rfl
  from_on := rfl
  not_relayed := rfl
  not_authenticated := rfl
  emailDomain_eq := by decide
  not_personal t := h t _

theorem lawful_partnerMail :
    Lawful literalChecker partnerLists allEngines Outside.plain partnerMail
      (bytes "partner.cn") := by
  refine (lawful_iff (inbound_partnerMail _ fun _ _ => rfl)).2 ⟨fun _ hscored => ?_, fun _ => ?_⟩
  · obtain ⟨-, -, -, r, hr, -⟩ := hscored
    cases hr
  · exact (compiles_of_white (by decide +kernel)).2 (by decide +kernel)

/-- A score of 16 makes spam of the partner's mail. -/
theorem partner_condemned :
    Inbound partnerLists allEngines { Outside.plain with saResult := some (16, []) } partnerMail
        (bytes "partner.cn") ∧
      literalChecker.IsWhite partnerLists partnerMail.tcpremoteip (bytes "partner.cn")
        partnerMail.returnpath ∧
      ¬Lawful literalChecker partnerLists allEngines
        { Outside.plain with saResult := some (16, []) } partnerMail (bytes "partner.cn") := by
  have hwhite : literalChecker.IsWhite partnerLists partnerMail.tcpremoteip (bytes "partner.cn")
      partnerMail.returnpath := by decide +kernel
  refine ⟨inbound_partnerMail _ fun _ _ => rfl, hwhite, fun h => ?_⟩
  have hpassed := h.exempt hwhite
  have hscored : Scored allEngines { Outside.plain with saResult := some (16, []) } partnerMail :=
    ⟨by decide, by decide, by decide +kernel, _, rfl, by decide +kernel⟩
  exact ((result_eq_not_iff (inbound_partnerMail _ fun _ _ => rfl)).1 hpassed).2 hscored

end Engine

end NoSpam.Spam
