import NoSpam.Domain.Control

/-!
# The control files and the configuration

The files are to say what the configuration says, whatever they said before (`Agree`).  They do
exactly if they did so before (`agree_iff`), since `write_file` hands its `open` a mode that is none
and writes nothing.  With an `open` that takes any mode they would for the configurations and files
of `Settled` (`agree_iff_settled`): without protected domains the lists of domains and routes stay
as they were; without a file of virtual domains the list of domains does; a virtual domain, read as
a pattern, takes other domains off the list; and of the protected domains with one server the hosts
file names one.
-/

namespace NoSpam.Domain

open Text Perl

/-! ## The purpose -/

/-- The lines of a control file. -/
def controlLines (file : Option Bytes) : List Bytes := ((file.getD []).splitOn 10).filter (· ≠ [])

/-- The words of a line. -/
def words (l : Bytes) : List Bytes := (l.splitOnP isWhite).filter (· ≠ [])

/-- A line of the hosts file gives the name the address. -/
def Resolves (hosts : Option Bytes) (name ip : Bytes) : Prop :=
  ∃ line ∈ controlLines hosts, ∃ names, words line = ip :: names ∧ name ∈ names

/-- The files say what the configuration says. -/
structure Agree (c : MailConf) (f : Files) : Prop where
  rcpthosts : ∀ d, d ∈ controlLines f.rcpthosts ↔ d ∈ c.protectDomain ∨ d ∈ c.virtualDomains
  smtproutes : (controlLines f.smtproutes).Perm (c.protectDomain.entries.map route)
  hosts : ∀ e ∈ c.protectDomain.entries, Resolves f.hosts e.1 e.2.ip

/-- No virtual domain matches a protected domain, or a virtual domain of an earlier line, that is
another one and does not come again. -/
def NoLookalike (c : MailConf) : Prop :=
  ∀ before v after, c.virtualDomains = before ++ v :: after →
    ∀ d, (d ∈ c.protectDomain ∨ d ∈ before) → matchesWhole v d = true → d = v ∨ d ∈ after

/-- What the generators need of the configuration and of the files before. -/
structure Settled (c : MailConf) (f : Files) : Prop where
  rcpthosts : c.protectDomain.entries = [] ∨ c.virtualdomains = none →
    ∀ d, d ∈ controlLines f.rcpthosts ↔ d ∈ c.protectDomain ∨ d ∈ c.virtualDomains
  lookalike : c.protectDomain.entries ≠ [] → NoLookalike c
  smtproutes : c.protectDomain.entries = [] → controlLines f.smtproutes = []
  hosts : ∀ e ∈ c.protectDomain.entries, ∀ e' ∈ c.protectDomain.entries, e.2.ip = e'.2.ip → e = e'

/-! ## What is written -/

/-- An `open` that takes whatever mode it is given. -/
def anyMode : Bytes → Bool := fun _ => true

theorem writeFile_anyMode {filename content : Bytes} (hname : isTrue filename = true)
    (h : isTrue content = true) (old : Option Bytes) :
    writeFile anyMode filename content old = some content := by
  simp [writeFile, anyMode, hname, h]

/-- `open` does not know the mode that `write_file` gives it. -/
theorem writeFile_isOpenMode {filename : Bytes} (h : filename.head? = some 47) (content : Bytes)
    (old : Option Bytes) : writeFile isOpenMode filename content old = old := by
  obtain ⟨path, rfl⟩ : ∃ path, filename = 47 :: path := by
    cases filename with
    | nil => cases h
    | cons c path => exact ⟨path, by rw [Option.some.inj h]⟩
  simp [writeFile, isOpenMode_path]

/-! ## Reading the files back -/

theorem controlLines_columnText {ls : List Bytes} (h : ∀ l ∈ ls, l ≠ [] ∧ 10 ∉ l) :
    controlLines (some (columnText 10 ls)) = ls := by
  have hsplit := splitOn_columnText_append (fun l hl => (h l hl).2) []
  rw [List.append_nil] at hsplit
  rw [controlLines, Option.getD_some, hsplit, List.splitOn_nil, List.filter_append,
    List.filter_eq_self.2 fun l hl => by simpa using (h l hl).1]
  simp

theorem controlLines_joinFields {ls : List Bytes} (hne : ls ≠ []) (h : ∀ l ∈ ls, l ≠ [] ∧ 10 ∉ l) :
    controlLines (some (joinFields 10 ls)) = ls := by
  rw [controlLines, Option.getD_some, joinFields,
    List.splitOn_intercalate 10 (fun l hl => (h l hl).2) hne]
  exact List.filter_eq_self.2 fun l hl => by simpa using (h l hl).1

theorem IsDomain.not_mem {d : Bytes} (h : IsDomain d) {c : UInt8} (hc : isDomainByte c = false) :
    c ∉ d := fun hmem => absurd (h.2 c hmem) (by simp [hc])

theorem words_append {l : Bytes} (h : ∀ c ∈ l, isWhite c = false) (hne : l ≠ []) {c : UInt8}
    (hc : isWhite c = true) (r : Bytes) : words (l ++ c :: r) = l :: words r := by
  rw [words, List.splitOnP_append_cons_of_forall_mem h c hc,
    List.filter_cons_of_pos (by simpa using hne)]
  rfl

theorem words_of_forall {l : Bytes} (h : ∀ c ∈ l, isWhite c = false) (hne : l ≠ []) :
    words l = [l] := by
  rw [words, List.splitOnP_eq_singleton h, List.filter_cons_of_pos (by simpa using hne)]
  rfl

/-! ## The list of domains -/

section Domains

/-- A virtual domain takes the place of what it matches. -/
def push (domains : List Bytes) (v : Bytes) : List Bytes :=
  domains.filter (fun d => !matchesWhole v d) ++ [v]

theorem addVirtual_line {v p : Bytes} (hv : IsDomain v) (domains : List Bytes) :
    addVirtual domains (v ++ 58 :: p ++ [10]) = push domains v := by
  have hcolon : ∀ c ∈ v, decide (c ≠ 58) = true := by
    intro c hc
    rw [decide_eq_true_eq]
    rintro rfl
    exact hv.not_mem (by decide) hc
  have htake : (v ++ 58 :: p ++ [10]).takeWhile (fun c => decide (c ≠ 58)) = v := by
    rw [List.append_assoc, List.cons_append]
    exact (takeWhile_append_cons hcolon (by decide) _).1
  simp only [addVirtual, htake, if_neg hv.1, push]

theorem foldl_addVirtual {es : List (Bytes × Bytes)} (h : ∀ e ∈ es, IsDomain e.1)
    (domains : List Bytes) :
    (es.map fun e => e.1 ++ 58 :: e.2 ++ [10]).foldl addVirtual domains =
      (es.map Prod.fst).foldl push domains := by
  induction es generalizing domains with
  | nil => rfl
  | cons e es ih =>
    obtain ⟨he, hes⟩ := List.forall_mem_cons.1 h
    simp only [List.map_cons, List.foldl_cons, addVirtual_line he]
    exact ih hes _

variable {vs domains : List Bytes} {d : Bytes}

theorem mem_push {v : Bytes} :
    d ∈ push domains v ↔ d ∈ domains ∧ matchesWhole v d = false ∨ d = v := by
  simp [push]

/-- A domain is on the list if nothing matches it after its last addition. -/
theorem mem_foldl_push :
    d ∈ vs.foldl push domains ↔
      (∃ before after, vs = before ++ d :: after ∧ ∀ v ∈ after, matchesWhole v d = false) ∨
        d ∈ domains ∧ ∀ v ∈ vs, matchesWhole v d = false := by
  induction vs using List.reverseRecOn with
  | nil => simp
  | append_singleton vs v ih =>
    rw [List.foldl_append, List.foldl_cons, List.foldl_nil, mem_push, ih]
    constructor
    · rintro (⟨⟨before, after, rfl, hafter⟩ | ⟨hd, hvs⟩, hv⟩ | rfl)
      · refine Or.inl ⟨before, after ++ [v], by simp, ?_⟩
        simpa [or_imp, forall_and] using ⟨hafter, hv⟩
      · exact Or.inr ⟨hd, by simpa [or_imp, forall_and] using ⟨hvs, hv⟩⟩
      · exact Or.inl ⟨vs, [], rfl, by simp⟩
    · rintro (⟨before, after, hsplit, hafter⟩ | ⟨hd, hvs⟩)
      · rcases List.eq_nil_or_concat' after with rfl | ⟨after, u, rfl⟩
        · exact Or.inr (List.singleton_inj.1 (List.append_inj' hsplit rfl).2).symm
        · rw [← List.cons_append, ← List.append_assoc] at hsplit
          obtain ⟨rfl, hu⟩ := List.append_inj' hsplit rfl
          rw [List.singleton_inj] at hu
          subst hu
          simp only [List.mem_append, List.mem_singleton, or_imp, forall_and, forall_eq] at hafter
          exact Or.inl ⟨Or.inl ⟨before, after, rfl, hafter.1⟩, hafter.2⟩
      · simp only [List.mem_append, List.mem_singleton, or_imp, forall_and, forall_eq] at hvs
        exact Or.inl ⟨Or.inr ⟨hd, hvs.1⟩, hvs.2⟩

theorem exists_last {α : Type*} [DecidableEq α] {l : List α} {a : α} (h : a ∈ l) :
    ∃ before after, l = before ++ a :: after ∧ a ∉ after := by
  obtain ⟨after, before, hsplit, hafter⟩ := List.eq_append_cons_of_mem (List.mem_reverse.2 h)
  refine ⟨before.reverse, after.reverse, ?_, by simpa using hafter⟩
  rw [← List.reverse_reverse l, hsplit, List.reverse_append, List.reverse_cons, List.append_assoc,
    List.singleton_append]

theorem mem_of_mem_foldl_push (h : d ∈ vs.foldl push domains) : d ∈ domains ∨ d ∈ vs := by
  rcases mem_foldl_push.1 h with ⟨before, after, rfl, -⟩ | ⟨hd, -⟩
  · exact Or.inr (by simp)
  · exact Or.inl hd

/-- What is on the list at the end, and is not added after `v`, is not matched by `v`. -/
theorem not_matches_of_mem_foldl_push {before after : List Bytes} {v : Bytes}
    (h : d ∈ (before ++ v :: after).foldl push domains) (hne : d ≠ v) (hafter : d ∉ after) :
    matchesWhole v d = false := by
  rw [List.foldl_append, List.foldl_cons] at h
  rcases mem_foldl_push.1 h with ⟨before', after', rfl, -⟩ | ⟨hpush, -⟩
  · exact absurd (by simp) hafter
  · rcases mem_push.1 hpush with ⟨-, hmatch⟩ | heq
    · exact hmatch
    · exact absurd heq hne

/-- A domain stays on the list if what matches it comes before its last addition. -/
theorem mem_foldl_push_of_mem (hd : d ∈ domains ∨ d ∈ vs)
    (h : ∀ before v after, vs = before ++ v :: after → (d ∈ domains ∨ d ∈ before) →
      matchesWhole v d = true → d = v ∨ d ∈ after) : d ∈ vs.foldl push domains := by
  rw [mem_foldl_push]
  by_cases hvs : d ∈ vs
  · obtain ⟨before, after, rfl, hlast⟩ := exists_last hvs
    refine Or.inl ⟨before, after, rfl, fun v hv => ?_⟩
    by_contra hmatch
    obtain ⟨mid, rest, rfl⟩ := List.append_of_mem hv
    have hsplit : before ++ d :: (mid ++ v :: rest) = (before ++ d :: mid) ++ v :: rest := by
      simp
    rcases h _ v rest hsplit (Or.inr (by simp)) (by simpa using hmatch) with rfl | hrest
    · exact hlast hv
    · exact hlast (by simp [hrest])
  · refine Or.inr ⟨hd.resolve_right hvs, fun v hv => ?_⟩
    by_contra hmatch
    obtain ⟨before, after, rfl⟩ := List.append_of_mem hv
    have hlater := h before v after rfl (Or.inl (hd.resolve_right hvs)) (by simpa using hmatch)
    rcases hlater with rfl | hafter
    · exact hvs hv
    · exact hvs (by simp [hafter])

/-- No domain is lost exactly when nothing matches a domain that does not come again. -/
theorem forall_mem_foldl_push_iff :
    (∀ d, d ∈ vs.foldl push domains ↔ d ∈ domains ∨ d ∈ vs) ↔
      ∀ before v after, vs = before ++ v :: after →
        ∀ d, (d ∈ domains ∨ d ∈ before) → matchesWhole v d = true → d = v ∨ d ∈ after := by
  constructor
  · intro h before v after hsplit d hd hmatch
    by_contra hlost
    rw [not_or] at hlost
    have hmem : d ∈ vs.foldl push domains := by
      rw [h, hsplit]
      exact hd.imp_right (List.mem_append_left _)
    rw [hsplit] at hmem
    rw [not_matches_of_mem_foldl_push hmem hlost.1 hlost.2] at hmatch
    cases hmatch
  · intro h d
    exact ⟨mem_of_mem_foldl_push, fun hd => mem_foldl_push_of_mem hd
      fun before v after hsplit => h before v after hsplit d⟩

end Domains

section Generators

variable {c : MailConf} {order : List Entry}

theorem virtual_isDomain (c : MailConf) : ∀ v ∈ c.virtualDomains, IsDomain v := by
  intro v hv
  obtain ⟨e, he, rfl⟩ := List.mem_map.1 hv
  exact (c.legal_virtual e he).1

/-- The lines of `virtualdomains` put the virtual domains on the list, one after the other. -/
theorem foldl_virtualText {text : Bytes} (h : c.virtualText = some text) (domains : List Bytes) :
    (lines 10 text).foldl addVirtual domains = c.virtualDomains.foldl push domains := by
  obtain ⟨es, hes, rfl⟩ := Option.map_eq_some_iff.1 h
  have hlegal := c.legal_virtual
  have hdomains : c.virtualDomains = es.map Prod.fst := by rw [MailConf.virtualDomains, hes]; rfl
  rw [hes, Option.getD_some] at hlegal
  have hnl : ∀ l ∈ es.map fun e => e.1 ++ 58 :: e.2, 10 ∉ l := by
    refine List.forall_mem_map.2 fun e he => ?_
    have hdomain : 10 ∉ e.1 := (hlegal e he).1.not_mem (by decide)
    simp [hdomain, (hlegal e he).2]
  have hlines := lines_flatMap hnl
  rw [List.flatMap_map, List.map_map] at hlines
  rw [hdomains, ← foldl_addVirtual (fun e he => (hlegal e he).1)]
  exact congrArg (List.foldl addVirtual domains) hlines

theorem foldl_push_ne_nil {vs domains : List Bytes} (h : domains ≠ []) :
    vs.foldl push domains ≠ [] := by
  rcases List.eq_nil_or_concat' vs with rfl | ⟨vs, v, rfl⟩
  · exact h
  · rw [List.foldl_append]
    simp [push]

theorem controlLines_rcpthosts (horder : order.Perm c.protectDomain.entries) (hne : order ≠ [])
    {text : Bytes} (htext : c.virtualText = some text) (old : Option Bytes) :
    controlLines (fileUpdateRcpthosts anyMode (order.map Sigma.fst) c.virtualText old) =
      c.virtualDomains.foldl push (order.map Sigma.fst) := by
  have hdomains : order.map Sigma.fst ≠ [] := by simpa using hne
  have hlist : ∀ d ∈ c.virtualDomains.foldl push (order.map Sigma.fst), d ≠ [] ∧ 10 ∉ d := by
    intro d hd
    have hlegal : IsDomain d := by
      rcases mem_of_mem_foldl_push hd with hd | hd
      · obtain ⟨e, he, rfl⟩ := List.mem_map.1 hd
        exact (c.legal_protect e (horder.mem_iff.1 he)).1
      · exact virtual_isDomain c d hd
    exact ⟨hlegal.1, hlegal.not_mem (by decide)⟩
  unfold fileUpdateRcpthosts
  rw [if_neg hdomains, htext]
  dsimp only
  rw [foldl_virtualText htext, joinFields_append_sep 10 (foldl_push_ne_nil hdomains),
    writeFile_anyMode (by decide), controlLines_columnText hlist]
  rw [← joinFields_append_sep 10 (foldl_push_ne_nil hdomains)]
  exact isTrue_of_mem (List.mem_append_right _ (List.mem_singleton.2 rfl)) (by decide)

/-- The list of domains is right exactly if it was before, where it is not written, and no domain
is lost, where it is. -/
theorem rcpthosts_iff (horder : order.Perm c.protectDomain.entries) (old : Option Bytes) :
    (∀ d, d ∈ controlLines (fileUpdateRcpthosts anyMode (order.map Sigma.fst) c.virtualText old) ↔
        d ∈ c.protectDomain ∨ d ∈ c.virtualDomains) ↔
      (c.protectDomain.entries = [] ∨ c.virtualdomains = none →
        ∀ d, d ∈ controlLines old ↔ d ∈ c.protectDomain ∨ d ∈ c.virtualDomains) ∧
      (c.protectDomain.entries ≠ [] → NoLookalike c) := by
  by_cases hempty : c.protectDomain.entries = []
  · rw [hempty] at horder
    rw [List.perm_nil.1 horder]
    simp [fileUpdateRcpthosts, hempty]
  · have hne : order ≠ [] := by
      rintro rfl
      exact hempty (List.nil_perm.1 horder)
    cases hvirtual : c.virtualdomains with
    | none =>
      have hnone : NoLookalike c := by
        intro before v after hsplit
        simp [MailConf.virtualDomains, hvirtual] at hsplit
      have hdomains : order.map Sigma.fst ≠ [] := by simpa using hne
      simp [fileUpdateRcpthosts, MailConf.virtualText, hvirtual, hdomains, hnone]
    | some es =>
      have htext : c.virtualText = some (es.flatMap fun e => e.1 ++ 58 :: e.2 ++ [10]) := by
        rw [MailConf.virtualText, hvirtual]
        rfl
      have hmem : ∀ d, d ∈ order.map Sigma.fst ↔ d ∈ c.protectDomain := by
        intro d
        rw [AList.mem_keys]
        exact (horder.map Sigma.fst).mem_iff
      rw [controlLines_rcpthosts horder hne htext]
      have hiff := @forall_mem_foldl_push_iff c.virtualDomains (order.map Sigma.fst)
      simp only [hmem] at hiff
      rw [hiff]
      simp [hempty, NoLookalike]

theorem not_newline_of_isDigit {l : Bytes} (h : ∀ c ∈ l, isDigit c = true) : 10 ∉ l :=
  fun hmem => absurd (h 10 hmem) (by decide)

theorem IsAddress.not_mem {a : Bytes} (h : IsAddress a) {c : UInt8} (hc : isDigit c = false)
    (hdot : c ≠ 46) : c ∉ a := by
  intro hmem
  rcases h.2 c hmem with hd | hd
  · exact absurd hd (by simp [hc])
  · exact hdot hd

theorem route_legal {e : Entry} (he : e ∈ c.protectDomain.entries) :
    route e ≠ [] ∧ 10 ∉ route e := by
  obtain ⟨hdomain, hip, hport⟩ := c.legal_protect e he
  have hport' : ∀ p, (10 : UInt8) ∉ p → 10 ∉ orElse p (bytes "25") := by
    intro p hp
    unfold orElse
    split_ifs
    · exact hp
    · decide
  have h10 := hport' _ (hport' _ (not_newline_of_isDigit (List.all_eq_true.1 hport)))
  have hd : 10 ∉ e.1 := hdomain.not_mem (by decide)
  have ha : 10 ∉ e.2.ip := hip.not_mem (by decide) (by decide)
  constructor
  · simp [route]
  · simp [route, hd, ha, h10]

/-- The routes are right exactly if there were none before, where they are not written. -/
theorem smtproutes_iff (horder : order.Perm c.protectDomain.entries) (old : Option Bytes) :
    (controlLines (fileUpdateSmtproutes anyMode order old)).Perm
        (c.protectDomain.entries.map route) ↔
      (c.protectDomain.entries = [] → controlLines old = []) := by
  by_cases hempty : c.protectDomain.entries = []
  · rw [hempty] at horder ⊢
    rw [List.perm_nil.1 horder]
    simp [fileUpdateSmtproutes]
  · have hne : order ≠ [] := by
      rintro rfl
      exact hempty (List.nil_perm.1 horder)
    have hroutes : order.map route ≠ [] := by simpa using hne
    have hlegal : ∀ l ∈ order.map route, l ≠ [] ∧ 10 ∉ l :=
      List.forall_mem_map.2 fun e he => route_legal (horder.mem_iff.1 he)
    have htrue : isTrue (joinFields 10 (order.map route)) = true := by
      obtain ⟨e, rest, rfl⟩ := List.exists_cons_of_ne_nil hne
      refine isTrue_of_mem (c := 58) ?_ (by decide)
      rw [List.map_cons, joinFields_cons]
      simp [route]
    rw [fileUpdateSmtproutes, if_neg hne, writeFile_anyMode (by decide) htrue,
      controlLines_joinFields hroutes hlegal]
    simpa [hempty] using horder.map route

/-! ## The hosts file -/

/-- The entry of the last insertion under a key stands. -/
theorem lookup_foldl_insert {m : AList fun _ : Bytes => Bytes} {before after : List Entry}
    {e : Entry} (h : ∀ e' ∈ after, e'.2.ip ≠ e.2.ip) :
    ((before ++ e :: after).foldl (fun m e => m.insert e.2.ip e.1) m).lookup e.2.ip = some e.1 := by
  rw [List.foldl_append, List.foldl_cons]
  induction after using List.reverseRecOn with
  | nil => exact AList.lookup_insert _
  | append_singleton after e' ih =>
    simp only [List.mem_append, List.mem_singleton, or_imp, forall_and, forall_eq] at h
    rw [List.foldl_append, List.foldl_cons, List.foldl_nil,
      AList.lookup_insert_ne (Ne.symm h.2)]
    exact ih h.1

theorem lt_of_isDomainByte {c : UInt8} (h : isDomainByte c = true) : 32 < c.toNat := by
  simp only [isDomainByte, isDigit, Bool.or_eq_true, Bool.and_eq_true, decide_eq_true_eq,
    UInt8.le_iff_toNat_le] at h
  rcases h with ((((⟨h, -⟩ | ⟨h, -⟩) | ⟨h, -⟩) | rfl) | rfl) | rfl
  · exact lt_of_lt_of_le (by decide) h
  · exact lt_of_lt_of_le (by decide) h
  · exact lt_of_lt_of_le (by decide) h
  · decide
  · decide
  · decide

theorem IsDomain.not_space {d : Bytes} (h : IsDomain d) : ∀ c ∈ d, isWhite c = false :=
  fun c hc => not_isWhite_of_lt (lt_of_isDomainByte (h.2 c hc))

theorem IsAddress.not_space {a : Bytes} (h : IsAddress a) : ∀ c ∈ a, isWhite c = false := by
  intro c hc
  rcases h.2 c hc with hd | rfl
  · exact not_isWhite_of_isDigit hd
  · rfl

theorem hostLine_domain {ip d : Bytes} (h : IsDomain d) :
    hostLine ⟨ip, d⟩ = ip ++ 9 :: (d ++ shortName d) := by
  have hspace := h.not_space
  have hany : d.any isWhite = false := by simpa using hspace
  have hdrop : d.dropWhile isWhite = d := by
    cases d with
    | nil => rfl
    | cons c d => rw [List.dropWhile_cons_of_neg (by simp [hspace c List.mem_cons_self])]
  have hrdrop : d.rdropWhile isWhite = d := by
    rw [List.rdropWhile_eq_self_iff]
    intro hne
    simp [hspace _ (List.getLast_mem hne)]
  simp only [hostLine, hdrop, hrdrop, hany]
  simp

/-- The words of a line for a domain: the address, the domain, and at most its first label. -/
theorem words_hostLine {ip d : Bytes} (hip : IsAddress ip) (h : IsDomain d) :
    ∃ names, words (hostLine ⟨ip, d⟩) = ip :: d :: names ∧ ∀ n ∈ names, 46 ∉ n ∧ 46 ∈ d := by
  rw [hostLine_domain h, words_append hip.not_space hip.1 (by decide)]
  unfold shortName
  dsimp only
  split_ifs with hlabel
  · rw [Bool.and_eq_true, decide_eq_true_eq, decide_eq_true_eq] at hlabel
    have hnot : 46 ∉ d.takeWhile (· ≠ 46) := fun hmem => by simpa using List.mem_takeWhile_imp hmem
    have hdot : 46 ∈ d := by
      by_contra hdot
      have hall : d.takeWhile (· ≠ 46) = d := List.takeWhile_eq_self_iff.2 fun c hc => by
        rw [decide_eq_true_eq]
        rintro rfl
        exact hdot hc
      rw [hall] at hlabel
      exact lt_irrefl _ hlabel.2
    have hspace : ∀ c ∈ d.takeWhile (· ≠ 46), isWhite c = false := fun c hc =>
      h.not_space c ((List.takeWhile_prefix _).subset hc)
    rw [words_append h.not_space h.1 (by decide), words_of_forall hspace hlabel.1]
    exact ⟨_, rfl, fun n hn => by rw [List.mem_singleton.1 hn]; exact ⟨hnot, hdot⟩⟩
  · rw [List.append_nil, words_of_forall h.not_space h.1]
    exact ⟨[], rfl, fun n hn => absurd hn List.not_mem_nil⟩

/-- The keys are addresses, and the names are on one line. -/
def LegalMap (m : AList fun _ : Bytes => Bytes) : Prop :=
  ∀ ip name, m.lookup ip = some name → IsAddress ip ∧ 10 ∉ name

theorem LegalMap.insert {m : AList fun _ : Bytes => Bytes} (h : LegalMap m) {ip name : Bytes}
    (hip : IsAddress ip) (hname : 10 ∉ name) : LegalMap (m.insert ip name) := by
  intro ip' name' hlookup
  by_cases he : ip' = ip
  · subst he
    rw [AList.lookup_insert, Option.some.injEq] at hlookup
    exact ⟨hip, hlookup ▸ hname⟩
  · rw [AList.lookup_insert_ne he] at hlookup
    exact h ip' name' hlookup

theorem legalMap_gateway (c : MailConf) : LegalMap (hostMap c []) := by
  have hempty : LegalMap ∅ := fun ip name h => by cases h
  have hlocal : LegalMap (AList.singleton (bytes "127.0.0.1")
      (bytes "localhost.localdomain localhost")) :=
    hempty.insert (by decide) (by decide)
  have hinternal : IsAddress (orElse c.mailGatewayInternalIP (bytes "10.4.3.7")) := by
    unfold orElse
    split_ifs with htrue
    · rcases c.legal_gateway.2.2 with hnil | hlegal
      · rw [hnil] at htrue
        cases htrue
      · exact hlegal
    · decide
  unfold hostMap
  dsimp only [List.foldl_nil]
  split
  · rename_i ip hostname hip hhostname
    exact hlocal.insert (c.legal_gateway.1 ip hip) (c.legal_gateway.2.1 hostname hhostname)
  · exact hlocal.insert hinternal (by decide)

theorem legalMap_hostMap (horder : order.Perm c.protectDomain.entries) :
    LegalMap (hostMap c order) := by
  have hservers : ∀ e ∈ order, IsDomain e.1 ∧ IsAddress e.2.ip := fun e he =>
    ⟨(c.legal_protect e (horder.mem_iff.1 he)).1, (c.legal_protect e (horder.mem_iff.1 he)).2.1⟩
  have hfold : ∀ es : List Entry, (∀ e ∈ es, IsDomain e.1 ∧ IsAddress e.2.ip) → ∀ m, LegalMap m →
      LegalMap (es.foldl (fun m e => m.insert e.2.ip e.1) m) := by
    intro es
    induction es with
    | nil => exact fun _ m hm => hm
    | cons e es ih =>
      intro hes m hm
      obtain ⟨he, hes⟩ := List.forall_mem_cons.1 hes
      exact ih hes _ (hm.insert he.2 (he.1.not_mem (by decide)))
  exact hfold order hservers _ (legalMap_gateway c)

theorem hostMap_ne_nil (c : MailConf) (order : List Entry) : (hostMap c order).entries ≠ [] := by
  unfold hostMap
  dsimp only
  rcases List.eq_nil_or_concat' order with rfl | ⟨order, e, rfl⟩
  · rw [List.foldl_nil]
    split
    · exact List.cons_ne_nil _ _
    · exact List.cons_ne_nil _ _
  · rw [List.foldl_append]
    exact List.cons_ne_nil _ _

theorem hostLine_legal {ip name : Bytes} (hip : IsAddress ip) (hname : 10 ∉ name) :
    10 ∉ hostLine ⟨ip, name⟩ ∧ ∃ rest, words (hostLine ⟨ip, name⟩) = ip :: rest := by
  have htrim : 10 ∉ (name.dropWhile isWhite).rdropWhile isWhite := fun hmem =>
    hname ((List.dropWhile_suffix _).subset ((List.rdropWhile_prefix _ _).subset hmem))
  have hshort : 10 ∉ shortName ((name.dropWhile isWhite).rdropWhile isWhite) := by
    unfold shortName
    dsimp only
    split_ifs
    · rw [List.mem_cons, not_or]
      exact ⟨by decide, fun hmem => htrim ((List.takeWhile_prefix _).subset hmem)⟩
    · exact List.not_mem_nil
  have haddress : 10 ∉ ip := hip.not_mem (by decide) (by decide)
  constructor
  · unfold hostLine
    dsimp only
    split_ifs
    · simp [haddress, htrim]
    · simp [haddress, htrim, hshort]
  · unfold hostLine
    dsimp only
    rw [List.append_assoc, List.cons_append]
    exact ⟨_, words_append hip.not_space hip.1 (by decide) _⟩

/-- A line of the file is that of an entry. -/
theorem resolves_fileUpdateHosts_iff
    {each : List (Sigma fun _ : Bytes => Bytes) → List (Sigma fun _ : Bytes => Bytes)}
    (heach : ∀ l, (each l).Perm l) (horder : order.Perm c.protectDomain.entries)
    (old : Option Bytes) {d ip : Bytes} :
    Resolves (fileUpdateHosts anyMode each c order old) d ip ↔
      ∃ name, (hostMap c order).lookup ip = some name ∧
        ∃ names, words (hostLine ⟨ip, name⟩) = ip :: names ∧ d ∈ names := by
  have hperm := heach (hostMap c order).entries
  have hlegal : ∀ e ∈ each (hostMap c order).entries, IsAddress e.1 ∧ 10 ∉ e.2 := fun e he =>
    legalMap_hostMap horder e.1 e.2 (AList.mem_lookup_iff.2 (hperm.mem_iff.1 he))
  have htext : (each (hostMap c order).entries).flatMap (fun e => hostLine e ++ [10]) =
      columnText 10 ((each (hostMap c order).entries).map hostLine) := by
    rw [columnText, List.flatMap_map]
  have htrue : isTrue (columnText 10 ((each (hostMap c order).entries).map hostLine)) = true := by
    have hne : each (hostMap c order).entries ≠ [] := by
      intro hnil
      rw [hnil] at hperm
      exact hostMap_ne_nil c order (List.nil_perm.1 hperm)
    obtain ⟨e, rest, he⟩ := List.exists_cons_of_ne_nil hne
    refine isTrue_of_mem (c := 10) ?_ (by decide)
    rw [he, List.map_cons, columnText_cons]
    simp
  have hlines : ∀ l ∈ (each (hostMap c order).entries).map hostLine, l ≠ [] ∧ 10 ∉ l :=
    List.forall_mem_map.2 fun e he =>
      ⟨by simp [hostLine], (hostLine_legal (hlegal e he).1 (hlegal e he).2).1⟩
  rw [Resolves, fileUpdateHosts, htext, writeFile_anyMode (by decide) htrue,
    controlLines_columnText hlines]
  constructor
  · rintro ⟨line, hline, names, hwords, hd⟩
    obtain ⟨e, he, rfl⟩ := List.mem_map.1 hline
    obtain ⟨rest, hrest⟩ := (hostLine_legal (hlegal e he).1 (hlegal e he).2).2
    obtain rfl : e.1 = ip := by
      rw [hrest] at hwords
      exact (List.cons.inj hwords).1
    exact ⟨e.2, AList.mem_lookup_iff.2 (hperm.mem_iff.1 he), names, hwords, hd⟩
  · rintro ⟨name, hlookup, names, hwords, hd⟩
    have he : (⟨ip, name⟩ : Sigma fun _ : Bytes => Bytes) ∈ each (hostMap c order).entries :=
      hperm.mem_iff.2 (AList.mem_lookup_iff.1 hlookup)
    exact ⟨_, List.mem_map_of_mem he, names, hwords, hd⟩

/-- With the domain last in the order, its server has it in the hosts file. -/
theorem lookup_hostMap_last (c : MailConf) (before : List Entry) (e : Entry) :
    (hostMap c (before ++ [e])).lookup e.2.ip = some e.1 :=
  lookup_foldl_insert fun _ h => absurd h List.not_mem_nil

/-- A domain has one server. -/
theorem eq_of_fst_eq {e e' : Entry} (he : e ∈ c.protectDomain.entries)
    (he' : e' ∈ c.protectDomain.entries) (h : e.1 = e'.1) : e = e' := by
  obtain ⟨d, s⟩ := e
  obtain ⟨d', s'⟩ := e'
  obtain rfl : d = d' := h
  exact congrArg _ (c.protectDomain.nodupKeys.eq_of_mk_mem he he')

/-- Of two domains with one server, the one that comes earlier is named at most as a short name. -/
theorem dot_of_resolves {e e' : Entry} (he : e ∈ c.protectDomain.entries)
    (he' : e' ∈ c.protectDomain.entries) (hne : e ≠ e') (hip : e.2.ip = e'.2.ip)
    (old : Option Bytes) (h : ∀ order each, order.Perm c.protectDomain.entries →
      (∀ l, (each l).Perm l) → ∀ e ∈ c.protectDomain.entries,
        Resolves (fileUpdateHosts anyMode each c order old) e.1 e.2.ip) :
    46 ∉ e'.1 ∧ 46 ∈ e.1 := by
  have horder : (c.protectDomain.entries.erase e ++ [e]).Perm c.protectDomain.entries :=
    (List.perm_append_singleton e _).trans (List.perm_cons_erase he).symm
  have hresolves := h _ id horder (fun l => List.Perm.refl l) e' he'
  have hid : ∀ l : List (Sigma fun _ : Bytes => Bytes), (id l).Perm l := fun l => List.Perm.refl l
  rw [← hip, resolves_fileUpdateHosts_iff hid horder, lookup_hostMap_last] at hresolves
  obtain ⟨name, hname, names, hwords, hmem⟩ := hresolves
  obtain rfl := Option.some.inj hname
  obtain ⟨hdomain, haddress, -⟩ := c.legal_protect e he
  obtain ⟨names', hwords', hshort⟩ := words_hostLine haddress hdomain
  rw [hwords'] at hwords
  obtain rfl := (List.cons.inj hwords).2
  rcases List.mem_cons.1 hmem with hkey | hmem
  · exact absurd (eq_of_fst_eq he he' hkey.symm) hne
  · exact hshort _ hmem

/-- Every protected domain has its entry, in every order, exactly if no two have the same server. -/
theorem hosts_iff (c : MailConf) (old : Option Bytes) :
    (∀ order each, order.Perm c.protectDomain.entries → (∀ l, (each l).Perm l) →
      ∀ e ∈ c.protectDomain.entries,
        Resolves (fileUpdateHosts anyMode each c order old) e.1 e.2.ip) ↔
      ∀ e ∈ c.protectDomain.entries, ∀ e' ∈ c.protectDomain.entries, e.2.ip = e'.2.ip → e = e' := by
  constructor
  · intro h e he e' he' hip
    by_contra hne
    have hdot := dot_of_resolves he he' hne hip old h
    have hdot' := dot_of_resolves he' he (Ne.symm hne) hip.symm old h
    exact hdot.1 hdot'.2
  · intro h order each horder heach e he
    rw [resolves_fileUpdateHosts_iff heach horder]
    obtain ⟨before, after, rfl⟩ := List.append_of_mem (horder.mem_iff.2 he)
    have hafter : ∀ e' ∈ after, e'.2.ip ≠ e.2.ip := by
      intro e' he' hip
      have hmem : e' ∈ before ++ e :: after := by simp [he']
      obtain rfl := h e he e' (horder.mem_iff.1 hmem) hip.symm
      have hnodup : (before ++ e :: after).Nodup :=
        horder.nodup_iff.2 c.protectDomain.nodupKeys.nodup
      exact (List.nodup_cons.1 (List.nodup_append.1 hnodup).2.1).1 he'
    obtain ⟨hdomain, haddress, -⟩ := c.legal_protect e he
    obtain ⟨names, hwords, -⟩ := words_hostLine haddress hdomain
    exact ⟨e.1, lookup_foldl_insert hafter, _, hwords, List.mem_cons_self⟩

end Generators

/-- With an `open` that takes any mode, the control files follow the configuration, whatever the
orders of the hashes, exactly for the configurations and files that the generators can deal with. -/
theorem agree_iff_settled (c : MailConf) (f : Files) :
    (∀ order each, order.Perm c.protectDomain.entries → (∀ l, (each l).Perm l) →
      Agree c (protectDomainReset anyMode each c order f)) ↔ Settled c f := by
  constructor
  · intro h
    have hself := h c.protectDomain.entries id (List.Perm.refl _) fun l => List.Perm.refl l
    have hrcpt := (rcpthosts_iff (List.Perm.refl _) f.rcpthosts).1 hself.rcpthosts
    exact ⟨hrcpt.1, hrcpt.2, (smtproutes_iff (List.Perm.refl _) f.smtproutes).1 hself.smtproutes,
      (hosts_iff c f.hosts).1 fun order each horder heach => (h order each horder heach).hosts⟩
  · intro h order each horder heach
    exact ⟨(rcpthosts_iff horder f.rcpthosts).2 ⟨h.rcpthosts, h.lookalike⟩,
      (smtproutes_iff horder f.smtproutes).2 h.smtproutes,
      (hosts_iff c f.hosts).2 h.hosts order each horder heach⟩

theorem protectDomainReset_isOpenMode
    (each : List (Sigma fun _ : Bytes => Bytes) → List (Sigma fun _ : Bytes => Bytes))
    (c : MailConf) (order : List Entry) (f : Files) :
    protectDomainReset isOpenMode each c order f = f := by
  have hrcpthosts : fileUpdateRcpthosts isOpenMode (order.map Sigma.fst) c.virtualText f.rcpthosts =
      f.rcpthosts := by
    unfold fileUpdateRcpthosts
    split_ifs
    · rfl
    · cases c.virtualText with
      | none => rfl
      | some text => exact writeFile_isOpenMode (by decide) _ _
  have hsmtproutes : fileUpdateSmtproutes isOpenMode order f.smtproutes = f.smtproutes := by
    unfold fileUpdateSmtproutes
    split_ifs
    · rfl
    · exact writeFile_isOpenMode (by decide) _ _
  have hhosts : fileUpdateHosts isOpenMode each c order f.hosts = f.hosts :=
    writeFile_isOpenMode (by decide) _ _
  rw [protectDomainReset, hrcpthosts, hsmtproutes, hhosts]

/-- **The control files follow the configuration**, whatever the orders of the hashes, exactly if
they did before. -/
theorem agree_iff (c : MailConf) (f : Files) :
    (∀ order each, order.Perm c.protectDomain.entries → (∀ l, (each l).Perm l) →
      Agree c (protectDomainReset isOpenMode each c order f)) ↔ Agree c f := by
  constructor
  · intro h
    have hself := h c.protectDomain.entries id (List.Perm.refl _) fun l => List.Perm.refl l
    rwa [protectDomainReset_isOpenMode] at hself
  · intro h order each _ _
    rwa [protectDomainReset_isOpenMode]

/-- One protected domain. -/
def oneDomain : MailConf where
  protectDomain := AList.singleton (bytes "a.cn") ⟨bytes "10.0.0.1", bytes "25"⟩
  virtualdomains := some []
  legal_protect := by decide +kernel
  legal_gateway := by decide +kernel
  legal_virtual := by decide +kernel

/-- The list of domains is not written. -/
theorem not_agree_oneDomain :
    ¬Agree oneDomain
      (protectDomainReset isOpenMode id oneDomain oneDomain.protectDomain.entries {}) := by
  rw [protectDomainReset_isOpenMode]
  intro h
  have hlisted : bytes "a.cn" ∈ controlLines none := (h.rcpthosts _).2 (Or.inl (by decide))
  exact absurd hlisted (by decide)

end NoSpam.Domain
