import NoSpam.Admin.Domains

/-!
# The limits of the licence on domains

In a section whose domains have names that can be told apart, the patterns find the configured
domains and no others, so the totals that the pages compute are the true ones.  A run of requests
each of which is regular keeps the section so, and every request of it is treated as the licence
asks for (`licensed_of_meets`).
-/

namespace NoSpam.Admin.Domains

open Text Php ConfFile

variable {sec : Section} {k k' : Kind} {d d' f f' key : Bytes}

/-! ## Keys -/

theorem Kind.not_mem_of_mem_fields (k : Kind) : ∀ f ∈ k.fields, 95 ∉ f ∧ 10 ∉ f ∧ 61 ∉ f := by
  cases k <;> decide

theorem Kind.isEnds (k : Kind) : Pattern.Ends 95 k.ends := by
  intro e he
  obtain ⟨f, hf, rfl⟩ := List.mem_map.1 he
  exact ⟨f, rfl, (k.not_mem_of_mem_fields f hf).1⟩

theorem Kind.domain_eq_some_iff : k.domain key = some d ↔ ∃ f ∈ k.fields, key = k.key d f := by
  rw [domain, Pattern.between_eq_some_iff k.isEnds]
  constructor
  · rintro ⟨e, he, rfl⟩
    obtain ⟨f, hf, rfl⟩ := List.mem_map.1 he
    exact ⟨f, hf, rfl⟩
  · rintro ⟨f, hf, rfl⟩
    exact ⟨95 :: f, List.mem_map_of_mem hf, rfl⟩

theorem Kind.capture_key (hf : f ∈ k.fields) (hd : d ≠ []) (hnl : 10 ∉ d) :
    k.capture (k.key d f) = some d := by
  have hfield := (k.not_mem_of_mem_fields f hf).2.1
  exact Pattern.capture_append k.isEnds (List.mem_map_of_mem hf) hd hnl (by simpa using hfield)

theorem Kind.key_inj (hf : f ∈ k.fields) (hf' : f' ∈ k.fields) :
    k.key d f = k.key d' f' ↔ d = d' ∧ f = f' := by
  constructor
  · intro h
    exact Pattern.append_cons_cancel (k.not_mem_of_mem_fields f hf).1
      (k.not_mem_of_mem_fields f' hf').1 (List.append_cancel_left h)
  · rintro ⟨rfl, rfl⟩
    rfl

theorem Kind.head?_key (k : Kind) (d f : Bytes) : (k.key d f).head? = k.stem.head? := by
  cases k <;> rfl

theorem Kind.key_ne (h : k ≠ k') (d f d' f' : Bytes) : k.key d f ≠ k'.key d' f' := by
  intro heq
  have hhead := congrArg List.head? heq
  rw [head?_key, head?_key] at hhead
  revert h hhead
  cases k <;> cases k' <;> decide

theorem Kind.mem_domains : d ∈ k.domains sec ↔ ∃ f ∈ k.fields, k.key d f ∈ keys sec := by
  rw [domains, List.mem_toFinset, List.mem_filterMap]
  constructor
  · rintro ⟨key, hkey, hd⟩
    obtain ⟨f, hf, rfl⟩ := domain_eq_some_iff.1 hd
    exact ⟨f, hf, hkey⟩
  · rintro ⟨f, hf, hkey⟩
    exact ⟨_, hkey, domain_eq_some_iff.2 ⟨f, hf, rfl⟩⟩

theorem mem_configured : d ∈ configured sec ↔ ∃ k : Kind, d ∈ k.domains sec := by
  rw [configured, Finset.mem_union]
  constructor
  · rintro (h | h)
    exacts [⟨_, h⟩, ⟨_, h⟩]
  · rintro ⟨k, h⟩
    cases k
    exacts [Or.inl h, Or.inr h]

theorem mem_keys_iff {sec : Section} : key ∈ keys sec ↔ sec.lookup key ≠ none := by
  rw [keys, List.mem_map]
  constructor
  · rintro ⟨e, he, rfl⟩ hnone
    rw [Assoc.mem_entries_iff.1 he] at hnone
    cases hnone
  · intro h
    obtain ⟨v, hv⟩ := Option.ne_none_iff_exists'.1 h
    exact ⟨(key, v), Assoc.mem_entries_iff.2 hv, rfl⟩

/-! ## What the loops find -/

/-- A section where the patterns find the names, and no two names are taken for one. -/
structure Tidy (sec : Section) : Prop where
  capture : ∀ key ∈ keys sec, ∀ k : Kind, k.capture key = k.domain key
  distinct : ∀ d ∈ configured sec, ∀ d' ∈ configured sec, looseEq d d' = true → d = d'

theorem foldl_addRound {m : Bytes → Option Bytes} {S : Finset Bytes}
    (hS : ∀ a ∈ S, ∀ b ∈ S, looseEq a b = true → a = b) {ks : List Bytes}
    (hks : ∀ key ∈ ks, ∀ d, m key = some d → d ∈ S) {ds : List Bytes} (hds : ∀ d ∈ ds, d ∈ S)
    (hnodup : ds.Nodup) :
    (ks.foldl (addRound m) ds).Nodup ∧
      ∀ d, d ∈ ks.foldl (addRound m) ds ↔ d ∈ ds ∨ ∃ key ∈ ks, m key = some d := by
  induction ks generalizing ds with
  | nil => exact ⟨hnodup, fun d => by simp⟩
  | cons key ks ih =>
    obtain ⟨hkey, hks⟩ := List.forall_mem_cons.1 hks
    rw [List.foldl_cons, addRound]
    cases hm : m key with
    | none =>
      refine ⟨(ih hks hds hnodup).1, fun d => ?_⟩
      rw [(ih hks hds hnodup).2]
      simp [hm]
    | some d₀ =>
      have hd₀ := hkey d₀ hm
      have hin : inArray d₀ ds = true ↔ d₀ ∈ ds := by
        rw [inArray, List.any_eq_true]
        constructor
        · rintro ⟨d, hd, heq⟩
          rwa [hS d₀ hd₀ d (hds d hd) heq]
        · exact fun h => ⟨d₀, h, looseEq_self d₀⟩
      simp only [hin]
      split_ifs with hmem
      · refine ⟨(ih hks hds hnodup).1, fun d => ?_⟩
        rw [(ih hks hds hnodup).2]
        constructor
        · rintro (h | ⟨key', hkey', h⟩)
          · exact Or.inl h
          · exact Or.inr ⟨key', List.mem_cons_of_mem _ hkey', h⟩
        · rintro (h | ⟨key', hkey', h⟩)
          · exact Or.inl h
          · rcases List.mem_cons.1 hkey' with rfl | hkey'
            · rw [hm] at h
              exact Or.inl (Option.some.inj h ▸ hmem)
            · exact Or.inr ⟨key', hkey', h⟩
      · have hds' : ∀ d ∈ ds ++ [d₀], d ∈ S := by
          simpa [or_imp, forall_and] using ⟨hds, hd₀⟩
        have hnodup' : (ds ++ [d₀]).Nodup := by
          simpa [List.nodup_append] using ⟨hnodup, fun d hd h => hmem (h ▸ hd)⟩
        refine ⟨(ih hks hds' hnodup').1, fun d => ?_⟩
        rw [(ih hks hds' hnodup').2]
        simp [hm, or_assoc, eq_comm]

theorem Kind.domain_ne (h : k ≠ k') (hd : k.domain key = some d) : k'.domain key = none := by
  refine Option.eq_none_iff_forall_ne_some.2 fun d' hd' => ?_
  obtain ⟨f, -, rfl⟩ := domain_eq_some_iff.1 hd
  obtain ⟨f', -, heq⟩ := domain_eq_some_iff.1 hd'
  exact key_ne h d f d' f' heq

theorem Kind.mem_domains_of_domain (hkey : key ∈ keys sec) (hd : k.domain key = some d) :
    d ∈ k.domains sec := by
  rw [domains, List.mem_toFinset, List.mem_filterMap]
  exact ⟨key, hkey, hd⟩

/-- `save` of `mailserver.ns` finds the virtual domains. -/
theorem Tidy.vDomains (h : Tidy sec) :
    (vDomains sec).Nodup ∧ (vDomains sec).toFinset = Kind.virtual.domains sec := by
  have hfound : ∀ key ∈ keys sec, ∀ d, Kind.virtual.capture key = some d → d ∈ configured sec := by
    intro key hkey d hd
    rw [h.capture key hkey] at hd
    exact mem_configured.2 ⟨_, Kind.mem_domains_of_domain hkey hd⟩
  obtain ⟨hnodup, hmem⟩ := @foldl_addRound _ _ h.distinct _ hfound [] (by simp) List.nodup_nil
  refine ⟨hnodup, Finset.ext fun d => ?_⟩
  rw [List.mem_toFinset, Domains.vDomains, virtualRound, hmem, Kind.domains, List.mem_toFinset,
    List.mem_filterMap]
  simp only [List.not_mem_nil, false_or]
  exact exists_congr fun key => and_congr_right fun hkey => by rw [h.capture key hkey]

theorem Tidy.domainRound (h : Tidy sec) (hkey : key ∈ keys sec) (ds : List Bytes) :
    domainRound ds key =
      addRound (fun key => (Kind.protect.domain key).or (Kind.virtual.domain key)) ds key := by
  rw [Domains.domainRound, virtualRound, addRound, addRound, h.capture key hkey]
  cases hd : Kind.protect.domain key with
  | none =>
    rw [Option.none_or, h.capture key hkey]
  | some d =>
    have hnone : Kind.virtual.capture key = none := by
      rw [h.capture key hkey]
      exact Kind.domain_ne (by decide) hd
    simp only [Option.some_or, addRound, hnone]

/-- `check_new_domain` counts the configured domains. -/
theorem Tidy.length_domains (h : Tidy sec) :
    ((keys sec).foldl Domains.domainRound []).length = (configured sec).card := by
  have hround : (keys sec).foldl Domains.domainRound [] = (keys sec).foldl
      (addRound fun key => (Kind.protect.domain key).or (Kind.virtual.domain key)) [] :=
    List.foldl_ext _ _ _ fun ds key hkey => h.domainRound hkey ds
  have hfound : ∀ key ∈ keys sec, ∀ d,
      (Kind.protect.domain key).or (Kind.virtual.domain key) = some d → d ∈ configured sec := by
    intro key hkey d hd
    rcases Option.or_eq_some_iff.1 hd with hd | ⟨-, hd⟩
    · exact mem_configured.2 ⟨_, Kind.mem_domains_of_domain hkey hd⟩
    · exact mem_configured.2 ⟨_, Kind.mem_domains_of_domain hkey hd⟩
  obtain ⟨hnodup, hmem⟩ := @foldl_addRound _ _ h.distinct _ hfound [] (by simp) List.nodup_nil
  rw [hround, ← List.toFinset_card_of_nodup hnodup]
  congr 1
  refine Finset.ext fun d => ?_
  rw [List.mem_toFinset, hmem, configured, Finset.mem_union, Kind.domains, Kind.domains,
    List.mem_toFinset, List.mem_toFinset, List.mem_filterMap, List.mem_filterMap]
  simp only [List.not_mem_nil, false_or]
  constructor
  · rintro ⟨key, hkey, hd⟩
    rcases Option.or_eq_some_iff.1 hd with hd | ⟨-, hd⟩
    exacts [Or.inl ⟨key, hkey, hd⟩, Or.inr ⟨key, hkey, hd⟩]
  · rintro (⟨key, hkey, hd⟩ | ⟨key, hkey, hd⟩)
    · exact ⟨key, hkey, by rw [hd, Option.some_or]⟩
    · have hnone : Kind.protect.domain key = none := Kind.domain_ne (by decide) hd
      exact ⟨key, hkey, by rw [hnone, hd, Option.none_or]⟩

/-! ## A domain is set -/

/-- The section with the keys of a domain set. -/
structure IsSet (k : Kind) (d : Bytes) (sec sec' : Section) : Prop where
  keys : ∀ key, key ∈ keys sec' ↔ key ∈ keys sec ∨ ∃ f ∈ k.fields, key = k.key d f
  other : ∀ key, (∀ f ∈ k.fields, key ≠ k.key d f) → sec'.lookup key = sec.lookup key

section IsSet

variable {sec' : Section}

theorem IsSet.domains_self (h : IsSet k d sec sec') :
    k.domains sec' = insert d (k.domains sec) := by
  refine Finset.ext fun d' => ?_
  rw [Finset.mem_insert, Kind.mem_domains, Kind.mem_domains]
  simp only [h.keys]
  constructor
  · rintro ⟨f, hf, hkey | ⟨f', hf', heq⟩⟩
    · exact Or.inr ⟨f, hf, hkey⟩
    · exact Or.inl ((Kind.key_inj hf hf').1 heq).1
  · rintro (rfl | ⟨f, hf, hkey⟩)
    · obtain ⟨f, hf⟩ : ∃ f, f ∈ k.fields := by cases k <;> exact ⟨_, List.mem_cons_self⟩
      exact ⟨f, hf, Or.inr ⟨f, hf, rfl⟩⟩
    · exact ⟨f, hf, Or.inl hkey⟩

theorem IsSet.domains_of_ne (h : IsSet k d sec sec') (hk : k' ≠ k) :
    k'.domains sec' = k'.domains sec := by
  refine Finset.ext fun d' => ?_
  rw [Kind.mem_domains, Kind.mem_domains]
  simp only [h.keys]
  refine exists_congr fun f => and_congr_right fun _ => or_iff_left ?_
  rintro ⟨f', -, heq⟩
  exact Kind.key_ne hk d' f d f' heq

theorem IsSet.configured (h : IsSet k d sec sec') :
    Domains.configured sec' = insert d (Domains.configured sec) := by
  rw [Domains.configured, Domains.configured]
  cases k with
  | protect => rw [h.domains_self, h.domains_of_ne (by decide), Finset.insert_union]
  | virtual => rw [h.domains_self, h.domains_of_ne (by decide), Finset.union_insert]

theorem IsSet.card_configured (h : IsSet k d sec sec') :
    (Domains.configured sec').card =
      (Domains.configured sec).card + if d ∈ Domains.configured sec then 0 else 1 := by
  rw [h.configured]
  split_ifs with hd
  · rw [Finset.insert_eq_of_mem hd, Nat.add_zero]
  · rw [Finset.card_insert_of_notMem hd]

/-- What is kept of the other domains stays, and so does all that is kept in keys of another
kind. -/
theorem IsSet.lookup_key (h : IsSet k d sec sec') (hne : k' = k → d' ≠ d) (hf : f ∈ k'.fields) :
    sec'.lookup (k'.key d' f) = sec.lookup (k'.key d' f) := by
  refine h.other _ fun f' hf' heq => ?_
  rcases Decidable.em (k' = k) with rfl | hk
  · exact hne rfl ((Kind.key_inj hf hf').1 heq).1
  · exact Kind.key_ne hk d' f d f' heq

theorem IsSet.userLimit (h : IsSet k d sec sec') (hne : Kind.virtual = k → d' ≠ d) :
    userLimit sec' d' = userLimit sec d' := by
  rw [Domains.userLimit, Domains.userLimit, h.lookup_key hne (by decide)]

theorem IsSet.quotaLimit (h : IsSet k d sec sec') (hne : Kind.virtual = k → d' ≠ d) :
    quotaLimit sec' d' = quotaLimit sec d' := by
  rw [Domains.quotaLimit, Domains.quotaLimit, h.lookup_key hne (by decide)]

/-- A name that can be told from the others keeps the section tidy. -/
theorem IsSet.tidy (h : IsSet k d sec sec') (htidy : Tidy sec) (hfits : Fits sec k d) :
    Tidy sec' := by
  refine ⟨fun key hkey k' => ?_, fun a ha b hb heq => ?_⟩
  · rcases (h.keys key).1 hkey with hkey | ⟨f, hf, rfl⟩
    · exact htidy.capture key hkey k'
    · have hdomain : k.domain (k.key d f) = some d := Kind.domain_eq_some_iff.2 ⟨f, hf, rfl⟩
      rcases Decidable.em (k' = k) with rfl | hk
      · rw [Kind.capture_key hf hfits.ne_nil hfits.newline_not_mem, hdomain]
      · have hother : k' = k.other := by
          revert hk
          cases k <;> cases k' <;> decide
        rw [hother, hfits.alone f hf, Kind.domain_ne (hother ▸ Ne.symm hk) hdomain]
  · rw [h.configured, Finset.mem_insert] at ha hb
    rcases ha with rfl | ha <;> rcases hb with rfl | hb
    · rfl
    · exact hfits.distinct b hb heq
    · exact (hfits.distinct a ha (looseEq_comm a b ▸ heq)).symm
    · exact htidy.distinct a ha b hb heq

end IsSet

/-! ## The checks -/

section Checks

variable {L : License} {e : Refusal}

theorem inRestrictList_iff :
    inRestrictList d ((trim L.RestrictDomainList).splitOn 44) = true ↔ FirstListed L d := by
  obtain ⟨buf, bufs, hsplit⟩ := List.exists_cons_of_ne_nil
    (List.splitOn_ne_nil 44 (trim L.RestrictDomainList))
  rw [FirstListed, hsplit]
  exact decide_eq_true_iff

theorem FirstListed.listed (h : FirstListed L d) : Listed L d := by
  obtain ⟨buf, bufs, hsplit⟩ := List.exists_cons_of_ne_nil
    (List.splitOn_ne_nil 44 (trim L.RestrictDomainList))
  rw [FirstListed, hsplit] at h
  exact ⟨buf, hsplit ▸ List.mem_cons_self, h⟩

theorem Checked.listed (hc : Checked L sec d) (h : check_new_domain L sec d = none)
    (hlist : L.RestrictDomainList ≠ []) : Listed L d := by
  by_contra hnot
  obtain ⟨htrue, hdomain⟩ := hc.unlisted hlist hnot
  have hfirst : ¬inRestrictList d ((trim L.RestrictDomainList).splitOn 44) = true := fun h =>
    hnot (inRestrictList_iff.1 h).listed
  rw [check_new_domain, htrue, hdomain, Bool.eq_false_of_not_eq_true hfirst] at h
  cases h

theorem number_of_check (htidy : Tidy sec) (h : check_new_domain L sec d = none)
    (hmax : 0 ≤ L.MaxProtectDomainNumber) :
    ((configured sec).card : ℤ) + 1 ≤ L.MaxProtectDomainNumber := by
  rw [check_new_domain, htidy.length_domains] at h
  split_ifs at h with h₁ h₂ h₃
  · omega
  · omega

/-- What `check_new_domain` refuses would not respect the licence. -/
theorem Checked.not_within (hc : Checked L sec d) (htidy : Tidy sec) {sec' : Section}
    (hset : IsSet k d sec sec') (h : check_new_domain L sec d = some e) : ¬ Within L sec' := by
  intro hw
  rw [check_new_domain, htidy.length_domains] at h
  split_ifs at h with h₁ h₂ h₃
  · simp only [Bool.and_eq_true, Bool.not_eq_true'] at h₁
    obtain ⟨⟨hlist, hdomain⟩, hfirst⟩ := h₁
    have hne : L.RestrictDomainList ≠ [] := by
      rintro hnil
      rw [hnil] at hlist
      cases hlist
    have hlisted := hw.listed hne d (hset.configured ▸ Finset.mem_insert_self ..)
    have hin := inRestrictList_iff.2 (hc.first hne hlisted hlist hdomain)
    rw [hfirst] at hin
    cases hin
  · have hnumber := hw.number (by omega)
    rw [hset.card_configured] at hnumber
    split_ifs at hnumber with hd
    · have hlt := hc.number (by omega) hd
      omega
    · push_cast at hnumber
      omega

end Checks

/-! ## What is saved -/

theorem keys_mapVal (f : Bytes → Bytes) (sec : Section) : keys (sec.mapVal f) = keys sec := by
  rw [keys, keys, Assoc.mapVal, List.map_map]
  rfl

theorem sect_setParam (params : Params) (key value : Bytes) :
    sect (setParam params key value MailServer) MailServer =
      (sect params MailServer).put key value := by rw [setParam_eq, assign, sect_put]

/-- The keys and values that are set for a domain. -/
def entries (k : Kind) (d : Bytes) (values : List (Bytes × Bytes)) : List (Bytes × Bytes) :=
  values.map fun e => (k.key d e.1, e.2)

theorem sect_setDomain (params : Params) (values : List (Bytes × Bytes)) :
    sect (setDomain k d values params) MailServer =
      (entries k d values).foldl (fun sec e => sec.put e.1 e.2) (sect params MailServer) := by
  induction values generalizing params with
  | nil => rfl
  | cons e values ih =>
    rw [setDomain, List.foldl_cons, ← setDomain, ih, sect_setParam]
    rfl

theorem mem_map_fst_entries {values : List (Bytes × Bytes)} (h : values.map Prod.fst = k.fields) :
    key ∈ (entries k d values).map Prod.fst ↔ ∃ f ∈ k.fields, key = k.key d f := by
  have hmap : (entries k d values).map Prod.fst = k.fields.map (k.key d) := by
    rw [← h, entries, List.map_map, List.map_map]
    rfl
  rw [hmap, List.mem_map]
  exact exists_congr fun f => and_congr_right fun _ => eq_comm

theorem isSet_setDomain {values : List (Bytes × Bytes)} (h : values.map Prod.fst = k.fields)
    (params : Params) :
    IsSet k d (sect params MailServer) (sect (setDomain k d values params) MailServer) := by
  rw [sect_setDomain]
  refine ⟨fun key => ?_, fun key hkey => ?_⟩
  · rw [← mem_map_fst_entries h, mem_keys_iff, mem_keys_iff]
    rcases Decidable.em (key ∈ (entries k d values).map Prod.fst) with hmem | hmem
    · obtain ⟨v, hv⟩ := Assoc.exists_lookup_foldl_put (m := sect params MailServer) (Or.inl hmem)
      rw [hv]
      simp [hmem]
    · rw [Assoc.lookup_foldl_put_of_not_mem hmem]
      simp [hmem]
  · refine Assoc.lookup_foldl_put_of_not_mem fun hmem => ?_
    obtain ⟨f, hf, heq⟩ := (mem_map_fst_entries h).1 hmem
    exact hkey f hf heq

/-- Trimming the values of a section that was trimmed before a domain was set. -/
theorem IsSet.mapVal_trim {sec' : Section} (h : IsSet k d sec sec') (hsec : sec.mapVal trim = sec) :
    IsSet k d sec (sec'.mapVal trim) := by
  refine ⟨fun key => by rw [keys_mapVal, h.keys], fun key hkey => ?_⟩
  rw [Assoc.lookup_mapVal, h.other key hkey, ← Assoc.lookup_mapVal, hsec]

theorem ProtectForm.map_values (f : ProtectForm) :
    f.values.map Prod.fst = Kind.protect.fields := rfl

theorem VirtualForm.map_values (showFloat : ℤ → Bytes) (f : VirtualForm) :
    (f.values showFloat).map Prod.fst = Kind.virtual.fields := rfl

theorem trim_key (hf : f ∈ k.fields) : trim (k.key d f) = k.key d f := by
  have hfield : rtrim f = f := by
    revert hf
    revert f
    cases k <;> decide
  rw [Kind.key, ← List.append_assoc, trim, rtrim_append_cons rfl, hfield]
  cases k <;> rfl

/-- The row of a key is read back. -/
theorem isEntry_key (hf : f ∈ k.fields) (hnl : 10 ∉ d) (heq : 61 ∉ d) {value : Bytes}
    (hvalue : 10 ∉ value) : IsEntry (k.key d f) value := by
  have hfield := (k.not_mem_of_mem_fields f hf).2
  have hstem : 10 ∉ k.stem ∧ 61 ∉ k.stem := by cases k <;> decide
  have hhead : (k.key d f).head? ≠ some 35 ∧ (k.key d f).head? ≠ some 91 := by
    rw [k.head?_key]
    cases k <;> decide
  have hmem : ∀ c : UInt8, c ∉ k.stem → c ∉ d → c ≠ 95 → c ∉ f → c ∉ k.key d f := by
    intro c h₁ h₂ h₃ h₄
    simp [Kind.key, h₁, h₂, h₃, h₄]
  have hne : k.key d f ≠ [] := by cases k <;> simp [Kind.key]
  refine ⟨⟨⟨trim_key hf, hmem 10 hstem.1 hnl (by decide) hfield.1⟩, isLine_trim hvalue,
    hmem 61 hstem.2 heq (by decide) hfield.2, hhead.1, decide_eq_false fun h => ?_⟩, hvalue⟩
  rw [List.head?_append_of_ne_nil _ hne] at h
  exact hhead.2 h.1

theorem isLoose_setDomain {params : Params} (h : IsLoose params) (hnl : 10 ∉ d) (heq : 61 ∉ d)
    {values : List (Bytes × Bytes)} (hvalues : ∀ e ∈ values, e.1 ∈ k.fields ∧ 10 ∉ e.2) :
    IsLoose (setDomain k d values params) := by
  induction values generalizing params with
  | nil => exact h
  | cons e values ih =>
    obtain ⟨he, hvalues⟩ := List.forall_mem_cons.1 hvalues
    exact ih (isLoose_setParam h (by decide) (isEntry_key he.1 hnl heq he.2)) hvalues

/-- The section that is loaded after a domain was set. -/
theorem isSet_saved {file : Bytes} {values : List (Bytes × Bytes)}
    (h : values.map Prod.fst = k.fields) (hfits : Fits (domainSection file) k d)
    (hvalues : ∀ e ∈ values, 10 ∉ e.2) {Privilege : Option Bytes}
    (hperm : adminPerm Privilege PERM_ADMIN_WRITE = true) :
    domainSection (ConfFile.save Privilege (setDomain k d values (parseIni file)) file) =
        (sect (setDomain k d values (parseIni file)) MailServer).mapVal trim ∧
      IsSet k d (domainSection file)
        ((sect (setDomain k d values (parseIni file)) MailServer).mapVal trim) := by
  have hloose : IsLoose (setDomain k d values (parseIni file)) := by
    refine isLoose_setDomain (isConf_parseIni file).isLoose hfits.newline_not_mem hfits.eq_not_mem
      fun e he => ⟨?_, hvalues e he⟩
    exact h ▸ List.mem_map_of_mem he
  refine ⟨?_, (isSet_setDomain h _).mapVal_trim (sect_parseIni_mapVal_trim file MailServer)⟩
  rw [domainSection, save_of_adminPerm hperm, parseIni_trim, sect_parseIni_iniText hloose]

/-! ## The totals -/

theorem Fits.looseEq_iff (hfits : Fits sec k d) (hd' : d' ∈ configured sec) :
    looseEq d' d = true ↔ d' = d := by
  constructor
  · intro heq
    exact (hfits.distinct d' hd' (looseEq_comm d' d ▸ heq)).symm
  · rintro rfl
    exact looseEq_self d'

/-- The totals over the domains that a request leaves as they are. -/
theorem sum_others (htidy : Tidy sec) {f : VirtualForm} (hfits : Fits sec .virtual (trim f.Domain))
    (hnew : f.modify = false → trim f.Domain ∉ Kind.virtual.domains sec) (g : Bytes → ℤ) :
    ((f.others sec).map g).sum = ∑ d ∈ (Kind.virtual.domains sec).erase (trim f.Domain), g d := by
  obtain ⟨hnodup, hset⟩ := htidy.vDomains
  rw [VirtualForm.others, ← List.sum_toFinset g (hnodup.filter _), List.toFinset_filter, hset]
  refine Finset.sum_congr (Finset.ext fun d => ?_) fun _ _ => rfl
  rw [Finset.mem_filter, Finset.mem_erase, and_comm]
  refine and_congr_left fun hd => ?_
  have hconf : d ∈ configured sec := mem_configured.2 ⟨_, hd⟩
  have heq := hfits.looseEq_iff hconf
  cases hm : f.modify with
  | true => simp [Bool.eq_false_iff, heq]
  | false =>
    have hne : d ≠ trim f.Domain := by
      rintro rfl
      exact hnew hm hd
    simp [hne]

/-- A total after a virtual domain was set. -/
theorem IsSet.sum {sec' : Section} (h : IsSet .virtual d sec sec') {g g' : Bytes → ℤ}
    (hg : ∀ d', d' ≠ d → g' d' = g d') :
    ∑ x ∈ Kind.virtual.domains sec', g' x =
      ∑ x ∈ (Kind.virtual.domains sec).erase d, g x + g' d := by
  have hinsert : Kind.virtual.domains sec' = insert d ((Kind.virtual.domains sec).erase d) := by
    rw [h.domains_self]
    refine Finset.ext fun x => ?_
    rw [Finset.mem_insert, Finset.mem_insert, Finset.mem_erase]
    tauto
  rw [hinsert, Finset.sum_insert (Finset.notMem_erase d _), add_comm]
  congr 1
  exact Finset.sum_congr rfl fun x hx => hg x (Finset.ne_of_mem_erase hx)

/-! ## Saving -/

/-- What holds of the section in a run of regular requests. -/
structure Inv (L : License) (sec : Section) : Prop where
  tidy : Tidy sec
  within : Within L sec
  complete : ∀ d ∈ Kind.virtual.domains sec, Kind.virtual.key d (bytes "Quota") ∈ keys sec
  users_fit : L.MaxUser ≠ 0 → ∀ d ∈ Kind.virtual.domains sec,
    0 ≤ userLimit sec d ∧ userLimit sec d < 2 ^ 31
  quota_fits : L.MaxQuota ≠ 0 → ∀ d ∈ Kind.virtual.domains sec,
    0 ≤ quotaLimit sec d ∧ quotaLimit sec d < 2 ^ 31

theorem intval_trim_showInt (z : ℤ) : intval (trim (showInt z)) = z := by
  rcases Decidable.em (z = 0) with rfl | hz
  · rfl
  · have hval : intval (showInt z) = z := atoi_showInt z
    rw [intval_trim (by rwa [hval]), hval]

section Saving

variable {showFloat : ℤ → Bytes} {L : License} {sec' : Section}

theorem IsSet.number (hset : IsSet k d sec sec') (htidy : Tidy sec)
    (hcheck : check_new_domain L sec d = none) (hmax : 0 ≤ L.MaxProtectDomainNumber) :
    ((Domains.configured sec').card : ℤ) ≤ L.MaxProtectDomainNumber := by
  have hnumber := number_of_check htidy hcheck hmax
  rw [hset.card_configured]
  split_ifs <;> push_cast <;> omega

theorem IsSet.listed (hset : IsSet k d sec sec') (hin : Within L sec) (hc : Checked L sec d)
    (hcheck : check_new_domain L sec d = none) (hlist : L.RestrictDomainList ≠ []) :
    ∀ d' ∈ Domains.configured sec', Listed L d' := by
  intro d' hd'
  rw [hset.configured, Finset.mem_insert] at hd'
  rcases hd' with rfl | hd'
  · exact hc.listed hcheck hlist
  · exact hin.listed hlist d' hd'

theorem Inv.protect (h : Inv L sec) (hset : IsSet .protect d sec sec') (hfits : Fits sec .protect d)
    (hc : Checked L sec d) (hcheck : check_new_domain L sec d = none) : Inv L sec' := by
  have hdomains : Kind.virtual.domains sec' = Kind.virtual.domains sec :=
    hset.domains_of_ne (by decide)
  have husers : ∀ d', userLimit sec' d' = userLimit sec d' := fun d' => hset.userLimit (by simp)
  have hquota : ∀ d', quotaLimit sec' d' = quotaLimit sec d' := fun d' =>
    hset.quotaLimit (by simp)
  refine ⟨hset.tidy h.tidy hfits, ⟨hset.number h.tidy hcheck, hset.listed h.within hc hcheck,
    ?_, ?_, ?_⟩, ?_, ?_, ?_⟩
  all_goals simp only [hdomains, husers, hquota]
  · exact h.within.domains
  · exact h.within.users
  · exact h.within.quota
  · exact fun d' hd' => (hset.keys _).2 (Or.inl (h.complete d' hd'))
  · exact h.users_fit
  · exact h.quota_fits

/-- What the checks of `save` of `mailserver.ns` let pass. -/
theorem VirtualForm.of_refusal_eq_none {f : VirtualForm} (h : f.refusal L sec = none) :
    check_new_domain L sec (trim f.Domain) = none ∧
      (f.modify = false → ((vDomains sec).length : ℤ) ≠ L.MaxDomain ∧
        Kind.virtual.key (trim f.Domain) (bytes "Quota") ∉ keys sec) ∧
      (L.MaxUser ≠ 0 → 0 < long f.MaxUser ∧
        ((f.others sec).map (users sec)).sum + long f.MaxUser ≤ L.MaxUser) ∧
      (L.MaxQuota ≠ 0 → 0 < long f.Quota ∧
        ((f.others sec).map (Domains.quota sec)).sum + f.quota ≤ L.MaxQuota) := by
  rw [refusal] at h
  cases hcheck : check_new_domain L sec (trim f.Domain) with
  | some e =>
    rw [hcheck] at h
    cases h
  | none =>
    simp only [hcheck] at h
    split_ifs at h with h₁ h₂ h₃ h₄ h₅ h₆ h₇
    simp only [Bool.and_eq_true, Bool.not_eq_true', decide_eq_true_eq, not_and, ne_eq, not_le,
      not_lt] at h₁ h₂ h₃ h₄ h₅ h₆
    refine ⟨rfl, fun hm => ⟨h₁ hm, fun hmem => ?_⟩, fun hu => ⟨h₃ hu, h₄ hu⟩,
      fun hq => ⟨h₅ hq, h₆ hq⟩⟩
    exact h₂ hm (Option.isSome_iff_ne_none.2 (mem_keys_iff.1 hmem))

/-- What the checks of `save` of `mailserver.ns` refuse for a limit. -/
theorem VirtualForm.of_refusal_eq_some {f : VirtualForm} {e : Refusal}
    (h : f.refusal L sec = some e) (he : e.IsLimit) :
    check_new_domain L sec (trim f.Domain) = some e ∨
      (f.modify = false ∧ ((vDomains sec).length : ℤ) = L.MaxDomain) ∨
      (L.MaxUser ≠ 0 ∧ 0 < long f.MaxUser ∧
        L.MaxUser < ((f.others sec).map (users sec)).sum + long f.MaxUser) ∨
      (L.MaxQuota ≠ 0 ∧ 0 < long f.Quota ∧
        L.MaxQuota < ((f.others sec).map (Domains.quota sec)).sum + f.quota) := by
  rw [refusal] at h
  cases hcheck : check_new_domain L sec (trim f.Domain) with
  | some e' =>
    rw [hcheck] at h
    exact Or.inl h
  | none =>
    simp only [hcheck] at h
    split_ifs at h with h₁ h₂ h₃ h₄ h₅ h₆ h₇
    all_goals cases h
    all_goals simp only [Bool.and_eq_true, Bool.not_eq_true', decide_eq_true_eq, not_and,
      not_le] at *
    · exact Or.inr (Or.inl h₁)
    · exact he.elim
    · exact he.elim
    · exact Or.inr (Or.inr (Or.inl ⟨h₄.1, h₃ h₄.1, h₄.2⟩))
    · exact he.elim
    · exact Or.inr (Or.inr (Or.inr ⟨h₆.1, h₅ h₆.1, h₆.2⟩))
    · exact he.elim

theorem Inv.length_vDomains (h : Inv L sec) :
    ((vDomains sec).length : ℤ) = (Kind.virtual.domains sec).card := by
  obtain ⟨hnodup, hset⟩ := h.tidy.vDomains
  rw [← hset, List.toFinset_card_of_nodup hnodup]

/-- The users of the domains that a request leaves as they are. -/
theorem Inv.sum_users (h : Inv L sec) (hmax : L.MaxUser ≠ 0) {f : VirtualForm}
    (hfits : Fits sec .virtual (trim f.Domain))
    (hnew : f.modify = false → trim f.Domain ∉ Kind.virtual.domains sec) :
    ((f.others sec).map (users sec)).sum =
        ∑ d ∈ (Kind.virtual.domains sec).erase (trim f.Domain), userLimit sec d ∧
      0 ≤ ∑ d ∈ (Kind.virtual.domains sec).erase (trim f.Domain), userLimit sec d := by
  have hfit := fun d (hd : d ∈ (Kind.virtual.domains sec).erase (trim f.Domain)) =>
    h.users_fit hmax d (Finset.mem_of_mem_erase hd)
  refine ⟨?_, Finset.sum_nonneg fun d hd => (hfit d hd).1⟩
  rw [sum_others h.tidy hfits hnew]
  refine Finset.sum_congr rfl fun d hd => ?_
  obtain ⟨hlow, hhigh⟩ := hfit d hd
  exact long_eq_intval (le_trans (by decide) hlow) hhigh

/-- The quotas of the domains that a request leaves as they are. -/
theorem Inv.sum_quota (h : Inv L sec) (hmax : L.MaxQuota ≠ 0) {f : VirtualForm}
    (hfits : Fits sec .virtual (trim f.Domain))
    (hnew : f.modify = false → trim f.Domain ∉ Kind.virtual.domains sec) :
    ((f.others sec).map (Domains.quota sec)).sum =
        ∑ d ∈ (Kind.virtual.domains sec).erase (trim f.Domain), quotaLimit sec d ∧
      0 ≤ ∑ d ∈ (Kind.virtual.domains sec).erase (trim f.Domain), quotaLimit sec d := by
  have hfit := fun d (hd : d ∈ (Kind.virtual.domains sec).erase (trim f.Domain)) =>
    h.quota_fits hmax d (Finset.mem_of_mem_erase hd)
  refine ⟨?_, Finset.sum_nonneg fun d hd => (hfit d hd).1⟩
  rw [sum_others h.tidy hfits hnew]
  refine Finset.sum_congr rfl fun d hd => ?_
  obtain ⟨hlow, hhigh⟩ := hfit d hd
  exact long_eq_intval (le_trans (by decide) hlow) hhigh

/-- An accepted number of users is an integer, and fits into what is left. -/
theorem Inv.users_of_refusal (h : Inv L sec) {f : VirtualForm}
    (hreg : Regular showFloat L sec (.saveVirtual f)) (hnone : f.refusal L sec = none)
    (hmax : L.MaxUser ≠ 0) :
    0 < intval f.MaxUser ∧ intval f.MaxUser < 2 ^ 31 ∧
      ∑ x ∈ (Kind.virtual.domains sec).erase (trim f.Domain), userLimit sec x +
        intval f.MaxUser ≤ L.MaxUser := by
  obtain ⟨hfits, -, -, -, -, husersFit, -⟩ := hreg
  obtain ⟨-, hadd, huser, -⟩ := VirtualForm.of_refusal_eq_none hnone
  obtain ⟨hsum, hnonneg⟩ := h.sum_users hmax hfits fun hm hd => (hadd hm).2 (h.complete _ hd)
  obtain ⟨hpos, hle⟩ := huser hmax
  rw [hsum] at hle
  have hupper := long_le_intval hpos
  have hlt : intval f.MaxUser < 2 ^ 31 := by
    rcases husersFit hmax with hlt | hlimit
    · exact hlt
    · rw [long] at hle
      rw [intval]
      omega
  rw [long_eq_intval (by omega) hlt] at hle
  exact ⟨by omega, hlt, hle⟩

/-- An accepted quota is an integer, and fits into what is left. -/
theorem Inv.quota_of_refusal (h : Inv L sec) {f : VirtualForm}
    (hreg : Regular showFloat L sec (.saveVirtual f)) (hnone : f.refusal L sec = none)
    (hmax : L.MaxQuota ≠ 0) :
    0 ≤ f.quota ∧ f.quota < 2 ^ 31 ∧
      ∑ x ∈ (Kind.virtual.domains sec).erase (trim f.Domain), quotaLimit sec x +
        f.quota ≤ L.MaxQuota := by
  obtain ⟨hfits, -, -, -, -, -, hquotaFits⟩ := hreg
  obtain ⟨-, hadd, -, hquotas⟩ := VirtualForm.of_refusal_eq_none hnone
  obtain ⟨hsum, hnonneg⟩ := h.sum_quota hmax hfits fun hm hd => (hadd hm).2 (h.complete _ hd)
  obtain ⟨hpos, hle⟩ := hquotas hmax
  rw [hsum] at hle
  obtain ⟨hunit, hlt⟩ := hquotaFits hmax hpos
  exact ⟨mul_nonneg hpos.le hunit, hlt.resolve_right fun hbeyond => by omega, hle⟩

theorem Inv.virtual (h : Inv L sec) {f : VirtualForm}
    (hset : IsSet .virtual (trim f.Domain) sec sec')
    (hreg : Regular showFloat L sec (.saveVirtual f)) (hnone : f.refusal L sec = none)
    (husers : 0 < intval f.MaxUser → userLimit sec' (trim f.Domain) = intval f.MaxUser)
    (hquota : 0 ≤ f.quota → f.quota < 2 ^ 31 → quotaLimit sec' (trim f.Domain) = f.quota) :
    Inv L sec' := by
  have husers' : ∀ d', d' ≠ trim f.Domain → userLimit sec' d' = userLimit sec d' := fun d' hd' =>
    hset.userLimit fun _ => hd'
  have hquota' : ∀ d', d' ≠ trim f.Domain → quotaLimit sec' d' = quotaLimit sec d' := fun d' hd' =>
    hset.quotaLimit fun _ => hd'
  have hmem : ∀ d' ∈ Kind.virtual.domains sec', d' ≠ trim f.Domain →
      d' ∈ Kind.virtual.domains sec := fun d' hd' hne => by
    rw [hset.domains_self] at hd'
    exact Finset.mem_of_mem_insert_of_ne hd' hne
  have hint := h.users_of_refusal hreg hnone
  have hbytes := h.quota_of_refusal hreg hnone
  obtain ⟨hfits, hc, -, -, hmodify, -, -⟩ := hreg
  obtain ⟨hcheck, hadd, -, -⟩ := VirtualForm.of_refusal_eq_none hnone
  refine ⟨hset.tidy h.tidy hfits, ⟨hset.number h.tidy hcheck, hset.listed h.within hc hcheck,
    fun hmax => ?_, fun hmax => ?_, fun hmax => ?_⟩, fun d' hd' => ?_, fun hmax d' hd' => ?_,
    fun hmax d' hd' => ?_⟩
  · have hold := h.within.domains hmax
    rw [hset.domains_self]
    rcases Decidable.em (trim f.Domain ∈ Kind.virtual.domains sec) with hd | hd
    · rwa [Finset.insert_eq_of_mem hd]
    · rw [Finset.card_insert_of_notMem hd]
      cases hm : f.modify with
      | true =>
        have hlt := ((hmodify hm).resolve_left hd).resolve_left hmax
        push_cast
        omega
      | false =>
        have hne := (hadd hm).1
        rw [h.length_vDomains] at hne
        push_cast
        omega
  · obtain ⟨hpos, -, hle⟩ := hint hmax
    rw [hset.sum husers', husers hpos]
    exact hle
  · obtain ⟨hnonneg, hlt, hle⟩ := hbytes hmax
    rw [hset.sum hquota', hquota hnonneg hlt]
    exact hle
  · rcases Decidable.em (d' = trim f.Domain) with rfl | hne
    · exact (hset.keys _).2 (Or.inr ⟨_, by decide, rfl⟩)
    · exact (hset.keys _).2 (Or.inl (h.complete d' (hmem d' hd' hne)))
  · rcases Decidable.em (d' = trim f.Domain) with rfl | hne
    · obtain ⟨hpos, hlt, -⟩ := hint hmax
      rw [husers hpos]
      exact ⟨hpos.le, hlt⟩
    · rw [husers' d' hne]
      exact h.users_fit hmax d' (hmem d' hd' hne)
  · rcases Decidable.em (d' = trim f.Domain) with rfl | hne
    · obtain ⟨hnonneg, hlt, -⟩ := hbytes hmax
      rw [hquota hnonneg hlt]
      exact ⟨hnonneg, hlt⟩
    · rw [hquota' d' hne]
      exact h.quota_fits hmax d' (hmem d' hd' hne)

/-- A quota that is an integer is written in digits. -/
theorem intval_showNumber {z : ℤ} (h : 0 ≤ z) (h' : z < 2 ^ 31) :
    intval (showNumber showFloat z) = z ∧ intval (trim (showNumber showFloat z)) = z := by
  rw [showNumber, if_pos (by omega)]
  exact ⟨atoi_showInt z, intval_trim_showInt z⟩

/-- A virtual domain that would respect the limits is not refused for one. -/
theorem Inv.virtual_not_limit (h : Inv L sec) {f : VirtualForm}
    (hset : IsSet .virtual (trim f.Domain) sec sec')
    (hreg : Regular showFloat L sec (.saveVirtual f))
    (hdup : ¬ (Request.saveVirtual f).Duplicate sec) (hw : Within L sec')
    (husers : userLimit sec' (trim f.Domain) = intval f.MaxUser)
    (hquota : quotaLimit sec' (trim f.Domain) = intval (showNumber showFloat f.quota))
    {e : Refusal} (href : f.refusal L sec = some e) : ¬ e.IsLimit := by
  obtain ⟨hfits, hc, -, hempty, -, -, hquotaFits⟩ := hreg
  have hnew : f.modify = false → trim f.Domain ∉ Kind.virtual.domains sec := fun hm hd =>
    hdup ⟨hm, hd⟩
  intro he
  rcases VirtualForm.of_refusal_eq_some href he with
    hcheck | ⟨hm, hlen⟩ | ⟨hmax, hpos, hlt⟩ | ⟨hmax, hpos, hlt⟩
  · exact hc.not_within h.tidy hset hcheck hw
  · rw [h.length_vDomains] at hlen
    have hmax : L.MaxDomain ≠ 0 := by
      intro hzero
      refine hempty hm hzero (Finset.card_eq_zero.1 ?_)
      omega
    have hle := hw.domains hmax
    rw [hset.domains_self, Finset.card_insert_of_notMem (hnew hm)] at hle
    push_cast at hle
    omega
  · have hle := hw.users hmax
    rw [hset.sum fun d' hd' => hset.userLimit fun _ => hd', husers] at hle
    rw [(h.sum_users hmax hfits hnew).1] at hlt
    have hupper := long_le_intval hpos
    omega
  · have hle := hw.quota hmax
    rw [hset.sum fun d' hd' => hset.quotaLimit fun _ => hd', hquota] at hle
    obtain ⟨hsum, hnonneg⟩ := h.sum_quota hmax hfits hnew
    rw [hsum] at hlt
    obtain ⟨hunit, hint | ⟨-, hbeyond⟩⟩ := hquotaFits hmax hpos
    · have hquotaNonneg : 0 ≤ f.quota := mul_nonneg hpos.le hunit
      rw [(intval_showNumber hquotaNonneg hint).1] at hle
      omega
    · omega

end Saving

/-! ## What is set for a virtual domain -/

theorem Kind.key_right_inj (k : Kind) (d f f' : Bytes) : k.key d f = k.key d f' ↔ f = f' := by
  simp [key]

section Values

variable {showFloat : ℤ → Bytes} {params : Params}

theorem lookup_setDomain_values (showFloat : ℤ → Bytes) (params : Params) (f : VirtualForm) :
    (sect (setDomain .virtual (trim f.Domain) (f.values showFloat) params) MailServer).lookup
        (Kind.virtual.key (trim f.Domain) (bytes "MaxUser")) = some f.MaxUser ∧
      (sect (setDomain .virtual (trim f.Domain) (f.values showFloat) params) MailServer).lookup
        (Kind.virtual.key (trim f.Domain) (bytes "Quota")) =
          some (showNumber showFloat f.quota) := by
  rw [sect_setDomain]
  simp only [entries, VirtualForm.values, List.map_cons, List.map_nil, List.foldl_cons,
    List.foldl_nil, Assoc.lookup_put, Kind.key_right_inj]
  exact ⟨rfl, rfl⟩

theorem userLimit_setDomain (f : VirtualForm) :
    userLimit (sect (setDomain .virtual (trim f.Domain) (f.values showFloat) params) MailServer)
      (trim f.Domain) = intval f.MaxUser := by
  rw [userLimit, (lookup_setDomain_values showFloat params f).1, Option.getD_some]

theorem quotaLimit_setDomain (f : VirtualForm) :
    quotaLimit (sect (setDomain .virtual (trim f.Domain) (f.values showFloat) params) MailServer)
      (trim f.Domain) = intval (showNumber showFloat f.quota) := by
  rw [quotaLimit, (lookup_setDomain_values showFloat params f).2, Option.getD_some]

theorem userLimit_saved {f : VirtualForm} (h : 0 < intval f.MaxUser) :
    userLimit ((sect (setDomain .virtual (trim f.Domain) (f.values showFloat) params)
      MailServer).mapVal trim) (trim f.Domain) = intval f.MaxUser := by
  rw [userLimit, Assoc.lookup_mapVal, (lookup_setDomain_values showFloat params f).1,
    Option.map_some, Option.getD_some, intval_trim h.ne']

theorem quotaLimit_saved {f : VirtualForm} (h : 0 ≤ f.quota) (h' : f.quota < 2 ^ 31) :
    quotaLimit ((sect (setDomain .virtual (trim f.Domain) (f.values showFloat) params)
      MailServer).mapVal trim) (trim f.Domain) = f.quota := by
  rw [quotaLimit, Assoc.lookup_mapVal, (lookup_setDomain_values showFloat params f).2,
    Option.map_some, Option.getD_some, (intval_showNumber h h').2]

end Values

/-! ## Deleting -/

theorem sect_delParam (params : Params) (key : Bytes) :
    sect (delParam params key MailServer) MailServer = (sect params MailServer).unset key := by
  rw [delParam, sect]
  cases hl : params.lookup MailServer with
  | none =>
    rw [sect, hl]
    rfl
  | some values => rw [Assoc.lookup_put, if_pos rfl, sect, hl, Option.getD_some, Option.getD_some]

theorem lookup_foldl_delParam (ks : List Bytes) (params : Params) (key : Bytes) :
    (sect (ks.foldl (fun params key => delParam params key MailServer) params) MailServer).lookup
        key = if key ∈ ks then none else (sect params MailServer).lookup key := by
  induction ks generalizing params with
  | nil => simp
  | cons k ks ih =>
    rw [List.foldl_cons, ih, sect_delParam, Assoc.lookup_unset]
    by_cases hk : key = k <;> by_cases hks : key ∈ ks <;> simp [hk, hks]

/-- The keys of some domains. -/
def deleted (k : Kind) (ds : List Bytes) : List Bytes := ds.flatMap fun d => k.fields.map (k.key d)

theorem delDomains_eq (ds : List Bytes) (params : Params) :
    delDomains k ds params =
      (deleted k ds).foldl (fun params key => delParam params key MailServer) params := by
  rw [delDomains, deleted, List.foldl_flatMap]
  simp only [List.foldl_map]

theorem mem_deleted {ds : List Bytes} :
    key ∈ deleted k ds ↔ ∃ d ∈ ds, ∃ f ∈ k.fields, key = k.key d f := by
  simp [deleted, eq_comm]

theorem isLoose_delDomains {params : Params} (h : IsLoose params) (ds : List Bytes) :
    IsLoose (delDomains k ds params) := by
  rw [delDomains_eq]
  induction deleted k ds generalizing params with
  | nil => exact h
  | cons key ks ih => exact ih (isLoose_delParam h key MailServer)

/-- The section without the keys of some domains. -/
def IsDel (k : Kind) (ds : List Bytes) (sec sec' : Section) : Prop :=
  ∀ key, sec'.lookup key = if key ∈ deleted k ds then none else sec.lookup key

section IsDel

variable {L : License} {sec' : Section} {ds : List Bytes}

theorem IsDel.keys_subset (h : IsDel k ds sec sec') (hkey : key ∈ keys sec') : key ∈ keys sec := by
  rw [mem_keys_iff, h key] at hkey
  split_ifs at hkey
  · exact absurd rfl hkey
  · exact mem_keys_iff.2 hkey

theorem IsDel.domains_subset (h : IsDel k ds sec sec') (k' : Kind) :
    k'.domains sec' ⊆ k'.domains sec := by
  intro d hd
  obtain ⟨f, hf, hkey⟩ := Kind.mem_domains.1 hd
  exact Kind.mem_domains.2 ⟨f, hf, h.keys_subset hkey⟩

theorem IsDel.configured_subset (h : IsDel k ds sec sec') : configured sec' ⊆ configured sec :=
  Finset.union_subset_union (h.domains_subset _) (h.domains_subset _)

/-- All that was kept of a domain that is left is left. -/
theorem IsDel.lookup_key (h : IsDel k ds sec sec') (hd : d ∈ k'.domains sec') (hf : f ∈ k'.fields) :
    sec'.lookup (k'.key d f) = sec.lookup (k'.key d f) := by
  obtain ⟨f₀, hf₀, hkey⟩ := Kind.mem_domains.1 hd
  rw [mem_keys_iff, h] at hkey
  rw [h, if_neg fun hdel => ?_]
  obtain ⟨d', hd', f', hf', heq⟩ := mem_deleted.1 hdel
  have hk : k' = k := by
    by_contra hk
    exact Kind.key_ne hk d f d' f' heq
  subst hk
  obtain ⟨rfl, rfl⟩ := (Kind.key_inj hf hf').1 heq
  rw [if_pos (mem_deleted.2 ⟨d, hd', f₀, hf₀, rfl⟩)] at hkey
  exact hkey rfl

theorem IsDel.userLimit (h : IsDel k ds sec sec') (hd : d ∈ Kind.virtual.domains sec') :
    userLimit sec' d = userLimit sec d := by
  rw [Domains.userLimit, Domains.userLimit, h.lookup_key hd (by decide)]

theorem IsDel.quotaLimit (h : IsDel k ds sec sec') (hd : d ∈ Kind.virtual.domains sec') :
    quotaLimit sec' d = quotaLimit sec d := by
  rw [Domains.quotaLimit, Domains.quotaLimit, h.lookup_key hd (by decide)]

theorem Inv.del (h : Inv L sec) (hdel : IsDel k ds sec sec') : Inv L sec' := by
  have hsub := hdel.domains_subset Kind.virtual
  have hconf := hdel.configured_subset
  have hsum : ∀ g g' : Bytes → ℤ, (∀ d ∈ Kind.virtual.domains sec', g' d = g d) →
      (∀ d ∈ Kind.virtual.domains sec, 0 ≤ g d) →
      ∑ d ∈ Kind.virtual.domains sec', g' d ≤ ∑ d ∈ Kind.virtual.domains sec, g d := by
    intro g g' heq hpos
    rw [Finset.sum_congr rfl heq]
    exact Finset.sum_le_sum_of_subset_of_nonneg hsub fun d hd _ => hpos d hd
  refine ⟨⟨fun key hkey => h.tidy.capture key (hdel.keys_subset hkey),
    fun a ha b hb => h.tidy.distinct a (hconf ha) b (hconf hb)⟩,
    ⟨fun hmax => ?_, fun hlist d hd => h.within.listed hlist d (hconf hd), fun hmax => ?_,
      fun hmax => ?_, fun hmax => ?_⟩, fun d hd => ?_, fun hmax d hd => ?_, fun hmax d hd => ?_⟩
  · have hcard := Finset.card_le_card hconf
    have hold := h.within.number hmax
    omega
  · have hcard := Finset.card_le_card hsub
    have hold := h.within.domains hmax
    omega
  · exact (hsum _ _ (fun d => hdel.userLimit) fun d hd => (h.users_fit hmax d hd).1).trans
      (h.within.users hmax)
  · exact (hsum _ _ (fun d => hdel.quotaLimit) fun d hd => (h.quota_fits hmax d hd).1).trans
      (h.within.quota hmax)
  · rw [mem_keys_iff, hdel.lookup_key hd (by decide), ← mem_keys_iff]
    exact h.complete d (hsub hd)
  · rw [hdel.userLimit hd]
    exact h.users_fit hmax d (hsub hd)
  · rw [hdel.quotaLimit hd]
    exact h.quota_fits hmax d (hsub hd)

end IsDel

/-- The section that is loaded after a deletion. -/
theorem isDel_saved (file : Bytes) (ds : List Bytes) {Privilege : Option Bytes}
    (hperm : adminPerm Privilege PERM_ADMIN_WRITE = true) :
    IsDel k ds (domainSection file)
      (domainSection (ConfFile.save Privilege (delDomains k ds (parseIni file)) file)) := by
  have hloose : IsLoose (delDomains k ds (parseIni file)) :=
    isLoose_delDomains (isConf_parseIni file).isLoose ds
  have htrim : ∀ key,
      ((domainSection file).lookup key).map trim = (domainSection file).lookup key := fun key => by
    rw [← Assoc.lookup_mapVal, domainSection, sect_parseIni_mapVal_trim]
  intro key
  rw [domainSection, save_of_adminPerm hperm, parseIni_trim, sect_parseIni_iniText hloose,
    Assoc.lookup_mapVal, delDomains_eq, lookup_foldl_delParam]
  split_ifs
  · rfl
  · exact htrim key

/-! ## Requests -/

section Requests

variable {showFloat : ℤ → Bytes} {L : License} {Privilege : Option Bytes} {file : Bytes}
  {r : Request}

theorem ProtectForm.of_refusal_eq_none {f : ProtectForm} (h : f.refusal L sec = none) :
    check_new_domain L sec (trim f.Domain) = none ∧ (f.modify = false → ¬ f.Malformed) := by
  rw [refusal] at h
  cases hcheck : check_new_domain L sec (trim f.Domain) with
  | some e =>
    simp only [hcheck] at h
    split_ifs at h
  | none =>
    simp only [hcheck] at h
    split_ifs at h with h₁ h₂ h₃ h₄
    simp only [Bool.or_eq_true, Bool.and_eq_true, Bool.not_eq_true', decide_eq_true_eq, not_or]
      at h₁ h₂ h₄
    refine ⟨rfl, fun hm => ?_⟩
    rintro (hip | hport | hlow | hhigh | hreserved)
    · exact h₁ hip
    · exact h₂.1.1 hport
    · exact h₂.1.2 hlow
    · exact h₂.2 hhigh
    · exact h₄ ⟨hm, hreserved⟩

theorem ProtectForm.of_refusal_eq_some {f : ProtectForm} {e : Refusal}
    (h : f.refusal L sec = some e) (he : e.IsLimit) :
    check_new_domain L sec (trim f.Domain) = some e := by
  rw [refusal] at h
  cases hcheck : check_new_domain L sec (trim f.Domain) with
  | some e' =>
    simp only [hcheck] at h
    split_ifs at h
    · cases h
      exact he.elim
    · cases h
      exact he.elim
    · exact h
  | none =>
    simp only [hcheck] at h
    split_ifs at h <;> (cases h; exact he.elim)

/-- A request that is refused, and not for a limit that its result would respect. -/
theorem Inv.refused (h : Inv L (domainSection file)) {e : Refusal}
    (hout : r.outcome showFloat L Privilege file = .error e)
    (hlimit : ¬ r.Duplicate (domainSection file) →
      Within L (sect (r.result showFloat (parseIni file)) MailServer) → ¬ e.IsLimit) :
    Lawful showFloat L Privilege file r ∧
      Inv L (domainSection (step showFloat L Privilege file r)) := by
  have hstep : step showFloat L Privilege file r = file := by rw [step, hout]
  refine ⟨⟨hstep.symm ▸ h.within, fun hdup hw e' he' => ?_, fun _ => ⟨⟨e, hout⟩, hstep⟩⟩,
    hstep.symm ▸ h⟩
  cases hout.symm.trans he'
  exact hlimit hdup hw

/-- A request that is accepted. -/
theorem Inv.accepted {params : Params} (hout : r.outcome showFloat L Privilege file = .ok params)
    (h : Inv L (domainSection (ConfFile.save Privilege params file)))
    (hdup : ¬ r.Duplicate (domainSection file)) :
    Lawful showFloat L Privilege file r ∧
      Inv L (domainSection (step showFloat L Privilege file r)) := by
  have hstep : step showFloat L Privilege file r = ConfFile.save Privilege params file := by
    rw [step, hout]
  refine ⟨⟨hstep.symm ▸ h.within, fun _ _ e he => ?_, fun hd => absurd hd hdup⟩, hstep.symm ▸ h⟩
  cases hout.symm.trans he

theorem outcome_of_adminPerm (hperm : adminPerm Privilege PERM_ADMIN_WRITE = true) :
    r.outcome showFloat L Privilege file = match r.refusal L (domainSection file) with
      | some e => .error e
      | none => .ok (r.result showFloat (parseIni file)) := by
  rw [Request.outcome, hperm]
  rfl

/-- A regular request is treated as the licence asks for. -/
theorem Inv.request (h : Inv L (domainSection file))
    (hreg : Regular showFloat L (domainSection file) r) :
    Lawful showFloat L Privilege file r ∧
      Inv L (domainSection (step showFloat L Privilege file r)) := by
  cases hperm : adminPerm Privilege PERM_ADMIN_WRITE with
  | false =>
    have hout : r.outcome showFloat L Privilege file = .error .permission := by
      rw [Request.outcome, hperm]
      rfl
    exact h.refused hout fun _ _ => id
  | true =>
    have hout := @outcome_of_adminPerm showFloat L _ file r hperm
    cases href : r.refusal L (domainSection file) with
    | some e =>
      rw [href] at hout
      refine h.refused hout fun hdup hw he => ?_
      cases r with
      | del k ds => cases href
      | saveProtect f =>
        have hset := isSet_setDomain (d := trim f.Domain) f.map_values (parseIni file)
        exact hreg.2.1.not_within h.tidy hset (ProtectForm.of_refusal_eq_some href he) hw
      | saveVirtual f =>
        have hset := isSet_setDomain (d := trim f.Domain) (f.map_values showFloat) (parseIni file)
        exact h.virtual_not_limit hset hreg hdup hw (userLimit_setDomain f)
          (quotaLimit_setDomain f) href he
    | none =>
      rw [href] at hout
      refine Inv.accepted hout ?_ fun hdup => ?_
      · cases r with
        | del k ds => exact h.del (isDel_saved file ds hperm)
        | saveProtect f =>
          obtain ⟨hfits, hc, hvalues, -⟩ := hreg
          obtain ⟨hsec, hset⟩ := isSet_saved f.map_values hfits hvalues hperm
          rw [Request.result, hsec]
          exact h.protect hset hfits hc (ProtectForm.of_refusal_eq_none href).1
        | saveVirtual f =>
          obtain ⟨hsec, hset⟩ := isSet_saved (f.map_values showFloat) hreg.1 hreg.2.2.1 hperm
          rw [Request.result, hsec]
          exact h.virtual hset hreg href userLimit_saved quotaLimit_saved
      · cases r with
        | del k ds => exact hdup
        | saveProtect f =>
          exact (ProtectForm.of_refusal_eq_none href).2 hdup.1 (hreg.2.2.2 hdup.1 hdup.2)
        | saveVirtual f =>
          obtain ⟨-, hadd, -⟩ := VirtualForm.of_refusal_eq_none href
          exact (hadd hdup.1).2 (h.complete _ hdup.2)

theorem Kind.domains_of_without (h : WithoutDomains sec) (k : Kind) : k.domains sec = ∅ := by
  refine Finset.eq_empty_of_forall_notMem fun d hd => ?_
  obtain ⟨f, hf, hkey⟩ := mem_domains.1 hd
  have hdomain : k.domain (k.key d f) = some d := domain_eq_some_iff.2 ⟨f, hf, rfl⟩
  rw [(h _ hkey k).2] at hdomain
  cases hdomain

theorem inv_of_without (hL : L.Plain) (h : WithoutDomains sec) : Inv L sec := by
  have hnone := Kind.domains_of_without h
  have hconf : configured sec = ∅ := by rw [configured, hnone, hnone, Finset.empty_union]
  refine ⟨⟨fun key hkey k => ?_, fun a ha => ?_⟩, ⟨fun hmax => ?_, fun _ a ha => ?_, fun _ => ?_,
    fun _ => ?_, fun _ => ?_⟩, fun a ha => ?_, fun _ a ha => ?_, fun _ a ha => ?_⟩
  · rw [(h key hkey k).1, (h key hkey k).2]
  · simp [hconf] at ha
  · simpa [hconf] using hmax
  · simp [hconf] at ha
  · simpa [hnone] using hL.maxDomain
  · simpa [hnone] using hL.maxUser
  · simpa [hnone] using hL.maxQuota
  · simp [hnone] at ha
  · simp [hnone] at ha
  · simp [hnone] at ha

end Requests

/-- **The limits of the licence hold** from a configuration without domains on, in every run of
regular requests: each configuration that is reached respects them, no request is refused for a
limit that its result would respect, and no domain is added twice. -/
theorem licensed_of_meets (showFloat : ℤ → Bytes) {L : License} (hL : L.Plain)
    (Privilege : Option Bytes) {file : Bytes} (h : WithoutDomains (domainSection file))
    {rs : List Request}
    (hmeets : Machine.Meets (step showFloat L Privilege)
      (fun file r => Regular showFloat L (domainSection file) r)
      file rs) :
    Within L (domainSection file) ∧
      Machine.Meets (step showFloat L Privilege) (Lawful showFloat L Privilege) file rs :=
  ⟨(inv_of_without hL h).within,
    Machine.meets_of_invariant (I := fun file => Inv L (domainSection file))
      (fun _ _ hinv hreg => hinv.request hreg) (inv_of_without hL h) hmeets⟩

/-- A licence for two domains of a list, one of them virtual. -/
def sampleLicense : License := ⟨2, bytes "a.cn, b.cn", 10, 1, 0⟩

/-- A virtual domain with some users. -/
def sampleVirtual (users : Bytes) : Request :=
  .saveVirtual ⟨false, bytes " A.cn", bytes "root", bytes "5", bytes "1024", users, bytes "x "⟩

theorem lawful_sample :
    Within sampleLicense (domainSection []) ∧
      Machine.Meets (step showInt sampleLicense (some (bytes "7")))
        (Lawful showInt sampleLicense (some (bytes "7"))) []
        [sampleVirtual (bytes "11"), sampleVirtual (bytes " 3"),
          .del .virtual [bytes "A.cn", bytes "c"]] :=
  licensed_of_meets showInt ⟨by decide, by decide, by decide⟩ (some (bytes "7"))
    (fun key hkey => absurd hkey List.not_mem_nil) (by decide +kernel)

/-- The second entry of the list. -/
def secondEntry : ProtectForm := ⟨false, bytes "b.cn", bytes "10.0.0.1", [], []⟩

/-- A domain that is on the list, but not at its head, is refused. -/
theorem listed_refused :
    sampleLicense.Plain ∧ WithoutDomains (domainSection []) ∧
      ¬ Machine.Meets (step showInt sampleLicense (some (bytes "7")))
        (Lawful showInt sampleLicense (some (bytes "7"))) [] [.saveProtect secondEntry] := by
  refine ⟨⟨by decide, by decide, by decide⟩, fun key hkey => absurd hkey List.not_mem_nil, ?_⟩
  rintro ⟨h, -⟩
  have hwithin : Within sampleLicense
      (sect ((Request.saveProtect secondEntry).result showInt (parseIni [])) MailServer) :=
    ⟨by decide +kernel, by decide +kernel, by decide +kernel, by decide +kernel, by decide +kernel⟩
  have hout :
      (Request.saveProtect secondEntry).outcome showInt sampleLicense (some (bytes "7")) [] =
      .error .restricted := by rfl
  exact h.not_refused (fun hdup => absurd hdup.2 (by decide +kernel)) hwithin _ hout trivial

end NoSpam.Admin.Domains
