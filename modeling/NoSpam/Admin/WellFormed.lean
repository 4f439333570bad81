import NoSpam.Admin.Profile

/-!
# The file of administrators stays well formed

A call keeps a well-formed file well formed, and the other administrators as they are (`Keeps`),
exactly if it is refused or its arguments are what the checks should have asked for (`Sound`,
`keeps_iff`): no colon and no line end in what goes into the record, no zero byte in a new
identifier, a line that fits in one read, and, where the file is written anew, no white space at the
end of a column of another administrator.
-/

namespace NoSpam.Admin

open Text Php

/-! ## The purpose -/

/-- A record that the readers take in as it is, and the checks accept. -/
structure Record.WellFormed (r : Record) : Prop where
  id : idPattern r.id = true
  privilidge : isPrivilidgeFormatOK r.privilidge = true
  ip : isIpFormatOK r.ip = true
  clean : CleanRow 58 10 r.fields
  length : r.text.length < 1023

/-- Well-formed records with different identifiers. -/
structure WellFormed (rs : List Record) : Prop where
  records : ∀ r ∈ rs, r.WellFormed
  nodup : (rs.map Record.id).Nodup

/-- The records but that of `id`. -/
def others (id : Bytes) (rs : List Record) : List Record := rs.filter fun r => r.id ≠ id

/-- What a call should do to the file of some records. -/
structure Keeps (crypt : Bytes → Bytes) (rs : List Record) (call : Call) : Prop where
  refused : (call.run crypt (profile rs)).1 ≠ OK → (call.run crypt (profile rs)).2 = profile rs
  wellFormed : ∃ rs', (call.run crypt (profile rs)).2 = profile rs' ∧ WellFormed rs' ∧
    others call.id rs' = others call.id rs

/-! ## The arguments -/

/-- Neither a colon nor a line end. -/
def Plain (a : Bytes) : Prop := 58 ∉ a ∧ 10 ∉ a

instance (a : Bytes) : Decidable (Plain a) := inferInstanceAs (Decidable (_ ∧ _))

/-- Rewriting the file leaves the others alone: no column of theirs ends in white space. -/
def Untouched (id : Bytes) (rs : List Record) : Prop := ∀ r ∈ others id rs, r.trimmed = r

/-- What a call that is not refused needs of its arguments, and of the file. -/
def Sound (crypt : Bytes → Bytes) (rs : List Record) : Call → Prop
  | .addAdmin id passwd privilidge note ip domain =>
      isIDFormatOK id && isPasswordFormatOK passwd && isPrivilidgeFormatOK privilidge &&
          isNoteFormatOK note && isIpFormatOK ip → (∀ r ∈ rs, r.id ≠ id) →
        0 ∉ id ∧ (∀ a ∈ [privilidge, note, ip, domain], Plain a) ∧
          (Record.text ⟨id, crypt passwd, privilidge, note, ip, domain⟩).length < 1023
  | .setPassword id passwd => isPasswordFormatOK passwd → ∀ r ∈ rs, r.id = id →
      Untouched id rs ∧ (Record.text { r.trimmed with passwd := crypt passwd }).length < 1023
  | .modifyAdminPrivilidge id perm => isPrivilidgeFormatOK perm → ∀ r ∈ rs, r.id = id →
      Untouched id rs ∧ Plain perm ∧
        (Record.text { r.trimmed with privilidge := perm }).length < 1023
  | .setIPList id iplist => isIpFormatOK iplist → ∀ r ∈ rs, r.id = id →
      Untouched id rs ∧ Plain iplist ∧ (Record.text { r.trimmed with ip := iplist }).length < 1023
  | .modifyAdmin id passwd privilidge note ip domain =>
      isPrivilidgeFormatOK privilidge → ∀ r ∈ rs, r.id = id →
        Untouched id rs ∧ isIpFormatOK ip ∧ (∀ a ∈ [privilidge, note, ip, domain], Plain a) ∧
          (Record.text ⟨id, if passwd = [] then r.trimmed.passwd else crypt passwd, privilidge,
            note, ip, domain⟩).length < 1023
  | .deleteAdmin id => (∃ r ∈ rs, r.id = id) → Untouched id rs

/-! ## Records and their lines -/

theorem fields_injective {r r' : Record} (h : r.fields = r'.fields) : r = r' := by
  cases r
  cases r'
  simpa [Record.fields] using h

theorem profile_eq (rs : List Record) : profile rs = tableText 58 10 (rs.map Record.fields) := by
  rw [profile, tableText, List.map_map]
  rfl

theorem length_fields (rs : List Record) : ∀ row ∈ rs.map Record.fields, row.length = 5 + 1 :=
  List.forall_mem_map.2 fun _ _ => rfl

theorem map_fields_injective {rs rs' : List Record}
    (h : rs.map Record.fields = rs'.map Record.fields) : rs = rs' :=
  List.map_injective_iff.2 (fun _ _ => fields_injective) h

/-- Clean files with the same text have the same records. -/
theorem profile_injective_of_clean {rs rs' : List Record} (h : ∀ r ∈ rs, CleanRow 58 10 r.fields)
    (h' : ∀ r ∈ rs', CleanRow 58 10 r.fields) (he : profile rs = profile rs') : rs = rs' := by
  rw [profile_eq, profile_eq] at he
  have hnil : ∀ rs : List Record, ∀ row ∈ rs.map Record.fields, row ≠ [] := fun rs row hrow =>
    List.ne_nil_of_length_eq_add_one (length_fields rs row hrow)
  exact map_fields_injective (tableText_injective_of_clean (by decide) (hnil rs) (hnil rs')
    (List.forall_mem_map.2 h) (List.forall_mem_map.2 h') he)

/-- A file with the text of a clean one, and not fewer records, has its records. -/
theorem eq_of_profile_eq {rs rs' : List Record} (hclean : ∀ r ∈ rs', CleanRow 58 10 r.fields)
    (he : profile rs = profile rs') (hlen : rs'.length ≤ rs.length) : rs = rs' := by
  rw [profile_eq, profile_eq] at he
  exact map_fields_injective (rows_eq_of_tableText_eq (by decide) (length_fields rs)
    (length_fields rs') (List.forall_mem_map.2 hclean) he (by simpa using hlen))

theorem profile_append (rs rs' : List Record) :
    profile (rs ++ rs') = profile rs ++ profile rs' := by
  rw [profile, List.map_append, columnText, List.flatMap_append]
  rfl

theorem isIDByte_not_isTrim {c : UInt8} (h : isIDByte c = true) : isTrim c = false := by
  by_contra htrim
  simp only [isTrim, Bool.not_eq_false, Bool.or_eq_true, decide_eq_true_eq] at htrim
  rcases htrim with ((((rfl | rfl) | rfl) | rfl) | rfl) | rfl <;> exact absurd h (by decide)

theorem idPattern_ne_nil {id : Bytes} (h : idPattern id = true) : id ≠ [] := by
  rintro rfl
  cases h

theorem ne_nil_of_isIDFormatOK {id : Bytes} (h : isIDFormatOK id = true) : id ≠ [] := by
  rintro rfl
  cases h

theorem isIDByte_of_idPattern {id : Bytes} (h : idPattern id = true) :
    ∀ c ∈ id, isIDByte c = true := by
  cases id with
  | nil => exact fun c hc => absurd hc List.not_mem_nil
  | cons c l =>
    rw [idPattern, Bool.and_eq_true, List.all_eq_true] at h
    exact List.forall_mem_cons.2 ⟨by simp [isIDByte, h.1], h.2⟩

/-- Without a zero byte, the pattern is matched against the whole identifier. -/
theorem idPattern_iff (id : Bytes) : idPattern id = true ↔ isIDFormatOK id = true ∧ 0 ∉ id := by
  have hcstr : 0 ∉ id → cstr id = id := fun h => List.takeWhile_eq_self_iff.2 fun c hc => by
    rw [decide_eq_true_eq]
    rintro rfl
    exact h hc
  rw [isIDFormatOK]
  constructor
  · intro h
    have hzero : 0 ∉ id := fun hmem => absurd (isIDByte_of_idPattern h 0 hmem) (by decide)
    exact ⟨by rwa [hcstr hzero], hzero⟩
  · rintro ⟨h, hzero⟩
    rwa [hcstr hzero] at h

theorem trimmed_id {r : Record} (h : r.WellFormed) : r.trimmed.id = r.id :=
  rtrim_eq_self fun c hc => isIDByte_not_isTrim (isIDByte_of_idPattern h.id c hc)

/-- The line of a record with its end, as the loops take it apart. -/
theorem ofLine_text {r : Record} (h : CleanRow 58 10 r.fields) :
    ofLine (r.text ++ [10]) = { r with domain := r.domain ++ [10] } := by
  have hclean : ∀ f ∈ (Record.fields { r with domain := r.domain ++ [10] }), 58 ∉ f := by
    have hfields : ∀ f ∈ r.fields, 58 ∉ f := fun f hf => (h f hf).1
    simpa [Record.fields] using hfields
  have htext : r.text ++ [10] =
      joinFields 58 (Record.fields { r with domain := r.domain ++ [10] }) := by
    simp [Record.text, Record.fields, joinFields_cons]
  rw [ofLine, htext, joinFields, List.splitOn_intercalate 58 hclean (List.cons_ne_nil _ _)]
  rfl

theorem trimmed_ofLine_text {r : Record} (h : CleanRow 58 10 r.fields) :
    (ofLine (r.text ++ [10])).trimmed = r.trimmed := by
  rw [ofLine_text h]
  simp only [Record.trimmed, rtrim_append_newline]

/-- The loops read the lines, and at last an empty one. -/
theorem readProfile_profile {rs : List Record} (h : ∀ r ∈ rs, r.WellFormed) :
    readProfile (profile rs) = rs.map (fun r => ofLine (r.text ++ [10])) ++ [ofLine []] := by
  have hlines : ∀ l ∈ rs.map Record.text, 10 ∉ l ∧ l.length < 1023 :=
    List.forall_mem_map.2 fun r hr =>
      ⟨(h r hr).clean.not_mem_joinFields (by decide), (h r hr).length⟩
  rw [readProfile, profile, pieces_columnText hlines, List.map_append, List.map_map, List.map_map]
  rfl

variable {rs : List Record} {id : Bytes}

/-- The search finds the records with the identifier. -/
theorem any_readProfile (h : ∀ r ∈ rs, r.WellFormed) (hid : id ≠ []) :
    ((readProfile (profile rs)).any fun r => r.id = id) = true ↔ ∃ r ∈ rs, r.id = id := by
  have hlast : (ofLine []).id ≠ id := fun he => hid he.symm
  rw [readProfile_profile h, List.any_append, List.any_map]
  simp only [List.any_cons, List.any_nil, Bool.or_false, decide_eq_false hlast, List.any_eq_true,
    Function.comp_apply, decide_eq_true_eq]
  constructor
  · rintro ⟨r, hr, he⟩
    rw [ofLine_text (h r hr).clean] at he
    exact ⟨r, hr, he⟩
  · rintro ⟨r, hr, he⟩
    refine ⟨r, hr, ?_⟩
    rw [ofLine_text (h r hr).clean]
    exact he

theorem filter_readProfile (h : ∀ r ∈ rs, r.WellFormed) (hid : id ≠ []) :
    (readProfile (profile rs)).filter (fun r => r.id ≠ id) =
      readProfile (profile (others id rs)) := by
  have hothers : ∀ r ∈ others id rs, r.WellFormed := fun r hr => h r (List.mem_of_mem_filter hr)
  have hfilter : rs.filter ((fun r : Record => decide (r.id ≠ id)) ∘ fun r =>
      ofLine (r.text ++ [10])) = others id rs := by
    refine List.filter_congr fun r hr => ?_
    rw [Function.comp_apply, ofLine_text (h r hr).clean]
  have hlast : [ofLine []].filter (fun r => r.id ≠ id) = [ofLine []] :=
    List.filter_cons_of_pos (by simpa using fun he : (ofLine []).id = id => hid he.symm)
  rw [readProfile_profile h, readProfile_profile hothers, List.filter_append, List.filter_map,
    hfilter, hlast]

/-- The array holds the records trimmed, and the file is written from them. -/
theorem rewrite_readProfile (h : ∀ r ∈ rs, r.WellFormed) (new : Record → Record) :
    rewrite ((readProfile (profile rs)).map Record.trimmed) new =
      profile (rs.map fun r => new r.trimmed) := by
  have hmap : rs.map (Record.trimmed ∘ fun r => ofLine (r.text ++ [10])) = rs.map Record.trimmed :=
    List.map_congr_left fun r hr => trimmed_ofLine_text (h r hr).clean
  have hkeep : (rs.map Record.trimmed).filter (fun r => r.id ≠ []) = rs.map Record.trimmed := by
    refine List.filter_eq_self.2 (List.forall_mem_map.2 fun r hr => ?_)
    rw [trimmed_id (h r hr)]
    simpa using idPattern_ne_nil (h r hr).id
  have hlast : [(ofLine []).trimmed].filter (fun r => r.id ≠ []) = [] := rfl
  rw [readProfile_profile h, rewrite, List.map_append, List.map_map, hmap, List.filter_append,
    hkeep, List.map_singleton, hlast, List.append_nil, List.map_map]
  rfl

/-! ## What is written -/

theorem length_le_of_nodup {rs : List Record} (h : (rs.map Record.id).Nodup) (id : Bytes) :
    rs.length ≤ (others id rs).length + 1 := by
  have hcount := List.nodup_iff_count_le_one.1 h id
  rw [List.count, List.countP_map] at hcount
  rw [List.length_eq_countP_add_countP (fun r => decide (r.id ≠ id)), others,
    ← List.countP_eq_length_filter]
  refine Nat.add_le_add_left (le_trans (le_of_eq ?_) hcount) _
  exact List.countP_congr fun r _ => by simp

/-- What is written is well formed and leaves the others alone if it is so as any other records: it
has no room for them. -/
theorem exists_wellFormed_iff {ws : List Record}
    (hws : (∀ r ∈ ws, CleanRow 58 10 r.fields) ∨ (others id rs).length + 1 ≤ ws.length) :
    (∃ rs', profile ws = profile rs' ∧ WellFormed rs' ∧ others id rs' = others id rs) ↔
      WellFormed ws ∧ others id ws = others id rs := by
  constructor
  · rintro ⟨rs', he, hrs', hothers⟩
    have hclean : ∀ r ∈ rs', CleanRow 58 10 r.fields := fun r hr => (hrs'.records r hr).clean
    have hlength := length_le_of_nodup hrs'.nodup id
    rw [hothers] at hlength
    obtain rfl : ws = rs' := by
      rcases hws with hws | hws
      · exact profile_injective_of_clean hws hclean he
      · exact eq_of_profile_eq hclean he (hlength.trans hws)
    exact ⟨hrs', hothers⟩
  · rintro ⟨hws', hothers⟩
    exact ⟨ws, rfl, hws', hothers⟩

theorem keeps_of_unchanged {crypt : Bytes → Bytes} {call : Call} (h : WellFormed rs)
    (hrun : (call.run crypt (profile rs)).2 = profile rs) : Keeps crypt rs call :=
  ⟨fun _ => hrun, rs, hrun, h, rfl⟩

theorem keeps_iff_of_run (crypt : Bytes → Bytes) (call : Call) {ws : List Record}
    (hrun : call.run crypt (profile rs) = (OK, profile ws))
    (hws : (∀ r ∈ ws, CleanRow 58 10 r.fields) ∨ (others call.id rs).length + 1 ≤ ws.length) :
    Keeps crypt rs call ↔ WellFormed ws ∧ others call.id ws = others call.id rs := by
  rw [← exists_wellFormed_iff hws]
  constructor
  · intro h
    have hwell := h.wellFormed
    rwa [hrun] at hwell
  · intro h
    exact ⟨fun hne => absurd (congrArg Prod.fst hrun) hne, by rwa [hrun]⟩

/-! ## Trimmed, renewed and removed records -/

theorem length_rtrim_le (b : Bytes) : (rtrim b).length ≤ b.length := (isPrefix_rtrim b).length_le

theorem length_text (r : Record) : r.text.length = r.id.length + r.passwd.length +
    r.privilidge.length + r.note.length + r.ip.length + r.domain.length + 5 := by
  simp [Record.text, Record.fields, joinFields_cons]
  omega

theorem length_text_trimmed (r : Record) : r.trimmed.text.length ≤ r.text.length := by
  rw [length_text, length_text]
  have hid := length_rtrim_le r.id
  have hpasswd := length_rtrim_le r.passwd
  have hprivilidge := length_rtrim_le r.privilidge
  have hnote := length_rtrim_le r.note
  have hip := length_rtrim_le r.ip
  have hdomain := length_rtrim_le r.domain
  simp only [Record.trimmed]
  omega

theorem Record.WellFormed.trimmed {r : Record} (h : r.WellFormed) : r.trimmed.WellFormed := by
  have hclean : ∀ f ∈ r.trimmed.fields, ∃ g ∈ r.fields, f <+: g := by
    simp [Record.fields, Record.trimmed, isPrefix_rtrim]
  exact {
    id := by rw [trimmed_id h]; exact h.id
    privilidge := by
      have := h.privilidge
      rwa [isPrivilidgeFormatOK, ← intval_rtrim] at this
    ip := by
      have := h.ip
      rwa [isIpFormatOK, ← trim_rtrim] at this
    clean := fun f hf => by
      obtain ⟨g, hg, hpre⟩ := hclean f hf
      exact ⟨fun hmem => (h.clean g hg).1 (hpre.subset hmem),
        fun hmem => (h.clean g hg).2 (hpre.subset hmem)⟩
    length := (length_text_trimmed r).trans_lt h.length }

theorem eq_of_mem_of_id_eq (h : (rs.map Record.id).Nodup) {r r' : Record} (hr : r ∈ rs)
    (hr' : r' ∈ rs) (he : r.id = r'.id) : r = r' := List.inj_on_of_nodup_map h hr hr' he

theorem map_trimmed_others_eq_iff :
    (others id rs).map Record.trimmed = others id rs ↔ Untouched id rs := by
  conv_lhs => rhs; rw [← List.map_id (others id rs)]
  rw [List.map_inj_left]
  rfl

/-- A record as it is written back, with the record of `id` made new. -/
def renew (id : Bytes) (new : Record → Record) (r : Record) : Record :=
  if r.trimmed.id = id then new r.trimmed else r.trimmed

section Renew

variable {new : Record → Record} (hnew : ∀ r, (new r).id = r.id)
include hnew

theorem renew_id {r : Record} (h : r.WellFormed) : (renew id new r).id = r.id := by
  unfold renew
  split_ifs
  · rw [hnew, trimmed_id h]
  · exact trimmed_id h

theorem others_map_renew (h : ∀ r ∈ rs, r.WellFormed) :
    others id (rs.map (renew id new)) = (others id rs).map Record.trimmed := by
  have hfilter : rs.filter ((fun r : Record => decide (r.id ≠ id)) ∘ renew id new) = others id rs :=
    List.filter_congr fun r hr => by rw [Function.comp_apply, renew_id hnew (h r hr)]
  rw [others, List.filter_map, hfilter]
  refine List.map_congr_left fun r hr => if_neg ?_
  obtain ⟨hmem, hne⟩ := List.mem_filter.1 hr
  rw [trimmed_id (h r hmem)]
  simpa using hne

/-- The array written back with the record `t` made new. -/
theorem renewed_iff (h : WellFormed rs) {t : Record} (ht : t ∈ rs) :
    (WellFormed (rs.map (renew t.id new)) ∧
        others t.id (rs.map (renew t.id new)) = others t.id rs) ↔
      Untouched t.id rs ∧ (new t.trimmed).WellFormed := by
  have hrenew : renew t.id new t = new t.trimmed := if_pos (trimmed_id (h.records t ht))
  rw [others_map_renew hnew h.records, map_trimmed_others_eq_iff]
  constructor
  · rintro ⟨hws, hothers⟩
    have hmem := hws.records _ (List.mem_map_of_mem ht)
    rw [hrenew] at hmem
    exact ⟨hothers, hmem⟩
  · rintro ⟨hothers, hwell⟩
    refine ⟨⟨List.forall_mem_map.2 fun r hr => ?_, ?_⟩, hothers⟩
    · by_cases he : r.id = t.id
      · obtain rfl := eq_of_mem_of_id_eq h.nodup hr ht he
        rwa [hrenew]
      · rw [renew, if_neg (by rwa [trimmed_id (h.records r hr)])]
        exact (h.records r hr).trimmed
    · have hids : (rs.map (renew t.id new)).map Record.id = rs.map Record.id := by
        rw [List.map_map]
        exact List.map_congr_left fun r hr => renew_id hnew (h.records r hr)
      rw [hids]
      exact h.nodup

end Renew

/-- The array written back without the record of `id`. -/
theorem removed_iff (h : WellFormed rs) :
    (WellFormed ((others id rs).map Record.trimmed) ∧
        others id ((others id rs).map Record.trimmed) = others id rs) ↔ Untouched id rs := by
  have hothers : ∀ r ∈ others id rs, r.WellFormed := fun r hr =>
    h.records r (List.mem_of_mem_filter hr)
  have hid : others id ((others id rs).map Record.trimmed) = (others id rs).map Record.trimmed := by
    refine List.filter_eq_self.2 (List.forall_mem_map.2 fun r hr => ?_)
    rw [trimmed_id (hothers r hr)]
    exact (List.mem_filter.1 hr).2
  have hids : ((others id rs).map Record.trimmed).map Record.id = (others id rs).map Record.id := by
    rw [List.map_map]
    exact List.map_congr_left fun r hr => trimmed_id (hothers r hr)
  have hwell : WellFormed ((others id rs).map Record.trimmed) := by
    refine ⟨List.forall_mem_map.2 fun r hr => (hothers r hr).trimmed, ?_⟩
    rw [hids]
    exact h.nodup.sublist (List.filter_sublist.map Record.id)
  rw [hid, map_trimmed_others_eq_iff]
  exact ⟨fun hws => hws.2, fun hu => ⟨hwell, hu⟩⟩

/-- The file with a new record at its end. -/
theorem appended_iff {t : Record} (h : WellFormed rs) (hnew : ∀ r ∈ rs, r.id ≠ t.id) :
    (WellFormed (rs ++ [t]) ∧ others t.id (rs ++ [t]) = others t.id rs) ↔ t.WellFormed := by
  have hothers : others t.id (rs ++ [t]) = others t.id rs := by
    rw [others, List.filter_append, List.filter_cons_of_neg (by simp), List.filter_nil,
      List.append_nil]
    rfl
  constructor
  · exact fun hws => hws.1.records t (List.mem_append_right _ List.mem_cons_self)
  · intro hwell
    refine ⟨⟨List.forall_mem_append.2 ⟨h.records, List.forall_mem_singleton.2 hwell⟩, ?_⟩, hothers⟩
    rw [List.map_append, List.map_singleton, List.nodup_append]
    refine ⟨h.nodup, List.nodup_singleton _, ?_⟩
    rintro _ hmem _ hsingle rfl
    obtain ⟨r, hr, he⟩ := List.mem_map.1 hmem
    exact hnew r hr (he.trans (List.mem_singleton.1 hsingle))

/-! ## The calls -/

theorem isIDFormatOK_of_mem (h : WellFormed rs) {t : Record} (ht : t ∈ rs) :
    isIDFormatOK t.id = true := ((idPattern_iff t.id).1 (h.records t ht).id).1

section Modify

variable {check : Bool} {err : ℤ} {new : Record → Record}

theorem modify_accepted (h : WellFormed rs) (hcheck : check = true) {t : Record} (ht : t ∈ rs) :
    modify t.id check err new (profile rs) = (OK, profile (rs.map (renew t.id new))) := by
  have hfound := (any_readProfile h.records (idPattern_ne_nil (h.records t ht).id)).2 ⟨t, ht, rfl⟩
  rw [modify, rewrite_readProfile h.records, isIDFormatOK_of_mem h ht, hfound, hcheck]
  rfl

theorem modify_refused (h : WellFormed rs) (hrefuse : check = true → ∀ r ∈ rs, r.id ≠ id) :
    (modify id check err new (profile rs)).2 = profile rs := by
  unfold modify
  split_ifs with hformat hfound hcheck
  · rfl
  · rfl
  · rfl
  · rw [Bool.not_eq_true, Bool.not_eq_false'] at hformat hfound hcheck
    obtain ⟨r, hr, he⟩ := (any_readProfile h.records (ne_nil_of_isIDFormatOK hformat)).1 hfound
    exact absurd he (hrefuse hcheck r hr)

/-- A call that changes a record: it is refused, or what it puts into the record decides. -/
theorem keeps_modify_iff (crypt : Bytes → Bytes) (call : Call)
    (hrun : call.run crypt = modify call.id check err new) (hnew : ∀ r, (new r).id = r.id)
    (h : WellFormed rs) :
    Keeps crypt rs call ↔ (check = true → ∀ r ∈ rs, r.id = call.id →
      Untouched call.id rs ∧ (new r.trimmed).WellFormed) := by
  by_cases haccept : check = true ∧ ∃ r ∈ rs, r.id = call.id
  · obtain ⟨hcheck, t, ht, hid⟩ := haccept
    have haccepted : call.run crypt (profile rs) = (OK, profile (rs.map (renew call.id new))) := by
      rw [hrun, ← hid, modify_accepted h hcheck ht]
    have hlength : (others call.id rs).length + 1 ≤ rs.length := by
      rw [Nat.succ_le_iff, others, List.length_filter_lt_length_iff_exists]
      exact ⟨t, ht, by simp [hid]⟩
    rw [keeps_iff_of_run crypt call haccepted (Or.inr (by rwa [List.length_map])), ← hid,
      renewed_iff hnew h ht]
    constructor
    · intro hws _ r hr he
      obtain rfl := eq_of_mem_of_id_eq h.nodup hr ht he
      exact hws
    · exact fun hall => hall hcheck t ht rfl
  · have hrefuse : check = true → ∀ r ∈ rs, r.id ≠ call.id := fun hcheck r hr he =>
      haccept ⟨hcheck, r, hr, he⟩
    have hunchanged : (call.run crypt (profile rs)).2 = profile rs := by
      rw [hrun, modify_refused h hrefuse]
    exact iff_of_true (keeps_of_unchanged h hunchanged) fun hcheck r hr he =>
      absurd he (hrefuse hcheck r hr)

end Modify

theorem deleteAdmin_accepted (h : WellFormed rs) {t : Record} (ht : t ∈ rs) :
    deleteAdmin t.id (profile rs) = (OK, profile ((others t.id rs).map Record.trimmed)) := by
  have hne := idPattern_ne_nil (h.records t ht).id
  have hfound := (any_readProfile h.records hne).2 ⟨t, ht, rfl⟩
  have hothers : ∀ r ∈ others t.id rs, r.WellFormed := fun r hr =>
    h.records r (List.mem_of_mem_filter hr)
  rw [deleteAdmin, filter_readProfile h.records hne, rewrite_readProfile hothers,
    isIDFormatOK_of_mem h ht, hfound]
  rfl

theorem deleteAdmin_refused (h : WellFormed rs) (hrefuse : ∀ r ∈ rs, r.id ≠ id) :
    (deleteAdmin id (profile rs)).2 = profile rs := by
  unfold deleteAdmin
  split_ifs with hformat hfound
  · rfl
  · rfl
  · rw [Bool.not_eq_true, Bool.not_eq_false'] at hformat hfound
    obtain ⟨r, hr, he⟩ := (any_readProfile h.records (ne_nil_of_isIDFormatOK hformat)).1 hfound
    exact absurd he (hrefuse r hr)

theorem keeps_deleteAdmin_iff {crypt : Bytes → Bytes} (h : WellFormed rs) :
    Keeps crypt rs (.deleteAdmin id) ↔ ((∃ r ∈ rs, r.id = id) → Untouched id rs) := by
  by_cases hexists : ∃ r ∈ rs, r.id = id
  · obtain ⟨t, ht, rfl⟩ := hexists
    have hclean : ∀ r ∈ (others t.id rs).map Record.trimmed, CleanRow 58 10 r.fields :=
      List.forall_mem_map.2 fun r hr => (h.records r (List.mem_of_mem_filter hr)).trimmed.clean
    rw [keeps_iff_of_run crypt (.deleteAdmin t.id) (deleteAdmin_accepted h ht) (Or.inl hclean),
      Call.id, removed_iff h]
    exact ⟨fun hu _ => hu, fun hu => hu ⟨t, ht, rfl⟩⟩
  · have hrefuse : ∀ r ∈ rs, r.id ≠ id := fun r hr he => hexists ⟨r, hr, he⟩
    exact iff_of_true (keeps_of_unchanged h (deleteAdmin_refused h hrefuse)) fun hr =>
      absurd hr hexists

section Add

variable {crypt : Bytes → Bytes} {passwd privilidge note ip domain : Bytes}

theorem addAdmin_accepted (h : WellFormed rs)
    (hchecks : (isIDFormatOK id && isPasswordFormatOK passwd && isPrivilidgeFormatOK privilidge &&
      isNoteFormatOK note && isIpFormatOK ip) = true) (hnew : ∀ r ∈ rs, r.id ≠ id) :
    addAdmin crypt id passwd privilidge note ip domain (profile rs) =
      (OK, profile (rs ++ [⟨id, crypt passwd, privilidge, note, ip, domain⟩])) := by
  simp only [Bool.and_eq_true] at hchecks
  obtain ⟨⟨⟨⟨hid, hpasswd⟩, hprivilidge⟩, hnote⟩, hip⟩ := hchecks
  have hfound : ((readProfile (profile rs)).any fun r => r.id = id) = false := by
    rw [← Bool.not_eq_true, any_readProfile h.records (ne_nil_of_isIDFormatOK hid)]
    rintro ⟨r, hr, he⟩
    exact hnew r hr he
  rw [addAdmin, hid, hpasswd, hprivilidge, hnote, hip, hfound, profile_append]
  rfl

theorem addAdmin_refused (h : WellFormed rs)
    (hrefuse : (isIDFormatOK id && isPasswordFormatOK passwd && isPrivilidgeFormatOK privilidge &&
      isNoteFormatOK note && isIpFormatOK ip) = true → ∃ r ∈ rs, r.id = id) :
    (addAdmin crypt id passwd privilidge note ip domain (profile rs)).2 = profile rs := by
  unfold addAdmin
  split_ifs with hid hpasswd hprivilidge hnote hip hdomain hfound
  · rfl
  · rfl
  · rfl
  · rfl
  · rfl
  · rfl
  · rfl
  · simp only [Bool.not_eq_true, Bool.not_eq_false'] at hid hpasswd hprivilidge hnote hip
    rw [any_readProfile h.records (ne_nil_of_isIDFormatOK hid)] at hfound
    refine absurd (hrefuse ?_) hfound
    rw [hid, hpasswd, hprivilidge, hnote, hip]
    rfl

/-- A call of `addAdmin` that is not refused appends the record. -/
theorem keeps_addAdmin_iff (h : WellFormed rs) :
    Keeps crypt rs (.addAdmin id passwd privilidge note ip domain) ↔
      (isIDFormatOK id && isPasswordFormatOK passwd && isPrivilidgeFormatOK privilidge &&
          isNoteFormatOK note && isIpFormatOK ip → (∀ r ∈ rs, r.id ≠ id) →
        Record.WellFormed ⟨id, crypt passwd, privilidge, note, ip, domain⟩) := by
  by_cases haccept : (isIDFormatOK id && isPasswordFormatOK passwd &&
      isPrivilidgeFormatOK privilidge && isNoteFormatOK note && isIpFormatOK ip) = true ∧
        ∀ r ∈ rs, r.id ≠ id
  · obtain ⟨hchecks, hnew⟩ := haccept
    have hlength : (others id rs).length + 1 ≤
        (rs ++ [(⟨id, crypt passwd, privilidge, note, ip, domain⟩ : Record)]).length := by
      rw [List.length_append, List.length_singleton]
      exact Nat.succ_le_succ (List.length_filter_le _ _)
    rw [keeps_iff_of_run crypt (.addAdmin id passwd privilidge note ip domain)
      (addAdmin_accepted h hchecks hnew) (Or.inr hlength), Call.id,
      @appended_iff _ ⟨id, crypt passwd, privilidge, note, ip, domain⟩ h hnew]
    exact ⟨fun hwell _ _ => hwell, fun hwell => hwell hchecks hnew⟩
  · have hunchanged := @addAdmin_refused rs id crypt passwd privilidge note ip domain h
      fun hchecks => by
        by_contra hnone
        exact haccept ⟨hchecks, fun r hr he => hnone ⟨r, hr, he⟩⟩
    exact iff_of_true (keeps_of_unchanged h hunchanged) fun hchecks hnew =>
      absurd ⟨hchecks, hnew⟩ haccept

end Add

/-! ## The arguments decide -/

theorem cleanRow_fields_iff {r : Record} :
    CleanRow 58 10 r.fields ↔ Plain r.id ∧ Plain r.passwd ∧ Plain r.privilidge ∧ Plain r.note ∧
      Plain r.ip ∧ Plain r.domain := by
  simp [CleanRow, Record.fields, Plain]

theorem plain_of_idPattern (h : idPattern id = true) : Plain id :=
  ⟨fun hmem => absurd (isIDByte_of_idPattern h 58 hmem) (by decide),
    fun hmem => absurd (isIDByte_of_idPattern h 10 hmem) (by decide)⟩

section Arguments

variable {r : Record} (h : r.WellFormed)
include h

theorem wellFormed_passwd_iff {passwd : Bytes} (hpasswd : Plain passwd) :
    Record.WellFormed { r with passwd := passwd } ↔
      (Record.text { r with passwd := passwd }).length < 1023 := by
  obtain ⟨hid, -, hrest⟩ := cleanRow_fields_iff.1 h.clean
  exact ⟨fun hw => hw.length, fun hlength =>
    ⟨h.id, h.privilidge, h.ip, cleanRow_fields_iff.2 ⟨hid, hpasswd, hrest⟩, hlength⟩⟩

theorem wellFormed_privilidge_iff {perm : Bytes} (hperm : isPrivilidgeFormatOK perm = true) :
    Record.WellFormed { r with privilidge := perm } ↔
      Plain perm ∧ (Record.text { r with privilidge := perm }).length < 1023 := by
  obtain ⟨hid, hpasswd, -, hrest⟩ := cleanRow_fields_iff.1 h.clean
  constructor
  · exact fun hw => ⟨(cleanRow_fields_iff.1 hw.clean).2.2.1, hw.length⟩
  · rintro ⟨hplain, hlength⟩
    exact ⟨h.id, hperm, h.ip, cleanRow_fields_iff.2 ⟨hid, hpasswd, hplain, hrest⟩, hlength⟩

theorem wellFormed_ip_iff {iplist : Bytes} (hip : isIpFormatOK iplist = true) :
    Record.WellFormed { r with ip := iplist } ↔
      Plain iplist ∧ (Record.text { r with ip := iplist }).length < 1023 := by
  obtain ⟨hid, hpasswd, hprivilidge, hnote, -, hdomain⟩ := cleanRow_fields_iff.1 h.clean
  constructor
  · exact fun hw => ⟨(cleanRow_fields_iff.1 hw.clean).2.2.2.2.1, hw.length⟩
  · rintro ⟨hplain, hlength⟩
    exact ⟨h.id, h.privilidge, hip,
      cleanRow_fields_iff.2 ⟨hid, hpasswd, hprivilidge, hnote, hplain, hdomain⟩, hlength⟩

end Arguments

theorem wellFormed_new_iff {passwd privilidge note ip domain : Bytes} (hid : isIDFormatOK id = true)
    (hpasswd : Plain passwd) (hprivilidge : isPrivilidgeFormatOK privilidge = true) :
    Record.WellFormed ⟨id, passwd, privilidge, note, ip, domain⟩ ↔
      0 ∉ id ∧ isIpFormatOK ip ∧ (∀ a ∈ [privilidge, note, ip, domain], Plain a) ∧
          (Record.text ⟨id, passwd, privilidge, note, ip, domain⟩).length < 1023 := by
  simp only [List.forall_mem_cons, List.not_mem_nil, false_imp_iff, implies_true, and_true]
  constructor
  · intro hw
    obtain ⟨-, -, hplain⟩ := cleanRow_fields_iff.1 hw.clean
    exact ⟨((idPattern_iff id).1 hw.id).2, hw.ip, hplain, hw.length⟩
  · rintro ⟨hzero, hip, hplain, hlength⟩
    have hpattern := (idPattern_iff id).2 ⟨hid, hzero⟩
    exact ⟨hpattern, hprivilidge, hip,
      cleanRow_fields_iff.2 ⟨plain_of_idPattern hpattern, hpasswd, hplain⟩, hlength⟩

/-- **The file of administrators stays well formed** and the other administrators as they are,
exactly if the call is refused or its arguments are sound. -/
theorem keeps_iff {crypt : Bytes → Bytes} (hcrypt : ∀ passwd, Plain (crypt passwd))
    (h : WellFormed rs) (call : Call) : Keeps crypt rs call ↔ Sound crypt rs call := by
  have htrimmed : ∀ r ∈ rs, r.trimmed.WellFormed := fun r hr => (h.records r hr).trimmed
  cases call with
  | addAdmin id passwd privilidge note ip domain =>
    rw [keeps_addAdmin_iff h, Sound]
    refine imp_congr_right fun hchecks => imp_congr_right fun _ => ?_
    simp only [Bool.and_eq_true] at hchecks
    obtain ⟨⟨⟨⟨hid, -⟩, hprivilidge⟩, -⟩, hip⟩ := hchecks
    rw [wellFormed_new_iff hid (hcrypt passwd) hprivilidge]
    simp only [hip, true_and]
  | setPassword id passwd =>
    rw [keeps_modify_iff crypt (.setPassword id passwd) rfl (fun _ => rfl) h]
    refine imp_congr_right fun _ => forall₂_congr fun r hr => imp_congr_right fun _ => ?_
    rw [wellFormed_passwd_iff (htrimmed r hr) (hcrypt passwd)]
    rfl
  | modifyAdminPrivilidge id perm =>
    rw [keeps_modify_iff crypt (.modifyAdminPrivilidge id perm) rfl (fun _ => rfl) h]
    refine imp_congr_right fun hperm => forall₂_congr fun r hr => imp_congr_right fun _ => ?_
    rw [wellFormed_privilidge_iff (htrimmed r hr) hperm]
    rfl
  | setIPList id iplist =>
    rw [keeps_modify_iff crypt (.setIPList id iplist) rfl (fun _ => rfl) h]
    refine imp_congr_right fun hip => forall₂_congr fun r hr => imp_congr_right fun _ => ?_
    rw [wellFormed_ip_iff (htrimmed r hr) hip]
    rfl
  | modifyAdmin id passwd privilidge note ip domain =>
    rw [keeps_modify_iff crypt (.modifyAdmin id passwd privilidge note ip domain) rfl
      (fun _ => rfl) h]
    refine imp_congr_right fun hprivilidge => forall₂_congr fun r hr => imp_congr_right fun he => ?_
    obtain rfl : r.id = id := he
    obtain ⟨hid, hzero⟩ := (idPattern_iff r.id).1 (h.records r hr).id
    have hpasswd : Plain (if passwd = [] then r.trimmed.passwd else crypt passwd) := by
      split_ifs
      · exact (cleanRow_fields_iff.1 (htrimmed r hr).clean).2.1
      · exact hcrypt passwd
    rw [trimmed_id (h.records r hr), wellFormed_new_iff hid hpasswd hprivilidge]
    simp only [hzero, not_false_eq_true, true_and]
    rfl
  | deleteAdmin id => exact keeps_deleteAdmin_iff h

/-- The first administrator. -/
def sysop : Record where
  id := bytes "admin"
  passwd := bytes "arlEKn0OzJJn."
  privilidge := bytes "131071"

theorem wellFormed_sysop : WellFormed [sysop] := by
  refine ⟨List.forall_mem_singleton.2 ⟨?_, ?_, ?_, ?_, ?_⟩, List.nodup_singleton _⟩
  · decide
  · decide
  · decide
  · decide
  · decide

/-- A call with sound arguments. -/
theorem keeps_addBob :
    Keeps (fun _ => bytes "arlEKn0OzJJn.") [sysop]
      (.addAdmin (bytes "bob") (bytes "foob") (bytes "3") (bytes "night shift")
        (bytes "+10.0.0.0/8") []) := by
  refine (keeps_iff (fun _ => ⟨by decide, by decide⟩) wellFormed_sysop _).2 fun _ _ =>
    ⟨by decide, by decide, by decide⟩

/-- The domains are not checked: a line end in them forges an administrator. -/
theorem not_keeps_forged :
    ¬Keeps (fun _ => bytes "arlEKn0OzJJn.") [sysop]
      (.addAdmin (bytes "bob") (bytes "foob") (bytes "3") [] []
        (10 :: bytes "root:arlEKn0OzJJn.:131071:::")) := by
  intro h
  have hrun : ((Call.addAdmin (bytes "bob") (bytes "foob") (bytes "3") [] []
      (10 :: bytes "root:arlEKn0OzJJn.:131071:::")).run (fun _ => bytes "arlEKn0OzJJn.")
        (profile [sysop])).2 =
      profile [sysop, ⟨bytes "bob", bytes "arlEKn0OzJJn.", bytes "3", [], [], []⟩,
        { sysop with id := bytes "root" }] := by
    decide
  have hclean : ∀ r ∈ [sysop, ⟨bytes "bob", bytes "arlEKn0OzJJn.", bytes "3", [], [], []⟩,
      { sysop with id := bytes "root" }], CleanRow 58 10 r.fields := by
    decide
  have hws := h.wellFormed
  rw [hrun] at hws
  have hothers := ((exists_wellFormed_iff (Or.inl hclean)).1 hws).2
  exact absurd hothers (by decide)

end NoSpam.Admin
