import NoSpam.Admin.SpamList

/-!
# White and black stay apart

What the page keeps of clean keys and notes it reads back as it is, so the table shows what is on
file and a number addresses the row that it shows.  A run of regular requests from empty lists on
keeps the lists of a kind apart, each request changes what it addresses, and the exported file
brings all six lists back (`lists_apart_of_meets`).
-/

namespace NoSpam.Admin.SpamList

open Text Php ConfFile

/-! ## Types -/

theorem ListType.mem_all (t : ListType) : t ∈ ListType.all := by cases t <;> decide

theorem ListType.name_inj {t t' : ListType} : t.name = t'.name ↔ t = t' := by
  cases t <;> cases t' <;> decide

theorem ListType.sList_inj {t t' : ListType} : t.sList = t'.sList ↔ t = t' := by
  rw [sList, sList, List.append_cancel_right_eq, name_inj]

theorem ListType.opposite_ne (t : ListType) : t.opposite ≠ t := by cases t <;> decide

/-! ## Rows -/

theorem row_eq_some_iff {items : List Item} {key : Bytes} {x : Item} :
    row items key = some x ↔ ∃ i, items[i]? = some x ∧ decimal (i + 1) = key := by
  rw [row, Option.map_eq_some_iff]
  constructor
  · rintro ⟨⟨y, i⟩, hfind, rfl⟩
    have hi : decimal i = key := by simpa using List.find?_some hfind
    obtain ⟨hle, hget⟩ :=
      List.mk_mem_zipIdx_iff_le_and_getElem?_sub.1 (List.mem_of_find?_eq_some hfind)
    exact ⟨i - 1, hget, by rwa [Nat.sub_add_cancel hle]⟩
  · rintro ⟨i, hget, rfl⟩
    have hmem : (x, i + 1) ∈ items.zipIdx 1 :=
      List.mk_mem_zipIdx_iff_le_and_getElem?_sub.2 ⟨Nat.le_add_left 1 i, hget⟩
    cases hfind : (items.zipIdx 1).find? fun y => decimal y.2 = decimal (i + 1) with
    | none =>
      exact absurd (List.find?_eq_none.1 hfind _ hmem) (by simp)
    | some y =>
      have hy : decimal y.2 = decimal (i + 1) := by simpa using List.find?_some hfind
      obtain ⟨-, hget'⟩ :=
        List.mk_mem_zipIdx_iff_le_and_getElem?_sub.1 (List.mem_of_find?_eq_some hfind)
      rw [decimal_inj hy, Nat.add_sub_cancel, hget] at hget'
      exact ⟨y, rfl, (Option.some.inj hget').symm⟩

theorem unset_sublist (items : List Item) (keys : List Bytes) :
    (unset items keys).Sublist items := by
  have hsub : ((items.zipIdx 1).filter fun x => decimal x.2 ∉ keys).Sublist (items.zipIdx 1) :=
    List.filter_sublist
  have hmap := hsub.map Prod.fst
  rwa [List.zipIdx_map_fst] at hmap

/-- What is left of rows that are all different are the rows that are not addressed. -/
theorem mem_unset {items : List Item} (h : items.Nodup) {keys : List Bytes} {x : Item} :
    x ∈ unset items keys ↔ x ∈ items ∧ ∀ key ∈ keys, row items key ≠ some x := by
  rw [unset, List.mem_map]
  constructor
  · rintro ⟨⟨y, i⟩, hmem, rfl⟩
    obtain ⟨hmem, hnot⟩ := List.mem_filter.1 hmem
    obtain ⟨hle, hget⟩ := List.mk_mem_zipIdx_iff_le_and_getElem?_sub.1 hmem
    refine ⟨List.mem_of_getElem? hget, fun key hkey hrow => ?_⟩
    obtain ⟨j, hget', rfl⟩ := row_eq_some_iff.1 hrow
    have hij : i - 1 = j := by
      obtain ⟨hlt, hy⟩ := List.getElem?_eq_some_iff.1 hget
      obtain ⟨hlt', hy'⟩ := List.getElem?_eq_some_iff.1 hget'
      exact (List.Nodup.getElem_inj_iff h).1 (hy.trans hy'.symm)
    rw [← hij, Nat.sub_add_cancel hle] at hkey
    simp [hkey] at hnot
  · rintro ⟨hmem, hnot⟩
    obtain ⟨i, hget⟩ := List.getElem?_of_mem hmem
    refine ⟨(x, i + 1), List.mem_filter.2 ⟨?_, decide_eq_true fun hkey => ?_⟩, rfl⟩
    · exact List.mk_mem_zipIdx_iff_le_and_getElem?_sub.2 ⟨Nat.le_add_left 1 i, hget⟩
    · exact hnot _ hkey (row_eq_some_iff.2 ⟨i, hget, rfl⟩)

/-! ## The table -/

theorem mem_table {L : Lists} {x : Item} :
    x ∈ table L ↔ ∃ t, x.type = t.name ∧ (x.key, x.note) ∈ (L t).entries := by
  rw [table, List.mem_flatMap]
  constructor
  · rintro ⟨t, -, hx⟩
    obtain ⟨e, he, rfl⟩ := List.mem_map.1 hx
    exact ⟨t, rfl, he⟩
  · rintro ⟨t, ht, hx⟩
    exact ⟨t, t.mem_all, List.mem_map.2 ⟨_, hx, by rw [← ht]⟩⟩

theorem filter_table (L : Lists) (t : ListType) :
    ((table L).filter fun item => item.type = t.name).map (fun item => (item.key, item.note)) =
      (L t).entries := by
  have hfilter : ∀ t' : ListType, ((((L t').entries.map fun e => Item.mk t'.name e.1 e.2).filter
      fun item => item.type = t.name).map fun item => (item.key, item.note)) =
        if t' = t then (L t').entries else [] := by
    intro t'
    rw [List.filter_map, List.map_map]
    split_ifs with ht
    · simp [Function.comp_def, ht]
    · simp [Function.comp_def, ListType.name_inj, ht]
  rw [table, List.filter_flatMap, List.map_flatMap]
  simp only [hfilter]
  cases t <;> simp [ListType.all]

theorem listBuf_table (L : Lists) (t : ListType) : listBuf (table L) t.name = L t := by
  rw [listBuf, filter_table, Assoc.ofList_entries]

theorem nodup_table (L : Lists) : (table L).Nodup := by
  rw [table, List.nodup_flatMap]
  refine ⟨fun t _ => ?_, ?_⟩
  · have hnodup : (L t).entries.Nodup := List.Nodup.of_map Prod.fst (L t).nodup
    refine hnodup.map fun e e' h => ?_
    simp only [Item.mk.injEq, true_and] at h
    exact Prod.ext h.1 h.2
  · have hall : ListType.all.Nodup := by decide
    refine hall.imp fun {t t'} hne => ?_
    rw [Function.onFun, List.disjoint_left]
    intro x hx hx'
    obtain ⟨e, -, rfl⟩ := List.mem_map.1 hx
    obtain ⟨e', -, heq⟩ := List.mem_map.1 hx'
    simp only [Item.mk.injEq] at heq
    exact hne (ListType.name_inj.1 heq.1).symm

/-! ## One list -/

/-- An entry that is kept as it is. -/
structure Kept (t : ListType) (e : Bytes × Bytes) : Prop where
  clean : CleanItem e.1 e.2
  comma : 44 ∉ e.2
  trim_note : trim e.2 = e.2
  isIP : isIPList t.sList = true → checkipaddr e.1 true = true

theorem replaceComma_of_not_mem {note : Bytes} (h : 44 ∉ note) : replaceComma note = note := by
  induction note with
  | nil => rfl
  | cons c note ih =>
    rw [List.mem_cons, not_or] at h
    rw [replaceComma, List.flatMap_cons, if_neg (Ne.symm h.1), ← replaceComma, ih h.2]
    rfl

theorem mem_of_mem_replaceComma {note : Bytes} {c : UInt8} (h : c ∈ replaceComma note)
    (hc : c < 128) : c ∈ note := by
  obtain ⟨d, hd, hmem⟩ := List.mem_flatMap.1 h
  split_ifs at hmem with h44
  · have hall : ([239, 188, 140] : Bytes).all (128 ≤ ·) = true := by decide
    have hle := of_decide_eq_true (List.all_eq_true.1 hall c hmem)
    exact absurd hc (UInt8.not_lt.2 hle)
  · rwa [List.mem_singleton.1 hmem]

theorem not_mem_storedNote {note : Bytes} {c : UInt8} (hc : c < 128) (h : c ∉ note) :
    c ∉ storedNote note := fun hmem => h (mem_of_mem_replaceComma (mem_of_mem_trim hmem) hc)

theorem Kept.storedNote {t : ListType} {e : Bytes × Bytes} (h : Kept t e) :
    storedNote e.2 = e.2 := by
  rw [ConfFile.storedNote, replaceComma_of_not_mem h.comma, h.trim_note]

/-- What a clean key and its note become. -/
theorem CleanItem.kept {t : ListType} {key note : Bytes} (h : CleanItem key note)
    (hip : isIPList t.sList = true → checkipaddr key true = true) :
    Kept t (key, ConfFile.storedNote note) := by
  refine ⟨⟨⟨h.isItem.comma, h.isItem.sharp, h.isItem.newline, ?_⟩, ?_, ⟨h.tab.1, ?_⟩, h.trim_key,
    h.isTrue⟩, ?_, trim_trim _, hip⟩
  · exact not_mem_storedNote (by decide) h.isItem.note
  · exact not_mem_storedNote (by decide) h.sharp
  · exact not_mem_storedNote (by decide) h.tab.2
  · exact fun hmem => comma_not_mem_replaceComma note (mem_of_mem_trim hmem)

theorem entered_eq {m : Assoc Bytes Bytes} (h : ∀ e ∈ m.entries, trim e.1 = e.1) :
    entered m = m.mapVal storedNote := by
  have hmap : m.entries.map stored = m.entries.map fun e => (e.1, storedNote e.2) :=
    List.map_congr_left fun e he => by rw [stored, h e he]
  rw [entered, hmap, Assoc.ofList_map, Assoc.ofList_entries]

section SetList

variable {params params' : Params} {m : Assoc Bytes Bytes} {t t' : ListType}

/-- A list that is written is read back. -/
theorem readLists_setList (hm : ∀ e ∈ m.entries, CleanItem e.1 e.2)
    (h : setList params t.sList m SpamEngine = some params') :
    readLists params' t = m.mapVal storedNote := by
  have hread := getList_setList (fun e he => (hm e he).isItem) h
  rw [readLists, hread, entered_eq fun e he => (hm e he).trim_key, Assoc.mapVal_eq_self_iff]
  intro e he
  obtain ⟨e', he', rfl⟩ := List.mem_map.1 he
  exact (readNote_eq_self_iff _).2 (not_mem_storedNote (by decide) (hm e' he').sharp)

theorem getParam_eq (params : Params) (key sec : Bytes) :
    getParam params key sec = (param params sec key).getD [] := by
  rw [getParam, param]
  cases params.lookup sec <;> rfl

/-- The other lists stay. -/
theorem readLists_setList_of_ne (ht : t' ≠ t)
    (h : setList params t.sList m SpamEngine = some params') :
    readLists params' t' = readLists params t' := by
  rw [setList] at h
  split_ifs at h
  have hparam : getParam params' t'.sList SpamEngine = getParam params t'.sList SpamEngine := by
    rw [← Option.some.inj h, getParam_eq, getParam_eq, param_setParam, if_neg]
    exact fun h => ht (ListType.sList_inj.1 h.2)
  rw [readLists, readLists, getList, getList, hparam]

/-- What is written fits on its line. -/
theorem isConf_setList (hparams : IsConf params) (hm : ∀ e ∈ m.entries, CleanItem e.1 e.2)
    (h : setList params t.sList m SpamEngine = some params') : IsConf params' := by
  rw [setList] at h
  split_ifs at h
  have hkey : IsKey t.sList := by cases t <;> decide
  have hvalue : IsLine (trim (joinFields 44 (m.entries.map item))) := by
    refine isLine_trim fun hmem => ?_
    rcases mem_of_mem_joinFields hmem with heq | ⟨l, hl, hmem⟩
    · exact absurd heq (by decide)
    · obtain ⟨e, he, rfl⟩ := List.mem_map.1 hl
      have hitem := (hm e he).isItem
      rcases List.mem_append.1 hmem with hmem | hmem
      · exact hitem.newline (mem_of_mem_trim hmem)
      · rcases List.mem_cons.1 hmem with heq | hmem
        · exact absurd heq (by decide)
        · exact not_mem_storedNote (by decide) hitem.note hmem
  rw [← Option.some.inj h]
  exact isConf_setParam hparams (by decide) (hkey.isRow hvalue)

/-- The keys of a list of addresses are addresses. -/
theorem isIP_of_setList (h : setList params t.sList m SpamEngine = some params') :
    ∀ e ∈ m.entries, isIPList t.sList = true → checkipaddr e.1 true = true := by
  rw [setList] at h
  split_ifs at h with hdie
  intro e he hip
  by_contra hnot
  refine hdie ?_
  rw [hip, Bool.true_and, List.any_eq_true]
  exact ⟨e, he, by simpa using hnot⟩

/-- A list of addresses is not refused. -/
theorem exists_setList
    (h : ∀ e ∈ m.entries, isIPList t.sList = true → checkipaddr e.1 true = true) :
    ∃ params', setList params t.sList m SpamEngine = some params' := by
  rw [setList, if_neg]
  · exact ⟨_, rfl⟩
  · intro hdie
    obtain ⟨hip, hany⟩ := Bool.and_eq_true_iff.1 hdie
    obtain ⟨e, he, hnot⟩ := List.any_eq_true.1 hany
    rw [h e he hip] at hnot
    cases hnot

end SetList

/-- What is saved is loaded again. -/
theorem lists_save {Privilege : Option Bytes} (hperm : adminPerm Privilege PERM_ADMIN_WRITE = true)
    {params : Params} (h : IsConf params) (file : Bytes) :
    lists (ConfFile.save Privilege params file) = readLists params := by
  funext t
  have hparam : getParam (parseIni (trim (iniText params))) t.sList SpamEngine =
      getParam params t.sList SpamEngine := by
    rw [getParam_eq, getParam_eq, parseIni_trim, param_parseIni_iniText h]
  rw [lists, save_of_adminPerm hperm, readLists, readLists, getList, getList, hparam]

/-! ## All lists -/

section SetLists

variable {params params' : Params} {items : List Item}

theorem foldlM_setList {bufs : ListType → Assoc Bytes Bytes}
    (hclean : ∀ t, ∀ e ∈ (bufs t).entries, CleanItem e.1 e.2) {ts : List ListType} (hts : ts.Nodup)
    (hconf : IsConf params)
    (h : ts.foldlM (fun params t => setList params t.sList (bufs t) SpamEngine) params =
      some params') :
    IsConf params' ∧
      (∀ t ∈ ts, readLists params' t = (bufs t).mapVal storedNote ∧
        ∀ e ∈ (bufs t).entries, isIPList t.sList = true → checkipaddr e.1 true = true) ∧
      ∀ t, t ∉ ts → readLists params' t = readLists params t := by
  induction ts generalizing params with
  | nil =>
    cases h
    exact ⟨hconf, fun t ht => absurd ht List.not_mem_nil, fun _ _ => rfl⟩
  | cons t₀ ts ih =>
    obtain ⟨hnot, hts⟩ := List.nodup_cons.1 hts
    obtain ⟨params₀, h₀, h⟩ := Option.bind_eq_some_iff.1 h
    obtain ⟨hconf', hmem, hother⟩ := ih hts (isConf_setList hconf (hclean t₀) h₀) h
    refine ⟨hconf', fun t ht => ?_, fun t ht => ?_⟩
    · rcases List.mem_cons.1 ht with rfl | ht
      · rw [hother t hnot]
        exact ⟨readLists_setList (hclean t) h₀, isIP_of_setList h₀⟩
      · exact hmem t ht
    · rw [List.mem_cons, not_or] at ht
      rw [hother t ht.2, readLists_setList_of_ne ht.1 h₀]

theorem exists_foldlM_setList {bufs : ListType → Assoc Bytes Bytes}
    (h : ∀ t, ∀ e ∈ (bufs t).entries, isIPList t.sList = true → checkipaddr e.1 true = true)
    (ts : List ListType) (params : Params) :
    ∃ params', ts.foldlM (fun params t => setList params t.sList (bufs t) SpamEngine) params =
      some params' := by
  induction ts generalizing params with
  | nil => exact ⟨params, rfl⟩
  | cons t ts ih =>
    obtain ⟨params₀, h₀⟩ := @exists_setList params _ _ (h t)
    obtain ⟨params', h'⟩ := ih params₀
    exact ⟨params', Option.bind_eq_some_iff.2 ⟨params₀, h₀, h'⟩⟩

/-- All lists that are written are read back. -/
theorem readLists_setLists (hconf : IsConf params)
    (hclean : ∀ t : ListType, ∀ e ∈ (listBuf items t.name).entries, CleanItem e.1 e.2)
    (h : setLists params items = some params') :
    IsConf params' ∧ ∀ t : ListType,
      readLists params' t = (listBuf items t.name).mapVal storedNote ∧
        ∀ e ∈ (listBuf items t.name).entries, isIPList t.sList = true →
          checkipaddr e.1 true = true := by
  obtain ⟨hconf', hmem, -⟩ :=
    @foldlM_setList _ _ (fun t => listBuf items t.name) hclean _ (by decide) hconf h
  exact ⟨hconf', fun t => hmem t t.mem_all⟩

end SetLists

/-- What stands in a list stands in the items. -/
theorem mem_of_mem_listBuf {items : List Item} {type : Bytes} {e : Bytes × Bytes}
    (h : e ∈ (listBuf items type).entries) :
    (⟨type, e.1, e.2⟩ : Item) ∈ items := by
  have hlookup := Assoc.mem_entries_iff.1 h
  have hmem := Assoc.mem_of_lookup_ofList hlookup
  obtain ⟨x, hx, hxe⟩ := List.mem_map.1 hmem
  obtain ⟨hx, htype⟩ := List.mem_filter.1 hx
  obtain ⟨hkey, hnote⟩ := Prod.mk.inj hxe
  have heq : x = ⟨type, e.1, e.2⟩ := by
    rw [← hkey, ← hnote, ← of_decide_eq_true htype]
  rwa [← heq]

/-! ## One entry -/

theorem listBuf_concat (items : List Item) (type key note : Bytes) :
    listBuf (items ++ [⟨type, key, note⟩]) type = (listBuf items type).put key note := by
  rw [listBuf, List.filter_append, List.filter_cons_of_pos (by simp), List.filter_nil,
    List.map_append, Assoc.ofList, List.foldl_append]
  rfl

/-- What an accepted `save` leaves. -/
structure Saved (params params' : Params) (items : List Item) (option : ListType)
    (key note : Bytes) : Prop where
  isConf : IsConf params'
  apart : ∀ x ∈ items, x.type ≠ option.name → Perl.lc x.key ≠ Perl.lc key
  own : readLists params' option = (listBuf items option.name).put key (storedNote note)
  other : ∀ t, t ≠ option → readLists params' t = readLists params t
  kept : Kept option (key, storedNote note)

theorem saved_of_saveItem {params params' : Params} {items : List Item} {option : ListType}
    {key note : Bytes} (hparams : IsConf params) (hclean : CleanItem key note)
    (hitems : ∀ e ∈ (listBuf items option.name).entries, Kept option e)
    (h : saveItem params items option key note = .ok params') :
    Saved params params' items option key note := by
  rw [saveItem] at h
  split_ifs at h with hany
  simp only [listBuf_concat] at h
  have hbuf : ∀ e ∈ ((listBuf items option.name).put key note).entries, CleanItem e.1 e.2 :=
    Assoc.forall_mem_put (P := fun e => CleanItem e.1 e.2) (fun e he => (hitems e he).clean) hclean
  cases hset :
      setList params option.sList ((listBuf items option.name).put key note) SpamEngine with
  | none =>
    rw [hset] at h
    cases h
  | some params'' =>
    rw [hset] at h
    cases h
    have hown : (listBuf items option.name).mapVal storedNote = listBuf items option.name :=
      Assoc.mapVal_eq_self_iff.2 fun e he => (hitems e he).storedNote
    have hmem : (key, note) ∈ ((listBuf items option.name).put key note).entries := by
      rw [Assoc.mem_entries_iff, Assoc.lookup_put, if_pos rfl]
    refine ⟨isConf_setList hparams hbuf hset, fun x hx htype heq => hany ?_, ?_,
      fun t ht => readLists_setList_of_ne ht hset, hclean.kept (isIP_of_setList hset _ hmem)⟩
    · rw [List.any_eq_true]
      exact ⟨x, hx, by simp [heq, htype]⟩
    · rw [readLists_setList hbuf hset, ← Assoc.put_mapVal, hown]

/-! ## What holds in a run -/

/-- The lists are kept as they are, and apart. -/
structure Inv (L : Lists) : Prop where
  kept : ∀ t, ∀ e ∈ (L t).entries, Kept t e
  exclusive : Exclusive L

section Inv

variable {L L' : Lists}

/-- The rows of the other lists are all in the items that `save` looks at. -/
theorem Inv.save (h : Inv L) {params params' : Params} (hL : readLists params = L)
    {items : List Item} {option : ListType} {key note : Bytes}
    (hsub : ∀ x ∈ items, x ∈ table L)
    (hothers : ∀ x ∈ table L, x.type ≠ option.name → x ∈ items)
    (hsaved : Saved params params' items option key note) : Inv (readLists params') := by
  have hitems : ∀ e ∈ (listBuf items option.name).entries, e ∈ (L option).entries := by
    intro e he
    obtain ⟨t, ht, hmem⟩ := mem_table.1 (hsub _ (mem_of_mem_listBuf he))
    rwa [← ListType.name_inj.1 ht] at hmem
  have hown : ∀ e ∈ (readLists params' option).entries,
      e = (key, storedNote note) ∨ e ∈ (L option).entries := by
    rw [hsaved.own]
    exact Assoc.forall_mem_put (P := fun e => e = (key, storedNote note) ∨ e ∈ (L option).entries)
      (fun e he => Or.inr (hitems e he)) (Or.inl rfl)
  have hother : ∀ t, t ≠ option → readLists params' t = L t := fun t ht => by
    rw [hsaved.other t ht, hL]
  have hapart : ∀ t, t ≠ option → ∀ e ∈ (L t).entries, Perl.lc e.1 ≠ Perl.lc key := by
    intro t ht e he
    have hne : t.name ≠ option.name := mt ListType.name_inj.1 ht
    exact hsaved.apart ⟨t.name, e.1, e.2⟩ (hothers _ (mem_table.2 ⟨t, rfl, he⟩) hne) hne
  refine ⟨fun t e he => ?_, fun t e he e' he' => ?_⟩
  · rcases Decidable.em (t = option) with rfl | ht
    · rcases hown e he with rfl | he
      · exact hsaved.kept
      · exact h.kept t e he
    · rw [hother t ht] at he
      exact h.kept t e he
  · rcases Decidable.em (t = option) with rfl | ht
    · rw [hother _ t.opposite_ne] at he'
      rcases hown e he with rfl | he
      · exact (hapart _ t.opposite_ne e' he').symm
      · exact h.exclusive t e he e' he'
    · rw [hother t ht] at he
      rcases Decidable.em (t.opposite = option) with ho | ho
      · subst ho
        rcases hown e' he' with rfl | he'
        · exact hapart t ht e he
        · exact h.exclusive t e he e' he'
      · rw [hother _ ho] at he'
        exact h.exclusive t e he e' he'

/-- Lists with nothing in them that is not in other lists. -/
theorem Inv.mono (h : Inv L) (hsub : ∀ t, ∀ e ∈ (L' t).entries, e ∈ (L t).entries) : Inv L' :=
  ⟨fun t e he => h.kept t e (hsub t e he),
    fun t e he e' he' => h.exclusive t e (hsub t e he) e' (hsub _ e' he')⟩

/-- The lists of rows that are left. -/
theorem entries_listBuf_unset (L : Lists) (keys : List Bytes) (t : ListType) :
    (listBuf (unset (table L) keys) t.name).entries =
      ((unset (table L) keys).filter fun item => item.type = t.name).map fun item =>
        (item.key, item.note) := by
  refine Assoc.entries_ofList ?_
  have hsub := ((unset_sublist (table L) keys).filter fun item => item.type = t.name).map
    fun item => (item.key, item.note)
  rw [filter_table] at hsub
  exact (L t).nodup.sublist (hsub.map Prod.fst)

theorem mem_listBuf_unset {keys : List Bytes} {t : ListType} {e : Bytes × Bytes} :
    e ∈ (listBuf (unset (table L) keys) t.name).entries ↔
      (⟨t.name, e.1, e.2⟩ : Item) ∈ unset (table L) keys := by
  rw [entries_listBuf_unset, List.mem_map]
  constructor
  · rintro ⟨x, hx, rfl⟩
    obtain ⟨hx, htype⟩ := List.mem_filter.1 hx
    rwa [← of_decide_eq_true htype]
  · exact fun hx => ⟨_, List.mem_filter.2 ⟨hx, by simp⟩, rfl⟩

theorem mem_entries_of_unset {keys : List Bytes} {t : ListType} {e : Bytes × Bytes}
    (h : e ∈ (listBuf (unset (table L) keys) t.name).entries) : e ∈ (L t).entries := by
  have hmem := (unset_sublist _ _).subset (mem_listBuf_unset.1 h)
  obtain ⟨t', ht', he⟩ := mem_table.1 hmem
  rwa [← ListType.name_inj.1 ht'] at he

/-- A row that is left. -/
theorem lookup_listBuf_unset (L : Lists) (keys : List Bytes) (t : ListType) (k : Bytes) :
    (Addressed L keys t k → (listBuf (unset (table L) keys) t.name).lookup k = none) ∧
      (¬ Addressed L keys t k →
        (listBuf (unset (table L) keys) t.name).lookup k = (L t).lookup k) := by
  refine ⟨?_, fun hnot => ?_⟩
  · rintro ⟨key, hkey, n, hrow⟩
    refine Option.eq_none_iff_forall_ne_some.2 fun n' hn' => ?_
    have hleft := mem_listBuf_unset.1 (Assoc.mem_entries_iff.2 hn')
    obtain ⟨i, hget, -⟩ := row_eq_some_iff.1 hrow
    obtain ⟨t', ht', hn⟩ := mem_table.1 (List.mem_of_getElem? hget)
    rw [← ListType.name_inj.1 ht', Assoc.mem_entries_iff] at hn
    have hn'' := Assoc.mem_entries_iff.1 (mem_entries_of_unset (Assoc.mem_entries_iff.2 hn'))
    obtain rfl : n = n' := Option.some.inj (hn.symm.trans hn'')
    exact ((mem_unset (nodup_table L)).1 hleft).2 key hkey hrow
  · cases hl : (L t).lookup k with
    | none =>
      refine Option.eq_none_iff_forall_ne_some.2 fun n hn => ?_
      have hmem := Assoc.mem_entries_iff.1 (mem_entries_of_unset (Assoc.mem_entries_iff.2 hn))
      rw [hl] at hmem
      cases hmem
    | some n =>
      refine Assoc.mem_entries_iff.1 (mem_listBuf_unset.2 ((mem_unset (nodup_table L)).2 ⟨?_, ?_⟩))
      · exact mem_table.2 ⟨t, rfl, Assoc.mem_entries_iff.2 hl⟩
      · exact fun key hkey hrow => hnot ⟨key, hkey, n, hrow⟩

end Inv

/-! ## Export and import -/

theorem trim_type_append (t : ListType) {b : Bytes} (h : rtrim b = b) (hne : b ≠ []) (c : UInt8) :
    trim (t.name ++ c :: b) = t.name ++ c :: b := by
  rw [trim, List.append_cons, rtrim_append h hne]
  cases t <;> rfl

theorem importLine_type_append {t : ListType} {key note rest : Bytes}
    (hkey : Perl.isTrue key = true) (h₁ : part 9 rest 0 = key) (h₂ : part 9 rest 1 = note)
    {line : Bytes} (hline : trim line = t.name ++ 9 :: rest) :
    importLine line = some ⟨t.name, key, note⟩ := by
  have htype : 9 ∉ t.name ∧ Perl.isTrue t.name = true := by cases t <;> decide
  have htrue : Perl.isTrue (t.name ++ 9 :: rest) = true := by cases t <;> rfl
  have hpart := part_append htype.1 rest
  rw [importLine, hline]
  simp only [htrue, hpart, Bool.not_true, Bool.false_eq_true, if_false, if_true, one_ne_zero,
    OfNat.ofNat_ne_zero, Nat.sub_self, Nat.add_one_sub_one, h₁, h₂, htype.2, hkey, Bool.or_self]

/-- A line that was exported is imported. -/
theorem importLine_exportLine {t : ListType} {e : Bytes × Bytes} (h : Kept t e) :
    importLine (t.name ++ 9 :: (e.1 ++ 9 :: e.2) ++ [10]) = some ⟨t.name, e.1, e.2⟩ := by
  obtain ⟨hkeytab, hnotetab⟩ := h.clean.tab
  have hkey : rtrim e.1 = e.1 := rtrim_eq_self_of_trim h.clean.trim_key
  have hne : e.1 ≠ [] := by
    intro hnil
    have htrue := h.clean.isTrue
    rw [hnil] at htrue
    cases htrue
  rcases Decidable.em (e.2 = []) with hnote | hnote
  · refine @importLine_type_append _ _ _ e.1 h.clean.isTrue (part_of_not_mem hkeytab 0) ?_ _ ?_
    · rw [hnote, part_of_not_mem hkeytab, if_neg one_ne_zero]
    · rw [hnote, trim_concat rfl, ← List.cons_append, ← List.append_assoc, trim_concat rfl,
        trim_type_append t hkey hne]
  · have hrest : rtrim (e.1 ++ 9 :: e.2) = e.1 ++ 9 :: e.2 := by
      rw [List.append_cons]
      exact rtrim_append (rtrim_eq_self_of_trim h.trim_note) hnote
    refine @importLine_type_append _ _ _ (e.1 ++ 9 :: e.2) h.clean.isTrue ?_ ?_ _ ?_
    · rw [part_append hkeytab, if_pos rfl]
    · rw [part_append hkeytab, if_neg one_ne_zero, part_of_not_mem hnotetab, if_pos rfl]
    · rw [trim_concat rfl, trim_type_append t hrest (by simp)]

/-- The exported file brings all rows back. -/
theorem importItems_exportText {L : Lists} (h : ∀ t, ∀ e ∈ (L t).entries, Kept t e) :
    importItems (exportText L) = table L := by
  have hrows : ∀ x ∈ table L, ∃ t : ListType, x.type = t.name ∧ Kept t (x.key, x.note) := by
    intro x hx
    obtain ⟨t, ht, hmem⟩ := mem_table.1 hx
    exact ⟨t, ht, h t _ hmem⟩
  have htext : exportText L = ((table L).map fun x =>
      x.type ++ 9 :: (x.key ++ 9 :: x.note)).flatMap (· ++ [10]) := by
    rw [exportText, List.flatMap_map]
    congr 1
    funext x
    simp [exportLine]
  have hlines := @lines_flatMap _ _ 10 ((table L).map fun x =>
    x.type ++ 9 :: (x.key ++ 9 :: x.note)) (List.forall_mem_map.2 fun x hx => by
      obtain ⟨t, ht, hkept⟩ := hrows x hx
      have htype : 10 ∉ t.name := by cases t <;> decide
      have hitem := hkept.clean.isItem
      simp [ht, htype, hitem.newline, hitem.note])
  rw [importItems, htext, hlines, List.map_map, List.filterMap_map]
  have hline : ∀ x ∈ table L,
      importLine (x.type ++ 9 :: (x.key ++ 9 :: x.note) ++ [10]) = some x := by
    intro x hx
    obtain ⟨t, ht, hkept⟩ := hrows x hx
    rw [ht, importLine_exportLine hkept, ← ht]
  exact (List.filterMap_congr hline).trans List.filterMap_some

theorem Inv.restored {L : Lists} (h : Inv L) {Privilege : Option Bytes}
    (hperm : adminPerm Privilege PERM_ADMIN_WRITE = true) : Restored Privilege L := by
  intro file hempty
  have hnone : table (readLists (parseIni file)) = [] := by
    have hL : readLists (parseIni file) = fun _ => Assoc.empty := funext hempty
    rw [hL]
    rfl
  have hbuf : ∀ t : ListType, listBuf (table L) t.name = L t := listBuf_table L
  obtain ⟨params, hparams⟩ : ∃ params, setLists (parseIni file) (table L) = some params := by
    refine @exists_foldlM_setList (fun t => listBuf (table L) t.name) (fun t e he => ?_) _ _
    rw [hbuf] at he
    exact (h.kept t e he).isIP
  obtain ⟨hconf, hread⟩ := readLists_setLists (isConf_parseIni file)
    (fun t e he => (h.kept t e (hbuf t ▸ he)).clean) hparams
  have hout : (Request.import (exportText L)).outcome Privilege file = .ok params := by
    have hsave : saveLists (parseIni file)
        (table (readLists (parseIni file)) ++ importItems (exportText L)) = .ok params := by
      rw [hnone, List.nil_append, importItems_exportText h.kept, saveLists, hparams]
    exact hsave
  rw [step, hout, lists_save hperm hconf]
  funext t
  rw [(hread t).1, hbuf, Assoc.mapVal_eq_self_iff]
  exact fun e he => (h.kept t e he).storedNote

/-! ## Requests -/

theorem setLists_of_saveLists {params params' : Params} {items : List Item}
    (h : saveLists params items = .ok params') : setLists params items = some params' := by
  unfold saveLists at h
  split at h
  · cases h
  · rename_i hset
    rw [hset, Except.ok.inj h]

section Requests

variable {Privilege : Option Bytes} {file : Bytes} {r : Request}

/-- A request that leaves the file as it is. -/
theorem Inv.unchanged (h : Inv (lists file)) (hstep : step Privilege file r = file)
    (hchanges : (∃ params, r.outcome Privilege file = .ok params) →
      Changes (lists file) (lists file) r) :
    Lawful Privilege file r ∧ Inv (lists (step Privilege file r)) := by
  rw [hstep]
  exact ⟨⟨hstep.symm ▸ h.exclusive, hstep.symm ▸ hchanges, hstep.symm ▸ h.restored⟩, h⟩

theorem Inv.refused (h : Inv (lists file)) {e : Refusal}
    (hout : r.outcome Privilege file = .error e) :
    Lawful Privilege file r ∧ Inv (lists (step Privilege file r)) := by
  refine h.unchanged (by rw [step, hout]) fun ⟨params, hparams⟩ => ?_
  cases hout.symm.trans hparams

theorem Inv.accepted {params : Params} (hout : r.outcome Privilege file = .ok params)
    (hperm : adminPerm Privilege PERM_ADMIN_WRITE = true) (hconf : IsConf params)
    (h : Inv (readLists params)) (hchanges : Changes (lists file) (readLists params) r) :
    Lawful Privilege file r ∧ Inv (lists (step Privilege file r)) := by
  have hstep : lists (step Privilege file r) = readLists params := by
    rw [step, hout]
    exact lists_save hperm hconf file
  exact ⟨⟨hstep.symm ▸ h.exclusive, fun _ => hstep.symm ▸ hchanges,
    fun hperm => hstep.symm ▸ h.restored hperm⟩, hstep.symm ▸ h⟩

theorem Inv.add (h : Inv (lists file)) {option : ListType} {key note : Bytes}
    (hclean : CleanItem key note) :
    Lawful Privilege file (.add option key note) ∧
      Inv (lists (step Privilege file (.add option key note))) := by
  cases hout : (Request.add option key note).outcome Privilege file with
  | error e => exact h.refused hout
  | ok params =>
    have hok := hout
    rw [Request.outcome] at hok
    split_ifs at hok with hperm hrow
    have hbuf : ∀ t : ListType, listBuf (table (readLists (parseIni file))) t.name = lists file t :=
      listBuf_table _
    have hsaved := saved_of_saveItem (isConf_parseIni file) hclean
      (fun e he => h.kept option e (hbuf option ▸ he)) hok
    refine Inv.accepted hout (by simpa using hperm) hsaved.isConf
      (h.save rfl (fun x hx => hx) (fun x hx _ => hx) hsaved) fun t k => ?_
    rcases Decidable.em (t = option) with rfl | ht
    · rw [hsaved.own, hbuf, Assoc.lookup_put, hclean.trim_key]
      simp
    · rw [hsaved.other t ht, if_neg fun hk => ht hk.1]
      rfl

theorem Inv.modify (h : Inv (lists file)) {option : ListType} {oKey key note : Bytes}
    (hreg : Regular (lists file) (.modify option oKey key note)) :
    Lawful Privilege file (.modify option oKey key note) ∧
      Inv (lists (step Privilege file (.modify option oKey key note))) := by
  obtain ⟨hclean, x, hx, htype, hkey⟩ := hreg
  have hx : row (table (lists file)) oKey = some x := hx
  have hrow : row (table (lists file)) oKey = some ⟨option.name, x.key, x.note⟩ := by
    rw [hx, ← htype]
  cases hout : (Request.modify option oKey key note).outcome Privilege file with
  | error e => exact h.refused hout
  | ok params =>
    have hok := hout
    rw [Request.outcome] at hok
    split_ifs at hok with hperm
    have hsaved := saved_of_saveItem (isConf_parseIni file) hclean
      (fun e he => h.kept option e (mem_entries_of_unset he)) hok
    have haddressed : ∀ k, Addressed (lists file) [oKey] option k ↔ k = x.key := by
      intro k
      constructor
      · rintro ⟨o, ho, n, hn⟩
        rw [List.mem_singleton.1 ho, hrow] at hn
        exact (Item.mk.inj (Option.some.inj hn)).2.1.symm
      · rintro rfl
        exact ⟨oKey, List.mem_singleton_self oKey, x.note, hrow⟩
    refine Inv.accepted hout (by simpa using hperm) hsaved.isConf
      (h.save rfl (fun y hy => (unset_sublist _ _).subset hy) (fun y hy hne => ?_) hsaved)
      ⟨x.key, x.note, hrow, ?_, fun t k => ?_⟩
    · refine (mem_unset (nodup_table _)).2 ⟨hy, fun o ho hrow' => hne ?_⟩
      rw [List.mem_singleton.1 ho] at hrow'
      have heq : x = y := Option.some.inj (hx.symm.trans hrow')
      rw [← heq, htype]
    · rwa [hclean.trim_key]
    · rcases Decidable.em (t = option) with rfl | ht
      · obtain ⟨hdel, hkeep⟩ := lookup_listBuf_unset (lists file) [oKey] t k
        rw [haddressed] at hdel hkeep
        rw [hsaved.own, Assoc.lookup_put, hclean.trim_key]
        simp only [true_and]
        split_ifs with h₁ h₂
        · rfl
        · exact hdel h₂
        · exact hkeep h₂
      · rw [hsaved.other t ht, if_neg fun hk => ht hk.1, if_neg fun hk => ht hk.1]
        rfl

theorem Inv.del (h : Inv (lists file)) (keys : List Bytes) :
    Lawful Privilege file (.del keys) ∧ Inv (lists (step Privilege file (.del keys))) := by
  cases hout : (Request.del keys).outcome Privilege file with
  | error e => exact h.refused hout
  | ok params =>
    have hok := hout
    rw [Request.outcome] at hok
    split_ifs at hok with hperm
    have hkept : ∀ t : ListType, ∀ e ∈ (listBuf (unset (table (lists file)) keys) t.name).entries,
        Kept t e := fun t e he => h.kept t e (mem_entries_of_unset he)
    obtain ⟨hconf, hread⟩ := readLists_setLists (isConf_parseIni file)
      (fun t e he => (hkept t e he).clean) (setLists_of_saveLists hok)
    have hL : ∀ t, readLists params t = listBuf (unset (table (lists file)) keys) t.name := by
      intro t
      rw [(hread t).1]
      exact Assoc.mapVal_eq_self_iff.2 fun e he => (hkept t e he).storedNote
    refine Inv.accepted hout (by simpa using hperm) hconf (h.mono fun t e he => ?_) fun t k => ?_
    · rw [hL] at he
      exact mem_entries_of_unset he
    · rw [hL]
      exact lookup_listBuf_unset (lists file) keys t k

theorem Inv.import (h : Inv (lists file)) {text : Bytes}
    (hreg : Regular (lists file) (.import text)) :
    Lawful Privilege file (.import text) ∧ Inv (lists (step Privilege file (.import text))) := by
  obtain ⟨hitems, happart⟩ := hreg
  cases hout : (Request.import text).outcome Privilege file with
  | error e => exact h.refused hout
  | ok params =>
    cases hperm : adminPerm Privilege PERM_ADMIN_WRITE with
    | false =>
      refine h.unchanged ?_ fun _ => trivial
      rw [step, hout]
      simp only [ConfFile.save, hperm]
      rfl
    | true =>
      have hok := hout
      dsimp only [Request.outcome] at hok
      have hclean : ∀ t : ListType,
          ∀ e ∈ (listBuf (table (lists file) ++ importItems text) t.name).entries,
            CleanItem e.1 e.2 := by
        intro t e he
        rcases List.mem_append.1 (mem_of_mem_listBuf he) with hmem | hmem
        · obtain ⟨t', ht', hmem⟩ := mem_table.1 hmem
          exact (h.kept t' _ hmem).clean
        · exact hitems _ hmem ⟨t, t.mem_all, rfl⟩
      obtain ⟨hconf, hread⟩ := readLists_setLists (isConf_parseIni file) hclean
        (setLists_of_saveLists hok)
      have hentry : ∀ t, ∀ e ∈ (readLists params t).entries, ∃ n,
          (e.1, n) ∈ (listBuf (table (lists file) ++ importItems text) t.name).entries ∧
            e.2 = storedNote n := by
        intro t e he
        rw [(hread t).1] at he
        obtain ⟨e', he', rfl⟩ := Assoc.mem_mapVal.1 he
        exact ⟨e'.2, he', rfl⟩
      refine Inv.accepted hout hperm hconf ⟨fun t e he => ?_, fun t e he e' he' => ?_⟩ trivial
      · obtain ⟨n, hn, hnote⟩ := hentry t e he
        have hkept := (hclean t _ hn).kept ((hread t).2 _ hn)
        rwa [← hnote] at hkept
      · obtain ⟨n, hn, -⟩ := hentry t e he
        obtain ⟨n', hn', -⟩ := hentry _ e' he'
        exact happart t t.mem_all _ (mem_of_mem_listBuf hn) _ (mem_of_mem_listBuf hn') rfl rfl

theorem Inv.request (h : Inv (lists file)) (hreg : Regular (lists file) r) :
    Lawful Privilege file r ∧ Inv (lists (step Privilege file r)) := by
  cases r with
  | add option key note => exact h.add hreg
  | modify option oKey key note => exact h.modify hreg
  | del keys => exact h.del keys
  | «import» text => exact h.import hreg

end Requests

/-- **White and black stay apart** in every run of regular requests from empty lists on: no key is
on both lists of a kind in any case, each accepted request changes the entries that it addresses and
no others, and the lists can be exported and imported. -/
theorem lists_apart_of_meets (Privilege : Option Bytes) {file : Bytes}
    (h : ∀ t, lists file t = .empty) {rs : List Request}
    (hmeets : Machine.Meets (step Privilege) (fun file r => Regular (lists file) r) file rs) :
    Machine.Meets (step Privilege) (Lawful Privilege) file rs := by
  have hinv : Inv (lists file) := by
    refine ⟨fun t e he => ?_, fun t e he => ?_⟩
    all_goals
      rw [h t] at he
      exact absurd he List.not_mem_nil
  exact Machine.meets_of_invariant (I := fun file => Inv (lists file))
    (fun _ _ hinv hreg => hinv.request hreg) hinv hmeets

/-- A file with a key of each list, and one that is not a list. -/
def sampleFile : Bytes := bytes "BlackIP\t10.0.0.0/8\tlan\nWhiteFrom\tx@b.cn\n\nOther\tA.CN\t\n"

/-- A key is added, a file imported, a row modified and two are deleted. -/
theorem lists_apart_sample :
    Machine.Meets (step (some (bytes "7"))) (Lawful (some (bytes "7"))) []
      [.add .WhiteDomain (bytes "a.cn") (bytes "ours, all"), .import sampleFile,
        .add .BlackDomain (bytes "A.cn") [],
        .modify .WhiteDomain (bytes "2") (bytes "b.cn") (bytes " x"),
        .del [bytes "1", bytes "7"]] :=
  lists_apart_of_meets (some (bytes "7")) (fun t => by cases t <;> rfl) (by decide +kernel)

/-- A file that is imported puts a key on both lists. -/
theorem both_lists_of_import :
    (∀ t, lists [] t = .empty) ∧
      ¬ Machine.Meets (step (some (bytes "7"))) (Lawful (some (bytes "7"))) []
        [.add .WhiteDomain (bytes "a.cn") [], .import (bytes "BlackDomain\tA.cn\n")] := by
  refine ⟨fun t => by cases t <;> rfl, ?_⟩
  rintro ⟨-, h, -⟩
  have hwhite : (bytes "a.cn", []) ∈ (lists (step (some (bytes "7")) (step (some (bytes "7")) []
      (.add .WhiteDomain (bytes "a.cn") [])) (.import (bytes "BlackDomain\tA.cn\n")))
        .WhiteDomain).entries := by decide +kernel
  have hblack : (bytes "A.cn", []) ∈ (lists (step (some (bytes "7")) (step (some (bytes "7")) []
      (.add .WhiteDomain (bytes "a.cn") [])) (.import (bytes "BlackDomain\tA.cn\n")))
        .BlackDomain).entries := by decide +kernel
  exact h.exclusive .WhiteDomain _ hwhite _ hblack (by decide)

end NoSpam.Admin.SpamList
