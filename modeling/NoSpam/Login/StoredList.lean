import Mathlib.Algebra.Order.BigOperators.Group.List
import NoSpam.Admin.WellFormed
import NoSpam.Login.AddressList

/-!
# The list of addresses in the file of administrators

A login finds in the file what the first 1023 bytes of the administrator's line, which one `fgets`
reads, have of the list that `addAdmin` or `setIPList` has stored (`ip_getAdminInfo`); that is the
list, unless it goes further than that or a colon or a line end splits the line (`listRead_eq`).
`addressAllowed_iff` puts this together with the check of the address.
-/

namespace NoSpam.Login

open Text Php Admin

/-! ## What is stored -/

/-- The record that is stored for an administrator, and the file then: `addAdmin` appends it,
`setIPList` puts the list into the one it has found. -/
inductive StoredRecord (crypt : Bytes → Bytes) : Record → Bytes → Prop
  | addAdmin (rs : List Record) (id passwd privilidge note ip domain : Bytes)
      (h : (Admin.addAdmin crypt id passwd privilidge note ip domain (profile rs)).1 = OK) :
      StoredRecord crypt ⟨id, crypt passwd, privilidge, note, ip, domain⟩
        (Admin.addAdmin crypt id passwd privilidge note ip domain (profile rs)).2
  | setIPList (rs : List Record) (id ip : Bytes) (r : Record)
      (h : (Admin.setIPList id ip (profile rs)).1 = OK)
      (hr : ((readProfile (profile rs)).map Record.trimmed).find? (fun r => r.id = id) = some r) :
      StoredRecord crypt { r with ip } (Admin.setIPList id ip (profile rs)).2

/-! ## The line of the record -/

/-- The first column of a text with a rest behind a colon, or with none. -/
theorem part_zero_append {l y x : Bytes} (h : 58 ∉ l) (hy : y <+: 58 :: x) :
    part 58 (l ++ y) 0 = l := by
  cases y with
  | nil => rw [List.append_nil, part_of_not_mem h, if_pos rfl]
  | cons c y =>
    obtain ⟨rfl, -⟩ := List.cons_prefix_cons.1 hy
    rw [part_append h, if_pos rfl]

/-- What a reader takes first of the line of a record. -/
def firstPiece (t : Record) : Bytes := (pieces 10 1023 1023 (t.text ++ [10])).headD []

/-- The list that a reader finds in the line of a record, if it finds the name there. -/
def listRead (t : Record) : Bytes :=
  if (ofLine (firstPiece t)).id = t.id then (ofLine (firstPiece t)).ip else []

/-- Behind its name the line of a record goes on with a colon. -/
theorem exists_text_eq (t : Record) : ∃ x, t.text ++ [10] = t.id ++ 58 :: x := by
  obtain ⟨id, passwd, privilidge, note, ip, domain⟩ := t
  exact ⟨_, by rw [Record.text, Record.fields, joinFields_cons, List.flatMap_cons]; simp; rfl⟩

/-- Where a name can be read at all, it is read from the line of its record. -/
theorem id_firstPiece {t : Record} {p : Bytes} (hnl : 10 ∉ p.dropLast) (hlength : p.length ≤ 1023)
    (hid : (ofLine p).id = t.id) : (ofLine (firstPiece t)).id = t.id := by
  have hmem : t.id ∈ p.splitOn 58 := by
    obtain ⟨f, fs, hfs⟩ := List.exists_cons_of_ne_nil (List.splitOn_ne_nil 58 p)
    rw [← hid, ofLine, hfs]
    exact List.mem_cons_self
  have hcolon : 58 ∉ t.id := not_mem_of_mem_splitOn hmem
  have hstart : t.id <+: p := by
    rw [← hid]
    exact isPrefix_part_zero 58 p
  obtain ⟨x, hx⟩ := exists_text_eq t
  rw [firstPiece, hx]
  by_cases hline : 10 ∈ t.id
  · -- the name ends in the only line end it can have
    obtain ⟨w, hw, hw'⟩ : ∃ w : Bytes, t.id = w ++ [10] ∧ 10 ∉ w := by
      obtain ⟨y, hy⟩ := hstart
      rcases List.eq_nil_or_concat' t.id with hnil | ⟨w, c, hc⟩
      · rw [hnil] at hline
        cases hline
      · have hdrop : w <+: p.dropLast := by
          rw [← hy, hc]
          rcases List.eq_nil_or_concat' y with rfl | ⟨z, d, rfl⟩
          · rw [List.append_nil, List.dropLast_concat]
          · rw [← List.append_assoc, List.dropLast_concat, List.append_assoc]
            exact List.prefix_append _ _
        have hw' : 10 ∉ w := fun h => hnl (hdrop.subset h)
        rw [hc] at hline
        obtain rfl : c = 10 := by simpa [hw', eq_comm] using hline
        exact ⟨w, hc, hw'⟩
    have hlen : w.length < 1023 := by
      have hle := hstart.length_le
      rw [hw, List.length_append, List.length_singleton] at hle
      omega
    rw [hw, List.append_assoc, List.singleton_append, pieces_append_cons hw' hlen]
    change part 58 (w ++ [10]) 0 = w ++ [10]
    rw [part_of_not_mem (hw ▸ hcolon), if_pos rfl]
  · obtain ⟨y, ps, hps, hy⟩ := exists_pieces_eq_cons hline (x := 58 :: x) (by simp)
      (hstart.length_le.trans hlength) 1023
    rw [hps]
    exact part_zero_append hcolon hy

/-- The list is read as it is stored where nothing up to its end splits the line, and one read goes
as far. -/
theorem listRead_eq {t : Record}
    (hplain : ∀ a ∈ [t.id, t.passwd, t.privilidge, t.note, t.ip], Plain a)
    (hlength : (joinFields 58 [t.id, t.passwd, t.privilidge, t.note, t.ip]).length ≤ 1023) :
    listRead t = t.ip := by
  obtain ⟨id, passwd, privilidge, note, ip, domain⟩ := t
  have hfields := hplain
  simp only [List.forall_mem_cons] at hfields
  obtain ⟨hid, hpasswd, hpriv, hnote, hip, -⟩ := hfields
  have hnl : 10 ∉ joinFields 58 [id, passwd, privilidge, note, ip] := by
    intro hmem
    rcases mem_of_mem_joinFields hmem with hc | ⟨f, hf, hc⟩
    · cases hc
    · exact (hplain f hf).2 hc
  obtain ⟨y, ps, hps, hy⟩ := exists_pieces_eq_cons hnl (x := 58 :: (domain ++ [10])) (by simp)
    hlength 1023
  have htext : Record.text ⟨id, passwd, privilidge, note, ip, domain⟩ ++ [10] =
      joinFields 58 [id, passwd, privilidge, note, ip] ++ 58 :: (domain ++ [10]) := by
    simp [Record.text, Record.fields, joinFields_cons]
  have hq : joinFields 58 [id, passwd, privilidge, note, ip] ++ y =
      id ++ 58 :: (passwd ++ 58 :: (privilidge ++ 58 :: (note ++ 58 :: (ip ++ y)))) := by
    simp [joinFields_cons]
  have hname : (ofLine (joinFields 58 [id, passwd, privilidge, note, ip] ++ y)).id = id := by
    change part 58 _ 0 = id
    rw [hq, part_append hid.1, if_pos rfl]
  rw [listRead, firstPiece, htext, hps, List.headD_cons, if_pos hname]
  change part 58 _ 4 = ip
  rw [hq, part_append hid.1, if_neg (by decide), part_append hpasswd.1, if_neg (by decide),
    part_append hpriv.1, if_neg (by decide), part_append hnote.1, if_neg (by decide)]
  exact part_zero_append hip.1 hy

/-! ## The search -/

/-- The lines before that of the record have no piece with its name. -/
theorem ip_getAdminInfo {before after : List Record} {t : Record}
    (hbefore : ∀ r ∈ before, ∀ q ∈ pieces 10 1023 1023 (r.text ++ [10]), (ofLine q).id ≠ t.id) :
    (getAdminInfo t.id (profile (before ++ t :: after))).ip = listRead t := by
  have hnone : ((before.flatMap fun r => pieces 10 1023 1023 (r.text ++ [10])).map ofLine).find?
      (fun r => r.id = t.id) = none := by
    rw [List.find?_eq_none, List.forall_mem_map]
    intro q hq
    obtain ⟨r, hr, hq⟩ := List.mem_flatMap.1 hq
    rw [decide_eq_true_eq]
    exact hbefore r hr q hq
  rw [getAdminInfo, listRead]
  by_cases hfound : (ofLine (firstPiece t)).id = t.id
  · obtain ⟨ps, hps⟩ : ∃ ps, pieces 10 1023 1023 (t.text ++ [10]) = firstPiece t :: ps := by
      have hne : pieces 10 1023 1023 (t.text ++ [10]) ≠ [] := by
        intro hnil
        have hflatten := flatten_pieces 10 1023 1023 (t.text ++ [10])
        rw [hnil] at hflatten
        simp at hflatten
      obtain ⟨q, ps, hq⟩ := List.exists_cons_of_ne_nil hne
      exact ⟨ps, by rw [firstPiece, hq, List.headD_cons]⟩
    rw [if_pos hfound, readProfile, profile, pieces_columnText_eq_flatMap, List.flatMap_map,
      List.flatMap_append, List.flatMap_cons, hps, List.append_assoc, List.map_append,
      List.find?_append, hnone, Option.none_or, List.cons_append, List.cons_append, List.map_cons,
      List.find?_cons_of_pos (by simp [hfound])]
    rfl
  · have hall : (readProfile (profile (before ++ t :: after))).find? (fun r => r.id = t.id) =
        none := by
      rw [List.find?_eq_none, readProfile, List.forall_mem_map]
      intro q hq
      rw [decide_eq_true_eq]
      intro he
      refine hfound ?_
      rcases List.mem_append.1 hq with hq | hq
      · exact id_firstPiece (not_mem_dropLast_of_mem_pieces hq)
          (length_le_of_mem_pieces (by decide) hq) he
      · rw [List.mem_singleton.1 hq] at he
        exact id_firstPiece List.not_mem_nil (Nat.zero_le _) he
    rw [hall, if_neg hfound]
    rfl

/-! ## The lines of a rewritten file -/

theorem newline_not_mem_rtrim {p : Bytes} (h : 10 ∉ p.dropLast) :
    ∀ f ∈ p.splitOn 58, 10 ∉ rtrim f := by
  rcases List.eq_nil_or_concat' p with rfl | ⟨l, c, rfl⟩
  · rw [List.splitOn_nil, List.forall_mem_singleton]
    exact List.not_mem_nil
  rw [List.dropLast_concat] at h
  by_cases hc : c = 58 ∨ c ≠ 10
  · have hmem : 10 ∉ l ++ [c] := by
      rw [List.mem_append, List.mem_singleton]
      rintro (hl | rfl)
      · exact h hl
      · rcases hc with hc | hc
        · cases hc
        · exact hc rfl
    exact fun f hf hn => hmem (mem_of_mem_splitOn hf ((isPrefix_rtrim f).subset hn))
  · push Not at hc
    obtain ⟨hcolon, rfl⟩ := hc
    obtain ⟨gs, g, hgs, hgs'⟩ := splitOn_concat hcolon l
    have hsplit : ∀ f ∈ gs ++ [g], 10 ∉ rtrim f := fun f hf hn =>
      h (mem_of_mem_splitOn (hgs ▸ hf) ((isPrefix_rtrim f).subset hn))
    rw [hgs']
    intro f hf
    rcases List.mem_append.1 hf with hf | hf
    · exact hsplit f (List.mem_append_left _ hf)
    · rw [List.mem_singleton.1 hf, rtrim_append_newline]
      exact hsplit g (List.mem_append_right _ List.mem_cons_self)

/-- The columns of a trimmed record. -/
theorem fields_trimmed_ofLine (p : Bytes) : (ofLine p).trimmed.fields =
    ((p.splitOn 58).take 6).map rtrim ++ List.replicate (6 - (p.splitOn 58).length) [] := by
  unfold ofLine
  rcases p.splitOn 58 with _ | ⟨a, _ | ⟨b, _ | ⟨c, _ | ⟨d, _ | ⟨e, _ | ⟨f, l⟩⟩⟩⟩⟩⟩
  all_goals simp [Record.trimmed, Record.fields, rtrim, List.replicate]

theorem joinFields_append_replicate (sep : UInt8) {fs : List Bytes} (h : fs ≠ []) (n : ℕ) :
    joinFields sep (fs ++ List.replicate n []) = joinFields sep fs ++ List.replicate n sep := by
  obtain ⟨f, fs, rfl⟩ := List.exists_cons_of_ne_nil h
  rw [List.cons_append, joinFields_cons, joinFields_cons, List.flatMap_append, List.append_assoc]
  congr 2
  induction n with
  | zero => rfl
  | succ n ih => rw [List.replicate_succ, List.replicate_succ, List.flatMap_cons, ih]; rfl

theorem length_joinFields (sep : UInt8) {fs : List Bytes} (h : fs ≠ []) :
    (joinFields sep fs).length + 1 = (fs.map fun f => f.length + 1).sum := by
  rw [← List.length_singleton (a := sep), ← List.length_append, joinFields_append_sep sep h,
    columnText, List.length_flatMap]
  simp

theorem length_le_of_mem_splitOn {p f : Bytes} (h : f ∈ p.splitOn 58) : f.length ≤ p.length := by
  have hsum := length_joinFields 58 (List.splitOn_ne_nil 58 p)
  have hle := List.single_le_sum (fun _ _ => Nat.zero_le _) _
    (List.mem_map_of_mem (f := fun f : Bytes => f.length + 1) h)
  rw [joinFields, List.intercalate_splitOn] at hsum
  omega

/-- The line of a trimmed record: no longer than the piece it comes from, and at most five colons
for the columns that were missing. -/
theorem exists_text_trimmed_ofLine (p : Bytes) : ∃ x n,
    (ofLine p).trimmed.text = x ++ List.replicate n 58 ∧ x.length ≤ p.length ∧ n ≤ 5 := by
  have hne : p.splitOn 58 ≠ [] := List.splitOn_ne_nil 58 p
  have hpos : 0 < (p.splitOn 58).length := List.length_pos_of_ne_nil hne
  have htake : ((p.splitOn 58).take 6).map rtrim ≠ [] := by
    rw [Ne, List.map_eq_nil_iff, List.take_eq_nil_iff]
    rintro (h | h)
    · cases h
    · exact hne h
  refine ⟨_, _, by rw [Record.text, fields_trimmed_ofLine, joinFields_append_replicate 58 htake],
    ?_, by omega⟩
  have hle : ((((p.splitOn 58).take 6).map rtrim).map fun f : Bytes => f.length + 1).sum ≤
      (((p.splitOn 58).take 6).map fun f : Bytes => f.length + 1).sum := by
    rw [List.map_map]
    exact List.sum_le_sum fun f _ => Nat.succ_le_succ (isPrefix_rtrim f).length_le
  have hsum := length_joinFields 58 hne
  rw [joinFields, List.intercalate_splitOn, ← List.take_append_drop 6 (p.splitOn 58),
    List.map_append, List.sum_append] at hsum
  have hlength := length_joinFields 58 htake
  omega

/-- No piece of the line of a trimmed record has a name but its own. -/
theorem id_of_mem_pieces {p q id : Bytes} (h : 10 ∉ p.dropLast) (hp : p.length ≤ 1023)
    (hid : isIDFormatOK id = true) (hne : (ofLine p).trimmed.id ≠ id)
    (hq : q ∈ pieces 10 1023 1023 ((ofLine p).trimmed.text ++ [10])) : (ofLine q).id ≠ id := by
  set r := (ofLine p).trimmed with hr
  obtain ⟨x, n, htext, hx, hn⟩ := exists_text_trimmed_ofLine p
  rw [← hr] at htext
  have hid' : (ofLine p).id ∈ p.splitOn 58 := by
    obtain ⟨f, fs, hfs⟩ := List.exists_cons_of_ne_nil (List.splitOn_ne_nil 58 p)
    rw [ofLine, hfs]
    exact List.mem_cons_self
  have hcolon : 58 ∉ r.id := fun hmem =>
    not_mem_of_mem_splitOn hid' ((isPrefix_rtrim _).subset hmem)
  have hnl : 10 ∉ r.text := by
    intro hmem
    rcases mem_of_mem_joinFields hmem with hc | ⟨f, hf, hc⟩
    · cases hc
    rw [hr, fields_trimmed_ofLine, List.mem_append] at hf
    rcases hf with hf | hf
    · obtain ⟨g, hg, rfl⟩ := List.mem_map.1 hf
      exact newline_not_mem_rtrim h g (List.mem_of_mem_take hg) hc
    · rw [List.eq_of_mem_replicate hf] at hc
      cases hc
  have hrest : ∀ l : Bytes, ∃ y, r.text ++ l = r.id ++ 58 :: y := fun l =>
    ⟨_, by rw [Record.text, Record.fields, joinFields_cons, List.flatMap_cons]; simp; rfl⟩
  have hfirst : ∀ q0 : Bytes, q0 <+: r.text ++ [10] → r.id <+: q0 → (ofLine q0).id = r.id := by
    rintro _ hq0 ⟨y, rfl⟩
    obtain ⟨z, hz⟩ := hrest [10]
    rw [hz, List.prefix_append_right_inj] at hq0
    exact part_zero_append hcolon hq0
  have hpre : r.id <+: r.text ++ [10] := by
    obtain ⟨z, hz⟩ := hrest [10]
    exact hz ▸ List.prefix_append _ _
  rw [pieces_line hnl (by decide)] at hq
  split_ifs at hq with hfits
  · rw [List.mem_singleton.1 hq, hfirst _ (List.prefix_refl _) hpre]
    exact hne
  rcases List.mem_cons.1 hq with rfl | hq
  · have hle : r.id.length ≤ (r.text.take 1023).length := by
      have hlength := (isPrefix_rtrim (ofLine p).id).length_le.trans (length_le_of_mem_splitOn hid')
      rw [List.length_take]
      exact le_min (hlength.trans hp) (hlength.trans (hp.trans (Nat.not_lt.1 hfits)))
    have htake : r.text.take 1023 <+: r.text ++ [10] :=
      (List.take_prefix _ _).trans (List.prefix_append _ _)
    rw [hfirst _ htake (List.prefix_of_prefix_length_le hpre htake hle)]
    exact hne
  · have hdrop : r.text.drop 1023 = List.replicate (n - (1023 - x.length)) 58 := by
      rw [htext, List.drop_append, List.drop_eq_nil_of_le (hx.trans hp), List.nil_append,
        List.drop_replicate]
    rw [hdrop, pieces_line (by simp) (by decide), if_pos (by rw [List.length_replicate]; omega),
      List.mem_singleton] at hq
    rw [hq]
    rintro rfl
    cases hm : n - (1023 - x.length) with
    | zero => rw [hm] at hid; cases hid
    | succ m => rw [hm] at hid; cases hid

/-! ## The stored list decides -/

section StoredRecord

variable {crypt : Bytes → Bytes} {t : Record} {file : Bytes}

/-- The lines before the stored one have no piece with its name. -/
theorem StoredRecord.exists_eq (h : StoredRecord crypt t file) : ∃ before after,
    file = profile (before ++ t :: after) ∧ isIpFormatOK t.ip = true ∧
      ∀ r ∈ before, ∀ q ∈ pieces 10 1023 1023 (r.text ++ [10]), (ofLine q).id ≠ t.id := by
  cases h with
  | addAdmin rs id passwd privilidge note ip domain h =>
    unfold Admin.addAdmin at h ⊢
    split_ifs at h ⊢ with hid hpasswd hprivilidge hnote hip hdomain hfound
    · cases h
    · cases h
    · cases h
    · cases h
    · cases h
    · cases h
    · cases h
    · refine ⟨rs, [], (profile_append rs _).symm, by simpa using hip, fun r hr q hq he => hfound ?_⟩
      rw [readProfile, profile, pieces_columnText_eq_flatMap, List.flatMap_map, List.any_eq_true]
      refine ⟨ofLine q, List.mem_map_of_mem (List.mem_append_left _ ?_), by simpa using he⟩
      exact List.mem_flatMap.2 ⟨r, hr, hq⟩
  | setIPList rs id ip r h hr =>
    obtain ⟨hname, before, after, hsplit, hbefore⟩ := List.find?_eq_some_iff_append.1 hr
    obtain rfl : r.id = id := by simpa using hname
    unfold Admin.setIPList Admin.modify at h ⊢
    split_ifs at h ⊢ with hid hfound hip
    · cases h
    · cases h
    · cases h
    simp only [Bool.not_eq_true, Bool.not_eq_false'] at hid hip
    have hother : ∀ a ∈ before, a.id ≠ r.id := fun a ha => by simpa using hbefore a ha
    refine ⟨before.filter fun a => a.id ≠ [], (after.filter fun a => a.id ≠ []).map fun a =>
      if a.id = r.id then { a with ip } else a, ?_, hip, ?_⟩
    · have hmap : (before.filter fun a => a.id ≠ []).map
          (fun a => if a.id = r.id then { a with ip } else a) = before.filter fun a => a.id ≠ [] :=
        (List.map_congr_left fun a ha => if_neg (hother a (List.mem_of_mem_filter ha))).trans
          (List.map_id _)
      rw [rewrite, hsplit, List.filter_append, List.filter_cons_of_pos
        (by simpa using ne_nil_of_isIDFormatOK hid), List.map_append, hmap, List.map_cons,
        if_pos rfl]
    · intro a ha q hq
      have hmem := List.mem_of_mem_filter ha
      have harray : a ∈ (readProfile (profile rs)).map Record.trimmed := by
        rw [hsplit]
        exact List.mem_append_left _ hmem
      rw [readProfile, List.map_map] at harray
      obtain ⟨p, hp, rfl⟩ := List.mem_map.1 harray
      rcases List.mem_append.1 hp with hp | hp
      · exact id_of_mem_pieces (not_mem_dropLast_of_mem_pieces hp)
          (length_le_of_mem_pieces (by decide) hp) hid (hother _ hmem) hq
      · rw [List.mem_singleton.1 hp] at hq hmem
        exact id_of_mem_pieces List.not_mem_nil (Nat.zero_le _) hid (hother _ hmem) hq

/-- A login finds what a reader finds of the list that is stored. -/
theorem StoredRecord.ip_getAdminInfo (h : StoredRecord crypt t file) :
    (getAdminInfo t.id file).ip = listRead t := by
  obtain ⟨before, after, rfl, -, hbefore⟩ := h.exists_eq
  exact Login.ip_getAdminInfo hbefore

/-- A list that is read as it is stored has masks of at most 30 bits, or its networks hold every
address; one that is not lets the same addresses through. -/
def ListRight (t : Record) : Prop :=
  if listRead t = t.ip then MasksRight t.ip else ∀ v, Passes (listRead t) v ↔ Admitted t.ip v

theorem listRight_of_listRead (hread : listRead t = t.ip) (hmasks : MasksRight t.ip) :
    ListRight t := by
  rw [ListRight, if_pos hread]
  exact hmasks

/-- An administrator of a network. -/
def bob (ip : Bytes) : Record := ⟨bytes "bob", bytes "arlEKn0OzJJn.", bytes "3", [], ip, []⟩

theorem storedRecord_bob {ip : Bytes} (h : isIpFormatOK ip = true) :
    StoredRecord (fun _ => bytes "arlEKn0OzJJn.") (bob ip) (profile [sysop, bob ip]) := by
  have hadd : Admin.addAdmin (fun _ => bytes "arlEKn0OzJJn.") (bytes "bob") (bytes "foob")
      (bytes "3") [] ip [] (profile [sysop]) = (OK, profile [sysop, bob ip]) :=
    addAdmin_accepted wellFormed_sysop (by rw [h]; decide) (by decide)
  have hstored := StoredRecord.addAdmin [sysop] (bytes "bob") (bytes "foob") (bytes "3") [] ip []
    (congrArg Prod.fst hadd)
  rwa [hadd] at hstored

/-- What holds of the only entry. -/
theorem forall_entries {ip e : Bytes} {P : Bytes → Prop} (htrim : trim ip = 43 :: e)
    (hentries : entries e = [e]) (h : P e) :
    ∀ c l, trim ip = c :: l → isSign c = true → ∀ e ∈ entries l, P e := by
  intro c l hcl _
  obtain ⟨-, rfl⟩ := List.cons.inj (htrim.symm.trans hcl)
  rw [hentries, List.forall_mem_singleton]
  exact h

end StoredRecord

end NoSpam.Login
