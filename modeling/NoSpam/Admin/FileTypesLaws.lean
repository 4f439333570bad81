import NoSpam.Admin.FileTypes

/-!
# The numbers of user file types

The counter of the file counts the types while the numbers begin at 150, so that the second type is
offered the number of the first: a run of requests meets what is expected if it adds one type at
most, every text that is stored suits both readers, and nothing is stored for a type that does not
exist (`meets_of_sound`).
-/

namespace NoSpam.Admin.FileTypes

open Text Php

/-! ## What is stored of the extensions -/

theorem newline_not_mem_noteOf (note : Bytes) : 10 ∉ noteOf note := by
  intro h
  obtain ⟨c, -, hc⟩ := List.mem_map.1 h
  split_ifs at hc with h10
  · cases hc
  · exact h10 hc

theorem rtrim_noteOf (note : Bytes) : rtrim (noteOf note) = noteOf note := by
  unfold noteOf
  rcases List.eq_nil_or_concat' (trim note) with hnil | ⟨a, c, hac⟩
  · rw [hnil]
    rfl
  · have hc : isTrim c = false := by
      by_contra hc
      have hself := rtrim_eq_self_of_trim (trim_trim note)
      rw [hac, rtrim_concat (by simpa using hc)] at hself
      have hle := (isPrefix_rtrim a).length_le
      rw [hself, List.length_append, List.length_singleton] at hle
      omega
    have h13 : c ≠ 13 := by
      rintro rfl
      cases hc
    have h10 : c ≠ 10 := by
      rintro rfl
      cases hc
    rw [hac, List.filter_append, List.filter_cons_of_pos (by simpa using h13), List.filter_nil,
      List.map_append, List.map_singleton, if_neg h10]
    exact List.rdropWhile_concat_neg isTrim _ c (by simp [hc])

/-! ## The file of one type -/

/-- The first number. -/
def first : Bytes := bytes "150"

/-- The file that holds one type, the first. -/
def text (name note : Bytes) : Bytes := trim (49 :: 10 :: row (first, name, note))

/-- The table that holds one type, the first. -/
def single (v : Bytes × Bytes) : Types := Assoc.empty.put first v

theorem lookup_single (v : Bytes × Bytes) (id : Bytes) :
    (single v).lookup id = if id = first then some v else none := by
  rw [single, Assoc.lookup_put, Assoc.lookup_empty]

section Text

variable {name note : Bytes}

theorem text_eq (name note : Bytes) :
    text name note = [49] ++ 10 :: (first ++ rtrim (9 :: (name ++ 9 :: note))) := by
  have hrow : 49 :: 10 :: row (first, name, note) =
      [49, 10, 49, 53] ++ 48 :: ((9 :: (name ++ 9 :: note)) ++ [10]) := by
    simp [row, first]
    rfl
  rw [text, trim, hrow, rtrim_append_cons (by decide), rtrim_append_newline]
  rfl

/-- A list of extensions ends the line. -/
theorem rtrim_line (hnote : rtrim note = note) (hne : note ≠ []) :
    rtrim (9 :: (name ++ 9 :: note)) = 9 :: (name ++ 9 :: note) := by
  have hline : 9 :: (name ++ 9 :: note) = (9 :: (name ++ [9])) ++ note := by simp
  rw [hline, rtrim_append hnote hne]

theorem trim_text (name note : Bytes) : trim (text name note) = text name note := trim_trim _

theorem newline_not_mem_rest (hname : 10 ∉ name) (hnote : 10 ∉ note) :
    10 ∉ first ++ rtrim (9 :: (name ++ 9 :: note)) := by
  intro h
  rcases List.mem_append.1 h with h | h
  · exact absurd h (by decide)
  · have hmem := (isPrefix_rtrim _).subset h
    simp [hname, hnote] at hmem

theorem lines_text (hname : 10 ∉ name) (hnote : 10 ∉ note) :
    (text name note).splitOn 10 = [[49], first ++ rtrim (9 :: (name ++ 9 :: note))] ∧
      lines 10 (text name note) =
        [[49, 10], first ++ rtrim (9 :: (name ++ 9 :: note))] := by
  have hrest := newline_not_mem_rest hname hnote
  rw [text_eq]
  constructor
  · rw [List.splitOn_append_cons_self_of_not_mem (by decide), List.splitOn_eq_singleton hrest]
  · rw [lines_append_cons (by decide), lines_of_not_mem hrest
      (List.append_ne_nil_of_left_ne_nil (by decide) _)]
    rfl

/-- The columns of the line. -/
theorem part_line (hname : 9 ∉ name) (hnote : rtrim note = note) (hne : note ≠ []) (n : ℕ) :
    part 9 (first ++ rtrim (9 :: (name ++ 9 :: note))) n =
      if n = 0 then first else if n = 1 then name else part 9 note (n - 2) := by
  rw [rtrim_line hnote hne, part_append (by decide), part_append hname]
  simp only [Nat.sub_eq_zero_iff_le, Nat.sub_sub]
  split_ifs with h0 h1 h1'
  all_goals first | rfl | omega

end Text

/-! ## Reading back -/

theorem toNumber_builtin : ∀ e ∈ builtinTypes, toNumber e.1 < 150 ∧ isNumeric e.1 = true := by
  decide +kernel

theorem toNumber_first : toNumber first = 150 := by
  decide +kernel

theorem first_not_mem_builtin : first ∉ builtinTypes.map Prod.fst := by
  decide

/-- Under the first number stands what is in the file. -/
theorem lookup_readTypes_first (file : Option Bytes) :
    (readTypes file).2.lookup first = ((file.map typesOf).getD Assoc.empty).lookup first :=
  Assoc.lookup_foldl_put_of_not_mem first_not_mem_builtin

/-- A type of the pages is built in or in the file. -/
theorem mem_of_lookup_readTypes {file : Option Bytes} {id : Bytes} {v : Bytes × Bytes}
    (h : (readTypes file).2.lookup id = some v) :
    (id, v) ∈ builtinTypes ∨ ((file.map typesOf).getD Assoc.empty).lookup id = some v :=
  Assoc.mem_of_lookup_foldl_put h

theorem typesOf_of_not_mem {content : Bytes} (h : 10 ∉ content) :
    typesOf content = Assoc.empty := by
  have htrim : 10 ∉ trim content := fun hmem => h (mem_of_mem_trim hmem)
  rw [typesOf, List.splitOn_eq_singleton htrim]
  rfl

section Text

variable {name note : Bytes}

theorem typesOf_text (hsuits : Suits name note) (hnote : rtrim note = note) (hnl : 10 ∉ note) :
    ((some (text name note)).map typesOf).getD Assoc.empty = single (name, note) := by
  have hne : note ≠ [] := by
    rintro rfl
    cases hsuits.note.2
  rw [Option.map_some, Option.getD_some, typesOf, trim_text, (lines_text hsuits.name.2.1 hnl).1]
  simp only [List.drop_succ_cons, List.drop_zero, List.map_cons, List.map_nil, typeOfLine,
    part_line hsuits.name.1 hnote hne]
  simp only [if_true, one_ne_zero, if_false, show ¬(2 : ℕ) = 0 from by decide,
    show ¬(2 : ℕ) = 1 from by decide, Nat.sub_self, part_of_not_mem hsuits.note.1]
  rfl

theorem loadUserFiletype_text (hsuits : Suits name note) (hnote : rtrim note = note)
    (hnl : 10 ∉ note) :
    loadUserFiletype (some (text name note)) =
      Assoc.empty.put name (first, fields 44 note) := by
  have hne : note ≠ [] := by
    rintro rfl
    cases hsuits.note.2
  have hrest := newline_not_mem_rest hsuits.name.2.1 hnl
  have hchomp : Perl.chomp (first ++ rtrim (9 :: (name ++ 9 :: note))) =
      first ++ rtrim (9 :: (name ++ 9 :: note)) :=
    if_neg fun hlast => hrest (List.mem_of_getLast? hlast)
  have hload : loadLine (first ++ rtrim (9 :: (name ++ 9 :: note))) =
      some (name, first, fields 44 note) := by
    unfold loadLine
    rw [hchomp]
    simp only [part_line hsuits.name.1 hnote hne]
    simp only [if_true, one_ne_zero, if_false, show ¬(2 : ℕ) = 0 from by decide,
      show ¬(2 : ℕ) = 1 from by decide, Nat.sub_self, part_of_not_mem hsuits.note.1,
      hsuits.name.2.2, hsuits.note.2, show Perl.isTrue first = true from by decide, Bool.and_self]
    exact if_neg (List.append_ne_nil_of_left_ne_nil (by decide) _)
  unfold loadUserFiletype
  rw [Option.map_some, Option.getD_some, (lines_text hsuits.name.2.1 hnl).2]
  simp only [List.drop_succ_cons, List.drop_zero, List.filterMap_cons, List.filterMap_nil, hload,
    List.getLast?_singleton, Option.map_some, Option.getD_some, List.map_cons, List.map_nil]
  rfl

end Text

/-- A file without a second line has no types. -/
theorem readBack_empty {file : Option Bytes} (h : ∀ content, file = some content → 10 ∉ content)
    (used : List Bytes) : ReadBack ⟨file, Assoc.empty, used⟩ := by
  have htypes : (file.map typesOf).getD Assoc.empty = Assoc.empty := by
    cases file with
    | none => rfl
    | some content => exact typesOf_of_not_mem (h content rfl)
  have hload : loadUserFiletype file = Assoc.empty := by
    cases file with
    | none => rfl
    | some content =>
      have hlines : (lines 10 content).drop 1 = [] := by
        by_cases hnil : content = []
        · rw [hnil]
          rfl
        · rw [lines_of_not_mem (h content rfl) hnil]
          rfl
      unfold loadUserFiletype
      rw [Option.map_some, Option.getD_some, hlines]
      rfl
  constructor
  · intro id v
    simp only [Assoc.lookup_empty, reduceCtorEq, iff_false, not_and]
    intro hle hlookup
    rcases mem_of_lookup_readTypes hlookup with hmem | hlookup
    · exact absurd hle (not_le.2 (toNumber_builtin _ hmem).1)
    · rw [htypes, Assoc.lookup_empty] at hlookup
      cases hlookup
  · intro type num exts
    simp only [hload, Assoc.lookup_empty, reduceCtorEq, false_and, exists_false]

section Text

variable {name note : Bytes}

theorem readBack_text (hsuits : Suits name note) (hnote : rtrim note = note) (hnl : 10 ∉ note)
    (used : List Bytes) : ReadBack ⟨some (text name note), single (name, note), used⟩ := by
  have htypes : ((some (text name note)).map typesOf).getD Assoc.empty = single (name, note) :=
    typesOf_text hsuits hnote hnl
  constructor
  · intro id v
    constructor
    · rintro ⟨hle, hlookup⟩
      rcases mem_of_lookup_readTypes hlookup with hmem | hlookup
      · exact absurd hle (not_le.2 (toNumber_builtin _ hmem).1)
      · rwa [htypes] at hlookup
    · intro hlookup
      have hid : id = first := by
        by_contra hne
        rw [lookup_single, if_neg hne] at hlookup
        cases hlookup
      rw [hid] at hlookup ⊢
      exact ⟨toNumber_first.ge, by rw [lookup_readTypes_first, htypes, hlookup]⟩
  · intro type num exts
    rw [loadUserFiletype_text hsuits hnote hnl, Assoc.lookup_put, Assoc.lookup_empty]
    simp only [lookup_single]
    constructor
    · intro h
      split_ifs at h with htype
      obtain ⟨rfl, rfl⟩ := Prod.mk.inj (Option.some.inj h)
      exact ⟨note, by rw [if_pos rfl, htype], rfl⟩
    · rintro ⟨note', h, rfl⟩
      split_ifs at h with hnum
      obtain ⟨rfl, rfl⟩ := Prod.mk.inj (Option.some.inj h)
      rw [if_pos rfl, hnum]

/-- Without extensions the line has no third column. -/
theorem part_two_of_nil (hname : 9 ∉ name) :
    part 9 (first ++ rtrim (9 :: (name ++ 9 :: []))) 2 = [] := by
  have htrim : rtrim (9 :: (name ++ 9 :: [])) = rtrim (9 :: name) :=
    rtrim_concat (c := 9) (by decide) (9 :: name)
  have hpre := isPrefix_rtrim (9 :: name)
  rw [htrim]
  cases hrest : rtrim (9 :: name) with
  | nil =>
    rw [List.append_nil]
    decide
  | cons c l =>
    rw [hrest, List.cons_prefix_cons] at hpre
    have hl : 9 ∉ l := fun hmem => hname (hpre.2.subset hmem)
    rw [hpre.1, part_append (by decide), if_neg (by decide), part_of_not_mem hl,
      if_neg (by decide)]

/-- Texts that do not suit both readers are not read back. -/
theorem suits_of_readBack (hnote : rtrim note = note) {used : List Bytes}
    (h : ReadBack ⟨some (text name note), single (name, note), used⟩) : Suits name note := by
  have hlookup : (single (name, note)).lookup first = some (name, note) := by
    rw [lookup_single, if_pos rfl]
  obtain ⟨-, hpages⟩ := (h.pages first (name, note)).2 hlookup
  have hmem : (first, name, note) ∈
      (((trim (text name note)).splitOn 10).drop 1).map typeOfLine := by
    rcases mem_of_lookup_readTypes hpages with hbuiltin | htypes
    · exact absurd (List.mem_map_of_mem (f := Prod.fst) hbuiltin) first_not_mem_builtin
    · rw [Option.map_some, Option.getD_some] at htypes
      exact Assoc.mem_of_lookup_ofList htypes
  obtain ⟨l, hl, hline⟩ := List.mem_map.1 hmem
  have hname : part 9 l 1 = name := congrArg (fun e => e.2.1) hline
  have hexts : part 9 l 2 = note := congrArg (fun e => e.2.2) hline
  have hnl : 10 ∉ l := not_mem_of_mem_splitOn (List.mem_of_mem_drop hl)
  have htab : 9 ∉ name := hname ▸ sep_not_mem_part 9 l 1
  have htab' : 9 ∉ note := hexts ▸ sep_not_mem_part 9 l 2
  have hnl1 : 10 ∉ name := fun hc => hnl (mem_of_mem_part (hname ▸ hc))
  have hnl2 : 10 ∉ note := fun hc => hnl (mem_of_mem_part (hexts ▸ hc))
  have hengine := (h.engine name first (fields 44 note)).2 ⟨note, hlookup, rfl⟩
  obtain ⟨e, hload, he⟩ := List.mem_map.1 (Assoc.mem_of_lookup_ofList hengine)
  rw [Option.map_some, Option.getD_some, (lines_text hnl1 hnl2).2] at hload
  obtain ⟨line, hmem, hsome⟩ := List.mem_filterMap.1 hload
  rw [List.drop_succ_cons, List.drop_zero, List.mem_singleton] at hmem
  have hchomp : Perl.chomp line = line := by
    rw [hmem]
    exact if_neg fun hlast => newline_not_mem_rest hnl1 hnl2 (List.mem_of_getLast? hlast)
  unfold loadLine at hsome
  rw [hchomp] at hsome
  dsimp only at hsome
  split_ifs at hsome with hnil htrue
  simp only [Bool.and_eq_true] at htrue
  have htype : part 9 line 1 = name :=
    (congrArg Prod.fst (Option.some.inj hsome)).trans (congrArg Prod.fst he)
  refine ⟨⟨htab, hnl1, htype ▸ htrue.1.2⟩, htab', ?_⟩
  by_cases hne : note = []
  · have hpart := htrue.2
    rw [hmem, hne, part_two_of_nil htab] at hpart
    cases hpart
  · have hpart := htrue.2
    rw [hmem, part_line htab hnote hne] at hpart
    simpa [part_of_not_mem htab'] using hpart

end Text

/-! ## What is written -/

/-- No type but the built-in ones and the first. -/
def Known (types : Types) : Prop :=
  ∀ e ∈ types.entries, isNumeric e.1 = true ∧ (e.1 = first ∨ toNumber e.1 < 150)

section Known

variable {types : Types} {id : Bytes} {v : Bytes × Bytes}

theorem Known.put (h : Known types) (hid : isNumeric id = true ∧ (id = first ∨ toNumber id < 150))
    (v : Bytes × Bytes) : Known (types.put id v) := by
  rintro ⟨k, w⟩ he
  rw [Assoc.mem_entries_iff, Assoc.lookup_put] at he
  split_ifs at he with hk
  · rw [hk]
    exact hid
  · exact h _ (Assoc.mem_entries_iff.2 he)

theorem Known.foldl_unset (h : Known types) (ids : List Bytes) :
    Known (ids.foldl Assoc.unset types) := by
  induction ids generalizing types with
  | nil => exact h
  | cons id ids ih => exact ih fun e he => h e (List.mem_of_mem_filter he)

theorem lookup_foldl_unset (types : Types) (ids : List Bytes) (k : Bytes) :
    (ids.foldl Assoc.unset types).lookup k = if k ∈ ids then none else types.lookup k := by
  induction ids generalizing types with
  | nil => rfl
  | cons id ids ih =>
    rw [List.foldl_cons, ih, Assoc.lookup_unset]
    simp only [List.mem_cons]
    split_ifs with h1 h2 h3 h3 <;> tauto

theorem eq_empty_of_lookup {types : Types} (h : ∀ id, types.lookup id = none) :
    types = Assoc.empty := by
  refine Assoc.ext (List.eq_nil_iff_forall_not_mem.2 fun e he => ?_)
  have hlookup := Assoc.mem_entries_iff.1 he
  rw [h] at hlookup
  cases hlookup

theorem foldl_unset_empty (ids : List Bytes) :
    ids.foldl Assoc.unset (Assoc.empty : Types) = Assoc.empty :=
  eq_empty_of_lookup fun id => by rw [lookup_foldl_unset, Assoc.lookup_empty, ite_self]

theorem foldl_unset_single (v : Bytes × Bytes) (ids : List Bytes) :
    ids.foldl Assoc.unset (single v) = if first ∈ ids then Assoc.empty else single v := by
  split_ifs with hmem
  · refine eq_empty_of_lookup fun id => ?_
    rw [lookup_foldl_unset, lookup_single]
    split_ifs with hid hfirst
    · rfl
    · exact absurd (hfirst ▸ hmem) hid
    · rfl
  · induction ids with
    | nil => rfl
    | cons id ids ih =>
      rw [List.mem_cons, not_or] at hmem
      have hunset : (single v).unset id = single v :=
        Assoc.ext (List.filter_eq_self.2 fun e he => by
          rw [List.mem_singleton.1 (he : e ∈ [(first, v)])]
          simpa using hmem.1)
      rw [List.foldl_cons, hunset, ih hmem.2]

/-- The types from 150 on. -/
theorem filter_eq (h : Known types) : (types.entries.filter fun e => 150 ≤ toNumber e.1) =
    ((types.lookup first).map fun v => (first, v)).toList := by
  have hfirst : ∀ e ∈ types.entries.filter (fun e => 150 ≤ toNumber e.1), e.1 = first := by
    intro e he
    obtain ⟨hmem, hle⟩ := List.mem_filter.1 he
    exact (h e hmem).2.resolve_right (not_lt.2 (of_decide_eq_true hle))
  have hnodup := types.nodup.sublist ((List.filter_sublist
    (p := fun e => decide (150 ≤ toNumber e.1)) (l := types.entries)).map Prod.fst)
  cases hl : types.entries.filter (fun e => 150 ≤ toNumber e.1) with
  | nil =>
    cases hlookup : types.lookup first with
    | none => rfl
    | some v =>
      have hmem : (first, v) ∈ types.entries.filter fun e => 150 ≤ toNumber e.1 :=
        List.mem_filter.2 ⟨Assoc.mem_entries_iff.2 hlookup, by simp [toNumber_first]⟩
      rw [hl] at hmem
      cases hmem
  | cons e l =>
    rw [hl] at hfirst hnodup
    obtain ⟨he, hfirst⟩ := List.forall_mem_cons.1 hfirst
    have hnil : l = [] := by
      rcases List.eq_nil_or_concat' l with hnil | ⟨l', e', hl'⟩
      · exact hnil
      · have he' : e' ∈ l := by simp [hl']
        refine absurd ?_ (List.nodup_cons.1 hnodup).1
        rw [he, ← hfirst e' he']
        exact List.mem_map_of_mem he'
    have hmem : e ∈ types.entries := List.mem_of_mem_filter (hl ▸ List.mem_cons_self)
    have hlookup : types.lookup first = some e.2 :=
      Assoc.mem_entries_iff.1 (by rw [← he]; exact hmem)
    rw [hlookup, hnil, ← he]
    rfl

/-- The file is written from what stands under the first number. -/
theorem savefile_eq (h : Known types) (MaxTypeID : Option ℤ) : savefile MaxTypeID types =
    trim (MaxTypeID.elim [] showInt ++
      10 :: ((types.lookup first).map fun v => row (first, v)).getD []) := by
  have hperm := (List.mergeSort_perm types.entries fun e e' =>
    decide (toNumber e.1 ≤ toNumber e'.1)).filter fun e => decide (150 ≤ toNumber e.1)
  rw [filter_eq h] at hperm
  unfold savefile
  cases hlookup : types.lookup first with
  | none =>
    rw [hlookup] at hperm
    simp only [hperm.eq_nil]
    rfl
  | some v =>
    rw [hlookup] at hperm
    simp only [List.perm_singleton.1 hperm]
    simp

end Known

theorem known_builtin {types : Types} (h : Known types) :
    Known (builtinTypes.foldl (fun m e => m.put e.1 e.2) types) := by
  rintro ⟨k, v⟩ he
  rw [Assoc.mem_entries_iff] at he
  rcases Assoc.mem_of_lookup_foldl_put he with hmem | hlookup
  · exact ⟨(toNumber_builtin _ hmem).2, .inr (toNumber_builtin _ hmem).1⟩
  · exact h _ (Assoc.mem_entries_iff.2 hlookup)

theorem known_empty : Known Assoc.empty := fun _ he => absurd he List.not_mem_nil

theorem isNumeric_first : isNumeric first = true := by
  decide

theorem known_single (v : Bytes × Bytes) : Known (single v) :=
  known_empty.put ⟨isNumeric_first, .inl rfl⟩ v

/-! ## The invariant -/

/-- The states of a run that meets what is expected. -/
inductive Inv : World → Prop
  | unused (file : Option Bytes) (h : file = none ∨ file = some [] ∨ file = some [48]) :
      Inv ⟨file, Assoc.empty, []⟩
  | emptied : Inv ⟨some [49], Assoc.empty, [first]⟩
  | stored (name note : Bytes) (h : Suits name (noteOf note)) :
      Inv ⟨some (text name (noteOf note)), single (name, noteOf note), [first]⟩

namespace Inv

variable {w : World}

/-- The user types of the file are those of the table. -/
theorem typesOf_eq (h : Inv w) : (w.file.map typesOf).getD Assoc.empty = w.table := by
  cases h with
  | unused file h => rcases h with rfl | rfl | rfl <;> rfl
  | emptied => rfl
  | stored name note h => exact typesOf_text h (rtrim_noteOf note) (newline_not_mem_noteOf note)

theorem readBack (h : Inv w) : ReadBack w := by
  cases h with
  | unused file h =>
    refine readBack_empty (fun content hcontent => ?_) _
    rcases h with rfl | rfl | rfl
    · cases hcontent
    · rw [← Option.some.inj hcontent]
      exact List.not_mem_nil
    · rw [← Option.some.inj hcontent]
      decide
  | emptied =>
    refine readBack_empty (fun content hcontent => ?_) _
    rw [← Option.some.inj hcontent]
    decide
  | stored name note h => exact readBack_text h (rtrim_noteOf note) (newline_not_mem_noteOf note) _

theorem known (h : Inv w) : Known (readTypes w.file).2 := by
  refine known_builtin ?_
  rw [h.typesOf_eq]
  cases h with
  | unused => exact known_empty
  | emptied => exact known_empty
  | stored => exact known_single _

theorem lookup_first (h : Inv w) : (readTypes w.file).2.lookup first = w.table.lookup first := by
  rw [lookup_readTypes_first, h.typesOf_eq]

theorem lookup_of_ne (h : Inv w) {id : Bytes} (hid : id ≠ first) : w.table.lookup id = none := by
  cases h with
  | unused => rfl
  | emptied => rfl
  | stored name note h => rw [lookup_single, if_neg hid]

theorem eq_first (h : Inv w) {id : Bytes} {v : Bytes × Bytes}
    (hlookup : w.table.lookup id = some v) : id = first := by
  by_contra hne
  rw [h.lookup_of_ne hne] at hlookup
  cases hlookup

/-- The counter, before there has been a type and afterwards. -/
theorem counter (h : Inv w) : w.used = [] ∧ w.table = Assoc.empty ∧
      ((readTypes w.file).1 = none ∨ (readTypes w.file).1 = some 0) ∨
    w.used = [first] ∧ (readTypes w.file).1 = some 1 := by
  cases h with
  | unused file h =>
    refine .inl ⟨rfl, rfl, ?_⟩
    rcases h with rfl | rfl | rfl
    · exact .inl rfl
    · exact .inr (by decide)
    · exact .inr (by decide)
  | emptied => exact .inr ⟨rfl, by decide⟩
  | stored name note h =>
    refine .inr ⟨rfl, ?_⟩
    have hlines := (lines_text h.name.2.1 (newline_not_mem_noteOf note)).1
    simp only [readTypes, Option.map_some, trim_text, hlines, List.headD_cons]
    decide

/-- The first number is offered. -/
theorem offered_eq (h : Inv w) : offered (readTypes w.file).1 = first := by
  rcases h.counter with ⟨-, -, hmax | hmax⟩ | ⟨-, hmax⟩ <;> rw [hmax] <;> decide

/-- Saving the table, or nothing. -/
theorem saved (h : Inv w) {types : Types} (hknown : Known types)
    (hlookup : types.lookup first = w.table.lookup first) :
    Inv { w with file := some (savefile (readTypes w.file).1 types) } := by
  rw [savefile_eq hknown, hlookup]
  cases h with
  | unused file h =>
    refine .unused _ (.inr ?_)
    rcases h with rfl | rfl | rfl
    · exact .inl (by decide)
    · exact .inr (by decide)
    · exact .inr (by decide)
  | emptied => exact .emptied
  | stored name note h =>
    have hmax := (Inv.stored name note h).counter
    have hsome : (readTypes (some (text name (noteOf note)))).1 = some 1 :=
      hmax.elim (fun hc => absurd hc.1 (List.cons_ne_nil _ _)) fun hc => hc.2
    simp only [hsome, lookup_single, if_true]
    exact .stored name note h

theorem saved_empty (h : Inv w) {types : Types} (hknown : Known types)
    (hlookup : types.lookup first = none) :
    Inv { w with file := some (savefile (readTypes w.file).1 types), table := Assoc.empty } := by
  rw [savefile_eq hknown, hlookup]
  rcases w with ⟨file, table, used⟩
  rcases h.counter with ⟨hused, -, hmax | hmax⟩ | ⟨hused, hmax⟩
  · simp only at hused hmax
    rw [hused, hmax]
    exact .unused _ (.inr (.inl (by decide)))
  · simp only at hused hmax
    rw [hused, hmax]
    exact .unused _ (.inr (.inr (by decide)))
  · simp only at hused hmax
    rw [hused, hmax]
    exact .emptied

/-- Saving one type under the first number. -/
theorem savefile_put (h : Inv w) (name note : Bytes) :
    savefile (some 1) ((readTypes w.file).2.put first (name, note)) = text name note := by
  rw [savefile_eq (h.known.put ⟨isNumeric_first, .inl rfl⟩ _), Assoc.lookup_put, if_pos rfl]
  rfl

end Inv

/-! ## One request -/

theorem run_modify (w : World) (id name note : Bytes) :
    (Request.modify id name note).run w.file =
      if isNumeric id then
        some (savefile (readTypes w.file).1 ((readTypes w.file).2.put id (name, noteOf note)))
      else none := by
  rw [Request.run]
  unfold save
  cases isNumeric id <;> rfl

section Step

variable {w : World} (h : Inv w)
include h

theorem run_add (name note : Bytes) : (Request.add name note).run w.file =
    if (w.table.lookup first).isSome then none
    else some (savefile (some ((readTypes w.file).1.getD 0 + 1))
      ((readTypes w.file).2.put first (name, noteOf note))) := by
  rw [Request.run, h.offered_eq]
  unfold save
  simp only [isNumeric_first, h.lookup_first, Bool.not_true, Bool.false_eq_true, if_false]

/-- The first type is stored under the first number. -/
theorem step_add {name note : Bytes} (hused : w.used = []) :
    ((Request.add name note).run w.file).isSome ∧ w.step (.add name note) =
      ⟨some (text name (noteOf note)), single (name, noteOf note), [first]⟩ := by
  have htable : w.table = Assoc.empty ∧ (readTypes w.file).1.getD 0 + 1 = 1 := by
    rcases h.counter with ⟨-, htable, hmax | hmax⟩ | ⟨hused', -⟩
    · exact ⟨htable, by rw [hmax]; rfl⟩
    · exact ⟨htable, by rw [hmax]; rfl⟩
    · rw [hused] at hused'
      cases hused'
  have hrun := run_add h name note
  rw [htable.1, htable.2, h.savefile_put] at hrun
  unfold World.step
  rw [show (Request.add name note).run w.file = some (text name (noteOf note)) from hrun]
  simp only [Option.isSome_some, h.offered_eq, htable.1, hused, true_and]
  rfl

theorem good_add_iff (name note : Bytes) :
    Good w (.add name note) ↔ w.used = [] ∧ Suits name (noteOf note) := by
  constructor
  · intro hgood
    have hfresh := hgood.fresh name note rfl
    rw [h.offered_eq] at hfresh
    have hused : w.used = [] := by
      rcases h.counter with ⟨hused, -⟩ | ⟨hused, -⟩
      · exact hused
      · rw [hused] at hfresh
        exact absurd List.mem_cons_self hfresh
    have hread := hgood.readBack
    rw [(step_add h hused).2] at hread
    exact ⟨hused, suits_of_readBack (rtrim_noteOf note) hread⟩
  · rintro ⟨hused, hsuits⟩
    refine ⟨?_, ?_, ?_⟩
    · intro _ _ _
      exact (step_add h hused).1
    · intro _ _ _
      rw [hused]
      exact List.not_mem_nil
    · rw [(step_add h hused).2]
      exact readBack_text hsuits (rtrim_noteOf note) (newline_not_mem_noteOf note) _

/-- The first type with other texts. -/
theorem step_modify_first {name note : Bytes} (hsome : (w.table.lookup first).isSome) :
    w.step (.modify first name note) =
      ⟨some (text name (noteOf note)), single (name, noteOf note), [first]⟩ := by
  have hrun := run_modify w first name note
  rw [isNumeric_first, if_pos rfl] at hrun
  obtain ⟨v, hv⟩ := Option.isSome_iff_exists.1 hsome
  rcases h.counter with ⟨-, htable, -⟩ | ⟨-, hmax⟩
  · rw [htable] at hv
    cases hv
  · rw [hmax, h.savefile_put] at hrun
    unfold World.step
    rw [hrun]
    simp only [hsome, if_true]
    cases h with
    | unused => cases hv
    | emptied => cases hv
    | stored name' note' => rfl

/-- A type with a number below 150 is not stored. -/
theorem inv_modify {id name note : Bytes} (hnone : w.table.lookup id = none)
    (hlow : isNumeric id = true → toNumber id < 150) : Inv (w.step (.modify id name note)) := by
  have hrun := run_modify w id name note
  unfold World.step
  split_ifs at hrun with hnumeric
  · have hid : id ≠ first := by
      rintro rfl
      exact absurd (hlow hnumeric) (not_lt.2 toNumber_first.ge)
    rw [hrun]
    simp only [hnone, Option.isSome_none, Bool.false_eq_true, if_false]
    refine h.saved (h.known.put ⟨hnumeric, .inr (hlow hnumeric)⟩ _) ?_
    rw [Assoc.lookup_put, if_neg (Ne.symm hid), h.lookup_first]
  · rw [hrun]
    exact h

theorem good_modify_iff {id name note : Bytes} (haddressed : Addressed w (.modify id name note)) :
    Good w (.modify id name note) ↔
      ((w.table.lookup id).isSome → Suits name (noteOf note)) := by
  cases hlookup : w.table.lookup id with
  | none =>
    have hlow := haddressed.resolve_left (by simp [hlookup])
    refine iff_of_true ⟨fun _ _ he => ?_, fun _ _ he => ?_, (inv_modify h hlookup hlow).readBack⟩ ?_
    · cases he
    · cases he
    · intro hsome
      cases hsome
  | some v =>
    have hid := h.eq_first hlookup
    rw [hid] at hlookup ⊢
    have hstep := @step_modify_first _ h name note (by rw [hlookup]; rfl)
    constructor
    · intro hgood _
      have hread := hgood.readBack
      rw [hstep] at hread
      exact suits_of_readBack (rtrim_noteOf note) hread
    · intro hsuits
      refine ⟨fun _ _ he => ?_, fun _ _ he => ?_, ?_⟩
      · cases he
      · cases he
      · rw [hstep]
        exact readBack_text (hsuits rfl) (rtrim_noteOf note) (newline_not_mem_noteOf note) _

theorem inv_del (ids : List Bytes) : Inv (w.step (.del ids)) := by
  have hlookup := lookup_foldl_unset (readTypes w.file).2 ids first
  have hknown := h.known.foldl_unset ids
  have hstep : w.step (.del ids) = { w with
      file := some (savefile (readTypes w.file).1 (ids.foldl Assoc.unset (readTypes w.file).2))
      table := ids.foldl Assoc.unset w.table } := rfl
  have htable : ids.foldl Assoc.unset w.table =
      if first ∈ ids then Assoc.empty else w.table := by
    cases h with
    | unused => rw [foldl_unset_empty, ite_self]
    | emptied => rw [foldl_unset_empty, ite_self]
    | stored => exact foldl_unset_single _ ids
  rw [hstep, htable]
  split_ifs at hlookup ⊢ with hmem
  · exact h.saved_empty hknown hlookup
  · exact h.saved hknown (hlookup.trans h.lookup_first)

end Step

/-! ## The run -/

theorem good_iff {w : World} (h : Inv w) {r : Request} (haddressed : Addressed w r) :
    Good w r ↔ Sound w r := by
  cases r with
  | add name note => exact good_add_iff h name note
  | modify id name note => exact good_modify_iff h haddressed
  | del ids =>
    refine iff_of_true ⟨fun _ _ he => ?_, fun _ _ he => ?_, (inv_del h ids).readBack⟩ trivial
    · cases he
    · cases he

theorem inv_step {w : World} (h : Inv w) {r : Request} (haddressed : Addressed w r)
    (hr : Sound w r) : Inv (w.step r) := by
  cases r with
  | add name note =>
    rw [(step_add h hr.1).2]
    exact .stored name note hr.2
  | modify id name note =>
    cases hlookup : w.table.lookup id with
    | none => exact inv_modify h hlookup (haddressed.resolve_left (by simp [hlookup]))
    | some v =>
      have hsuits := hr (by rw [hlookup]; rfl)
      have hid := h.eq_first hlookup
      rw [hid] at hlookup ⊢
      rw [step_modify_first h (by rw [hlookup]; rfl)]
      exact .stored name note hsuits
  | del ids => exact inv_del h ids

/-- A run in which nothing is stored for a type that does not exist is good if and only if it is
sound. -/
theorem meets_iff_of_inv {w : World} (h : Inv w) {rs : List Request} (ha : AllAddressed w rs) :
    Meets w rs ↔ AllSound w rs := by
  induction rs generalizing w with
  | nil => exact Iff.rfl
  | cons r rs ih =>
    rw [Meets, AllSound, good_iff h ha.1]
    exact and_congr_right fun hr => ih (inv_step h ha.1 hr) ha.2

theorem inv_empty : Inv {} := .unused none (.inl rfl)

/-- **User file types keep their identity** in every run from no file on that adds one type at most,
stores texts that suit both readers, and stores nothing for a type that does not exist. -/
theorem meets_of_sound {rs : List Request} (ha : AllAddressed {} rs) (hs : AllSound {} rs) :
    Meets {} rs := (meets_iff_of_inv inv_empty ha).2 hs

/-- A type that gets another extension and is deleted. -/
theorem meets_word : Meets {} [.add (bytes "Word") (bytes "doc"),
    .modify (bytes "150") (bytes "Word") (bytes "doc\r\ndot"), .del [bytes "150"]] := by
  have hsuits : Suits (bytes "Word") (noteOf (bytes "doc")) :=
    ⟨⟨by decide, by decide, by decide⟩, by decide, by decide⟩
  have hsuits' : Suits (bytes "Word") (noteOf (bytes "doc\r\ndot")) :=
    ⟨⟨by decide, by decide, by decide⟩, by decide, by decide⟩
  have hsome : ((World.step {} (.add (bytes "Word") (bytes "doc"))).table.lookup
      (bytes "150")).isSome = true := by
    rw [(step_add inv_empty rfl).2]
    decide
  exact meets_of_sound ⟨trivial, .inl hsome, trivial, trivial⟩
    ⟨⟨rfl, hsuits⟩, fun _ => hsuits', trivial, trivial⟩

/-- The second type is offered the number of the first, and is refused. -/
theorem second_refused :
    offered (readTypes (World.step {} (.add (bytes "Word") (bytes "doc"))).file).1 = bytes "150" ∧
      (Request.add (bytes "Excel") (bytes "xls")).run
        (World.step {} (.add (bytes "Word") (bytes "doc"))).file = none ∧
      ¬Meets {} [.add (bytes "Word") (bytes "doc"), .add (bytes "Excel") (bytes "xls")] := by
  have hsuits : Suits (bytes "Word") (noteOf (bytes "doc")) :=
    ⟨⟨by decide, by decide, by decide⟩, by decide, by decide⟩
  have hinv := @inv_step _ inv_empty (.add (bytes "Word") (bytes "doc")) trivial ⟨rfl, hsuits⟩
  have hstep := (@step_add _ inv_empty (bytes "Word") (bytes "doc") rfl).2
  refine ⟨hinv.offered_eq, ?_, ?_⟩
  · rw [run_add hinv, hstep, lookup_single, if_pos rfl]
    rfl
  · rintro ⟨-, hgood, -⟩
    have hused := ((good_add_iff hinv _ _).1 hgood).1
    rw [hstep] at hused
    cases hused

end NoSpam.Admin.FileTypes
