import NoSpam.Files.ConfigTiny

/-!
# The configuration between the web interface and the engine

The web interface saves the configuration with `ConfFile`, and the engine reads the same file with
`Config::Tiny`.  The two know different comments, headers, line ends and white space.  For
parameters that both take for the same, the engine reads what was saved, and so does the web
interface.
-/

namespace NoSpam.EngineConf

open Text Admin ConfigTiny
open Perl (isWhite)
open Admin.ConfFile hiding readText readText_rows readText_blank

/-! ## Parameters that mean the same to both -/

/-- No carriage return, which ends a line for the engine alone, and no form feed, which is white
space for the engine alone. -/
def Plain (b : Bytes) : Prop := ∀ c ∈ b, c ≠ 13 ∧ c ≠ 12

/-- A section whose header is one to the engine, with keys that are not comments to it. -/
structure Shared (e : Bytes × Assoc Bytes Bytes) : Prop where
  name : e.1 = [] ∨ e.1 ≠ root ∧ 93 ∉ e.1 ∧ Plain e.1
  key : ∀ p ∈ e.2.entries, Plain p.1 ∧ p.1.head? ≠ some 59
  value : ∀ p ∈ e.2.entries, Plain p.2

instance (b : Bytes) : Decidable (Plain b) := inferInstanceAs (Decidable (∀ c ∈ b, _))

instance (e : Bytes × Assoc Bytes Bytes) : Decidable (Shared e) :=
  decidable_of_iff
    ((e.1 = [] ∨ e.1 ≠ root ∧ 93 ∉ e.1 ∧ Plain e.1) ∧
      (∀ p ∈ e.2.entries, Plain p.1 ∧ p.1.head? ≠ some 59) ∧ ∀ p ∈ e.2.entries, Plain p.2)
    ⟨fun ⟨h₁, h₂, h₃⟩ => ⟨h₁, h₂, h₃⟩, fun ⟨h₁, h₂, h₃⟩ => ⟨h₁, h₂, h₃⟩⟩

/-- The name under which the engine has a section. -/
def engineName (sec : Bytes) : Bytes := if sec = [] then root else sec

/-! ## Rows and headers -/

theorem isTrim_of_isWhite {c : UInt8} (h : isWhite c = true) (hc : c ≠ 12) :
    Php.isTrim c = true := by
  simp only [isWhite, Bool.or_eq_true, decide_eq_true_eq] at h
  simp only [Php.isTrim, Bool.or_eq_true, decide_eq_true_eq]
  tauto

/-- What is trimmed to the web interface is so to the engine. -/
theorem strip_of_isLine {b : Bytes} (h : IsLine b) (hplain : Plain b) : strip b = b := by
  have hblank : ∀ c ∈ b, Php.isTrim c = false → isWhite c = false := by
    intro c hc htrim
    by_contra hb
    rw [isTrim_of_isWhite (by simpa using hb) (hplain c hc).2] at htrim
    cases htrim
  have hdrop : b.dropWhile isWhite = b := by
    refine dropWhile_eq_self fun c hc => ?_
    obtain ⟨l, rfl⟩ := List.head?_eq_some_iff.1 (Option.mem_def.1 hc)
    exact hblank c List.mem_cons_self (Php.isTrim_head_of_trim h.1)
  rw [strip, hdrop, List.rdropWhile_eq_self_iff]
  intro hne
  have hlast := List.rdropWhile_eq_self_iff.1 (Php.rtrim_eq_self_of_trim h.1) hne
  simpa using hblank _ (List.getLast_mem hne) (by simpa using hlast)

theorem oneLine_of_isLine {b : Bytes} (h : IsLine b) (hplain : Plain b) : OneLine b := by
  intro c hc
  have h10 : c ≠ 10 := fun he => h.2 (he ▸ hc)
  simp [isEol, h10, (hplain c hc).1]

theorem rowBack_of_shared {e : Bytes × Assoc Bytes Bytes} (hsec : IsSection e.2) (h : Shared e) :
    ∀ p ∈ e.2.entries, RowBack p.1 p.2 ∧ strip p.2 = p.2 := by
  intro p hp
  obtain ⟨hkey, hvalue⟩ := hsec p hp
  obtain ⟨hplain, h59⟩ := h.key p hp
  have hheader : headerName (p.1 ++ 61 :: p.2) = none := by
    by_contra hsome
    have hhead := ((headerName_isSome_iff _).1 (Option.isSome_iff_ne_none.2 hsome)).1
    rw [List.head?_append_of_ne_nil _ hkey.ne_nil] at hhead
    exact hkey.not_header hhead
  refine ⟨⟨?_, readLine_row hkey.ne_nil hkey.eq_not_mem (strip_of_isLine hkey.isLine hplain)
    ⟨hkey.not_comment, h59⟩ hheader⟩, strip_of_isLine hvalue (h.value p hp)⟩
  intro c hc
  rcases List.mem_append.1 hc with hc | hc
  · exact oneLine_of_isLine hkey.isLine hplain c hc
  · rcases List.mem_cons.1 hc with rfl | hc
    · rfl
    · exact oneLine_of_isLine hvalue (h.value p hp) c hc

theorem headerBack_of_shared {e : Bytes × Assoc Bytes Bytes} (hname : IsLine e.1) (h : Shared e)
    (hne : e.1 ≠ []) : e.1 ≠ root ∧ HeaderBack e.1 := by
  obtain ⟨hroot, h93, hplain⟩ := h.name.resolve_left hne
  refine ⟨hroot, ?_, ?_⟩
  · intro c hc
    rcases List.mem_cons.1 hc with rfl | hc
    · rfl
    · rcases List.mem_append.1 hc with hc | hc
      · exact oneLine_of_isLine hname hplain c hc
      · rw [List.mem_singleton.1 hc]
        rfl
  · obtain ⟨c, r, hr⟩ := List.exists_cons_of_ne_nil hne
    rw [hr] at h93 ⊢
    exact readLine_header c fun hmem => h93 (List.mem_cons_of_mem c hmem)

/-! ## The text in lines -/

/-- The lines of a section with its header. -/
def blockLines (e : Bytes × Assoc Bytes Bytes) : List Bytes :=
  (91 :: (e.1 ++ [93])) :: (e.2.entries.map fun p => p.1 ++ 61 :: p.2) ++ [[]]

theorem rows_eq_columnText (values : List (Bytes × Bytes)) :
    rows values = columnText 10 (values.map fun p => p.1 ++ 61 :: p.2) := by
  rw [rows, columnText, List.flatMap_map]
  refine List.flatMap_congr fun p _ => ?_
  simp [row]

theorem block_eq_columnText (e : Bytes × Assoc Bytes Bytes) :
    block e = columnText 10 (blockLines e) := by
  rw [block, blockLines, columnText_append, columnText_cons, rows_eq_columnText]
  simp [columnText]

/-- A line that is empty or ends with what is not trimmed. -/
def EndsFirm (l : Bytes) : Prop := ∀ c ∈ l.getLast?, Php.isTrim c = false

theorem endsFirm_row {p : Bytes × Bytes} (hvalue : IsLine p.2) :
    EndsFirm (p.1 ++ 61 :: p.2) := by
  intro c hc
  cases hv : p.2 with
  | nil =>
    rw [hv, List.getLast?_concat] at hc
    obtain rfl := Option.some_inj.1 hc
    rfl
  | cons d v =>
    have hne : p.2 ≠ [] := by simp [hv]
    rw [List.append_cons, List.getLast?_append_of_ne_nil _ hne,
      List.getLast?_eq_some_getLast hne] at hc
    obtain rfl := Option.some_inj.1 hc
    simpa using List.rdropWhile_eq_self_iff.1 (Php.rtrim_eq_self_of_trim hvalue.1) hne

theorem endsFirm_blockLines {e : Bytes × Assoc Bytes Bytes} (hsec : IsSection e.2) :
    ∀ l ∈ blockLines e, EndsFirm l := by
  intro l hl
  rw [blockLines, List.cons_append, List.mem_cons, List.mem_append, List.mem_singleton] at hl
  rcases hl with rfl | hl | rfl
  · intro c hc
    rw [← List.cons_append, List.getLast?_concat] at hc
    obtain rfl := Option.some_inj.1 hc
    rfl
  · obtain ⟨p, hp, rfl⟩ := List.mem_map.1 hl
    exact endsFirm_row (hsec p hp).2
  · exact fun c hc => by cases hc

/-- The lines of the whole text. -/
def iniLines (params : Params) : List Bytes :=
  ((sect params []).entries.map fun p => p.1 ++ 61 :: p.2) ++
    (if (sect params []).entries ≠ [] then [[]] else []) ++
      (params.unset []).entries.flatMap blockLines

theorem iniText_eq_columnText (params : Params) :
    iniText params = columnText 10 (iniLines params) := by
  have hblocks : (params.unset []).entries.flatMap block =
      columnText 10 ((params.unset []).entries.flatMap blockLines) := by
    rw [columnText, List.flatMap_assoc]
    exact List.flatMap_congr fun e _ => block_eq_columnText e
  rw [iniText, iniLines, columnText_append, columnText_append, hblocks, ← rows_eq_columnText]
  by_cases hnil : (sect params []).entries = []
  · simp [hnil, rows, columnText]
  · have hrows : rows (sect params []).entries ≠ [] := by
      obtain ⟨p, values, hp⟩ := List.exists_cons_of_ne_nil hnil
      simp [hp, rows, row]
    simp only [if_pos hrows, if_pos hnil]
    rfl

/-! ## What trimming the text takes away -/

theorem isSection_sect {params : Params} (hp : IsParams params) (sec : Bytes) :
    IsSection (sect params sec) := by
  rw [sect]
  cases hl : params.lookup sec with
  | none => exact fun p hp => by cases hp
  | some values => exact (hp _ (Assoc.mem_entries_iff.2 hl)).2

theorem readText_concat (s : Bytes × Params) (text : Bytes) :
    readText s (text ++ [10]) = readText s text := by
  have heol : isEol 10 = true := rfl
  rw [readText, readText, List.splitOnP_append_cons text [] heol, List.splitOnP_nil,
    List.foldlM_append]
  exact Option.bind_fun_some _

theorem readText_rtrim_columnText {ls : List Bytes} (h : ∀ l ∈ ls, EndsFirm l)
    (s : Bytes × Params) :
    readText s (Php.rtrim (columnText 10 ls)) = readText s (columnText 10 ls) := by
  induction ls using List.reverseRecOn with
  | nil => rfl
  | append_singleton ls l ih =>
    have hl : EndsFirm l := h l (by simp)
    have hsplit : columnText 10 (ls ++ [l]) = columnText 10 ls ++ l ++ [10] := by
      rw [columnText_append]
      simp [columnText]
    rw [hsplit, Php.rtrim_concat rfl, readText_concat]
    cases l with
    | nil =>
      rw [List.append_nil]
      exact ih fun l hl => h l (List.mem_append_left _ hl)
    | cons c l =>
      have hfirm : Php.rtrim (c :: l) = c :: l := by
        rw [Php.rtrim, List.rdropWhile_eq_self_iff]
        intro hne
        simpa using hl _ (List.getLast?_eq_some_getLast hne)
      rw [Php.rtrim_append hfirm (List.cons_ne_nil c l)]

/-- Nothing is taken away in front. -/
theorem dropWhile_columnText {params : Params} (hp : IsParams params) :
    (Php.rtrim (columnText 10 (iniLines params))).dropWhile Php.isTrim =
      Php.rtrim (columnText 10 (iniLines params)) := by
  have hhead : ∀ c ∈ (columnText 10 (iniLines params)).head?, Php.isTrim c = false := by
    have hfirst : ∀ {l : Bytes} {ls : List Bytes} {c : UInt8},
        c ∈ (columnText 10 (l :: ls)).head? → l ≠ [] → c ∈ l.head? := by
      intro l ls c hc hl
      rwa [columnText_cons, List.head?_append_of_ne_nil _ hl] at hc
    intro c hc
    rw [iniLines] at hc
    cases hroot : (sect params []).entries with
    | nil =>
      cases hblocks : (params.unset []).entries with
      | nil => simp [hroot, hblocks, columnText] at hc
      | cons e es =>
        rw [hroot, hblocks] at hc
        simp only [List.map_nil, ne_eq, not_true_eq_false, if_false, List.nil_append,
          List.flatMap_cons, blockLines, List.cons_append] at hc
        obtain rfl := Option.some_inj.1 (hfirst hc (by simp))
        rfl
    | cons p values =>
      rw [hroot] at hc
      simp only [List.map_cons, List.cons_append] at hc
      have hkey : IsKey p.1 := (isSection_sect hp [] p (by simp [hroot])).1
      have hc := hfirst hc (by simp)
      rw [List.head?_append_of_ne_nil _ hkey.ne_nil] at hc
      obtain ⟨l, hl⟩ := List.head?_eq_some_iff.1 (Option.mem_def.1 hc)
      have htrim := hkey.isLine.1
      rw [hl] at htrim
      exact Php.isTrim_head_of_trim htrim
  obtain ⟨r, hr⟩ := Php.isPrefix_rtrim (columnText 10 (iniLines params))
  cases hrtrim : Php.rtrim (columnText 10 (iniLines params)) with
  | nil => rfl
  | cons c l =>
    rw [hrtrim, List.cons_append] at hr
    refine List.dropWhile_cons_of_neg ?_
    rw [hhead c (by rw [← hr]; rfl)]
    exact Bool.false_ne_true

theorem endsFirm_iniLines {params : Params} (hp : IsParams params) :
    ∀ l ∈ iniLines params, EndsFirm l := by
  have hnil : EndsFirm [] := fun c hc => by cases hc
  intro l hl
  rw [iniLines, List.mem_append, List.mem_append] at hl
  rcases hl with (hl | hl) | hl
  · obtain ⟨p, hmem, rfl⟩ := List.mem_map.1 hl
    exact endsFirm_row ((isSection_sect hp []) p hmem).2
  · split_ifs at hl
    · rw [List.mem_singleton.1 hl]
      exact hnil
    · cases hl
  · obtain ⟨e, he, hl⟩ := List.mem_flatMap.1 hl
    exact endsFirm_blockLines (hp e (List.mem_of_mem_filter he)).2 l hl

/-- The engine does not see that the text was trimmed. -/
theorem readString_trim {params : Params} (hp : IsParams params) :
    readString (Php.trim (iniText params)) = readString (iniText params) := by
  rw [readString, readString, Php.trim, iniText_eq_columnText, dropWhile_columnText hp,
    readText_rtrim_columnText (endsFirm_iniLines hp)]

/-! ## What the engine reads -/

theorem readText_block {e : Bytes × Assoc Bytes Bytes} (hname : e.1 ≠ root ∧ HeaderBack e.1)
    (hrows : ∀ p ∈ e.2.entries, RowBack p.1 p.2) (s : Bytes × Params) (text : Bytes) :
    readText s (block e ++ text) = readText (sectionStep s (e.1, e.2.entries)) text := by
  have hheader := readText_header hname.2 s (rows e.2.entries ++ 10 :: text)
  have hblock : block e ++ text = 91 :: (e.1 ++ 93 :: 10 :: (rows e.2.entries ++ 10 :: text)) := by
    simp [block]
  rw [hblock, hheader, readText_rows hrows, readText_blank, sectionStep]
  simp only [if_neg hname.1]

theorem readText_blocks {es : List (Bytes × Assoc Bytes Bytes)}
    (h : ∀ e ∈ es, (e.1 ≠ root ∧ HeaderBack e.1) ∧ ∀ p ∈ e.2.entries, RowBack p.1 p.2)
    (s : Bytes × Params) :
    readText s (es.flatMap block) =
      some ((es.map fun e => (e.1, e.2.entries)).foldl sectionStep s) := by
  induction es generalizing s with
  | nil => exact readText_nil s
  | cons e es ih =>
    obtain ⟨he, hes⟩ := List.forall_mem_cons.1 h
    rw [List.flatMap_cons, readText_block he.1 he.2, ih hes]
    rfl

/-- The sections as the engine gets them. -/
def engineSections (params : Params) : List (Bytes × List (Bytes × Bytes)) :=
  (root, (sect params []).entries) :: (params.unset []).entries.map fun e => (e.1, e.2.entries)

section Saved

variable {params : Params}

/-- Sections other than that without a name have headers. -/
theorem headerBack_of_mem (hp : IsParams params) (h : ∀ e ∈ params.entries, Shared e)
    {e : Bytes × Assoc Bytes Bytes} (he : e ∈ (params.unset []).entries) :
    e.1 ≠ root ∧ HeaderBack e.1 := by
  have hmem := List.mem_of_mem_filter he
  exact headerBack_of_shared (hp e hmem).1 (h e hmem) (by simpa using (List.mem_filter.1 he).2)

theorem readText_iniText (hp : IsParams params) (h : ∀ e ∈ params.entries, Shared e) :
    readText (root, Assoc.empty) (iniText params) =
      some ((engineSections params).foldl sectionStep (root, Assoc.empty)) := by
  have hrows : ∀ p ∈ (sect params []).entries, RowBack p.1 p.2 := by
    rw [sect]
    cases hl : params.lookup [] with
    | none => exact fun p hp => by cases hp
    | some values =>
      have hmem := Assoc.mem_entries_iff.2 hl
      exact fun p hmem' => (rowBack_of_shared (hp _ hmem).2 (h _ hmem) p hmem').1
  have hblocks : ∀ e ∈ (params.unset []).entries,
      (e.1 ≠ root ∧ HeaderBack e.1) ∧ ∀ p ∈ e.2.entries, RowBack p.1 p.2 := by
    intro e he
    have hmem := List.mem_of_mem_filter he
    exact ⟨headerBack_of_mem hp h he,
      fun p hp' => (rowBack_of_shared (hp e hmem).2 (h e hmem) p hp').1⟩
  have hfirst : ∀ text, readText (root, Assoc.empty) (rows (sect params []).entries ++ text) =
      readText (sectionStep (root, Assoc.empty) (root, (sect params []).entries)) text := by
    intro text
    rw [readText_rows hrows, sectionStep]
    rfl
  rw [iniText, engineSections, List.foldl_cons]
  by_cases hstr : rows (sect params []).entries = []
  · have hnil := hfirst ((params.unset []).entries.flatMap block)
    rw [hstr, List.nil_append] at hnil
    simp only [hstr, ne_eq, not_true_eq_false, if_false, List.nil_append]
    rw [hnil, readText_blocks hblocks]
  · simp only [ne_eq, hstr, not_false_eq_true, if_true]
    rw [List.append_assoc, hfirst, List.singleton_append, readText_blank, readText_blocks hblocks]

/-- The parameters of a section under its name for the engine. -/
theorem find_engineSections (params : Params) {sec : Bytes} (hsec : sec ≠ root) :
    Assoc.find (engineName sec) (engineSections params) =
      if sec = [] then some (sect params []).entries
      else (params.lookup sec).map Assoc.entries := by
  rw [engineName, engineSections, Assoc.find]
  by_cases hnil : sec = []
  · rw [if_pos hnil, if_pos rfl, if_pos hnil]
  · rw [if_neg hnil, if_neg (Ne.symm hsec), if_neg hnil,
      Assoc.find_map (fun values : Assoc Bytes Bytes => values.entries)]
    have hunset : Assoc.find sec (params.unset []).entries = _ := Assoc.lookup_unset params [] sec
    rw [hunset, if_neg hnil]

theorem param_engineSections (hp : IsParams params) (h : ∀ e ∈ params.entries, Shared e)
    {sec : Bytes} (hsec : sec ≠ root) (key : Bytes) :
    param ((engineSections params).foldl sectionStep (root, Assoc.empty)).2 (engineName sec) key =
      (param params sec key).map strip := by
  have hroot : ∀ e ∈ (params.unset []).entries.map fun e => (e.1, e.2.entries), e.1 ≠ root := by
    intro e he
    obtain ⟨d, hd, rfl⟩ := List.mem_map.1 he
    exact (headerBack_of_mem hp h hd).1
  have hnodup : ((engineSections params).map Prod.fst).Nodup := by
    refine List.nodup_cons.2 ⟨fun hmem => ?_, ?_⟩
    · obtain ⟨e, he, heq⟩ := List.mem_map.1 hmem
      exact hroot e he heq
    · rw [List.map_map]
      exact (params.unset []).nodup
  have hkeys : ∀ e ∈ engineSections params, (e.2.map Prod.fst).Nodup := by
    intro e he
    rcases List.mem_cons.1 he with rfl | he
    · exact (sect params []).nodup
    · obtain ⟨d, -, rfl⟩ := List.mem_map.1 he
      exact d.2.nodup
  have hfirst : (engineSections params).Pairwise fun _ e => e.1 ≠ root :=
    List.pairwise_cons.2 ⟨hroot, List.pairwise_of_forall_mem_list fun _ _ e he => hroot e he⟩
  have hempty : param (root, (Assoc.empty : Params)).2 (engineName sec) key = none := rfl
  rw [param_foldl_sectionStep hnodup hkeys hfirst (fun _ _ _ => rfl), hempty, Option.or_none,
    find_engineSections params hsec]
  by_cases hnil : sec = []
  · rw [if_pos hnil, hnil, ← lookup_sect]
    rfl
  · rw [if_neg hnil, param]
    cases params.lookup sec <;> rfl

theorem strip_param (hp : IsParams params) (h : ∀ e ∈ params.entries, Shared e)
    {sec key v : Bytes} (hv : param params sec key = some v) : strip v = v := by
  obtain ⟨values, hl, hlookup⟩ := Option.bind_eq_some_iff.1 hv
  have hmem := Assoc.mem_entries_iff.2 hl
  exact (rowBack_of_shared (hp _ hmem).2 (h _ hmem) _ (Assoc.mem_entries_iff.2 hlookup)).2

/-- **The engine reads what the web interface saves**: every parameter has the value it was saved
with, and the web interface reads that value too. -/
theorem readString_save (hp : IsParams params) (h : ∀ e ∈ params.entries, Shared e)
    {Privilege : Option Bytes} (hperm : adminPerm Privilege PERM_ADMIN_WRITE = true)
    (file : Bytes) :
    ∃ config, readString (save Privilege params file) = some config ∧
      ∀ sec key, sec ≠ root →
        param config (engineName sec) key = param params sec key ∧
          param (parseIni (save Privilege params file)) sec key = param params sec key := by
  rw [save_of_adminPerm hperm, readString_trim hp, parseIni_trim]
  refine ⟨((engineSections params).foldl sectionStep (root, Assoc.empty)).2, ?_,
    fun sec key hsec => ⟨?_, param_parseIni_iniText hp.isConf sec key⟩⟩
  · rw [readString, readText_iniText hp h, Option.map_some]
  · rw [param_engineSections hp h hsec]
    cases hv : param params sec key with
    | none => rfl
    | some v => rw [Option.map_some, strip_param hp h hv]

end Saved

/-- A rate in its section and a parameter without a section. -/
def rates : Params :=
  setParam
    (setParam Assoc.empty (bytes "ConnRatePerIP") (bytes "10/60/600") (bytes "DynamicEngine"))
    (bytes "Host") (bytes "mx 1") []

set_option maxRecDepth 4000 in
theorem readString_save_rates :
    ∃ config, readString (save (some (bytes "4")) rates []) = some config ∧
      ∀ sec key, sec ≠ root →
        param config (engineName sec) key = param rates sec key ∧
          param (parseIni (save (some (bytes "4")) rates [])) sec key = param rates sec key :=
  readString_save (by decide) (by decide) (by decide) []

end NoSpam.EngineConf
