import NoSpam.Base.Columns
import NoSpam.Base.Form
import NoSpam.Base.Php

/-!
# Character references

`htmlentities` for Latin-1, which leaves apostrophes alone, and the inverse that a script makes of
its table with `strtr`.
-/

namespace Php

open Text Form

/-- The names of the Latin-1 characters from the no-break space on. -/
def latinNames : List Bytes := (bytes
  ("nbsp iexcl cent pound curren yen brvbar sect uml copy ordf laquo not shy reg macr deg " ++
   "plusmn sup2 sup3 acute micro para middot cedil sup1 ordm raquo frac14 frac12 frac34 " ++
   "iquest Agrave Aacute Acirc Atilde Auml Aring AElig Ccedil Egrave Eacute Ecirc Euml " ++
   "Igrave Iacute Icirc Iuml ETH Ntilde Ograve Oacute Ocirc Otilde Ouml times Oslash Ugrave " ++
   "Uacute Ucirc Uuml Yacute THORN szlig agrave aacute acirc atilde auml aring aelig ccedil " ++
   "egrave eacute ecirc euml igrave iacute icirc iuml eth ntilde ograve oacute ocirc otilde " ++
   "ouml divide oslash ugrave uacute ucirc uuml yacute thorn yuml")).splitOn 32

/-- `get_html_translation_table(HTML_ENTITIES)`. -/
def entityTable : List (UInt8 × Bytes) :=
  let names : List (UInt8 × Bytes) :=
    [(34, bytes "quot"), (38, bytes "amp"), (60, bytes "lt"), (62, bytes "gt")] ++
      latinNames.mapIdx fun i name => (UInt8.ofNat (160 + i), name)
  names.map fun e => (e.1, 38 :: (e.2 ++ [59]))

/-- `htmlentities`. -/
def htmlentities (b : Bytes) : Bytes :=
  b.flatMap fun c =>
    match entityTable.find? fun e => e.1 = c with
    | some e => e.2
    | none => [c]

/-- `strtr` with the table the other way round, after `skip` symbols of a reference. -/
def untranslate : ℕ → Bytes → Bytes
  | _, [] => []
  | skip + 1, _ :: l => untranslate skip l
  | 0, c :: l =>
      match entityTable.find? fun e => e.2.isPrefixOf (c :: l) with
      | some e => e.1 :: untranslate (e.2.length - 1) l
      | none => c :: untranslate 0 l

/-- `unhtmlentities`. -/
def unhtmlentities (b : Bytes) : Bytes := untranslate 0 b

/-- A printable ASCII character that no reference and no slash concerns. -/
def isOrdinary (c : UInt8) : Bool := isPlain c && c ≠ 39 && c ≠ 60 && c ≠ 62 && c ≠ 92

theorem bytes_append (s t : String) : bytes (s ++ t) = bytes s ++ bytes t := by
  rw [bytes, String.toList_append, List.flatMap_append, ← bytes, ← bytes]

/-- A string by its characters, without the detour over its encoding. -/
theorem bytes_ofList (l : List Char) :
    bytes (String.ofList l) = l.flatMap String.utf8EncodeChar := by
  rw [bytes, String.toList_ofList]

theorem length_latinNames : latinNames.length = 96 := by
  rw [latinNames]
  simp only [bytes_append]
  repeat rw [bytes_ofList]
  rw [length_splitOn]
  decide +kernel

theorem fst_entityTable : ∀ e ∈ entityTable, isOrdinary e.1 = false := by
  have hlatin : ∀ i : Fin 96, isOrdinary (UInt8.ofNat (160 + i.val)) = false := by decide +kernel
  intro e he
  obtain ⟨name, hname, rfl⟩ := List.mem_map.1 he
  rcases List.mem_append.1 hname with hname | hname
  · simp only [List.mem_cons, List.not_mem_nil, or_false] at hname
    rcases hname with rfl | rfl | rfl | rfl <;> decide
  · obtain ⟨i, hi, rfl⟩ := List.mem_mapIdx.1 hname
    rw [length_latinNames] at hi
    exact hlatin ⟨i, hi⟩

theorem head_entityTable : ∀ e ∈ entityTable, e.2.head? = some 38 := by
  intro e he
  obtain ⟨e, -, rfl⟩ := List.mem_map.1 he
  rfl

variable {l : Bytes} (h : l.all isOrdinary = true)

include h

theorem htmlentities_of_ordinary : htmlentities l = l := by
  induction l with
  | nil => rfl
  | cons c l ih =>
    rw [List.all_cons, Bool.and_eq_true] at h
    have hnone : entityTable.find? (fun e => e.1 = c) = none := by
      rw [List.find?_eq_none]
      intro e he hc
      have hfalse := fst_entityTable e he
      rw [of_decide_eq_true hc, h.1] at hfalse
      cases hfalse
    rw [htmlentities, List.flatMap_cons, ← htmlentities, ih h.2, hnone]
    rfl

theorem unhtmlentities_of_ordinary : unhtmlentities l = l := by
  induction l with
  | nil => rfl
  | cons c l ih =>
    rw [List.all_cons, Bool.and_eq_true] at h
    have hnone : entityTable.find? (fun e => e.2.isPrefixOf (c :: l)) = none := by
      rw [List.find?_eq_none]
      intro e he hc
      have hhead := head_entityTable e he
      obtain ⟨d, t, hd⟩ : ∃ d t, e.2 = d :: t := by
        cases he2 : e.2 with
        | nil => rw [he2] at hhead; cases hhead
        | cons d t => exact ⟨d, t, rfl⟩
      rw [hd, List.head?_cons, Option.some.injEq] at hhead
      rw [hd, List.isPrefixOf_iff_prefix, List.cons_prefix_cons, hhead] at hc
      rw [← hc.1] at h
      exact absurd h.1 (by decide)
    rw [unhtmlentities, untranslate, hnone]
    exact congrArg (c :: ·) (ih h.2)

/-- An ordinary text comes back through an attribute. -/
theorem kept_htmlentities (b : Browser) :
    unhtmlentities (addSlashes (b.value (htmlentities l))) = l := by
  have hall := List.all_eq_true.1 h
  have hkept : addSlashes (b.value l) = l := by
    refine kept_of_plain b (List.all_eq_true.2 fun c hc => ?_) fun c hc => ?_
    · have hord := hall c hc
      simp only [isOrdinary, Bool.and_eq_true] at hord
      exact hord.1.1.1.1
    · have hord := hall c hc
      simp only [isOrdinary, Bool.and_eq_true, decide_eq_true_eq] at hord
      exact ⟨hord.1.1.1.2, hord.2⟩
  rw [htmlentities_of_ordinary h, hkept, unhtmlentities_of_ordinary h]

end Php
