import Mathlib.Data.List.DropRight
import NoSpam.Base.Pattern
import NoSpam.Content.Parser

/-!
# The class of an attachment

The parser looks for the extensions of every class at the end of a file name, and takes the first
class that has one there.  Nothing asks for a dot before the extension, nothing quotes it in the
pattern, and the classes come in the order of a hash.  So the class is that of the extension if no
other class has a pattern that is found at the end of the name, and none that does not compile
(`classified_iff`).
-/

namespace NoSpam.Content

open Text Perl

/-! ## The purpose -/

/-- The text after the last dot. -/
def extension (filename : Bytes) : Option Bytes :=
  if 46 ∈ filename then some (filename.rtakeWhile (· ≠ 46)) else none

/-- The class lists the extension of the name. -/
def FileType.Lists (t : FileType) (filename : Bytes) : Prop :=
  ∃ ext ∈ extension filename, ext ∈ t.exts

/-- The class has an extension that is found at the end of the name. -/
def FileType.FoundIn (t : FileType) (filename : Bytes) : Prop :=
  ∃ ext ∈ t.exts, endsWith ext filename = true

instance (t : FileType) (filename : Bytes) : Decidable (t.FoundIn filename) :=
  inferInstanceAs (Decidable (∃ _ ∈ _, _))

/-- A name gets the class that lists its extension, or the default where none does, and the same one
for every order of the classes. -/
structure Classified (search : Bytes → Option (Bytes → Bool)) (types : List FileType)
    (filename : Bytes) : Prop where
  listed : ∀ t ∈ types, t.Lists filename → ∀ order, order.Perm types →
    getAttachmentTypeWith search filename order = some t.num
  unlisted : (∀ t ∈ types, ¬t.Lists filename) → ∀ order, order.Perm types →
    getAttachmentTypeWith search filename order = some 6
  stable : ∀ order order', order.Perm types → order'.Perm types →
    getAttachmentTypeWith search filename order = getAttachmentTypeWith search filename order'

/-- The number of the classes that list the extension, or the default where none does. -/
def Due (types : List FileType) (filename : Bytes) (num : ℕ) : Prop :=
  (∀ u ∈ types, u.Lists filename → num = u.num) ∧ ((∀ u ∈ types, ¬u.Lists filename) → num = 6)

/-- Every class has an extension that is found at the end of the name and the due number, or none
that is found, and no pattern that does not compile before it; where none is found, the default is
due. -/
def EndsAgree (search : Bytes → Option (Bytes → Bool)) (types : List FileType)
    (filename : Bytes) : Prop :=
  (∀ t ∈ types, t.isFound search filename = some false ∨
    t.isFound search filename = some true ∧ Due types filename t.num) ∧
  ((∀ t ∈ types, t.isFound search filename = some false) → Due types filename 6)

/-! ## The loop -/

section Loop

variable {types order : List FileType} {t u : FileType} {filename : Bytes}

theorem any_endsWith_iff :
    (t.exts.any fun e => endsWith e filename) = true ↔ t.FoundIn filename := List.any_eq_true

/-- The class of a name is the default or one with an extension that is found at its end. -/
theorem getAttachmentType_cases (order : List FileType) (filename : Bytes) :
    (∃ t ∈ order, t.FoundIn filename ∧ getAttachmentType order filename = t.num) ∨
      (∀ t ∈ order, ¬t.FoundIn filename) ∧ getAttachmentType order filename = 6 := by
  rw [getAttachmentType]
  cases hfind : order.find? fun t => t.exts.any fun e => endsWith e filename with
  | some t =>
    have hany := List.find?_some hfind
    exact .inl ⟨t, List.mem_of_find?_eq_some hfind, any_endsWith_iff.1 hany, rfl⟩
  | none =>
    refine .inr ⟨fun t ht hfound => ?_, rfl⟩
    have hany := any_endsWith_iff.2 hfound
    exact List.find?_eq_none.1 hfind t ht hany

/-- What the loop returns is that of the first class that is not passed over. -/
theorem getAttachmentTypeWith_cases (search : Bytes → Option (Bytes → Bool))
    (order : List FileType) (filename : Bytes) :
    (∃ t ∈ order, t.isFound search filename = some true ∧
        getAttachmentTypeWith search filename order = some t.num) ∨
      (∃ t ∈ order, t.isFound search filename = none) ∨
      (∀ t ∈ order, t.isFound search filename = some false) ∧
        getAttachmentTypeWith search filename order = some 6 := by
  induction order with
  | nil => exact .inr (.inr ⟨fun _ ht => absurd ht List.not_mem_nil, rfl⟩)
  | cons t order ih =>
    rw [getAttachmentTypeWith]
    rcases hfound : t.isFound search filename with _ | _ | _
    · exact .inr (.inl ⟨t, List.mem_cons_self, hfound⟩)
    · rcases ih with ⟨u, hu, hmatch, hclass⟩ | ⟨u, hu, hdies⟩ | ⟨hnone, hclass⟩
      · exact .inl ⟨u, List.mem_cons_of_mem t hu, hmatch, hclass⟩
      · exact .inr (.inl ⟨u, List.mem_cons_of_mem t hu, hdies⟩)
      · exact .inr (.inr ⟨List.forall_mem_cons.2 ⟨hfound, hnone⟩, hclass⟩)
    · exact .inl ⟨t, List.mem_cons_self, hfound, rfl⟩

/-- Some order has the class first. -/
theorem exists_perm_cons (ht : t ∈ types) : ∃ rest, (t :: rest).Perm types :=
  ⟨types.erase t, (List.perm_cons_erase ht).symm⟩

/-- The extension of a name is found at its end. -/
theorem FileType.Lists.foundIn (h : t.Lists filename) : t.FoundIn filename := by
  obtain ⟨ext, hext, hmem⟩ := h
  rw [extension] at hext
  split_ifs at hext with hdot
  · obtain rfl := Option.some.inj hext
    obtain ⟨y, hy⟩ := List.rtakeWhile_suffix (· ≠ 46) filename
    exact ⟨_, hmem, endsWith_iff.2 ⟨y, _, .inl hy.symm, Matches.refl _⟩⟩
  · cases hext

end Loop

/-! ## The class -/

/-- What is returned for every order is due. -/
theorem Classified.due {search : Bytes → Option (Bytes → Bool)} {types order : List FileType}
    {filename : Bytes} {num : ℕ} (h : Classified search types filename) (hperm : order.Perm types)
    (hclass : getAttachmentTypeWith search filename order = some num) :
    Due types filename num := by
  refine ⟨fun u hu hlists => ?_, fun hnone => ?_⟩
  · rw [h.listed u hu hlists order hperm] at hclass
    exact (Option.some_inj.1 hclass).symm
  · rw [h.unlisted hnone order hperm] at hclass
    exact (Option.some_inj.1 hclass).symm

/-- Something is returned for every order. -/
theorem Classified.ne_none {search : Bytes → Option (Bytes → Bool)} {types order : List FileType}
    {filename : Bytes} (h : Classified search types filename) (hperm : order.Perm types) :
    getAttachmentTypeWith search filename order ≠ none := by
  by_cases hex : ∃ t ∈ types, t.Lists filename
  · obtain ⟨t, ht, hlists⟩ := hex
    rw [h.listed t ht hlists order hperm]
    exact nofun
  · rw [h.unlisted (fun t ht hlists => hex ⟨t, ht, hlists⟩) order hperm]
    exact nofun

/-- **The class of an attachment**: for every way in which patterns are searched, a name gets the
class of its extension, for every order of the classes, if and only if no pattern fails to compile
and what is found at the end of the name agrees with its extension. -/
theorem classified_iff (search : Bytes → Option (Bytes → Bool)) (types : List FileType)
    (filename : Bytes) :
    Classified search types filename ↔ EndsAgree search types filename := by
  constructor
  · refine fun h => ⟨fun t ht => ?_, fun hnone => ?_⟩
    · obtain ⟨rest, hperm⟩ := exists_perm_cons ht
      rcases hfound : t.isFound search filename with _ | _ | _
      · exact absurd (by rw [getAttachmentTypeWith, hfound]) (h.ne_none hperm)
      · exact .inl rfl
      · exact .inr ⟨rfl, h.due hperm (by rw [getAttachmentTypeWith, hfound])⟩
    · rcases getAttachmentTypeWith_cases search types filename with
        ⟨t, ht, hfound, -⟩ | ⟨t, ht, hdies⟩ | ⟨-, hclass⟩
      · exact absurd (hfound.symm.trans (hnone t ht)) (by decide)
      · exact absurd (hdies.symm.trans (hnone t ht)) (by decide)
      · exact h.due (List.Perm.refl _) hclass
  · rintro ⟨hfound, hdefault⟩
    have hclass : ∀ order, order.Perm types → ∃ num,
        getAttachmentTypeWith search filename order = some num ∧ Due types filename num := by
      intro order hperm
      rcases getAttachmentTypeWith_cases search order filename with
        ⟨t, ht, hmatch, hclass⟩ | ⟨t, ht, hdies⟩ | ⟨hnone, hclass⟩
      · rcases hfound t (hperm.mem_iff.1 ht) with hpassed | ⟨-, hdue⟩
        · exact absurd (hmatch.symm.trans hpassed) (by decide)
        · exact ⟨t.num, hclass, hdue⟩
      · rcases hfound t (hperm.mem_iff.1 ht) with hpassed | ⟨hmatch, -⟩
        · exact absurd (hdies.symm.trans hpassed) (by decide)
        · exact absurd (hdies.symm.trans hmatch) (by decide)
      · exact ⟨6, hclass, hdefault fun t ht => hnone t (hperm.mem_iff.2 ht)⟩
    have hlisted : ∀ t ∈ types, t.Lists filename → ∀ order, order.Perm types →
        getAttachmentTypeWith search filename order = some t.num := by
      intro t ht hlists order hperm
      obtain ⟨num, hnum, hdue⟩ := hclass order hperm
      rw [hnum, hdue.1 t ht hlists]
    have hunlisted : (∀ t ∈ types, ¬t.Lists filename) → ∀ order, order.Perm types →
        getAttachmentTypeWith search filename order = some 6 := by
      intro hnone order hperm
      obtain ⟨num, hnum, hdue⟩ := hclass order hperm
      rw [hnum, hdue.2 hnone]
    refine ⟨hlisted, hunlisted, fun order order' hperm hperm' => ?_⟩
    by_cases hex : ∃ t ∈ types, t.Lists filename
    · obtain ⟨t, ht, hlists⟩ := hex
      rw [hlisted t ht hlists order hperm, hlisted t ht hlists order' hperm']
    · have hnone : ∀ t ∈ types, ¬t.Lists filename := fun t ht hlists => hex ⟨t, ht, hlists⟩
      rw [hunlisted hnone order hperm, hunlisted hnone order' hperm']

/-- Where dots are the only signs in the extensions, every class with an extension that is found at
the end of the name has the due number. -/
theorem endsAgree_iff_of_searchesEnds {search : Bytes → Option (Bytes → Bool)}
    {types : List FileType} (h : SearchesEnds search types) (filename : Bytes) :
    EndsAgree search types filename ↔
      ∀ t ∈ types, t.FoundIn filename → Due types filename t.num := by
  have hfound (t : FileType) (ht : t ∈ types) :
      t.isFound search filename = some (decide (t.FoundIn filename)) := by
    rw [FileType.isFound_eq (h t ht), Option.some_inj, Bool.eq_iff_iff, any_endsWith_iff,
      decide_eq_true_eq]
  constructor
  · rintro ⟨hagree, -⟩ t ht hends
    rcases hagree t ht with hpassed | ⟨-, hdue⟩
    · rw [hfound t ht, decide_eq_true hends] at hpassed
      cases hpassed
    · exact hdue
  · refine fun hagree => ⟨fun t ht => ?_, fun hnone => ⟨fun t ht hlists => ?_, fun _ => rfl⟩⟩
    · rw [hfound t ht]
      by_cases hends : t.FoundIn filename
      · exact .inr ⟨by rw [decide_eq_true hends], hagree t ht hends⟩
      · exact .inl (by rw [decide_eq_false hends])
    · have hpassed := hnone t ht
      rw [hfound t ht, decide_eq_true hlists.foundIn] at hpassed
      cases hpassed

/-- A name without a dot is taken for a program. -/
theorem not_forall_classified :
    ¬∀ (search : Bytes → Option (Bytes → Bool)) (types : List FileType) (filename : Bytes),
      Classified search types filename := by
  intro h
  have hnone : ∀ t ∈ fileTypes, ¬t.Lists (bytes "fooexe") := by
    rintro t - ⟨ext, hext, -⟩
    cases hext
  have hclass := (h searchEnd fileTypes (bytes "fooexe")).unlisted hnone fileTypes
    (List.Perm.refl _)
  rw [getAttachmentTypeWith_eq (searchesEnds_searchEnd _)] at hclass
  exact absurd hclass (by decide)

/-- Two classes can both have an extension that is found at the end of a name. -/
example : getAttachmentType [⟨150, [bytes "z"]⟩, ⟨1, [bytes "gz"]⟩] (bytes "a.gz") = 150 ∧
    getAttachmentType [⟨1, [bytes "gz"]⟩, ⟨150, [bytes "z"]⟩] (bytes "a.gz") = 1 := by decide

/-! ## The built-in classes -/

section Builtin

variable {t u : FileType} {filename : Bytes}

/-- Of two built-in extensions of different classes neither ends the other. -/
theorem eq_of_suffix : ∀ t ∈ fileTypes, ∀ u ∈ fileTypes, ∀ e ∈ t.exts, ∀ e' ∈ u.exts,
    e <:+ e' → t = u := by decide

/-- A built-in extension has neither a dot nor a line end. -/
theorem plain_of_mem_exts : ∀ t ∈ fileTypes, ∀ e ∈ t.exts, 46 ∉ e ∧ 10 ∉ e ∧ e ≠ [] := by decide

/-- A text without dots and line ends that is found at the end of a name ends it, but for a line
end. -/
theorem suffix_chomp_of_endsWith {e : Bytes} (hdot : 46 ∉ e) (hline : 10 ∉ e) (hnil : e ≠ [])
    (h : endsWith e filename = true) : e <:+ chomp filename := by
  obtain ⟨y, w, hname, hw⟩ := endsWith_iff.1 h
  obtain rfl := hw.eq_of_not_mem hdot
  rcases hname with rfl | rfl
  · have hlast : (y ++ e).getLast? ≠ some 10 := by
      rw [List.getLast?_append_of_ne_nil y hnil]
      exact fun hlast => hline (List.mem_of_getLast? hlast)
    rw [chomp, if_neg hlast]
    exact List.suffix_append y e
  · rw [chomp, List.getLast?_concat, if_pos rfl, List.dropLast_concat]
    exact List.suffix_append y e

/-- At most one built-in class has an extension that is found at the end of a name. -/
theorem eq_of_foundIn (ht : t ∈ fileTypes) (hu : u ∈ fileTypes) (h : t.FoundIn filename)
    (h' : u.FoundIn filename) : t = u := by
  obtain ⟨e, he, hends⟩ := h
  obtain ⟨e', he', hends'⟩ := h'
  obtain ⟨hdot, hline, hnil⟩ := plain_of_mem_exts t ht e he
  obtain ⟨hdot', hline', hnil'⟩ := plain_of_mem_exts u hu e' he'
  have hsuffix := suffix_chomp_of_endsWith hdot hline hnil hends
  have hsuffix' := suffix_chomp_of_endsWith hdot' hline' hnil' hends'
  rcases List.suffix_or_suffix_of_suffix hsuffix hsuffix' with hle | hle
  · exact eq_of_suffix t ht u hu e he e' he' hle
  · exact (eq_of_suffix u hu t ht e' he' e he hle).symm

/-- **The built-in classes do not overlap**: a name gets the same class for every order of them. -/
theorem getAttachmentType_perm {order : List FileType} (h : order.Perm fileTypes)
    (filename : Bytes) :
    getAttachmentType order filename = getAttachmentType fileTypes filename := by
  rcases getAttachmentType_cases order filename with ⟨t, ht, hfound, hclass⟩ | ⟨hnone, hclass⟩
  · rcases getAttachmentType_cases fileTypes filename with ⟨u, hu, hfound', hclass'⟩ | ⟨hnone, -⟩
    · rw [hclass, hclass', eq_of_foundIn (h.mem_iff.1 ht) hu hfound hfound']
    · exact absurd hfound (hnone t (h.mem_iff.1 ht))
  · rcases getAttachmentType_cases fileTypes filename with ⟨u, hu, hfound, -⟩ | ⟨-, hclass'⟩
    · exact absurd hfound (hnone u (h.mem_iff.2 hu))
    · rw [hclass, hclass']

/-- A name whose extension a built-in class lists gets that class. -/
theorem getAttachmentType_of_lists (ht : t ∈ fileTypes) (h : t.Lists filename) :
    getAttachmentType fileTypes filename = t.num := by
  rcases getAttachmentType_cases fileTypes filename with ⟨u, hu, hfound, hclass⟩ | ⟨hnone, -⟩
  · rw [hclass, eq_of_foundIn hu ht hfound h.foundIn]
  · exact absurd h.foundIn (hnone t ht)

end Builtin

end NoSpam.Content
