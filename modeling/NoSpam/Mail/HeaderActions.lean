import Mathlib.Data.List.ReduceOption
import NoSpam.Mail.WriteQueue

/-!
# Header actions and folded fields

`write_queue` carries out a header action on a line, which it finds with a pattern made of the name.
A field of a header may go on over several lines, its name may be written in any case, it may have
symbols that mean something else in a pattern, and no blank has to follow the colon.
`whole_field_iff` says for which headers the action falls on the whole field all the same.
-/

namespace NoSpam.WriteQueue

open Text Perl

/-! ## Fields -/

/-- The name of a field: symbols that are printed, but no blank and no colon. -/
def IsFieldName (name : Bytes) : Prop := name ≠ [] ∧ ∀ c ∈ name, 32 < c ∧ c < 127 ∧ c ≠ 58

instance (name : Bytes) : Decidable (IsFieldName name) :=
  have : Decidable (∀ c ∈ name, 32 < c ∧ c < 127 ∧ c ≠ 58) := List.decidableBAll _ name
  inferInstanceAs (Decidable (_ ∧ _))

/-- A field of a header: its name, the text behind the colon, and the lines on which it goes on.
Each is without its line feed. -/
structure Field where
  name : Bytes
  text : Bytes
  folds : List Bytes
  isFieldName : IsFieldName name
  text_line : 10 ∉ text
  folds_line : ∀ f ∈ folds, 10 ∉ f ∧ (f.head? = some 32 ∨ f.head? = some 9)

namespace Field

/-- The first line of a field. -/
def first (f : Field) : Bytes := f.name ++ 58 :: (f.text ++ [10])

/-- The lines of a field. -/
def lines (f : Field) : List Bytes := f.first :: f.folds.map (· ++ [10])

/-- A field has a name in any case. -/
def HasName (name : Bytes) (f : Field) : Prop := lc f.name = lc name

instance (name : Bytes) : DecidablePred (HasName name) :=
  fun f => inferInstanceAs (Decidable (lc f.name = lc name))

end Field

/-- A message with such a header; `rest` is empty or starts with a blank line. -/
def messageOf (fields : List Field) (rest : Bytes) : Bytes :=
  (fields.flatMap Field.lines).flatten ++ rest

/-- What the loop makes of the lines: those of the header with which it goes on after the header
action, the parameter in the block, and the lines from the blank one on. -/
structure Kept where
  header : List Bytes
  pf_param : Bytes
  body : List Bytes

/-- The loop, without what it prints. -/
def keep (has : Bytes → Bool) : State → List Bytes → Kept
  | s, [] => ⟨[], s.pf_param, []⟩
  | s, line :: rest =>
      match edit has s line with
      | (_, none, s) => keep has s rest
      | (_, some line, s) =>
          if isBlank line then ⟨[], s.pf_param, line :: rest⟩
          else { keep has s rest with header := line :: (keep has s rest).header }

/-- What `write_queue` makes of a message, if its pattern compiles. -/
def kept (search : Bytes → Option (Bytes → Bool)) (a : Aka) (message : Bytes) : Option Kept :=
  let content := a.engine .content
  (finds a search message).map fun has =>
    keep has ⟨content.desc, headerActionOf content.action⟩ (lines 10 message)

/-- The lines with the first field of a name replaced. -/
def replaceField (name : Bytes) (unit : List Bytes) : List Field → List Bytes
  | [] => []
  | f :: fs =>
      if f.HasName name then unit ++ fs.flatMap Field.lines
      else f.lines ++ replaceField name unit fs

/-- The header action falls on a whole field: the first of its name is deleted, or replaced by the
new header, and nothing else is changed. -/
def WholeField (search : Bytes → Option (Bytes → Bool)) (a : Aka) (act : HeaderAction)
    (name : Bytes) (fields : List Field) (rest : Bytes) : Prop :=
  ∃ k, kept search a (messageOf fields rest) = some k ∧
    k.header = replaceField name (renewed act (a.engine .content).desc).toList fields ∧
      k.body = lines 10 rest

/-- Of all lines up to the blank one the search finds the one line of the first field of the name
first, or none if there is no such field.  A field that is the new header already may be missed. -/
def FindsField (has : Bytes → Bool) (unit : Option Bytes) (name : Bytes) (fields : List Field)
    (blank : List Bytes) : Prop :=
  let found := (fields.flatMap Field.lines ++ blank).find? has
  match fields.find? fun f => f.HasName name with
  | none => found = none
  | some f => f.folds = [] ∧ (found = some f.first ∨ found = none ∧ unit = some f.first)

/-! ## Replacing a line -/

section Lines

variable {α : Type*} {p : α → Bool} {x : α} {l unit : List α}

/-- A list with the first of its elements that have a property replaced. -/
def replaceFirst (p : α → Bool) (unit : List α) : List α → List α
  | [] => []
  | x :: l => if p x then unit ++ l else x :: replaceFirst p unit l

theorem replaceFirst_append (h : ∀ x ∈ l, p x = false) (r : List α) :
    replaceFirst p unit (l ++ r) = l ++ replaceFirst p unit r := by
  induction l with
  | nil => rfl
  | cons x l ih =>
    obtain ⟨hx, hl⟩ := List.forall_mem_cons.1 h
    rw [List.cons_append, replaceFirst, hx, ih hl, List.cons_append]
    rfl

theorem replaceFirst_of_find?_eq_none (h : l.find? p = none) : replaceFirst p unit l = l := by
  have hall : ∀ x ∈ l, p x = false := fun x hx => by simpa using List.find?_eq_none.1 h x hx
  have happend : replaceFirst p unit (l ++ []) = l ++ replaceFirst p unit [] :=
    replaceFirst_append hall []
  rwa [List.append_nil, replaceFirst, List.append_nil] at happend

/-- The first element of the property is replaced, and no other one. -/
theorem exists_replaceFirst (h : l.find? p = some x) : ∃ l₁ l₂, l = l₁ ++ x :: l₂ ∧
    ∀ r, replaceFirst p unit (l ++ r) = l₁ ++ unit ++ l₂ ++ r := by
  obtain ⟨hx, l₁, l₂, rfl, hl₁⟩ := List.find?_eq_some_iff_append.1 h
  refine ⟨l₁, l₂, rfl, fun r => ?_⟩
  rw [List.append_assoc, replaceFirst_append fun y hy => by simpa using hl₁ y hy, List.cons_append,
    replaceFirst, if_pos hx, List.append_assoc, List.append_assoc]

theorem length_le_replaceFirst : l.length ≤ (replaceFirst p unit l).length + 1 := by
  induction l with
  | nil => exact Nat.zero_le _
  | cons x l ih =>
    rw [replaceFirst]
    split_ifs
    · rw [List.length_append, List.length_cons]
      omega
    · rw [List.length_cons, List.length_cons]
      omega

/-- A list is not the one without its first element of a kind behind an element of another kind. -/
theorem of_cons_replaceFirst_nil (h : x :: replaceFirst p [] l = l) : p x = true := by
  induction l generalizing x with
  | nil => cases h
  | cons y l ih =>
    rw [replaceFirst] at h
    split_ifs at h with hy
    · rwa [(List.cons.inj h).1]
    · exact absurd (ih (List.cons.inj h).2) hy

/-- A list in which an element that is found is replaced by one that is not is another list. -/
theorem replaceFirst_singleton_eq_self (hx : p x = false) :
    replaceFirst p [x] l = l ↔ l.find? p = none := by
  refine ⟨fun h => ?_, replaceFirst_of_find?_eq_none⟩
  cases hfind : l.find? p with
  | none => rfl
  | some y =>
    obtain ⟨l₁, l₂, hl, hreplace⟩ := @exists_replaceFirst _ p y l [x] hfind
    have hsame := hreplace []
    rw [List.append_nil, List.append_nil, h, hl, List.append_assoc, List.append_cancel_left_eq,
      List.singleton_append] at hsame
    rw [← (List.cons.inj hsame).1, List.find?_some hfind] at hx
    cases hx

theorem length_replaceFirst_singleton : (replaceFirst p [x] l).length = l.length := by
  cases hfind : l.find? p with
  | none => rw [replaceFirst_of_find?_eq_none hfind]
  | some y =>
    obtain ⟨l₁, l₂, hl, hreplace⟩ := @exists_replaceFirst _ p y l [x] hfind
    have hsame := hreplace []
    rw [List.append_nil, List.append_nil] at hsame
    rw [hsame, hl]
    simp

/-- A list that is pushed on by one element at its front has this element at its end. -/
theorem eq_of_concat_eq_cons {y : α} (h : l ++ [y] = x :: l) : y = x := by
  induction l generalizing x with
  | nil => exact List.singleton_inj.1 h
  | cons z l ih =>
    obtain ⟨rfl, htail⟩ := List.cons.inj h
    exact ih htail

end Lines

/-! ## The lines of the fields -/

section Fields

variable {name : Bytes} {f : Field} {fields : List Field} {rest : Bytes}

theorem Field.line_of_mem (f : Field) {l : Bytes} (h : l ∈ f.lines) :
    ∃ t, l = t ++ [10] ∧ 10 ∉ t := by
  rcases List.mem_cons.1 h with rfl | h
  · refine ⟨f.name ++ 58 :: f.text, by rw [Field.first, List.append_assoc, List.cons_append], ?_⟩
    intro hmem
    rcases List.mem_append.1 hmem with hmem | hmem
    · exact absurd (f.isFieldName.2 10 hmem).1 (by decide)
    · rcases List.mem_cons.1 hmem with hmem | hmem
      · cases hmem
      · exact f.text_line hmem
  · obtain ⟨t, ht, rfl⟩ := List.mem_map.1 h
    exact ⟨t, rfl, (f.folds_line t ht).1⟩

/-- A line of a field is not blank: it starts with a symbol of the name or with white space. -/
theorem Field.isBlank_of_mem (f : Field) {l : Bytes} (h : l ∈ f.lines) : isBlank l = false := by
  by_contra hblank
  rw [Bool.not_eq_false] at hblank
  have hhead := head?_of_isBlank hblank
  rcases List.mem_cons.1 h with rfl | h
  · obtain ⟨c, n, hname⟩ := List.exists_cons_of_ne_nil f.isFieldName.1
    have hc := (f.isFieldName.2 c (by simp [hname])).1
    rw [Field.first, hname, List.cons_append, List.head?_cons, Option.some_inj,
      Option.some_inj] at hhead
    rcases hhead with rfl | rfl
    · exact absurd hc (by decide)
    · exact absurd hc (by decide)
  · obtain ⟨t, ht, rfl⟩ := List.mem_map.1 h
    have hspace := (f.folds_line t ht).2
    cases t with
    | nil => rcases hspace with hspace | hspace <;> cases hspace
    | cons c t =>
      rw [List.cons_append, List.head?_cons, Option.some_inj, Option.some_inj] at hhead
      rw [List.head?_cons, Option.some_inj, Option.some_inj] at hspace
      rcases hhead with rfl | rfl
      · exact absurd hspace (by decide)
      · exact absurd hspace (by decide)

/-- The lines of such a message are those of its fields and those that follow. -/
theorem lines_messageOf :
    lines 10 (messageOf fields rest) = fields.flatMap Field.lines ++ lines 10 rest := by
  have hlines : ∀ ls : List Bytes, (∀ l ∈ ls, ∃ t, l = t ++ [10] ∧ 10 ∉ t) →
      lines 10 (ls.flatten ++ rest) = ls ++ lines 10 rest := by
    intro ls hls
    induction ls with
    | nil => rfl
    | cons l ls ih =>
      obtain ⟨⟨t, rfl, ht⟩, hrest⟩ := List.forall_mem_cons.1 hls
      rw [List.flatten_cons, List.append_assoc, List.append_assoc, List.singleton_append,
        lines_append_cons ht, ih hrest, List.cons_append]
  refine hlines _ fun l hl => ?_
  obtain ⟨f, -, hl⟩ := List.mem_flatMap.1 hl
  exact f.line_of_mem hl

/-- A line of a field that starts with a name and a colon is its first line, and the name is that
of the field. -/
theorem Field.name_of_prefix (hname : IsFieldName name) (f : Field) {l : Bytes} (h : l ∈ f.lines)
    (hpre : name ++ [58] <+: l) : f.name = name := by
  have hcolon : ∀ n : Bytes, (∀ c ∈ n, c ≠ 58) → ∀ r, (n ++ 58 :: r).takeWhile (· ≠ 58) = n :=
    fun n hn r => (takeWhile_append_cons (fun c hc => decide_eq_true (hn c hc))
      (decide_eq_false (not_not.2 rfl)) r).1
  obtain ⟨r, rfl⟩ := hpre
  rcases List.mem_cons.1 h with heq | h
  · have htake := congrArg (List.takeWhile (· ≠ 58)) heq
    rw [List.append_assoc, List.singleton_append, Field.first,
      hcolon name fun c hc => (hname.2 c hc).2.2,
      hcolon f.name fun c hc => (f.isFieldName.2 c hc).2.2] at htake
    exact htake.symm
  · obtain ⟨t, ht, heq⟩ := List.mem_map.1 h
    obtain ⟨c, n, rfl⟩ := List.exists_cons_of_ne_nil hname.1
    have hc := (hname.2 c List.mem_cons_self).1
    have hspace := (f.folds_line t ht).2
    cases t with
    | nil => rcases hspace with hspace | hspace <;> cases hspace
    | cons d t =>
      rw [List.head?_cons, Option.some_inj, Option.some_inj] at hspace
      rw [List.cons_append, List.cons_append, List.cons_append] at heq
      rw [← (List.cons.inj heq).1] at hc
      rcases hspace with rfl | rfl
      · exact absurd hc (by decide)
      · exact absurd hc (by decide)

/-- The first line of a field of a name is no line of a field of another name. -/
theorem Field.hasName_of_first_mem {g : Field} (hg : g.HasName name) (h : g.first ∈ f.lines) :
    f.HasName name := by
  have hsame : f.name = g.name :=
    f.name_of_prefix g.isFieldName h ⟨g.text ++ [10], by rw [Field.first, List.append_assoc]; rfl⟩
  rw [Field.HasName, hsame]
  exact hg

/-- If a line behind the first line of a field is deleted, the first line stays. -/
theorem Field.first_append_ne {has : Bytes → Bool} (hkey : has f.first = false) (ls : List Bytes) :
    f.first :: replaceFirst has [] (f.folds.map (· ++ [10]) ++ ls) ≠ ls := by
  intro h
  have hlength := congrArg List.length h
  have hle := @length_le_replaceFirst _ has (f.folds.map (· ++ [10]) ++ ls) []
  rw [List.length_cons] at hlength
  rw [List.length_append] at hle
  have hfolds : f.folds.map (· ++ [10]) = [] := List.eq_nil_of_length_eq_zero (by omega)
  rw [hfolds, List.nil_append] at h
  rw [of_cons_replaceFirst_nil h] at hkey
  cases hkey

theorem replaceField_of_find?_eq_none {unit : List Bytes}
    (h : fields.find? (fun f => f.HasName name) = none) :
    replaceField name unit fields = fields.flatMap Field.lines := by
  induction fields with
  | nil => rfl
  | cons f fields ih =>
    obtain ⟨hf, hfields⟩ := List.forall_mem_cons.1 (List.find?_eq_none.1 h)
    rw [replaceField, if_neg (by simpa using hf), ih (List.find?_eq_none.2 hfields),
      List.flatMap_cons]

/-- What is replaced is the first field of the name. -/
theorem exists_replaceField {g : Field} (h : fields.find? (fun f => f.HasName name) = some g) :
    ∃ l₁ l₂, fields.flatMap Field.lines = l₁ ++ (g.lines ++ l₂) ∧
      ∀ unit, replaceField name unit fields = l₁ ++ (unit ++ l₂) := by
  induction fields with
  | nil => cases h
  | cons f fields ih =>
    rw [List.find?_cons] at h
    by_cases hf : f.HasName name
    · rw [decide_eq_true hf] at h
      obtain rfl := Option.some_inj.1 h
      exact ⟨[], fields.flatMap Field.lines, rfl, fun unit => by rw [replaceField, if_pos hf]; rfl⟩
    · rw [decide_eq_false hf] at h
      obtain ⟨l₁, l₂, hlines, hreplace⟩ := ih h
      refine ⟨f.lines ++ l₁, l₂, ?_, fun unit => ?_⟩
      · rw [List.flatMap_cons, hlines, List.append_assoc]
      · rw [replaceField, if_neg hf, hreplace, List.append_assoc]

section Replace

variable {has : Bytes → Bool} {unit : Option Bytes}

/-- The search finds a line of a field of another name. -/
theorem replaceFirst_lines_ne (hname : IsFieldName name)
    (hunit : ∀ l ∈ unit, name ++ [58] <+: l) (hf : ¬f.HasName name) {x : Bytes}
    (hx : f.lines.find? has = some x) :
    replaceFirst has unit.toList (f.lines ++ fields.flatMap Field.lines) ≠
      f.lines ++ replaceField name unit.toList fields := by
  obtain ⟨l₁, l₂, hlines, hreplace⟩ := @exists_replaceFirst _ has x f.lines unit.toList hx
  intro h
  rw [hreplace, hlines] at h
  cases unit with
  | some l =>
    rw [Option.toList_some, List.append_assoc, List.append_assoc, List.append_assoc,
      List.append_cancel_left_eq, List.singleton_append, List.cons_append] at h
    have hmem : l ∈ f.lines := by
      rw [hlines, (List.cons.inj h).1]
      simp
    exact hf (congrArg lc (f.name_of_prefix hname hmem (hunit l rfl)))
  | none =>
    simp only [Option.toList_none, List.append_nil] at h
    rw [List.append_assoc, List.append_assoc, List.append_cancel_left_eq, List.cons_append] at h
    have hlength := congrArg List.length h
    rw [List.length_cons, List.length_append, List.length_append] at hlength
    cases hg : fields.find? fun f => f.HasName name with
    | none =>
      rw [replaceField_of_find?_eq_none hg] at hlength
      omega
    | some g =>
      obtain ⟨r₁, r₂, hfields, hfield⟩ := exists_replaceField hg
      simp only [hfields, hfield, List.nil_append, List.length_append, Field.lines,
        List.length_cons, List.length_map] at hlength
      have hfolds : g.folds = [] := List.eq_nil_of_length_eq_zero (by omega)
      have hrotated : (l₂ ++ r₁) ++ [g.first] ++ r₂ = x :: (l₂ ++ r₁) ++ r₂ := by
        rw [hfields, hfield, Field.lines, hfolds, List.map_nil] at h
        simpa using h
      have hfirst := eq_of_concat_eq_cons (List.append_cancel_right hrotated)
      have hgname : g.HasName name := by simpa using List.find?_some hg
      exact hf (Field.hasName_of_first_mem hgname (hfirst ▸ List.mem_of_find?_eq_some hx))

/-- Replacing the first line that is found replaces the first field of the name exactly if the line
is found that the field stands on. -/
theorem replaceFirst_eq_replaceField_iff (hname : IsFieldName name)
    (hunit : ∀ l ∈ unit, name ++ [58] <+: l) :
    replaceFirst has unit.toList (fields.flatMap Field.lines) =
      replaceField name unit.toList fields ↔ FindsField has unit name fields [] := by
  unfold FindsField
  rw [List.append_nil]
  induction fields with
  | nil => simp [replaceFirst, replaceField]
  | cons f fields ih =>
    rw [List.find?_cons, replaceField, List.flatMap_cons]
    by_cases hf : f.HasName name
    · rw [decide_eq_true hf, if_pos hf, Field.lines, List.cons_append, replaceFirst,
        List.find?_cons]
      cases hkey : has f.first with
      | true =>
        simp
      | false =>
        have hnot : ∀ ls : List Bytes, ls.find? has ≠ some f.first := fun ls hfind => by
          rw [List.find?_some hfind] at hkey
          cases hkey
        simp only [Bool.false_eq_true, if_false, hnot, false_or]
        cases unit with
        | none => simpa using Field.first_append_ne hkey (fields.flatMap Field.lines)
        | some l =>
          rw [Option.toList_some, List.singleton_append, List.cons.injEq, Option.some_inj]
          constructor
          · rintro ⟨rfl, hrest⟩
            have hlength := congrArg List.length hrest
            rw [length_replaceFirst_singleton, List.length_append, List.length_map] at hlength
            have hfolds : f.folds = [] := List.eq_nil_of_length_eq_zero (by omega)
            rw [hfolds, List.map_nil, List.nil_append] at hrest ⊢
            exact ⟨rfl, (replaceFirst_singleton_eq_self hkey).1 hrest, rfl⟩
          · rintro ⟨hfolds, hnone, rfl⟩
            refine ⟨rfl, ?_⟩
            rw [hfolds, List.map_nil, List.nil_append] at hnone ⊢
            exact replaceFirst_of_find?_eq_none hnone
    · rw [decide_eq_false hf, if_neg hf, List.find?_append]
      cases hx : f.lines.find? has with
      | none =>
        rw [replaceFirst_append fun l hl => by simpa using List.find?_eq_none.1 hx l hl,
          List.append_cancel_left_eq, Option.none_or]
        exact ih
      | some x =>
        refine iff_of_false (replaceFirst_lines_ne hname hunit hf hx) ?_
        have hmem := List.mem_of_find?_eq_some hx
        cases hg : fields.find? fun f => f.HasName name with
        | none => simp
        | some g =>
          have hgname : g.HasName name := by simpa using List.find?_some hg
          simp only [Option.some_or, Option.some_inj, reduceCtorEq, false_and, or_false, not_and]
          rintro - rfl
          exact hf (Field.hasName_of_first_mem hgname hmem)

/-- The blank line is not to be found if no line of the fields is. -/
theorem findsField_iff (hrest : ∀ l ∈ (lines 10 rest).head?, isBlank l = true) :
    (FindsField has unit name fields [] ∧
        ((fields.flatMap Field.lines).find? has = none →
          ∀ l ∈ (lines 10 rest).head?, has l = false)) ↔
      FindsField has unit name fields ((lines 10 rest).take 1) := by
  unfold FindsField
  rw [List.append_nil, List.find?_append]
  cases hfind : (fields.flatMap Field.lines).find? has with
  | some x => simp
  | none =>
    rw [Option.none_or]
    cases hl : lines 10 rest with
    | nil => simp
    | cons l ls =>
      have hblank := hrest l (by rw [hl]; rfl)
      cases hkey : has l with
      | false => simp [hkey]
      | true =>
        refine iff_of_false (fun h => ?_) ?_
        · have hfalse := h.2 rfl l rfl
          rw [hkey] at hfalse
          cases hfalse
        · cases fields.find? fun f => f.HasName name with
          | none => simp [hkey]
          | some f =>
            have hfirst : l ≠ f.first := by
              rintro rfl
              rw [f.isBlank_of_mem List.mem_cons_self] at hblank
              cases hblank
            simp [hkey, hfirst]

end Replace

end Fields

/-! ## The loop -/

section Keep

variable {has : Bytes → Bool} {s : State} {act : HeaderAction} {pf_param : Bytes} {ls : List Bytes}

/-- What the loop prints. -/
theorem writeHeader_eq_keep (c : Setting) (a : Aka) (hs : s.todo ≠ some .addhdr) :
    writeHeader c a has s ls = ((keep has s ls).header.map (tagged c a)).flatten ++
      if (keep has s ls).body = [] then []
      else block c a (keep has s ls).pf_param ++ (keep has s ls).body.flatten := by
  induction ls generalizing s with
  | nil => rfl
  | cons line ls ih =>
    have hkeep : ∀ s' : State, s'.todo ≠ some .addhdr → ∀ l : Bytes,
        (if isBlank (tagged c a l) then block c a s'.pf_param ++ tagged c a l ++ ls.flatten
          else tagged c a l ++ writeHeader c a has s' ls) =
        let k : Kept := if isBlank l then ⟨[], s'.pf_param, l :: ls⟩
          else { keep has s' ls with header := l :: (keep has s' ls).header }
        (k.header.map (tagged c a)).flatten ++
          if k.body = [] then [] else block c a k.pf_param ++ k.body.flatten := by
      intro s' hs' l
      rw [isBlank_tagged, ih hs']
      cases hblank : isBlank l with
      | true =>
        have htagged : tagged c a l = l := by rw [tagged, subjectText_of_isBlank hblank]
        simp [htagged]
      | false => simp
    obtain ⟨pf_param, todo⟩ := s
    cases todo with
    | none =>
      rw [writeHeader, keep, edit]
      simpa using hkeep ⟨pf_param, none⟩ hs line
    | some act =>
      have hact : act ≠ .addhdr := fun h => hs (congrArg some h)
      rw [writeHeader, keep, edit_eq hact]
      cases has line with
      | false => simpa using hkeep ⟨pf_param, some act⟩ hs line
      | true =>
        cases act with
        | addhdr => exact absurd rfl hact
        | delhdr =>
          simpa [renewed] using @ih ⟨pf_param, none⟩ (Option.some_ne_none _).symm
        | chghdr =>
          simpa [renewed] using hkeep ⟨chomp pf_param, none⟩ (Option.some_ne_none _).symm _

theorem keep_done (pf_param : Bytes) (ls : List Bytes) : keep has ⟨pf_param, none⟩ ls =
    ⟨ls.takeWhile (!isBlank ·), pf_param, ls.dropWhile (!isBlank ·)⟩ := by
  induction ls with
  | nil => rfl
  | cons line ls ih =>
    rw [keep, List.takeWhile_cons, List.dropWhile_cons]
    simp only [edit, ih]
    cases isBlank line <;> rfl

/-- The loop passes over lines that are neither blank nor found. -/
theorem keep_append (hact : act ≠ .addhdr) {l₁ : List Bytes}
    (hl₁ : ∀ l ∈ l₁, isBlank l = false ∧ has l = false) (ls : List Bytes) :
    keep has ⟨pf_param, some act⟩ (l₁ ++ ls) =
      { keep has ⟨pf_param, some act⟩ ls with
        header := l₁ ++ (keep has ⟨pf_param, some act⟩ ls).header } := by
  induction l₁ with
  | nil => rfl
  | cons l l₁ ih =>
    obtain ⟨⟨hblank, hkey⟩, hrest⟩ := List.forall_mem_cons.1 hl₁
    rw [List.cons_append, keep, edit_eq hact, hkey]
    simp [hblank, ih hrest]

/-- The lines from the blank one on are the last of all. -/
theorem length_body_keep_le (s : State) (ls : List Bytes) :
    (keep has s ls).body.length ≤ ls.length := by
  induction ls generalizing s with
  | nil => exact Nat.le_refl 0
  | cons line ls ih =>
    rw [keep]
    obtain ⟨-, edited, s'⟩ := edit has s line
    have hrest := ih s'
    cases edited with
    | none => exact hrest.trans (Nat.le_succ _)
    | some l =>
      dsimp only
      split_ifs
      · exact Nat.le_refl _
      · exact hrest.trans (Nat.le_succ _)

/-- After the action the header ends at the first blank line. -/
theorem keep_done_append (pf_param : Bytes) {l l₂ : List Bytes} (hl : ∀ x ∈ l, isBlank x = false)
    (hl₂ : ∀ x ∈ l₂.head?, isBlank x = true) :
    keep has ⟨pf_param, none⟩ (l ++ l₂) = ⟨l, pf_param, l₂⟩ := by
  have hall : ∀ x ∈ l, (!isBlank x) = true := fun x hx => by rw [hl x hx]; rfl
  rw [keep_done, List.takeWhile_append_of_pos hall, List.dropWhile_append_of_pos hall]
  cases l₂ with
  | nil => simp
  | cons y l₂ => simp [hl₂ y rfl]

/-- A line that is taken for the field does not end the header. -/
theorem body_keep_ne (hact : act ≠ .addhdr) (hnew : ∀ l ∈ renewed act pf_param, isBlank l = false)
    {l : Bytes} (hkey : has l = true) (l₂ : List Bytes) :
    (keep has ⟨pf_param, some act⟩ (l :: l₂)).body ≠ l :: l₂ := by
  have hshort : ∀ pf_param, (keep has ⟨pf_param, none⟩ l₂).body ≠ l :: l₂ := by
    intro pf_param hsame
    have hle := @length_body_keep_le has ⟨pf_param, none⟩ l₂
    rw [hsame, List.length_cons] at hle
    omega
  rw [keep, edit_eq hact, if_pos hkey]
  intro hbody
  cases hrenewed : renewed act pf_param with
  | none =>
    rw [hrenewed] at hbody
    exact hshort _ hbody
  | some u =>
    rw [hrenewed] at hbody
    simp only [hnew u hrenewed, Bool.false_eq_true, if_false] at hbody
    exact hshort _ hbody

/-- The loop over the lines of a header and those behind it: they are kept as they should be exactly
if the right line is replaced, and the blank line is not found. -/
theorem keep_eq_iff (hact : act ≠ .addhdr) {l₁ l₂ : List Bytes}
    (hl₁ : ∀ l ∈ l₁, isBlank l = false) (hl₂ : ∀ l ∈ l₂.head?, isBlank l = true)
    (hnew : ∀ l ∈ renewed act pf_param, isBlank l = false) (unit : List Bytes) :
    (keep has ⟨pf_param, some act⟩ (l₁ ++ l₂)).header = unit ∧
        (keep has ⟨pf_param, some act⟩ (l₁ ++ l₂)).body = l₂ ↔
      replaceFirst has (renewed act pf_param).toList l₁ = unit ∧
        (l₁.find? has = none → ∀ l ∈ l₂.head?, has l = false) := by
  cases hfind : l₁.find? has with
  | none =>
    have hnone : ∀ l ∈ l₁, isBlank l = false ∧ has l = false := fun l hl =>
      ⟨hl₁ l hl, by simpa using List.find?_eq_none.1 hfind l hl⟩
    rw [keep_append hact hnone, replaceFirst_of_find?_eq_none hfind]
    cases l₂ with
    | nil => simp [keep]
    | cons l l₂ =>
      cases hkey : has l with
      | false =>
        rw [keep, edit_eq hact]
        simp [hkey, hl₂ l rfl]
      | true =>
        refine iff_of_false (fun h => body_keep_ne hact hnew hkey l₂ h.2) fun h => ?_
        have hfalse := h.2 rfl l rfl
        rw [hkey] at hfalse
        cases hfalse
  | some x =>
    obtain ⟨hx, a, b, rfl, ha⟩ := List.find?_eq_some_iff_append.1 hfind
    have hbefore : ∀ l ∈ a, isBlank l = false ∧ has l = false := fun l hl =>
      ⟨hl₁ l (List.mem_append_left _ hl), by simpa using ha l hl⟩
    have hafter : ∀ l ∈ b, isBlank l = false := fun l hl =>
      hl₁ l (List.mem_append_right a (List.mem_cons_of_mem x hl))
    rw [List.append_assoc, keep_append hact hbefore, List.cons_append, keep, edit_eq hact,
      if_pos hx, replaceFirst_append fun l hl => (hbefore l hl).2, replaceFirst, if_pos hx]
    cases hrenewed : renewed act pf_param with
    | none => simp [keep_done_append _ hafter hl₂]
    | some u => simp [keep_done_append _ hafter hl₂, hnew u hrenewed]

end Keep

/-! ## The action on a field -/

section Action

variable {name value rest : Bytes} {fields : List Field} {a : Aka} {act : HeaderAction}
  {search : Bytes → Option (Bytes → Bool)}

/-- The new header starts with its name, and is not blank. -/
theorem renewed_of_isFieldName (hname : IsFieldName name) (act : HeaderAction) {l : Bytes}
    (h : l ∈ renewed act (name ++ 58 :: 32 :: value)) :
    name ++ [58] <+: l ∧ isBlank l = false := by
  have hpre : name ++ [58] <+: chomp (name ++ 58 :: 32 :: value) ++ [10] :=
    List.IsPrefix.trans ⟨[32], by simp⟩ (key_renewed name value)
  have hl : l = chomp (name ++ 58 :: 32 :: value) ++ [10] := by
    cases act with
    | delhdr => cases h
    | addhdr => exact (Option.some_inj.1 h).symm
    | chghdr => exact (Option.some_inj.1 h).symm
  rw [hl]
  refine ⟨hpre, ?_⟩
  obtain ⟨c, n, rfl⟩ := List.exists_cons_of_ne_nil hname.1
  have hc := (hname.2 c List.mem_cons_self).1
  obtain ⟨r, hr⟩ := hpre
  by_contra hblank
  rw [Bool.not_eq_false, ← hr] at hblank
  rcases head?_of_isBlank hblank with hhead | hhead
  · rw [List.cons_append, List.cons_append, List.head?_cons, Option.some_inj] at hhead
    rw [hhead] at hc
    exact absurd hc (by decide)
  · rw [List.cons_append, List.cons_append, List.head?_cons, Option.some_inj] at hhead
    rw [hhead] at hc
    exact absurd hc (by decide)

/-- What `write_queue` sends is what is kept, with the subject marked. -/
theorem writeQueueWith_eq (c : Setting)
    (hact : headerActionOf (a.engine .content).action = some act) (hne : act ≠ .addhdr)
    (message : Bytes) :
    writeQueueWith c a search message = (kept search a message).map fun k =>
      received c a ++ (k.header.map (tagged c a)).flatten ++
        if k.body = [] then [] else block c a k.pf_param ++ k.body.flatten := by
  rw [writeQueueWith, kept, Option.map_map]
  congr 1
  funext has
  rw [writeHeader_eq_keep c a fun h => hne (Option.some_inj.1 (hact.symm.trans h))]
  simp

/-- **When a header action falls on a whole field**: for every list of fields, every name and every
way in which the pattern made of it is searched, `delhdr` removes the first field of the name with
its folds, and `chghdr` puts the new field in its place, exactly if the pattern compiles and finds
the one line of that field. -/
theorem whole_field_iff (search : Bytes → Option (Bytes → Bool)) (hname : IsFieldName name)
    (hact : headerActionOf (a.engine .content).action = some act) (hne : act ≠ .addhdr)
    (hdesc : (a.engine .content).desc = name ++ 58 :: 32 :: value)
    (hrest : ∀ l ∈ (lines 10 rest).head?, isBlank l = true) :
    (∀ c, writeQueueWith c a search (messageOf fields rest) =
      (kept search a (messageOf fields rest)).map fun k =>
        received c a ++ (k.header.map (tagged c a)).flatten ++
          if k.body = [] then [] else block c a k.pf_param ++ k.body.flatten) ∧
      (WholeField search a act name fields rest ↔
        ∃ has, finds a search (messageOf fields rest) = some has ∧
          FindsField has (renewed act (a.engine .content).desc) name fields
            ((lines 10 rest).take 1)) := by
  refine ⟨fun c => writeQueueWith_eq c hact hne _, ?_⟩
  have hnew := fun l => @renewed_of_isFieldName name value hname act l
  have hblank : ∀ l ∈ fields.flatMap Field.lines, isBlank l = false := fun l hl => by
    obtain ⟨f, -, hl⟩ := List.mem_flatMap.1 hl
    exact f.isBlank_of_mem hl
  unfold WholeField kept
  dsimp only
  rw [hact, hdesc, lines_messageOf]
  simp only [Option.map_eq_some_iff]
  have hone : ∀ has, (keep has ⟨name ++ 58 :: 32 :: value, some act⟩
      (fields.flatMap Field.lines ++ lines 10 rest)).header =
        replaceField name (renewed act (name ++ 58 :: 32 :: value)).toList fields ∧
      (keep has ⟨name ++ 58 :: 32 :: value, some act⟩
        (fields.flatMap Field.lines ++ lines 10 rest)).body = lines 10 rest ↔
      FindsField has (renewed act (name ++ 58 :: 32 :: value)) name fields
        ((lines 10 rest).take 1) := by
    intro has
    rw [keep_eq_iff hne hblank hrest fun l hl => (hnew l hl).2,
      replaceFirst_eq_replaceField_iff hname fun l hl => (hnew l hl).1]
    exact findsField_iff hrest
  constructor
  · rintro ⟨k, ⟨has, hfinds, rfl⟩, hk⟩
    exact ⟨has, hfinds, (hone has).1 hk⟩
  · rintro ⟨has, hfinds, hk⟩
    exact ⟨_, ⟨has, hfinds, rfl⟩, (hone has).2 hk⟩

/-- The field To. -/
def toField : Field where
  name := bytes "To"
  text := bytes " bob@b.cn"
  folds := [bytes "\tann@a.cn"]
  isFieldName := by decide +kernel
  text_line := by decide
  folds_line := by decide +kernel

/-- The field X-Mailer on one line. -/
def mailerField : Field where
  name := bytes "X-Mailer"
  text := bytes " m"
  folds := []
  isFieldName := by decide +kernel
  text_line := by decide
  folds_line := nofun

/-- A pattern whose only symbol with another meaning is the dot. -/
def dotSearch (key : Bytes) : Option (Bytes → Bool) := some (hasKey key)

/-- The header of `changedMailer` is put in the place of a plain field, before another one of the
name. -/
theorem whole_field_changedMailer : WholeField dotSearch changedMailer .chghdr (bytes "X-Mailer")
    [toField, mailerField, mailerField] (bytes "\r\nX-Mailer: m\n") := by
  have hfind : [toField, mailerField, mailerField].find?
      (fun f => f.HasName (bytes "X-Mailer")) = some mailerField := by rfl
  exact (@whole_field_iff (bytes "X-Mailer") (bytes "none") (bytes "\r\nX-Mailer: m\n")
    [toField, mailerField, mailerField] changedMailer .chghdr dotSearch (by decide +kernel) rfl
    nofun rfl (by decide +kernel)).2.2 ⟨hasKey (bytes "X-Mailer"), rfl, by
      rw [FindsField, hfind]
      decide +kernel⟩

/-- The field X-Note on two lines. -/
def foldedNote : Field where
  name := bytes "X-Note"
  text := bytes " a"
  folds := [bytes " b"]
  isFieldName := by decide +kernel
  text_line := by decide
  folds_line := by decide +kernel

/-- A mail whose header X-Note is to be deleted. -/
def deletedNote : Aka where
  returnpath := bytes "ann@example.com"
  engine _ := ran (bytes "0") (bytes "X-Note: a") (bytes "12") true

/-- The second line of the deleted field stays, and goes on the field before it. -/
theorem fold_left_behind :
    (kept dotSearch deletedNote (messageOf [mailerField, foldedNote] (bytes "\n"))).map
        Kept.header = some [bytes "X-Mailer: m\n", bytes " b\n"] ∧
      ¬WholeField dotSearch deletedNote .delhdr (bytes "X-Note") [mailerField, foldedNote]
        (bytes "\n") := by
  have hkept : (kept dotSearch deletedNote (messageOf [mailerField, foldedNote] (bytes "\n"))).map
      Kept.header = some [bytes "X-Mailer: m\n", bytes " b\n"] := by decide +kernel
  refine ⟨hkept, ?_⟩
  rintro ⟨k, hk, hheader, -⟩
  rw [hk, Option.map_some, Option.some_inj, hheader] at hkept
  exact absurd hkept (by decide +kernel)

end Action

end NoSpam.WriteQueue
