import Mathlib.Data.List.Basic
import Mathlib.Data.List.DropRight
import Mathlib.Data.List.Infix

/-!
# Delimited text

Lists over an arbitrary alphabet, read the way line and field protocols read them: up to a
terminator (`readLine`), up to a separator (`cutAt`), into the fields of a joined list
(`fields`, `joinFields`), and by the last component of a path (`lastField`).  Perl drops the empty
fields at the end of a split; `fields_joinFields_iff` says for which lists that loses nothing.
`Bytes` is the alphabet of files, pipes and sockets.
-/

namespace Text

/-- Byte strings. -/
abbrev Bytes := List UInt8

/-- Equality of texts is decided by comparing them. -/
instance : LawfulBEq Bytes := inferInstance

/-- The bytes of a literal. -/
def bytes (s : String) : Bytes := s.toList.flatMap String.utf8EncodeChar

section Cutting

variable {α : Type*} [DecidableEq α]

/-- The text up to and with the first terminator, and what follows it. -/
def readLine (nl : α) : List α → List α × List α
  | [] => ([], [])
  | c :: l => if c = nl then ([c], l) else (c :: (readLine nl l).1, (readLine nl l).2)

theorem readLine_append {nl : α} {l : List α} (h : nl ∉ l) (r : List α) :
    readLine nl (l ++ nl :: r) = (l ++ [nl], r) := by
  induction l with
  | nil => simp [readLine]
  | cons c l ih =>
    simp only [List.mem_cons, not_or] at h
    simp [readLine, Ne.symm h.1, ih h.2]

theorem readLine_of_not_mem {nl : α} {l : List α} (h : nl ∉ l) : readLine nl l = (l, []) := by
  induction l with
  | nil => rfl
  | cons c l ih =>
    rw [List.mem_cons, not_or] at h
    rw [readLine, if_neg (Ne.symm h.1), ih h.2]

/-- What follows the text does not matter while a line ends in it. -/
theorem readLine_append_of_mem {nl : α} {l : List α} (h : nl ∈ l) (r : List α) :
    readLine nl (l ++ r) = ((readLine nl l).1, (readLine nl l).2 ++ r) := by
  induction l with
  | nil => exact absurd h List.not_mem_nil
  | cons c l ih =>
    rw [List.cons_append, readLine, readLine]
    split_ifs with hc
    · rfl
    · rcases List.mem_cons.1 h with rfl | h
      · exact absurd rfl hc
      · rw [ih h]

theorem readLine_append_of_not_mem {nl : α} {l : List α} (h : nl ∉ l) (r : List α) :
    readLine nl (l ++ r) = (l ++ (readLine nl r).1, (readLine nl r).2) := by
  induction l with
  | nil => rfl
  | cons c l ih =>
    rw [List.mem_cons, not_or] at h
    rw [List.cons_append, readLine, if_neg (Ne.symm h.1), ih h.2, List.cons_append]

theorem readLine_fst_append_snd (nl : α) (l : List α) :
    (readLine nl l).1 ++ (readLine nl l).2 = l := by
  induction l with
  | nil => rfl
  | cons c l ih =>
    rw [readLine]
    split_ifs
    · rfl
    · rw [List.cons_append, ih]

/-- One line holds one terminator. -/
theorem count_readLine_snd (nl : α) (l : List α) :
    (readLine nl l).2.count nl = l.count nl - 1 := by
  induction l with
  | nil => rfl
  | cons c l ih =>
    rw [readLine]
    split_ifs with hc
    · rw [hc, List.count_cons_self, Nat.add_sub_cancel]
    · rw [List.count_cons_of_ne hc, ih]

/-- The text after so many lines. -/
def dropLines (nl : α) : ℕ → List α → List α
  | 0, l => l
  | n + 1, l => dropLines nl n (readLine nl l).2

theorem dropLines_suffix (nl : α) (n : ℕ) (l : List α) : dropLines nl n l <:+ l := by
  induction n generalizing l with
  | zero => exact List.suffix_rfl
  | succ n ih => exact (ih _).trans ⟨_, readLine_fst_append_snd nl l⟩

theorem count_dropLines (nl : α) (n : ℕ) (l : List α) :
    (dropLines nl n l).count nl = l.count nl - n := by
  induction n generalizing l with
  | zero => rfl
  | succ n ih =>
    rw [dropLines, ih, count_readLine_snd]
    omega

theorem dropLines_append {nl : α} {n : ℕ} {l : List α} (h : n ≤ l.count nl) (r : List α) :
    dropLines nl n (l ++ r) = dropLines nl n l ++ r := by
  induction n generalizing l with
  | zero => rfl
  | succ n ih =>
    have hmem : nl ∈ l := List.count_pos_iff.1 (by omega)
    have hcount := count_readLine_snd nl l
    rw [dropLines, dropLines, readLine_append_of_mem hmem, ih (by omega)]

omit [DecidableEq α] in
theorem takeWhile_append_cons {p : α → Bool} {l : List α} {c : α} (h : ∀ x ∈ l, p x = true)
    (hc : p c = false) (r : List α) :
    (l ++ c :: r).takeWhile p = l ∧ (l ++ c :: r).dropWhile p = c :: r := by
  rw [List.takeWhile_append_of_pos h, List.dropWhile_append_of_pos h]
  simp [hc]

omit [DecidableEq α] in
/-- A run does not go on where the next symbol stops it. -/
theorem takeWhile_append_of_head {p : α → Bool} {w : List α} (h : ∀ c ∈ w.head?, p c = false)
    (l : List α) : (l ++ w).takeWhile p = l.takeWhile p := by
  have hw : w.takeWhile p = [] := by
    cases w with
    | nil => rfl
    | cons c w => rw [List.takeWhile_cons_of_neg (by simp [h c rfl])]
  rw [List.takeWhile_append, hw, List.append_nil]
  split_ifs with hlength
  · exact ((List.takeWhile_prefix p).eq_of_length hlength).symm
  · rfl

/-- The text before the first separator and, when there is one, what follows it. -/
def cutAt (sep : α) : List α → List α × Option (List α)
  | [] => ([], none)
  | c :: l => if c = sep then ([], some l) else (c :: (cutAt sep l).1, (cutAt sep l).2)

theorem cutAt_append {sep : α} {l : List α} (h : sep ∉ l) (r : List α) :
    cutAt sep (l ++ sep :: r) = (l, some r) := by
  induction l with
  | nil => simp [cutAt]
  | cons c l ih =>
    simp only [List.mem_cons, not_or] at h
    simp [cutAt, Ne.symm h.1, ih h.2]

theorem cutAt_of_not_mem {sep : α} {l : List α} (h : sep ∉ l) : cutAt sep l = (l, none) := by
  induction l with
  | nil => rfl
  | cons c l ih =>
    simp only [List.mem_cons, not_or] at h
    simp [cutAt, Ne.symm h.1, ih h.2]

theorem cutAt_fst_append (sep : α) (l : List α) :
    (cutAt sep l).1 ++ sep :: (cutAt sep l).2.getD [] = if sep ∈ l then l else l ++ [sep] := by
  induction l with
  | nil => rfl
  | cons c l ih =>
    rw [cutAt]
    by_cases hc : c = sep
    · subst hc
      simp
    · rw [if_neg hc, List.cons_append, ih]
      by_cases hm : sep ∈ l <;> simp [hm, Ne.symm hc]

/-- Replace every occurrence of the pair `a b` by `c`, from the left. -/
def replacePair (a b c : α) : List α → List α
  | [] => []
  | [x] => [x]
  | x :: y :: l => if x = a ∧ y = b then c :: replacePair a b c l
      else x :: replacePair a b c (y :: l)

theorem replacePair_cons_of_ne {a b c x : α} (h : x ≠ a) (l : List α) :
    replacePair a b c (x :: l) = x :: replacePair a b c l := by
  cases l with
  | nil => rfl
  | cons y l => simp [replacePair, h]

theorem replacePair_append {a b c : α} {l : List α} (h : a ∉ l) (r : List α) :
    replacePair a b c (l ++ r) = l ++ replacePair a b c r := by
  induction l with
  | nil => rfl
  | cons x l ih =>
    simp only [List.mem_cons, not_or] at h
    rw [List.cons_append, replacePair_cons_of_ne (Ne.symm h.1), ih h.2, List.cons_append]

theorem replacePair_pair (a b c : α) (r : List α) :
    replacePair a b c (a :: b :: r) = c :: replacePair a b c r := by
  simp [replacePair]

end Cutting

/-! ## Fields -/

section Fields

variable {α : Type*}

/-- The fields joined by a separator. -/
def joinFields (sep : α) (fs : List (List α)) : List α := [sep].intercalate fs

theorem joinFields_cons (sep : α) (f : List α) (fs : List (List α)) :
    joinFields sep (f :: fs) = f ++ fs.flatMap (sep :: ·) := by
  induction fs generalizing f with
  | nil => simp [joinFields]
  | cons g fs ih =>
    have h := ih g
    simp only [joinFields] at h ⊢
    rw [List.intercalate_cons_cons, h]
    simp

theorem mem_of_mem_joinFields {sep c : α} {fs : List (List α)} (h : c ∈ joinFields sep fs) :
    c = sep ∨ ∃ f ∈ fs, c ∈ f := by
  cases fs with
  | nil => exact absurd h List.not_mem_nil
  | cons f fs =>
    rw [joinFields_cons, List.mem_append, List.mem_flatMap] at h
    rcases h with h | ⟨g, hg, h⟩
    · exact Or.inr ⟨f, List.mem_cons_self, h⟩
    · rcases List.mem_cons.1 h with rfl | h
      · exact Or.inl rfl
      · exact Or.inr ⟨g, List.mem_cons_of_mem f hg, h⟩

variable [DecidableEq α]

/-- The fields between separators, without the empty ones at the end. -/
def fields (sep : α) (l : List α) : List (List α) :=
  (l.splitOn sep).rdropWhile (·.isEmpty)

theorem not_mem_of_mem_splitOn {sep : α} {l f : List α} (h : f ∈ l.splitOn sep) : sep ∉ f := by
  induction l generalizing f with
  | nil =>
    rw [List.splitOn_nil, List.mem_singleton] at h
    simp [h]
  | cons c l ih =>
    rw [List.splitOn_cons_eq_if_modifyHead] at h
    split_ifs at h with hc
    · rcases List.mem_cons.1 h with rfl | h
      · simp
      · exact ih h
    · have hne : l.splitOn sep ≠ [] := List.splitOn_ne_nil _ _
      obtain ⟨g, gs, hgs⟩ := List.exists_cons_of_ne_nil hne
      rw [hgs, List.modifyHead_cons] at h
      rcases List.mem_cons.1 h with rfl | h
      · have hg := ih (f := g) (by simp [hgs])
        simp only [List.mem_cons, not_or]
        exact ⟨fun e => hc (by simp [e]), hg⟩
      · exact ih (by simp [hgs, h])

theorem mem_of_mem_splitOn {sep c : α} {l f : List α} (h : f ∈ l.splitOn sep) (hc : c ∈ f) :
    c ∈ l := by
  induction l generalizing f with
  | nil =>
    rw [List.splitOn_nil, List.mem_singleton] at h
    rwa [h] at hc
  | cons x l ih =>
    rw [List.splitOn_cons_eq_if_modifyHead] at h
    split_ifs at h with hx
    · rcases List.mem_cons.1 h with rfl | h
      · exact absurd hc List.not_mem_nil
      · exact List.mem_cons_of_mem x (ih h hc)
    · obtain ⟨g, gs, hgs⟩ := List.exists_cons_of_ne_nil (List.splitOn_ne_nil sep l)
      rw [hgs, List.modifyHead_cons] at h
      rcases List.mem_cons.1 h with rfl | h
      · rcases List.mem_cons.1 hc with rfl | hc
        · exact List.mem_cons_self
        · exact List.mem_cons_of_mem x (ih (f := g) (by simp [hgs]) hc)
      · exact List.mem_cons_of_mem x (ih (by simp [hgs, h]) hc)

theorem mem_of_mem_fields {sep c : α} {l f : List α} (h : f ∈ fields sep l) (hc : c ∈ f) : c ∈ l :=
  mem_of_mem_splitOn ((List.rdropWhile_prefix _ _).subset h) hc

theorem getLast_fields_ne_nil {sep : α} {l : List α} (h : fields sep l ≠ []) :
    (fields sep l).getLast h ≠ [] := by
  have hlast : ¬ ((fields sep l).getLast h).isEmpty = true := List.rdropWhile_last_not _ _ h
  simpa using hlast

theorem not_mem_of_mem_fields {sep : α} {l f : List α} (h : f ∈ fields sep l) : sep ∉ f :=
  not_mem_of_mem_splitOn ((List.rdropWhile_prefix _ _).subset h)

/-- A text without separators is one field, unless it is empty. -/
theorem fields_of_not_mem {sep : α} {l : List α} (h : sep ∉ l) :
    fields sep l = if l = [] then [] else [l] := by
  rw [fields, List.splitOn_eq_singleton h]
  split_ifs with hl
  · rw [hl]
    rfl
  · rw [List.rdropWhile_eq_self_iff]
    simpa using hl

theorem fields_joinFields {sep : α} {fs : List (List α)} (hne : fs ≠ [])
    (h : ∀ f ∈ fs, sep ∉ f) : fields sep (joinFields sep fs) = fs.rdropWhile (·.isEmpty) := by
  rw [fields, joinFields, List.splitOn_intercalate sep h hne]

/-- Splitting gives a joined list back exactly when no field holds the separator and the last
field is not empty. -/
theorem fields_joinFields_iff (sep : α) (fs : List (List α)) :
    fields sep (joinFields sep fs) = fs ↔
      (∀ f ∈ fs, sep ∉ f) ∧ ∀ hne : fs ≠ [], fs.getLast hne ≠ [] := by
  constructor
  · intro h
    refine ⟨fun f hf => not_mem_of_mem_fields (l := joinFields sep fs) (by rwa [h]), ?_⟩
    have hi : fs.rdropWhile (·.isEmpty) = fs := by
      rw [← h]
      exact List.rdropWhile_idempotent _ _
    intro hne
    simpa using List.rdropWhile_eq_self_iff.1 hi hne
  · rintro ⟨hsep, hlast⟩
    rcases eq_or_ne fs [] with rfl | hne
    · rfl
    · rw [fields_joinFields hne hsep, List.rdropWhile_eq_self_iff]
      intro hl
      simpa using hlast hl

end Fields

/-! ## Paths -/

section Paths

variable {α : Type*} [DecidableEq α]

/-- The part of the text after the last separator. -/
def lastField (sep : α) (l : List α) : List α := l.rtakeWhile (· ≠ sep)

theorem lastField_append {sep : α} {f : List α} (h : sep ∉ f) (l : List α) :
    lastField sep (l ++ sep :: f) = f := by
  have hall : ∀ x ∈ f.reverse, decide (x ≠ sep) = true := by
    intro x hx
    simp only [List.mem_reverse] at hx
    simp only [decide_eq_true_eq]
    rintro rfl
    exact h hx
  rw [lastField, List.rtakeWhile, List.reverse_append, List.reverse_cons, List.append_assoc,
    List.takeWhile_append_of_pos hall]
  simp

theorem sep_not_mem_lastField (sep : α) (l : List α) : sep ∉ lastField sep l := by
  intro h
  simpa using List.mem_rtakeWhile_imp h

end Paths

end Text
