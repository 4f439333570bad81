import NoSpam.Base.Text

/-!
# Lines and columns

A text read line by line (`lines`), and a line read by the positions of its columns.  A column that
holds the separator moves the columns after it: the number of separators before a position
decides whether a reader finds there what the writer has put there (`splitOn_columnText_append`,
`getElem?_splitOn_columnText`).
-/

namespace Text

variable {α : Type*} [DecidableEq α]

/-! ## Lines -/

/-- The lines of a text, each with its terminator. -/
def lines (nl : α) : List α → List (List α)
  | [] => []
  | c :: l =>
      if c = nl then [c] :: lines nl l
      else
        match lines nl l with
        | [] => [[c]]
        | f :: fs => (c :: f) :: fs

theorem flatten_lines (nl : α) (l : List α) : (lines nl l).flatten = l := by
  induction l with
  | nil => rfl
  | cons c l ih =>
    rw [lines]
    split_ifs
    · rw [List.flatten_cons, ih]
      rfl
    · cases hl : lines nl l with
      | nil =>
        rw [hl] at ih
        rw [← ih]
        rfl
      | cons f fs =>
        rw [hl] at ih
        rw [← ih]
        rfl

theorem lines_eq_nil_iff {nl : α} {l : List α} : lines nl l = [] ↔ l = [] := by
  constructor
  · intro h
    rw [← flatten_lines nl l, h, List.flatten_nil]
  · rintro rfl
    rfl

theorem lines_append_cons {nl : α} {l : List α} (h : nl ∉ l) (r : List α) :
    lines nl (l ++ nl :: r) = (l ++ [nl]) :: lines nl r := by
  induction l with
  | nil => simp [lines]
  | cons c l ih =>
    simp only [List.mem_cons, not_or] at h
    rw [List.cons_append, lines, if_neg (Ne.symm h.1), ih h.2]
    rfl

theorem lines_flatMap {nl : α} {ls : List (List α)} (h : ∀ l ∈ ls, nl ∉ l) :
    lines nl (ls.flatMap (· ++ [nl])) = ls.map (· ++ [nl]) := by
  induction ls with
  | nil => rfl
  | cons l ls ih =>
    obtain ⟨hl, hls⟩ := List.forall_mem_cons.1 h
    rw [List.flatMap_cons, List.append_assoc, List.singleton_append, lines_append_cons hl, ih hls,
      List.map_cons]

theorem lines_of_not_mem {nl : α} {l : List α} (h : nl ∉ l) (hne : l ≠ []) : lines nl l = [l] := by
  induction l with
  | nil => exact absurd rfl hne
  | cons c l ih =>
    rw [List.mem_cons, not_or] at h
    rw [lines, if_neg (Ne.symm h.1)]
    cases l with
    | nil => rfl
    | cons d l => rw [ih h.2 (List.cons_ne_nil d l)]

theorem lines_cons_of_ne {nl c : α} (h : c ≠ nl) (l : List α) :
    lines nl (c :: l) = (c :: (lines nl l).headD []) :: (lines nl l).tail := by
  rw [lines, if_neg h]
  cases lines nl l <;> rfl

/-- A terminator is only at the end of a line. -/
theorem not_mem_dropLast_of_mem_lines {nl : α} {l f : List α} (h : f ∈ lines nl l) :
    nl ∉ f.dropLast := by
  induction l generalizing f with
  | nil => cases h
  | cons c l ih =>
    by_cases hc : c = nl
    · rw [lines, if_pos hc] at h
      rcases List.mem_cons.1 h with rfl | h
      · exact List.not_mem_nil
      · exact ih h
    · rw [lines_cons_of_ne hc] at h
      rcases List.mem_cons.1 h with rfl | h
      · cases hl : lines nl l with
        | nil => exact List.not_mem_nil
        | cons g gs =>
          have hg : nl ∉ g.dropLast := ih (hl ▸ List.mem_cons_self)
          cases g with
          | nil => exact List.not_mem_nil
          | cons d g =>
            rw [List.headD_cons, List.dropLast_cons_cons, List.mem_cons, not_or]
            exact ⟨Ne.symm hc, hg⟩
      · exact ih (List.mem_of_mem_tail h)

/-- One more symbol is a line of its own or belongs to the last line. -/
theorem lines_append_singleton (nl c : α) (l : List α) :
    lines nl (l ++ [c]) = lines nl l ++ [[c]] ∨
      ∃ fs f, lines nl l = fs ++ [f] ∧ lines nl (l ++ [c]) = fs ++ [f ++ [c]] := by
  induction l with
  | nil => exact Or.inl (by simp [lines])
  | cons d l ih =>
    by_cases hd : d = nl
    · rw [List.cons_append, lines, if_pos hd, lines, if_pos hd]
      rcases ih with ih | ⟨fs, f, hl, ih⟩
      · exact Or.inl (by rw [ih, List.cons_append])
      · exact Or.inr ⟨[d] :: fs, f, by rw [hl, List.cons_append], by rw [ih, List.cons_append]⟩
    · rw [List.cons_append, lines_cons_of_ne hd, lines_cons_of_ne hd]
      rcases ih with ih | ⟨fs, f, hl, ih⟩
      · rw [ih]
        cases hl : lines nl l with
        | nil => exact Or.inr ⟨[], [d], rfl, rfl⟩
        | cons f fs => exact Or.inl rfl
      · rw [ih, hl]
        cases fs with
        | nil => exact Or.inr ⟨[], d :: f, rfl, rfl⟩
        | cons g fs => exact Or.inr ⟨(d :: g) :: fs, f, rfl, rfl⟩

theorem length_lines_append (nl : α) (l r : List α) :
    (lines nl (l ++ nl :: r)).length = l.count nl + 1 + (lines nl r).length := by
  induction l with
  | nil => simp [lines, Nat.add_comm]
  | cons c l ih =>
    rw [List.cons_append, lines]
    split_ifs with hc
    · rw [List.length_cons, ih, hc, List.count_cons_self]
      omega
    · rw [List.count_cons_of_ne hc, ← ih]
      cases hl : lines nl (l ++ nl :: r) with
      | nil =>
        rw [hl, List.length_nil] at ih
        omega
      | cons f fs => rfl

/-! ## Columns -/

theorem length_splitOn (sep : α) (l : List α) : (l.splitOn sep).length = l.count sep + 1 := by
  induction l with
  | nil => simp
  | cons c l ih =>
    rw [List.splitOn_cons_eq_if_modifyHead]
    by_cases hc : c = sep
    · rw [if_pos (by simp [hc]), List.length_cons, ih, hc, List.count_cons_self]
    · rw [if_neg (by simpa using hc), List.length_modifyHead, ih, List.count_cons_of_ne hc]

/-- The columns of a line, each followed by the separator. -/
def columnText (sep : α) (fs : List (List α)) : List α := fs.flatMap (· ++ [sep])

omit [DecidableEq α] in
theorem columnText_cons (sep : α) (f : List α) (fs : List (List α)) :
    columnText sep (f :: fs) = f ++ sep :: columnText sep fs := by
  rw [columnText, List.flatMap_cons, List.append_assoc]
  rfl

theorem lines_columnText_append {nl : α} {ls : List (List α)} (h : ∀ l ∈ ls, nl ∉ l) (r : List α) :
    lines nl (columnText nl ls ++ r) = ls.map (· ++ [nl]) ++ lines nl r := by
  induction ls with
  | nil => rfl
  | cons l ls ih =>
    obtain ⟨hl, hls⟩ := List.forall_mem_cons.1 h
    rw [columnText_cons, List.append_assoc, List.cons_append, lines_append_cons hl, ih hls,
      List.map_cons, List.cons_append]

omit [DecidableEq α] in
theorem columnText_append (sep : α) (fs gs : List (List α)) :
    columnText sep (fs ++ gs) = columnText sep fs ++ columnText sep gs := List.flatMap_append

omit [DecidableEq α] in
theorem joinFields_append_sep (sep : α) {fs : List (List α)} (h : fs ≠ []) :
    joinFields sep fs ++ [sep] = columnText sep fs := by
  obtain ⟨f, fs, rfl⟩ := List.exists_cons_of_ne_nil h
  rw [joinFields_cons]
  induction fs generalizing f with
  | nil => simp [columnText]
  | cons g fs ih =>
    rw [List.flatMap_cons, List.append_assoc, List.cons_append, List.cons_append,
      columnText_cons, ← ih g (List.cons_ne_nil _ _), List.append_assoc]

omit [DecidableEq α] in
theorem joinFields_concat (sep : α) (fs : List (List α)) (f : List α) :
    joinFields sep (fs ++ [f]) = columnText sep fs ++ f := by
  have h : joinFields sep (fs ++ [f]) ++ [sep] = columnText sep (fs ++ [f]) :=
    joinFields_append_sep sep (by simp)
  rw [columnText_append] at h
  refine List.append_cancel_right (?_ : _ ++ [sep] = _ ++ [sep])
  rw [h, List.append_assoc]
  exact congrArg _ (List.append_nil _)

/-- Without the separators at its end, a text is its columns joined, without the empty ones at
their end. -/
theorem rdropWhile_columnText {sep : α} {fs : List (List α)} (h : ∀ f ∈ fs, sep ∉ f) :
    (columnText sep fs).rdropWhile (· = sep) = joinFields sep (fs.rdropWhile (·.isEmpty)) := by
  induction fs using List.reverseRecOn with
  | nil => rfl
  | append_singleton fs f ih =>
    obtain ⟨hfs, hf⟩ := List.forall_mem_append.1 h
    have hsep : sep ∉ f := hf f List.mem_cons_self
    rw [columnText_append, columnText, columnText, List.flatMap_singleton, ← List.append_assoc,
      List.rdropWhile_concat_pos _ _ _ (by simp)]
    by_cases hnil : f = []
    · rw [hnil, List.append_nil, List.rdropWhile_concat_pos _ _ _ rfl]
      exact ih hfs
    · have hlast : ((columnText sep fs ++ f).rdropWhile (· = sep)) = columnText sep fs ++ f := by
        rw [List.rdropWhile_eq_self_iff]
        intro hne
        rw [List.getLast_append_of_ne_nil hne hnil]
        have hmem := List.getLast_mem hnil
        simp only [decide_eq_true_eq]
        rintro rfl
        exact hsep hmem
      rw [List.rdropWhile_concat_neg _ _ _ (by simpa using hnil), joinFields_concat]
      exact hlast

/-- The text without the separators at its end tells the columns. -/
theorem rdropWhile_columnText_injective {sep : α} {fs gs : List (List α)}
    (hf : ∀ f ∈ fs, sep ∉ f) (hg : ∀ g ∈ gs, sep ∉ g)
    (h : (columnText sep fs).rdropWhile (· = sep) = (columnText sep gs).rdropWhile (· = sep)) :
    fs.rdropWhile (·.isEmpty) = gs.rdropWhile (·.isEmpty) := by
  have hread : ∀ {fs : List (List α)}, (∀ f ∈ fs, sep ∉ f) →
      fields sep (joinFields sep (fs.rdropWhile (·.isEmpty))) = fs.rdropWhile (·.isEmpty) := by
    intro fs hfs
    rw [fields_joinFields_iff]
    refine ⟨fun f hf => hfs f ((List.rdropWhile_prefix _ _).subset hf), fun hne => ?_⟩
    simpa using List.rdropWhile_last_not _ _ hne
  rw [rdropWhile_columnText hf, rdropWhile_columnText hg] at h
  rw [← hread hf, h, hread hg]

theorem count_columnText_cons (sep : α) (f : List α) (fs : List (List α)) :
    (columnText sep (f :: fs)).count sep = f.count sep + (columnText sep fs).count sep + 1 := by
  rw [columnText_cons, List.count_append, List.count_cons_self, Nat.add_assoc]

theorem length_le_count_columnText (sep : α) (fs : List (List α)) :
    fs.length ≤ (columnText sep fs).count sep := by
  induction fs with
  | nil => exact Nat.zero_le _
  | cons f fs ih =>
    rw [count_columnText_cons, List.length_cons]
    omega

/-- The columns hold no separator when there are not more separators than columns. -/
theorem not_mem_of_count_columnText_le {sep : α} {fs : List (List α)}
    (h : (columnText sep fs).count sep ≤ fs.length) : ∀ f ∈ fs, sep ∉ f := by
  induction fs with
  | nil => exact fun f hf => absurd hf List.not_mem_nil
  | cons f fs ih =>
    rw [count_columnText_cons, List.length_cons] at h
    have hle := length_le_count_columnText sep fs
    have hf : sep ∉ f := List.count_eq_zero.1 (by omega)
    exact List.forall_mem_cons.2 ⟨hf, ih (by omega)⟩

theorem splitOn_columnText_append {sep : α} {fs : List (List α)} (h : ∀ f ∈ fs, sep ∉ f)
    (r : List α) : (columnText sep fs ++ r).splitOn sep = fs ++ r.splitOn sep := by
  induction fs with
  | nil => rfl
  | cons f fs ih =>
    rw [columnText_cons, List.append_assoc, List.cons_append,
      List.splitOn_append_cons_self_of_not_mem (h f List.mem_cons_self),
      ih fun g hg => h g (List.mem_cons_of_mem f hg), List.cons_append]

/-- After a column with a separator in it, what a reader finds at the position of the next column
does not depend on what stands there. -/
theorem getElem?_splitOn_columnText {sep : α} {fs : List (List α)} (h : ¬ ∀ f ∈ fs, sep ∉ f)
    (r r' : List α) :
    ((columnText sep fs ++ r).splitOn sep)[fs.length]? =
      ((columnText sep fs ++ r').splitOn sep)[fs.length]? := by
  have hcount : fs.length < (columnText sep fs).count sep :=
    Nat.lt_of_not_le fun hle => h (not_mem_of_count_columnText_le hle)
  rcases List.eq_nil_or_concat' fs with rfl | ⟨fs, f, rfl⟩
  · exact absurd hcount (by simp [columnText])
  · have htext : columnText sep (fs ++ [f]) = (columnText sep fs ++ f) ++ [sep] := by
      simp [columnText]
    have hlong : (fs ++ [f]).length < ((columnText sep fs ++ f).splitOn sep).length := by
      rw [htext, List.count_append, List.count_singleton_self] at hcount
      rwa [length_splitOn]
    have hfixed : ∀ t, ((columnText sep (fs ++ [f]) ++ t).splitOn sep)[(fs ++ [f]).length]? =
        ((columnText sep fs ++ f).splitOn sep)[(fs ++ [f]).length]? := by
      intro t
      rw [htext, List.append_assoc (columnText sep fs ++ f), List.singleton_append,
        List.splitOn_append_cons_self, List.getElem?_append_left hlong]
    rw [hfixed r, hfixed r']

/-- Fields that are dropped at the end are empty. -/
theorem getD_fields (sep : α) (l : List α) (i : ℕ) :
    (fields sep l).getD i [] = (l.splitOn sep).getD i [] := by
  have hsplit : fields sep l ++ (l.splitOn sep).rtakeWhile (·.isEmpty) = l.splitOn sep :=
    List.rdropWhile_append_rtakeWhile
  rw [List.getD_eq_getElem?_getD, List.getD_eq_getElem?_getD, ← hsplit]
  by_cases hi : i < (fields sep l).length
  · rw [List.getElem?_append_left hi]
  · rw [List.getElem?_append_right (by omega), List.getElem?_eq_none (by omega)]
    cases hget : ((l.splitOn sep).rtakeWhile (·.isEmpty))[i - (fields sep l).length]? with
    | none => rfl
    | some f =>
      have hempty : f = [] := by
        simpa using List.mem_rtakeWhile_imp (List.mem_of_getElem? hget)
      rw [hempty]
      rfl

/-- A text cut short ends in its first column, or behind it. -/
theorem splitOn_take_append {sep : α} {x : List α} (hx : sep ∉ x) (y : List α) (n : ℕ) :
    ((x ++ sep :: y).take n).splitOn sep =
      x.take n :: if n ≤ x.length then [] else (y.take (n - x.length - 1)).splitOn sep := by
  rw [List.take_append]
  split_ifs with hn
  · rw [Nat.sub_eq_zero_of_le hn, List.take_zero, List.append_nil,
      List.splitOn_eq_singleton fun h => hx (List.mem_of_mem_take h)]
  · obtain ⟨k, hk⟩ : ∃ k, n - x.length = k + 1 := ⟨n - x.length - 1, by omega⟩
    rw [hk, List.take_succ_cons, Nat.add_sub_cancel, List.take_of_length_le (by omega),
      List.splitOn_append_cons_self_of_not_mem hx]

end Text
