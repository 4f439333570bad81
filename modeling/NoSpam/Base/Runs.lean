import NoSpam.Base.Scalar

/-!
# Runs of digits with separators between

`findRuns` looks for the first runs of digits with a separator between each two.  Fields that are
joined with the separator are found from the left: the first gives the digits at its end, the
following ones have to be digits throughout, and the last gives the digits at its beginning
(`findRuns_append_cons`, `runsAt_append_cons`).  What stands around the fields and has neither
digits nor separators does not matter.
-/

namespace Perl

open Text

section Runs

variable {sep : UInt8} {a b l r : Bytes}

theorem runsAt_cons_of_neg {c : UInt8} (hc : isDigit c = false) (n : ℕ) (l : Bytes) :
    runsAt sep n (c :: l) = none := by
  have htake : (c :: l).takeWhile isDigit = [] := List.takeWhile_cons_of_neg (by simp [hc])
  cases n with
  | zero => rw [runsAt, if_pos htake]
  | succ n => rw [runsAt, if_pos htake]

theorem runsAt_ne_nil (sep : UInt8) (n : ℕ) (l : Bytes) : runsAt sep n l ≠ some [] := by
  cases n with
  | zero =>
    rw [runsAt]
    split_ifs <;> simp
  | succ n =>
    rw [runsAt]
    split_ifs
    · simp
    · split
      · split_ifs <;> simp
      · simp

/-- Two runs or more have a separator between them. -/
theorem sep_mem_of_runsAt {n : ℕ} {runs : List Bytes} (h : runsAt sep (n + 1) l = some runs) :
    sep ∈ joinFields sep runs := by
  rw [runsAt] at h
  split_ifs at h
  split at h
  · split_ifs at h
    obtain ⟨rest, hrest, rfl⟩ := Option.map_eq_some_iff.1 h
    have hne : rest ≠ [] := by
      rintro rfl
      exact runsAt_ne_nil sep n _ hrest
    obtain ⟨f, fs, rfl⟩ := List.exists_cons_of_ne_nil hne
    rw [joinFields_cons, List.flatMap_cons]
    simp
  · cases h

theorem findRuns_append_left (ha : ∀ c ∈ a, isDigit c = false) (n : ℕ) (l : Bytes) :
    findRuns sep n (a ++ l) = findRuns sep n l := by
  induction a with
  | nil => rfl
  | cons c a ih =>
    rw [List.forall_mem_cons] at ha
    rw [List.cons_append, findRuns, runsAt_cons_of_neg ha.1, Option.none_or, ih ha.2]

theorem takeWhile_append_right (hb : ∀ c ∈ b, isDigit c = false) (l : Bytes) :
    (l ++ b).takeWhile isDigit = l.takeWhile isDigit ∧
      (l ++ b).dropWhile isDigit = l.dropWhile isDigit ++ b := by
  have hhead : b.takeWhile isDigit = [] ∧ b.dropWhile isDigit = b := by
    cases b with
    | nil => exact ⟨rfl, rfl⟩
    | cons c b =>
      have hc : ¬isDigit c = true := by simp [hb c List.mem_cons_self]
      exact ⟨List.takeWhile_cons_of_neg hc, List.dropWhile_cons_of_neg hc⟩
  induction l with
  | nil => exact hhead
  | cons c l ih =>
    by_cases hc : isDigit c = true
    · rw [List.cons_append, List.takeWhile_cons_of_pos hc, List.takeWhile_cons_of_pos hc,
        List.dropWhile_cons_of_pos hc, List.dropWhile_cons_of_pos hc, ih.1, ih.2]
      exact ⟨rfl, rfl⟩
    · rw [List.cons_append, List.takeWhile_cons_of_neg hc, List.takeWhile_cons_of_neg hc,
        List.dropWhile_cons_of_neg hc, List.dropWhile_cons_of_neg hc]
      exact ⟨rfl, rfl⟩

theorem runsAt_append_right (hb : ∀ c ∈ b, isDigit c = false ∧ c ≠ sep) (n : ℕ) (l : Bytes) :
    runsAt sep n (l ++ b) = runsAt sep n l := by
  have hdigit : ∀ c ∈ b, isDigit c = false := fun c hc => (hb c hc).1
  induction n generalizing l with
  | zero => rw [runsAt, runsAt, (takeWhile_append_right hdigit l).1]
  | succ n ih =>
    rw [runsAt, runsAt, (takeWhile_append_right hdigit l).1, (takeWhile_append_right hdigit l).2]
    cases l.dropWhile isDigit with
    | nil =>
      cases b with
      | nil => rfl
      | cons c b => simp only [List.nil_append, if_neg (hb c List.mem_cons_self).2]
    | cons c r => simp only [List.cons_append, ih]

theorem findRuns_append_right (hb : ∀ c ∈ b, isDigit c = false ∧ c ≠ sep) (n : ℕ) (l : Bytes) :
    findRuns sep n (l ++ b) = findRuns sep n l := by
  induction l with
  | nil =>
    have hnone : findRuns sep n (b ++ []) = findRuns sep n [] :=
      findRuns_append_left (fun c hc => (hb c hc).1) n []
    rwa [List.append_nil] at hnone
  | cons c l ih =>
    rw [List.cons_append, findRuns, findRuns, ih, ← List.cons_append, runsAt_append_right hb]

theorem runsAt_of_not_mem (h : sep ∉ l) (n : ℕ) : runsAt sep (n + 1) l = none := by
  rw [runsAt]
  split_ifs
  · rfl
  · cases hdrop : l.dropWhile isDigit with
    | nil => rfl
    | cons c r =>
      have hc : c ∈ l := (List.dropWhile_suffix isDigit).subset (by simp [hdrop])
      have hne : c ≠ sep := by
        rintro rfl
        exact h hc
      simp only [if_neg hne]

theorem findRuns_of_not_mem (h : sep ∉ l) (n : ℕ) : findRuns sep (n + 1) l = none := by
  induction l with
  | nil => rfl
  | cons c l ih =>
    rw [findRuns, runsAt_of_not_mem h, Option.none_or, ih (List.not_mem_of_not_mem_cons h)]

/-- The digits at the end do not reach the front. -/
theorem rtakeWhile_cons {c : UInt8} (h : ¬∀ d ∈ c :: l, isDigit d = true) :
    (c :: l).rtakeWhile isDigit = l.rtakeWhile isDigit := by
  induction l using List.reverseRecOn with
  | nil =>
    have hc : ¬isDigit c = true := by simpa using h
    rw [← List.nil_append [c], List.rtakeWhile_concat_neg _ _ _ hc, List.rtakeWhile_nil]
  | append_singleton l d ih =>
    rw [← List.cons_append]
    by_cases hd : isDigit d = true
    · rw [List.rtakeWhile_concat_pos _ _ _ hd, List.rtakeWhile_concat_pos _ _ _ hd, ih]
      intro hall
      refine h fun e he => ?_
      rw [← List.cons_append, List.mem_append, List.mem_singleton] at he
      rcases he with he | rfl
      · exact hall e he
      · exact hd
    · rw [List.rtakeWhile_concat_neg _ _ _ hd, List.rtakeWhile_concat_neg _ _ _ hd]

variable (hsep : isDigit sep = false)
include hsep

/-- A field that is not the last consists of digits. -/
theorem runsAt_append_cons {y : Bytes} (hy : sep ∉ y) (n : ℕ) (r : Bytes) :
    runsAt sep (n + 1) (y ++ sep :: r) =
      if y ≠ [] ∧ y.all isDigit = true then (runsAt sep n r).map (y :: ·) else none := by
  rw [runsAt]
  by_cases hdigits : ∀ c ∈ y, isDigit c = true
  · obtain ⟨htake, hdrop⟩ := takeWhile_append_cons hdigits hsep r
    rw [htake, hdrop]
    by_cases hnil : y = []
    · rw [if_pos hnil, if_neg fun h => h.1 hnil]
    · have hall : y ≠ [] ∧ y.all isDigit = true := ⟨hnil, List.all_eq_true.2 hdigits⟩
      simp only [if_neg hnil, if_pos hall, if_true]
  · have hne : y.dropWhile isDigit ≠ [] := fun h => hdigits (List.dropWhile_eq_nil_iff.1 h)
    obtain ⟨c, z, hcz⟩ := List.exists_cons_of_ne_nil hne
    have hc : c ≠ sep := by
      rintro rfl
      exact hy ((List.dropWhile_suffix isDigit).subset (by simp [hcz]))
    have hdrop : (y ++ sep :: r).dropWhile isDigit = c :: (z ++ sep :: r) := by
      rw [List.dropWhile_append, hcz]
      rfl
    rw [if_neg fun h : y ≠ [] ∧ _ => hdigits (List.all_eq_true.1 h.2), hdrop]
    simp only [if_neg hc, ite_self]

/-- The first field gives the digits at its end. -/
theorem findRuns_append_cons {x : Bytes} (hx : sep ∉ x) (n : ℕ) (r : Bytes) :
    findRuns sep (n + 1) (x ++ sep :: r) =
      (if x.rtakeWhile isDigit = [] then none
        else (runsAt sep n r).map (x.rtakeWhile isDigit :: ·)).or (findRuns sep (n + 1) r) := by
  induction x with
  | nil => rw [List.nil_append, findRuns, runsAt_cons_of_neg hsep]; rfl
  | cons c x ih =>
    have hx' := List.not_mem_of_not_mem_cons hx
    rw [List.cons_append, findRuns, ih hx', ← List.cons_append, runsAt_append_cons hsep hx]
    by_cases hdigits : ∀ d ∈ c :: x, isDigit d = true
    · have hself : (c :: x).rtakeWhile isDigit = c :: x := List.rtakeWhile_eq_self_iff.2 hdigits
      rw [if_pos ⟨List.cons_ne_nil c x, List.all_eq_true.2 hdigits⟩, hself,
        if_neg (List.cons_ne_nil c x)]
      cases runsAt sep n r with
      | none => simp
      | some rs => rfl
    · rw [if_neg fun h => hdigits (List.all_eq_true.1 h.2), Option.none_or, rtakeWhile_cons hdigits]

/-- Three fields. -/
theorem findRuns_three {x y z : Bytes} (hx : sep ∉ x) (hy : sep ∉ y) (hz : sep ∉ z) :
    findRuns sep 2 (x ++ sep :: (y ++ sep :: z)) =
      if x.rtakeWhile isDigit ≠ [] ∧ (y ≠ [] ∧ y.all isDigit = true) ∧
          z.takeWhile isDigit ≠ [] then
        some [x.rtakeWhile isDigit, y, z.takeWhile isDigit]
      else none := by
  rw [findRuns_append_cons hsep hx, findRuns_append_cons hsep hy, findRuns_of_not_mem hz,
    runsAt_of_not_mem hz, runsAt_append_cons hsep hy, runsAt]
  simp only [Option.map_none, ite_self, Option.or_none]
  by_cases hfirst : x.rtakeWhile isDigit = []
  · rw [if_pos hfirst, if_neg fun h => h.1 hfirst]
  rw [if_neg hfirst]
  by_cases hsecond : y ≠ [] ∧ y.all isDigit = true
  · rw [if_pos hsecond]
    by_cases hlast : z.takeWhile isDigit = []
    · rw [if_pos hlast, if_neg fun h => h.2.2 hlast]
      rfl
    · rw [if_neg hlast, if_pos ⟨hfirst, hsecond, hlast⟩]
      rfl
  · rw [if_neg hsecond, if_neg fun h => hsecond h.2.1]
    rfl

/-- Two fields of digits. -/
theorem findRuns_two {x y : Bytes} (hx : x ≠ [] ∧ ∀ c ∈ x, isDigit c = true)
    (hy : y ≠ [] ∧ ∀ c ∈ y, isDigit c = true) :
    findRuns sep 1 (x ++ sep :: y) = some [x, y] ∧ findRuns sep 2 (x ++ sep :: y) = none := by
  have hdigits : ∀ l : Bytes, (∀ c ∈ l, isDigit c = true) → sep ∉ l := fun l hl hmem => by
    rw [hl sep hmem] at hsep
    cases hsep
  have hself : x.rtakeWhile isDigit = x := List.rtakeWhile_eq_self_iff.2 hx.2
  have htake : y.takeWhile isDigit = y := List.takeWhile_eq_self_iff.2 hy.2
  rw [findRuns_append_cons hsep (hdigits x hx.2), findRuns_append_cons hsep (hdigits x hx.2), hself,
    runsAt_of_not_mem (hdigits y hy.2), findRuns_of_not_mem (hdigits y hy.2), runsAt, htake,
    if_neg hx.1, if_neg hx.1, if_neg hy.1]
  exact ⟨rfl, findRuns_of_not_mem (hdigits y hy.2) 1⟩

end Runs

/-! ## One run -/

/-- The first run of digits. -/
def firstRun (l : Bytes) : Bytes := (l.dropWhile fun c => !isDigit c).takeWhile isDigit

section First

variable {sep : UInt8} {a l : Bytes}

theorem findRuns_zero (sep : UInt8) (l : Bytes) :
    findRuns sep 0 l = if firstRun l = [] then none else some [firstRun l] := by
  induction l with
  | nil => rfl
  | cons c l ih =>
    rw [findRuns, runsAt]
    by_cases hc : isDigit c = true
    · have hfirst : firstRun (c :: l) = (c :: l).takeWhile isDigit := by
        rw [firstRun, List.dropWhile_cons_of_neg (by simp [hc])]
      have hne : (c :: l).takeWhile isDigit ≠ [] := by simp [hc]
      rw [hfirst, if_neg hne, Option.some_or]
    · have hfirst : firstRun (c :: l) = firstRun l := by
        rw [firstRun, List.dropWhile_cons_of_pos (by simp [hc]), firstRun]
      rw [hfirst, List.takeWhile_cons_of_neg hc, if_pos rfl, Option.none_or, ih]

/-- What has no digits in front does not matter. -/
theorem firstRun_append_left (ha : ∀ c ∈ a, isDigit c = false) (l : Bytes) :
    firstRun (a ++ l) = firstRun l := by
  rw [firstRun, List.dropWhile_append_of_pos fun c hc => by simp [ha c hc], firstRun]

/-- The first run of a text ends before what is no digit. -/
theorem firstRun_append_cons (hsep : isDigit sep = false) (h : firstRun l ≠ []) (r : Bytes) :
    firstRun (l ++ sep :: r) = firstRun l := by
  have hdrop : l.dropWhile (fun c => !isDigit c) ≠ [] := fun hnil => h (by rw [firstRun, hnil]; rfl)
  have happend : (l ++ sep :: r).dropWhile (fun c => !isDigit c) =
      l.dropWhile (fun c => !isDigit c) ++ sep :: r := by
    rw [List.dropWhile_append]
    simp [hdrop]
  rw [firstRun, happend, takeWhile_append_of_head fun c hc => by
    rw [← Option.some.inj hc]
    exact hsep]
  rfl

/-- A number without a minus is the first run of digits, or zero. -/
theorem atoi_eq_firstRun (h : 45 ∉ l) : atoi l = value (firstRun l) ∨ atoi l = 0 := by
  have hspace : firstRun l = firstRun (l.dropWhile isSpace) := by
    have happend := List.takeWhile_append_dropWhile (p := isSpace) (l := l)
    have hfirst := @firstRun_append_left (l.takeWhile isSpace) (fun c hc => by
      have hc := List.mem_takeWhile_imp hc
      by_contra hdigit
      rw [Bool.not_eq_false] at hdigit
      rw [not_isSpace_of_isDigit hdigit] at hc
      cases hc) (l.dropWhile isSpace)
    rwa [happend] at hfirst
  -- a digit that comes first begins the first run
  have hself : ∀ r : Bytes, value (r.takeWhile isDigit) = value (firstRun r) ∨
      value (r.takeWhile isDigit) = 0 := by
    intro r
    cases r with
    | nil => exact .inr rfl
    | cons d r =>
      by_cases hd : isDigit d = true
      · exact .inl (by rw [firstRun, List.dropWhile_cons_of_neg (by simp [hd])])
      · exact .inr (by rw [List.takeWhile_cons_of_neg hd]; rfl)
  have hmem : ∀ c ∈ l.dropWhile isSpace, c ≠ 45 := fun c hc he => by
    rw [he] at hc
    exact h ((List.dropWhile_suffix isSpace).subset hc)
  rw [hspace, atoi]
  cases hdrop : l.dropWhile isSpace with
  | nil => exact .inr rfl
  | cons c t =>
    rw [hdrop] at hmem
    simp only [if_neg (hmem c List.mem_cons_self)]
    split_ifs with hplus
    · have hfirst : firstRun (c :: t) = firstRun t := by
        rw [firstRun, List.dropWhile_cons_of_pos (by rw [hplus]; rfl), firstRun]
      rw [hfirst]
      exact_mod_cast hself t
    · exact_mod_cast hself (c :: t)

end First

/-! ## Separators of several kinds -/

section Several

/-- Runs of digits with these separators between them, at the start of a text. -/
def runsBy : List UInt8 → Bytes → Option (List Bytes)
  | [], l => if l.takeWhile isDigit = [] then none else some [l.takeWhile isDigit]
  | sep :: seps, l =>
      if l.takeWhile isDigit = [] then none
      else
        match l.dropWhile isDigit with
        | c :: r => if c = sep then (runsBy seps r).map (l.takeWhile isDigit :: ·) else none
        | [] => none

/-- The first match of such runs in a text. -/
def findRunsBy (seps : List UInt8) : Bytes → Option (List Bytes)
  | [] => none
  | c :: l => (runsBy seps (c :: l)).or (findRunsBy seps l)

variable {sep : UInt8} {seps : List UInt8} {x l r : Bytes} {rs : List Bytes}

theorem runsBy_nil_left (seps : List UInt8) : runsBy seps [] = none := by
  cases seps with
  | nil => rfl
  | cons sep seps => rfl

/-- The last run ends where something else than a digit follows. -/
theorem runsBy_nil_append (hx : x ≠ [] ∧ ∀ c ∈ x, isDigit c = true)
    (hr : ∀ c ∈ r.head?, isDigit c = false) : runsBy [] (x ++ r) = some [x] := by
  have htake : (x ++ r).takeWhile isDigit = x := by
    rw [takeWhile_append_of_head hr, List.takeWhile_eq_self_iff.2 hx.2]
  rw [runsBy, htake, if_neg hx.1]

/-- The last run is found at the end. -/
theorem runsBy_nil_eq (hx : x ≠ [] ∧ ∀ c ∈ x, isDigit c = true) : runsBy [] x = some [x] := by
  have happend := runsBy_nil_append hx (r := []) fun c hc => by cases hc
  rwa [List.append_nil] at happend

theorem runsBy_cons_append (hsep : isDigit sep = false)
    (hx : x ≠ [] ∧ ∀ c ∈ x, isDigit c = true) (seps : List UInt8) (r : Bytes) :
    runsBy (sep :: seps) (x ++ sep :: r) = (runsBy seps r).map (x :: ·) := by
  obtain ⟨htake, hdrop⟩ := takeWhile_append_cons hx.2 hsep r
  rw [runsBy, htake, hdrop, if_neg hx.1]
  exact if_pos rfl

theorem findRunsBy_of_runsBy (h : runsBy seps l = some rs) : findRunsBy seps l = some rs := by
  cases l with
  | nil =>
    rw [runsBy_nil_left] at h
    cases h
  | cons c l => rw [findRunsBy, h, Option.some_or]

/-- What the runs are made of. -/
theorem mem_of_runsBy (h : runsBy seps l = some rs) :
    rs.length = seps.length + 1 ∧ (∀ f ∈ rs, f ≠ [] ∧ ∀ c ∈ f, isDigit c = true) ∧
      ∀ sep ∈ seps, sep ∈ l := by
  have hrun : ∀ l : Bytes, l.takeWhile isDigit ≠ [] →
      l.takeWhile isDigit ≠ [] ∧ ∀ c ∈ l.takeWhile isDigit, isDigit c = true :=
    fun l hne => ⟨hne, fun c hc => List.mem_takeWhile_imp hc⟩
  induction seps generalizing l rs with
  | nil =>
    rw [runsBy] at h
    split_ifs at h with hnil
    obtain rfl := Option.some.inj h
    exact ⟨rfl, List.forall_mem_singleton.2 (hrun l hnil),
      fun _ hmem => absurd hmem List.not_mem_nil⟩
  | cons sep seps ih =>
    rw [runsBy] at h
    split_ifs at h with hnil
    split at h
    · rename_i c r hdrop
      split_ifs at h with hc
      obtain ⟨rest, hrest, rfl⟩ := Option.map_eq_some_iff.1 h
      obtain ⟨hlength, hdigits, hmem⟩ := ih hrest
      have hsub : ∀ d ∈ c :: r, d ∈ l := fun d hd =>
        (List.dropWhile_suffix isDigit).subset (by rwa [hdrop])
      refine ⟨by simp [hlength], List.forall_mem_cons.2 ⟨hrun l hnil, hdigits⟩,
        List.forall_mem_cons.2 ⟨?_, fun d hd => hsub d (List.mem_cons_of_mem c (hmem d hd))⟩⟩
      rw [← hc]
      exact hsub c List.mem_cons_self
    · cases h

theorem mem_of_findRunsBy (h : findRunsBy seps l = some rs) :
    rs.length = seps.length + 1 ∧ (∀ f ∈ rs, f ≠ [] ∧ ∀ c ∈ f, isDigit c = true) ∧
      ∀ sep ∈ seps, sep ∈ l := by
  induction l with
  | nil => cases h
  | cons c l ih =>
    rw [findRunsBy] at h
    rcases Option.or_eq_some_iff.1 h with h | ⟨-, h⟩
    · exact mem_of_runsBy h
    · obtain ⟨hlength, hdigits, hmem⟩ := ih h
      exact ⟨hlength, hdigits, fun sep hsep => List.mem_cons_of_mem c (hmem sep hsep)⟩

/-- Without one of the separators there is no match. -/
theorem findRunsBy_of_not_mem (hsep : sep ∈ seps) (h : sep ∉ l) : findRunsBy seps l = none := by
  cases hfind : findRunsBy seps l with
  | none => rfl
  | some rs => exact absurd ((mem_of_findRunsBy hfind).2.2 sep hsep) h

end Several

end Perl
