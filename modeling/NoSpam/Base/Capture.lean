import NoSpam.Base.Text

/-!
# Captures between a stem and an end

The pattern `STEM(.+)(?:END|END)` finds the first stem in a text that something and an end follow on
the same line, and captures as much as it can.  Where the ends begin with a separator and have no
other, it captures what was put between a stem and an end (`capture_append`), and what it
captures at all is what stands there (`between_eq_some_iff`).  `cutLast` cuts a text at the last
separator that something follows.
-/

namespace Pattern

variable {α : Type*} [DecidableEq α]

/-- The longest beginning, not empty, that one of the ends follows. -/
def longest (ends : List (List α)) : List α → Option (List α)
  | [] => none
  | c :: r =>
      match longest ends r with
      | some d => some (c :: d)
      | none => if ends.any fun e => e.isPrefixOf r then some [c] else none

/-- `STEM(.+)(?:END|END)`, where a dot is any symbol but the line end. -/
def capture (nl : α) (stem : List α) (ends : List (List α)) (text : List α) : Option (List α) :=
  text.tails.findSome? fun t =>
    if stem.isPrefixOf t then longest ends ((t.drop stem.length).takeWhile (· ≠ nl)) else none

/-- What stands between a stem at the beginning and one of the ends at the end. -/
def between (stem : List α) (ends : List (List α)) (text : List α) : Option (List α) :=
  if stem.isPrefixOf text then
    let r := text.drop stem.length
    (ends.find? fun e => e.isSuffixOf r).map fun e => r.take (r.length - e.length)
  else none

/-- Ends that begin with a separator and have no other. -/
def Ends (sep : α) (ends : List (List α)) : Prop := ∀ e ∈ ends, ∃ f, e = sep :: f ∧ sep ∉ f

variable {sep nl : α} {stem d d' e : List α} {ends : List (List α)}

theorem append_cons_cancel {f f' : List α} (hf : sep ∉ f) (hf' : sep ∉ f')
    (h : d ++ sep :: f = d' ++ sep :: f') : d = d' ∧ f = f' := by
  have hlast : f = f' := by
    have hfield := congrArg (Text.lastField sep) h
    rwa [Text.lastField_append hf, Text.lastField_append hf'] at hfield
  subst hlast
  exact ⟨List.append_cancel_right h, rfl⟩

theorem between_eq_some_iff (hends : Ends sep ends) {text : List α} :
    between stem ends text = some d ↔ ∃ e ∈ ends, text = stem ++ (d ++ e) := by
  constructor
  · intro h
    rw [between] at h
    split_ifs at h with hstem
    obtain ⟨r, rfl⟩ := List.isPrefixOf_iff_prefix.1 hstem
    obtain ⟨e, he, hd⟩ := Option.map_eq_some_iff.1 h
    rw [List.drop_left] at he hd
    have hsuffix : e.isSuffixOf r = true := by simpa using List.find?_some he
    obtain ⟨t, ht⟩ := List.isSuffixOf_iff_suffix.1 hsuffix
    refine ⟨e, List.mem_of_find?_eq_some he, ?_⟩
    rw [← hd, ← ht]
    simp
  · rintro ⟨e, he, rfl⟩
    rw [between, if_pos (List.isPrefixOf_iff_prefix.2 (List.prefix_append ..)), List.drop_left]
    cases hfind : ends.find? fun e' => e'.isSuffixOf (d ++ e) with
    | none =>
      have hnot := List.find?_eq_none.1 hfind e he
      exact absurd (List.isSuffixOf_iff_suffix.2 (List.suffix_append d e)) hnot
    | some e' =>
      have hsuffix : e'.isSuffixOf (d ++ e) = true := by simpa using List.find?_some hfind
      obtain ⟨t, ht⟩ := List.isSuffixOf_iff_suffix.1 hsuffix
      obtain ⟨f, rfl, hf⟩ := hends e he
      obtain ⟨f', rfl, hf'⟩ := hends e' (List.mem_of_find?_eq_some hfind)
      obtain ⟨rfl, rfl⟩ := append_cons_cancel hf' hf ht
      simp only [hfind, Option.map_some]
      simp

theorem longest_of_not_mem (hends : Ends sep ends) {f : List α} (h : sep ∉ f) :
    longest ends f = none := by
  induction f with
  | nil => rfl
  | cons c f ih =>
    rw [List.mem_cons, not_or] at h
    have hany : ¬(ends.any fun e => e.isPrefixOf f) = true := by
      rw [List.any_eq_true]
      rintro ⟨e, he, hf⟩
      obtain ⟨f', rfl, -⟩ := hends e he
      exact h.2 ((List.isPrefixOf_iff_prefix.1 hf).subset List.mem_cons_self)
    rw [longest, ih h.2]
    exact if_neg hany

theorem longest_append (hends : Ends sep ends) (he : e ∈ ends) (hd : d ≠ []) :
    longest ends (d ++ e) = some d := by
  induction d with
  | nil => exact absurd rfl hd
  | cons c d ih =>
    rw [List.cons_append, longest]
    cases d with
    | nil =>
      obtain ⟨f, rfl, hf⟩ := hends e he
      have hnone : longest ends (sep :: f) = none := by
        rw [longest, longest_of_not_mem hends hf]
        refine if_neg fun hany => ?_
        obtain ⟨e', he', hpre⟩ := List.any_eq_true.1 hany
        obtain ⟨f', rfl, -⟩ := hends e' he'
        exact hf ((List.isPrefixOf_iff_prefix.1 hpre).subset List.mem_cons_self)
      have hany : (ends.any fun e => e.isPrefixOf (sep :: f)) = true :=
        List.any_eq_true.2 ⟨_, he, List.isPrefixOf_iff_prefix.2 List.prefix_rfl⟩
      rw [List.nil_append, hnone]
      exact if_pos hany
    | cons c' d => rw [ih (List.cons_ne_nil c' d)]

/-- What is found is a beginning. -/
theorem longest_prefix {l : List α} (h : longest ends l = some d) : d <+: l := by
  induction l generalizing d with
  | nil => cases h
  | cons c l ih =>
    rw [longest] at h
    cases hl : longest ends l with
    | some d' =>
      rw [hl] at h
      rw [← Option.some_inj.1 h]
      exact List.cons_prefix_cons.2 ⟨rfl, ih hl⟩
    | none =>
      rw [hl] at h
      dsimp only at h
      split_ifs at h
      rw [← Option.some_inj.1 h]
      exact List.cons_prefix_cons.2 ⟨rfl, List.nil_prefix⟩

/-- No room is left for a beginning before the end. -/
theorem longest_eq_none_of_length_le {f : List α} (h : f.length ≤ e.length) :
    longest [e] f = none := by
  induction f with
  | nil => rfl
  | cons c f ih =>
    rw [List.length_cons] at h
    have hany : ¬([e].any fun e => e.isPrefixOf f) = true := by
      rw [List.any_eq_true]
      rintro ⟨e', he', hf⟩
      obtain rfl := List.mem_singleton.1 he'
      have hle := (List.isPrefixOf_iff_prefix.1 hf).length_le
      omega
    rw [longest, ih (by omega)]
    exact if_neg hany

/-- With a single end everything before the last one is found. -/
theorem longest_singleton_append (hd : d ≠ []) : longest [e] (d ++ e) = some d := by
  induction d with
  | nil => exact absurd rfl hd
  | cons c d ih =>
    rw [List.cons_append, longest]
    cases d with
    | nil =>
      have hany : ([e].any fun e' => e'.isPrefixOf ([] ++ e)) = true :=
        List.any_eq_true.2 ⟨e, List.mem_singleton_self e,
          List.isPrefixOf_iff_prefix.2 List.prefix_rfl⟩
      rw [longest_eq_none_of_length_le (by simp), ← List.nil_append e]
      exact if_pos hany
    | cons c' d => rw [ih (List.cons_ne_nil c' d)]

/-- What was put between a stem and an end is captured. -/
theorem capture_append (hends : Ends sep ends) (he : e ∈ ends) (hd : d ≠ []) (hnl : nl ∉ d)
    (hnl' : nl ∉ e) : capture nl stem ends (stem ++ (d ++ e)) = some d := by
  have hline : (d ++ e).takeWhile (· ≠ nl) = d ++ e := by
    rw [List.takeWhile_eq_self_iff]
    intro c hc
    rcases List.mem_append.1 hc with hc | hc
    · exact decide_eq_true fun h => hnl (h ▸ hc)
    · exact decide_eq_true fun h => hnl' (h ▸ hc)
  have hfirst : (if stem.isPrefixOf (stem ++ (d ++ e)) then
      longest ends (((stem ++ (d ++ e)).drop stem.length).takeWhile (· ≠ nl))
      else none) = some d := by
    rw [if_pos (List.isPrefixOf_iff_prefix.2 (List.prefix_append ..)), List.drop_left, hline,
      longest_append hends he hd]
  rw [capture]
  cases htext : stem ++ (d ++ e) with
  | nil =>
    have hnil := (List.append_eq_nil_iff.1 htext).2
    exact absurd (List.append_eq_nil_iff.1 hnil).1 hd
  | cons c text =>
    rw [htext] at hfirst
    rw [List.tails_cons, List.findSome?_cons, hfirst]

/-! ## The last separator -/

/-- What stands before and behind the last separator that something `ok` follows. -/
def cutLast (sep : α) (ok : List α → Bool) : List α → Option (List α × List α)
  | [] => none
  | c :: l =>
      match cutLast sep ok l with
      | some (before, behind) => some (c :: before, behind)
      | none => if c = sep && ok l then some ([], l) else none

section Last

variable {ok : List α → Bool} {a b : List α}

theorem cutLast_of_not_mem (h : sep ∉ a) : cutLast sep ok a = none := by
  induction a with
  | nil => rfl
  | cons c a ih =>
    rw [List.mem_cons, not_or] at h
    rw [cutLast, ih h.2]
    simp [Ne.symm h.1]

theorem cutLast_append (hb : sep ∉ b) (hok : ok b = true) :
    cutLast sep ok (a ++ sep :: b) = some (a, b) := by
  induction a with
  | nil =>
    rw [List.nil_append, cutLast, cutLast_of_not_mem hb]
    simp [hok]
  | cons c a ih => rw [List.cons_append, cutLast, ih]

theorem cutLast_append_of_not (ha : sep ∉ a) (hb : sep ∉ b) (hok : ok b = false) :
    cutLast sep ok (a ++ sep :: b) = none := by
  induction a with
  | nil =>
    rw [List.nil_append, cutLast, cutLast_of_not_mem hb]
    simp [hok]
  | cons c a ih =>
    rw [List.mem_cons, not_or] at ha
    rw [List.cons_append, cutLast, ih ha.2]
    simp [Ne.symm ha.1]

theorem eq_of_cutLast {l : List α} (h : cutLast sep ok l = some (a, b)) : l = a ++ sep :: b := by
  induction l generalizing a with
  | nil => cases h
  | cons c l ih =>
    rw [cutLast] at h
    cases hl : cutLast sep ok l with
    | some p =>
      rw [hl] at h
      obtain ⟨rfl, rfl⟩ := Prod.mk.inj (Option.some.inj h)
      rw [ih hl]
      rfl
    | none =>
      rw [hl] at h
      dsimp only at h
      split_ifs at h with hc
      obtain ⟨rfl, rfl⟩ := Prod.mk.inj (Option.some.inj h)
      rw [Bool.and_eq_true, decide_eq_true_eq] at hc
      rw [hc.1]
      rfl

theorem ok_of_cutLast {l : List α} (h : cutLast sep ok l = some (a, b)) : ok b = true := by
  induction l generalizing a with
  | nil => cases h
  | cons c l ih =>
    rw [cutLast] at h
    cases hl : cutLast sep ok l with
    | some p =>
      rw [hl] at h
      obtain ⟨-, rfl⟩ := Prod.mk.inj (Option.some.inj h)
      exact ih hl
    | none =>
      rw [hl] at h
      dsimp only at h
      split_ifs at h with hc
      obtain ⟨-, rfl⟩ := Prod.mk.inj (Option.some.inj h)
      exact (Bool.and_eq_true _ _ ▸ hc).2

end Last

end Pattern
