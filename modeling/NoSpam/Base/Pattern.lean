import Mathlib.Data.List.Forall2
import NoSpam.Base.Scalar

/-!
# What a pattern matches

A pattern with dots matches the texts that agree with it but for the dots.  The lemmas say so of a
pattern at the start of a text (`dropPattern_eq_some_iff`), at its end (`endsWith_iff`) and anywhere
in it (`isSome_findPattern_iff`).
-/

namespace Perl

open Text

/-- A symbol of a text agrees with one of a pattern. -/
def Agrees (p c : UInt8) : Prop := p = c ∨ (p = 46 ∧ c ≠ 10)

/-- A text agrees with a pattern. -/
def Matches (pat w : Bytes) : Prop := List.Forall₂ Agrees pat w

namespace Matches

variable {pat w : Bytes}

theorem refl (pat : Bytes) : Matches pat pat := List.forall₂_same.2 fun _ _ => .inl rfl

/-- A symbol of the pattern other than the dot stands in the text. -/
theorem mem_of_mem {c : UInt8} (hc : c ≠ 46) (h : Matches pat w) (hmem : c ∈ pat) : c ∈ w := by
  induction h with
  | nil => cases hmem
  | cons hagrees _ ih =>
    rcases List.mem_cons.1 hmem with rfl | hmem
    · rw [hagrees.resolve_right fun hdot => hc hdot.1]
      exact List.mem_cons_self
    · exact List.mem_cons_of_mem _ (ih hmem)

theorem length_eq (h : Matches pat w) : pat.length = w.length := List.Forall₂.length_eq h

/-- A pattern without dots matches only itself. -/
theorem eq_of_not_mem (hdot : 46 ∉ pat) (h : Matches pat w) : pat = w := by
  induction h with
  | nil => rfl
  | cons hagrees _ ih =>
    rw [List.mem_cons, not_or] at hdot
    rw [hagrees.resolve_right fun h => hdot.1 h.1.symm, ih hdot.2]

end Matches

variable {pat l r : Bytes}

theorem dropPattern_eq_some_iff : dropPattern pat l = some r ↔ ∃ w, l = w ++ r ∧ Matches pat w := by
  induction pat generalizing l with
  | nil =>
    rw [dropPattern, Option.some_inj]
    constructor
    · rintro rfl
      exact ⟨[], rfl, .nil⟩
    · rintro ⟨w, rfl, hw⟩
      rw [List.forall₂_nil_left_iff.1 hw, List.nil_append]
  | cons p pat ih =>
    cases l with
    | nil =>
      refine iff_of_false (fun hnone => by cases hnone) ?_
      rintro ⟨w, hnil, hw⟩
      rw [(List.append_eq_nil_iff.1 hnil.symm).1] at hw
      cases hw
    | cons c l =>
      rw [dropPattern]
      have hagrees : (p = c || (p = 46 && c ≠ 10)) = true ↔ Agrees p c := by
        simp [Agrees]
      constructor
      · intro h
        split_ifs at h with hc
        obtain ⟨w, rfl, hw⟩ := ih.1 h
        exact ⟨c :: w, rfl, .cons (hagrees.1 hc) hw⟩
      · rintro ⟨w, hsplit, hw⟩
        obtain ⟨d, w', hd, hw', rfl⟩ := List.forall₂_cons_left_iff.1 hw
        obtain ⟨rfl, rfl⟩ := List.cons.inj hsplit
        rw [if_pos (hagrees.2 hd)]
        exact ih.2 ⟨w', rfl, hw'⟩

/-- A pattern at the end of a text, or before a line end there. -/
theorem endsWith_iff {b : Bytes} :
    endsWith pat b = true ↔ ∃ y w, (b = y ++ w ∨ b = y ++ w ++ [10]) ∧ Matches pat w := by
  have hdrop : ∀ (n : ℕ) (r : Bytes), n + r.length = b.length → pat.length ≤ n →
      (dropPattern pat (b.drop (n - pat.length)) = some r ↔
        ∃ y w, b = y ++ w ++ r ∧ Matches pat w) := by
    intro n r hn hle
    rw [dropPattern_eq_some_iff]
    constructor
    · rintro ⟨w, hw, hmatch⟩
      exact ⟨b.take (n - pat.length), w, by rw [List.append_assoc, ← hw, List.take_append_drop],
        hmatch⟩
    · rintro ⟨y, w, rfl, hmatch⟩
      have hlength := hmatch.length_eq
      rw [List.length_append, List.length_append] at hn
      refine ⟨w, ?_, hmatch⟩
      rw [List.append_assoc, List.drop_left' (by omega)]
  rw [endsWith, Bool.or_eq_true, Bool.and_eq_true, Bool.and_eq_true, decide_eq_true_eq,
    decide_eq_true_eq, decide_eq_true_eq, decide_eq_true_eq]
  constructor
  · rintro (⟨hle, h⟩ | ⟨hlt, h⟩)
    · obtain ⟨y, w, hb, hw⟩ := (hdrop b.length [] rfl hle).1 h
      exact ⟨y, w, .inl (by rw [hb, List.append_nil]), hw⟩
    · rw [Nat.sub_right_comm] at h
      obtain ⟨y, w, hb, hw⟩ := (hdrop (b.length - 1) [10] (by
        rw [List.length_singleton]
        omega) (by omega)).1 h
      exact ⟨y, w, .inr hb, hw⟩
  · rintro ⟨y, w, hb | hb, hw⟩
    · have hle : pat.length ≤ b.length := by
        rw [hw.length_eq, hb, List.length_append]
        omega
      exact .inl ⟨hle, (hdrop b.length [] rfl hle).2 ⟨y, w, by rw [hb, List.append_nil], hw⟩⟩
    · have hlt : pat.length < b.length := by
        rw [hw.length_eq, hb, List.length_append, List.length_append, List.length_singleton]
        omega
      refine .inr ⟨hlt, ?_⟩
      rw [Nat.sub_right_comm]
      exact (hdrop (b.length - 1) [10] (by
        rw [List.length_singleton]
        omega) (by omega)).2 ⟨y, w, hb, hw⟩

/-- What is before and behind a match. -/
theorem exists_of_findPattern {m : Bytes × Bytes} (h : findPattern pat l = some m) :
    ∃ w, l = m.1 ++ w ++ m.2 ∧ Matches pat w := by
  induction l generalizing m with
  | nil =>
    obtain ⟨v, hv, rfl⟩ := Option.map_eq_some_iff.1 h
    exact dropPattern_eq_some_iff.1 hv
  | cons c l ih =>
    rw [findPattern] at h
    cases hdrop : dropPattern pat (c :: l) with
    | some v =>
      rw [hdrop] at h
      obtain rfl := Option.some.inj h
      exact dropPattern_eq_some_iff.1 hdrop
    | none =>
      rw [hdrop] at h
      obtain ⟨m', hm', rfl⟩ := Option.map_eq_some_iff.1 h
      obtain ⟨w, hw, hmatch⟩ := ih hm'
      exact ⟨w, congrArg (c :: ·) hw, hmatch⟩

/-- A pattern anywhere in a text. -/
theorem isSome_findPattern_iff :
    (findPattern pat l).isSome = true ↔ ∃ y w z, l = y ++ w ++ z ∧ Matches pat w := by
  constructor
  · intro h
    obtain ⟨m, hm⟩ := Option.isSome_iff_exists.1 h
    obtain ⟨w, hw, hmatch⟩ := exists_of_findPattern hm
    exact ⟨m.1, w, m.2, hw, hmatch⟩
  · rintro ⟨y, w, z, rfl, hmatch⟩
    induction y with
    | nil =>
      have hdrop : dropPattern pat (w ++ z) = some z := dropPattern_eq_some_iff.2 ⟨w, rfl, hmatch⟩
      rw [List.nil_append]
      cases hl : w ++ z with
      | nil =>
        rw [hl] at hdrop
        rw [findPattern, hdrop]
        rfl
      | cons c l =>
        rw [hl] at hdrop
        rw [findPattern, hdrop]
        rfl
    | cons c y ih =>
      rw [List.cons_append, List.cons_append, findPattern]
      cases dropPattern pat (c :: (y ++ w ++ z)) with
      | some v => rfl
      | none =>
        rw [Option.isSome_map]
        exact ih

end Perl
