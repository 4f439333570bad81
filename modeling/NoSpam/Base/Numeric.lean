import Mathlib.Algebra.Field.Rat
import NoSpam.Base.Php

/-!
# Numbers in PHP strings

The number that PHP reads from a string, and the comparison `==` of two strings, which are compared
as numbers if both are numeric.  Numbers are exact here.
-/

namespace Php

open Text

/-- The value of hexadecimal digits. -/
def hexValue (l : Bytes) : ℕ :=
  l.foldl (fun a c => 16 * a + if c < 58 then c.toNat - 48 else (c.toNat - 55) % 32) 0

/-- The exponent that stands at the end of a number. -/
def exponent (l : Bytes) : ℤ := atoi (l.drop 1)

/-- The value of a number without a sign. -/
def floatValue (b : Bytes) : ℚ :=
  let i := b.takeWhile isDigit
  match b.dropWhile isDigit with
  | [] => value i
  | c :: l =>
      if c = 46 then
        let f := l.takeWhile isDigit
        (value i + value f / 10 ^ f.length) * 10 ^ exponent (l.dropWhile isDigit)
      else value i * 10 ^ exponent (c :: l)

/-- The number that a numeric string stands for. -/
def number (b : Bytes) : ℚ :=
  let b := b.dropWhile isSpace
  if isHex b then hexValue (b.drop 2)
  else if b.head? = some 45 then -floatValue (dropSign b)
  else floatValue (dropSign b)

/-- `==` on strings. -/
def looseEq (a b : Bytes) : Bool :=
  if isNumeric a && isNumeric b then number a = number b else a = b

@[simp] theorem looseEq_self (a : Bytes) : looseEq a a = true := by simp [looseEq]

theorem looseEq_comm (a b : Bytes) : looseEq a b = looseEq b a := by
  rw [looseEq, looseEq, Bool.and_comm]
  simp only [eq_comm]

theorem looseEq_of_not_isNumeric {a b : Bytes} (h : isNumeric a = false) :
    looseEq a b = decide (a = b) := by simp [looseEq, h]

/-- The number that a string is converted to for a comparison with a number. -/
def toNumber (b : Bytes) : ℚ := if isNumeric b then number b else intval b

section Digits

variable {l : Bytes} (h : ∀ c ∈ l, isDigit c = true)

include h

theorem dropWhile_isSpace_digits : l.dropWhile isSpace = l := by
  cases l with
  | nil => rfl
  | cons c l =>
    exact List.dropWhile_cons_of_neg (by simp [not_isSpace_of_isDigit (h c List.mem_cons_self)])

theorem dropSign_digits : dropSign l = l := by
  cases l with
  | nil => rfl
  | cons c l =>
    have hc := h c List.mem_cons_self
    refine if_neg ?_
    rintro (rfl | rfl) <;> cases hc

theorem isHex_digits : isHex l = false := by
  cases hl : isHex l with
  | false => rfl
  | true =>
    unfold isHex at hl
    split at hl
    · rename_i c t
      have hc := h c (by simp)
      simp only [Bool.and_eq_true, Bool.or_eq_true, decide_eq_true_eq] at hl
      obtain ⟨⟨rfl | rfl, -⟩, -⟩ := hl <;> cases hc
    · cases hl

/-- A run of digits is numeric. -/
theorem isNumeric_digits (hne : l ≠ []) : isNumeric l = true := by
  unfold isNumeric
  simp only [dropWhile_isSpace_digits h, dropSign_digits h, isHex_digits h, Bool.false_or]
  rw [isFloat, List.takeWhile_eq_self_iff.2 h, List.dropWhile_eq_nil_iff.2 h]
  simpa using hne

/-- The number of a run of digits is its value. -/
theorem number_digits : number l = value l := by
  have hhead : l.head? ≠ some 45 := fun h45 => by
    have hc := h 45 (List.mem_of_mem_head? h45)
    cases hc
  unfold number
  simp only [dropWhile_isSpace_digits h, dropSign_digits h, isHex_digits h, Bool.false_eq_true,
    if_false, if_neg hhead]
  rw [floatValue, List.takeWhile_eq_self_iff.2 h, List.dropWhile_eq_nil_iff.2 h]

end Digits

/-! ## The symbols of a number -/

/-- What a number is written with. -/
def isNumeral (c : UInt8) : Bool := isXDigit c || c = 43 || c = 45 || c = 46 || c = 88 || c = 120

theorem isNumeral_of_isDigit {c : UInt8} (h : isDigit c = true) : isNumeral c = true := by
  simp [isNumeral, isXDigit, h]

theorem isNumeral_of_mem_dropSign {b : Bytes} (h : ∀ c ∈ dropSign b, isNumeral c = true) :
    ∀ c ∈ b, isNumeral c = true := by
  cases b with
  | nil => exact fun c hc => absurd hc List.not_mem_nil
  | cons d l =>
    rw [dropSign] at h
    split_ifs at h with hd
    · refine List.forall_mem_cons.2 ⟨?_, h⟩
      rcases hd with rfl | rfl <;> rfl
    · exact h

theorem isNumeral_of_isExponent {b : Bytes} (h : isExponent b = true) :
    ∀ c ∈ b, isNumeral c = true := by
  cases b with
  | nil => exact fun c hc => absurd hc List.not_mem_nil
  | cons e l =>
    simp only [isExponent, Bool.and_eq_true, Bool.or_eq_true, decide_eq_true_eq,
      List.all_eq_true] at h
    obtain ⟨⟨he, -⟩, hl⟩ := h
    refine List.forall_mem_cons.2 ⟨?_, isNumeral_of_mem_dropSign fun c hc =>
      isNumeral_of_isDigit (hl c hc)⟩
    rcases he with rfl | rfl <;> rfl

theorem isNumeral_of_isFloat {b : Bytes} (h : isFloat b = true) : ∀ c ∈ b, isNumeral c = true := by
  have hdigits : ∀ l : Bytes, (∀ c ∈ l.dropWhile isDigit, isNumeral c = true) →
      ∀ c ∈ l, isNumeral c = true := by
    intro l hl c hc
    rw [← List.takeWhile_append_dropWhile (p := isDigit) (l := l), List.mem_append] at hc
    rcases hc with hc | hc
    · exact isNumeral_of_isDigit (List.mem_takeWhile_imp hc)
    · exact hl c hc
  refine hdigits b ?_
  unfold isFloat at h
  cases hdrop : b.dropWhile isDigit with
  | nil => exact fun c hc => absurd hc List.not_mem_nil
  | cons c l =>
    simp only [hdrop] at h
    split_ifs at h with hpoint
    · rw [Bool.and_eq_true] at h
      refine List.forall_mem_cons.2 ⟨by rw [hpoint]; rfl, hdigits l ?_⟩
      exact isNumeral_of_isExponent h.2
    · rw [Bool.and_eq_true] at h
      exact isNumeral_of_isExponent h.2

theorem exists_isDigit_of_isFloat {b : Bytes} (h : isFloat b = true) :
    ∃ c ∈ b, isDigit c = true := by
  have hrun : ∀ l : Bytes, l.takeWhile isDigit ≠ [] → ∃ c ∈ l, isDigit c = true := by
    intro l hl
    obtain ⟨c, hc⟩ := List.exists_mem_of_ne_nil _ hl
    exact ⟨c, (List.takeWhile_prefix isDigit).subset hc, List.mem_takeWhile_imp hc⟩
  by_contra hnone
  have hi : b.takeWhile isDigit = [] := by
    by_contra hi
    exact hnone (hrun b hi)
  rw [isFloat, hi] at h
  cases hdrop : b.dropWhile isDigit with
  | nil => simp [hdrop] at h
  | cons c l =>
    simp only [hdrop] at h
    split_ifs at h
    · have hl : l.takeWhile isDigit ≠ [] := by
        rw [Bool.and_eq_true] at h
        simpa using h.1
      obtain ⟨d, hd, hdigit⟩ := hrun l hl
      have hmem : d ∈ b :=
        (List.dropWhile_suffix isDigit).subset (hdrop ▸ List.mem_cons_of_mem c hd)
      exact hnone ⟨d, hmem, hdigit⟩
    · simp at h

theorem exists_eq_of_isHex {b : Bytes} (h : isHex b = true) :
    ∃ x l, b = 48 :: x :: l ∧ (x = 88 ∨ x = 120) ∧ ∀ c ∈ l, isXDigit c = true := by
  unfold isHex at h
  split at h
  · rename_i x l
    simp only [Bool.and_eq_true, Bool.or_eq_true, decide_eq_true_eq, List.all_eq_true] at h
    obtain ⟨⟨hx, -⟩, hl⟩ := h
    exact ⟨x, l, rfl, hx, hl⟩
  · cases h

/-- A number has a digit. -/
theorem exists_isDigit_of_isNumeric {b : Bytes} (h : isNumeric b = true) :
    ∃ c ∈ b, isDigit c = true := by
  have hsub : ∀ c ∈ b.dropWhile isSpace, c ∈ b := fun c hc =>
    (List.dropWhile_suffix isSpace).subset hc
  simp only [isNumeric, Bool.or_eq_true] at h
  rcases h with h | h
  · obtain ⟨x, l, hb, -⟩ := exists_eq_of_isHex h
    exact ⟨48, hsub 48 (by simp [hb]), rfl⟩
  · obtain ⟨c, hc, hdigit⟩ := exists_isDigit_of_isFloat h
    refine ⟨c, hsub c ?_, hdigit⟩
    cases hdrop : b.dropWhile isSpace with
    | nil =>
      rw [hdrop] at hc
      exact hc
    | cons d l =>
      rw [hdrop, dropSign] at hc
      split_ifs at hc
      · exact List.mem_cons_of_mem d hc
      · exact hc

/-- What follows the blanks at the front of a number is written with these symbols. -/
theorem isNumeral_of_mem_dropWhile {b : Bytes} (h : isNumeric b = true) {c : UInt8}
    (hc : c ∈ b.dropWhile isSpace) : isNumeral c = true := by
  simp only [isNumeric, Bool.or_eq_true] at h
  rcases h with h | h
  · obtain ⟨x, l, hb, hx, hl⟩ := exists_eq_of_isHex h
    rw [hb] at hc
    rcases List.mem_cons.1 hc with rfl | hc
    · rfl
    rcases List.mem_cons.1 hc with rfl | hc
    · rcases hx with rfl | rfl <;> rfl
    · simp [isNumeral, hl c hc]
  · exact isNumeral_of_mem_dropSign (isNumeral_of_isFloat h) c hc

theorem isNumeral_of_mem {b : Bytes} (h : isNumeric b = true) {c : UInt8} (hc : c ∈ b) :
    isSpace c = true ∨ isNumeral c = true := by
  rw [← List.takeWhile_append_dropWhile (p := isSpace) (l := b), List.mem_append] at hc
  rcases hc with hc | hc
  · exact .inl (List.mem_takeWhile_imp hc)
  · exact .inr (isNumeral_of_mem_dropWhile h hc)

/-- A number ends with one of its symbols. -/
theorem not_isNumeric_concat {c : UInt8} (hc : isNumeral c = false) (b : Bytes) :
    isNumeric (b ++ [c]) = false := by
  by_contra hnum
  rw [Bool.not_eq_false] at hnum
  cases hdrop : (b ++ [c]).dropWhile isSpace with
  | nil =>
    have hnil : isNumeric (b ++ [c]) = isNumeric [] := by
      simp only [isNumeric, hdrop]
      rfl
    rw [hnil] at hnum
    cases hnum
  | cons d l =>
    have hlast : c ∈ (b ++ [c]).dropWhile isSpace := by
      obtain ⟨t, ht⟩ := List.dropWhile_suffix (l := b ++ [c]) isSpace
      rw [hdrop] at ht ⊢
      have hsome := congrArg List.getLast? ht
      rw [List.getLast?_append_of_ne_nil t (List.cons_ne_nil d l), List.getLast?_concat] at hsome
      exact List.mem_of_getLast? hsome
    rw [isNumeral_of_mem_dropWhile hnum hlast] at hc
    cases hc

theorem toNumber_decimal (n : ℕ) : toNumber (decimal n) = n := by
  have h : ∀ c ∈ decimal n, isDigit c = true := fun c => isDigit_of_mem_decimal
  rw [toNumber, if_pos (isNumeric_digits h (decimal_ne_nil n)), number_digits h, value_decimal]

example : looseEq [49, 48] [49, 101, 49] = true := by decide +kernel

end Php
