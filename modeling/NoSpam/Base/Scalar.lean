import NoSpam.Base.Decimal

/-!
# Perl scalars

Byte strings under the operators of Perl: truth, `||`, `uc` and `lc`, `chomp`, the test for a
substring, and the reading of a string as a number.  An undefined scalar is the empty string
wherever a program does not ask `defined`.  A pattern interpolated into a regular expression is
matched symbol by symbol, a dot standing for any symbol but the line end; this is exact for
patterns whose only metacharacter is the dot.
-/

namespace Perl

open Text

/-- Perl's truth: neither empty nor the string `0`. -/
def isTrue (b : Bytes) : Bool := b ≠ [] && b ≠ [48]

/-- `a || b`. -/
def orElse (a b : Bytes) : Bytes := if isTrue a then a else b

/-- `uc` on one byte. -/
def ucByte (c : UInt8) : UInt8 := if 97 ≤ c && c ≤ 122 then c - 32 else c

/-- `lc` on one byte. -/
def lcByte (c : UInt8) : UInt8 := if 65 ≤ c && c ≤ 90 then c + 32 else c

/-- `uc`. -/
def uc (b : Bytes) : Bytes := b.map ucByte

/-- `lc`. -/
def lc (b : Bytes) : Bytes := b.map lcByte

/-- `b =~ /pat/` for a literal `pat`. -/
def contains (pat b : Bytes) : Bool := pat <:+: b

/-- `b =~ /pat/i` for a literal `pat`. -/
def containsFold (pat b : Bytes) : Bool := contains (lc pat) (lc b)

/-- `chomp`. -/
def chomp (b : Bytes) : Bytes := if b.getLast? = some 10 then b.dropLast else b

/-- The number a string starts with. -/
def num (b : Bytes) : ℤ := atoi b

/-- What `\s` matches in a byte string; unlike C it does not have the vertical tab among it. -/
def isWhite (c : UInt8) : Bool := c = 32 || c = 9 || c = 10 || c = 12 || c = 13

theorem isSpace_of_isWhite {c : UInt8} (h : isWhite c = true) : isSpace c = true := by
  simp only [isWhite, Bool.or_eq_true, decide_eq_true_eq] at h
  rcases h with (((rfl | rfl) | rfl) | rfl) | rfl <;> rfl

theorem not_isWhite_of_lt {c : UInt8} (h : 32 < c.toNat) : isWhite c = false := by
  by_contra hwhite
  have hspace := isSpace_of_isWhite (by simpa using hwhite)
  rw [not_isSpace_of_lt h] at hspace
  cases hspace

theorem not_isWhite_of_isDigit {c : UInt8} (h : isDigit c = true) : isWhite c = false := by
  by_contra hwhite
  have hspace := isSpace_of_isWhite (by simpa using hwhite)
  rw [not_isSpace_of_isDigit h] at hspace
  cases hspace

/-- The modes of `open` with three arguments, before any layers. -/
def openModes : List Bytes :=
  [bytes "<", bytes ">", bytes ">>", bytes "+<", bytes "+>", bytes "+>>", bytes "-|", bytes "|-",
    bytes "<&", bytes ">&", bytes ">>&", bytes "+<&", bytes "+>&", bytes "+>>&", bytes "<&=",
    bytes ">&=", bytes ">>&=", bytes "+<&=", bytes "+>&=", bytes "+>>&="]

/-- `open` knows the mode, which layers may follow after a colon. -/
def isOpenMode (mode : Bytes) : Bool :=
  decide (((mode.takeWhile (· ≠ 58)).filter fun c => !isWhite c) ∈ openModes)

/-- The path of a file behind `>` is no mode. -/
theorem isOpenMode_path (path : Bytes) : isOpenMode (62 :: 47 :: path) = false := by
  have hmode : ((62 :: 47 :: path : Bytes).takeWhile (· ≠ 58)).filter (fun c => !isWhite c) =
      62 :: 47 :: (path.takeWhile (· ≠ 58)).filter fun c => !isWhite c := rfl
  have hno : ∀ m ∈ openModes, m.getD 1 0 ≠ 47 := by decide
  rw [isOpenMode, hmode, decide_eq_false_iff_not]
  exact fun hmem => hno _ hmem rfl

theorem isTrue_eq_false_iff {a : Bytes} : isTrue a = false ↔ a = [] ∨ a = [48] := by
  by_cases h : a = [] <;> simp [isTrue, h]

theorem orElse_nil_eq_iff {a : Bytes} : orElse a [] = a ↔ a ≠ [48] := by
  unfold orElse
  split_ifs with h
  · simp only [isTrue, Bool.and_eq_true, decide_eq_true_eq] at h
    simpa using h.2
  · rcases isTrue_eq_false_iff.1 (by simpa using h) with rfl | rfl <;> simp

theorem orElse_nil_sublist (a : Bytes) : (orElse a []).Sublist a := by
  unfold orElse
  split_ifs
  · exact List.Sublist.refl a
  · exact List.nil_sublist a

theorem isTrue_decimal {n : ℕ} (h : 0 < n) : isTrue (decimal n) = true := by
  have hzero : decimal n ≠ [48] := by
    intro hd
    have hv := value_decimal n
    rw [hd] at hv
    exact h.ne hv
  simp [Perl.isTrue, decimal_ne_nil, hzero]

theorem isTrue_of_mem {l : Bytes} {c : UInt8} (hc : c ∈ l) (h : c ≠ 48) : isTrue l = true := by
  have hne : l ≠ [] := List.ne_nil_of_mem hc
  have hzero : l ≠ [48] := by
    rintro rfl
    exact h (List.mem_singleton.1 hc)
  simp [Perl.isTrue, hne, hzero]

/-- A line end is only at the end of a line that is chomped. -/
theorem not_mem_chomp {l : Bytes} (h : 10 ∉ l.dropLast) : 10 ∉ chomp l := by
  unfold chomp
  split_ifs with hlast
  · exact h
  · intro hmem
    have hne : l ≠ [] := List.ne_nil_of_mem hmem
    rw [← List.dropLast_append_getLast hne, List.mem_append, List.mem_singleton] at hmem
    rcases hmem with hmem | hmem
    · exact h hmem
    · rw [List.getLast?_eq_some_getLast hne, ← hmem] at hlast
      exact hlast rfl

/-! ## Interpolated patterns -/

/-- What follows a match of `pat` at the start of a text. -/
def dropPattern : Bytes → Bytes → Option Bytes
  | [], l => some l
  | _ :: _, [] => none
  | p :: ps, c :: l => if p = c || (p = 46 && c ≠ 10) then dropPattern ps l else none

/-- A pattern without a dot matches itself. -/
theorem dropPattern_literal {pat : Bytes} (h : 46 ∉ pat) (l : Bytes) :
    dropPattern pat l = if pat <+: l then some (l.drop pat.length) else none := by
  induction pat generalizing l with
  | nil => rw [dropPattern, if_pos List.nil_prefix, List.length_nil, List.drop_zero]
  | cons p pat ih =>
    rw [List.mem_cons, not_or] at h
    cases l with
    | nil => rw [dropPattern, if_neg fun hpre => by cases List.prefix_nil.1 hpre]
    | cons c l =>
      have hp : (p = c || (p = 46 && c ≠ 10)) = decide (p = c) := by
        simp [Ne.symm h.1]
      rw [dropPattern, hp, ih h.2]
      by_cases hc : p = c
      · simp [hc, List.cons_prefix_cons]
      · simp [hc, List.cons_prefix_cons]

/-- What precedes and what follows the first match of `pat` in a text. -/
def findPattern (pat : Bytes) : Bytes → Option (Bytes × Bytes)
  | [] => (dropPattern pat []).map ([], ·)
  | c :: l =>
      match dropPattern pat (c :: l) with
      | some r => some ([], r)
      | none => (findPattern pat l).map fun m => (c :: m.1, m.2)

/-- `b =~ s/pat//`. -/
def substPattern (pat b : Bytes) : Bytes :=
  match findPattern pat b with
  | some m => m.1 ++ m.2
  | none => b

/-- `b =~ /pat$/`: the pattern at the end, or before a line end at the end. -/
def endsWith (pat b : Bytes) : Bool :=
  pat.length ≤ b.length && dropPattern pat (b.drop (b.length - pat.length)) = some [] ||
    pat.length < b.length && dropPattern pat (b.drop (b.length - pat.length - 1)) = some [10]

/-! ## Runs of digits -/

/-- `n + 1` runs of digits with `sep` between them, at the start of a text. -/
def runsAt (sep : UInt8) : ℕ → Bytes → Option (List Bytes)
  | 0, l => if l.takeWhile isDigit = [] then none else some [l.takeWhile isDigit]
  | n + 1, l =>
      if l.takeWhile isDigit = [] then none
      else
        match l.dropWhile isDigit with
        | c :: r => if c = sep then (runsAt sep n r).map (l.takeWhile isDigit :: ·) else none
        | [] => none

/-- The first match of such runs in a text, as `(\d+)` with separators between finds it. -/
def findRuns (sep : UInt8) (n : ℕ) : Bytes → Option (List Bytes)
  | [] => none
  | c :: l => (runsAt sep n (c :: l)).or (findRuns sep n l)

end Perl
