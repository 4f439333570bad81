import NoSpam.Base.Decimal

/-!
# PHP strings

Byte strings under the functions of PHP: `trim`, `rtrim`, `intval`, `is_numeric`, `explode`,
`utf8_encode`, `utf8_decode`, and the view that `ereg` has of a string, up to the first zero byte.
-/

namespace Php

open Text

/-- What `trim` takes away. -/
def isTrim (c : UInt8) : Bool := c = 32 || c = 9 || c = 10 || c = 13 || c = 0 || c = 11

/-- `rtrim`. -/
def rtrim (b : Bytes) : Bytes := b.rdropWhile isTrim

/-- `trim`. -/
def trim (b : Bytes) : Bytes := (rtrim b).dropWhile isTrim

/-- The string as C sees it. -/
def cstr (b : Bytes) : Bytes := b.takeWhile (· ≠ 0)

/-- `intval`, of a number that an integer can hold. -/
def intval (b : Bytes) : ℤ := atoi b

/-- `intval` with integers of 32 bits, of which the nearest stands for a number beyond them. -/
def long (b : Bytes) : ℤ := max (-2 ^ 31) (min (2 ^ 31 - 1) (atoi b))

/-- A letter. -/
def isAlpha (c : UInt8) : Bool := (65 ≤ c && c ≤ 90) || (97 ≤ c && c ≤ 122)

/-- A hexadecimal digit. -/
def isXDigit (c : UInt8) : Bool := isDigit c || (65 ≤ c && c ≤ 70) || (97 ≤ c && c ≤ 102)

/-- What follows an optional sign. -/
def dropSign : Bytes → Bytes
  | [] => []
  | c :: l => if c = 43 ∨ c = 45 then l else c :: l

/-- Nothing, or an exponent. -/
def isExponent : Bytes → Bool
  | [] => true
  | c :: l => (c = 69 || c = 101) && dropSign l ≠ [] && (dropSign l).all isDigit

/-- Digits with a point among them or at an end, or without one, and an exponent or none. -/
def isFloat (b : Bytes) : Bool :=
  let i := b.takeWhile isDigit
  match b.dropWhile isDigit with
  | [] => i ≠ []
  | c :: l =>
      if c = 46 then
        (i ≠ [] || l.takeWhile isDigit ≠ []) && isExponent (l.dropWhile isDigit)
      else i ≠ [] && isExponent (c :: l)

/-- `0x` and hexadecimal digits. -/
def isHex : Bytes → Bool
  | 48 :: c :: l => (c = 88 || c = 120) && l ≠ [] && l.all isXDigit
  | _ => false

/-- `is_numeric`. -/
def isNumeric (b : Bytes) : Bool :=
  let b := b.dropWhile isSpace
  isHex b || isFloat (dropSign b)

/-- One of the variables of `list(...) = explode(...)`; what is missing is null. -/
def part (sep : UInt8) (l : Bytes) (n : ℕ) : Bytes := (l.splitOn sep).getD n []

/-- `utf8_encode`: every byte is taken for a Latin-1 character. -/
def utf8Encode (b : Bytes) : Bytes :=
  b.flatMap fun c => if c < 128 then [c] else [192 + c / 64, 128 + c % 64]

/-- A Latin-1 character, or a question mark for what is none. -/
def latin (n : ℕ) : UInt8 := if n < 256 then UInt8.ofNat n else 63

/-- The bits that a byte of a sequence contributes. -/
def low (m : ℕ) (c : UInt8) : ℕ := c.toNat % m

/-- `utf8_decode`; what is missing of a sequence at the end is read as zero. -/
def utf8Decode : Bytes → Bytes
  | [] => []
  | c :: l =>
      if c < 192 then c :: utf8Decode l
      else if c < 224 then
        match l with
        | [] => [latin (64 * low 64 c)]
        | d :: l => latin (64 * low 64 c + low 64 d) :: utf8Decode l
      else if c < 240 then
        match l with
        | d :: e :: l => latin (4096 * low 16 c + 64 * low 64 d + low 64 e) :: utf8Decode l
        | l => [latin (4096 * low 16 c + 64 * low 64 (l.headD 0))]
      else
        match l with
        | d :: e :: f :: l =>
            latin (262144 * low 8 c + 4096 * low 64 d + 64 * low 64 e + low 64 f) :: utf8Decode l
        | l => [latin (262144 * low 8 c + 4096 * low 64 (l.headD 0) +
            64 * low 64 (l.tail.headD 0))]

theorem utf8Decode_utf8Encode (b : Bytes) : utf8Decode (utf8Encode b) = b := by
  have hbyte : ∀ c : UInt8, ¬c < 128 → ∀ l,
      utf8Decode ((192 + c / 64) :: (128 + c % 64) :: l) = c :: utf8Decode l := by
    intro c hc l
    have hlt := c.toNat_lt
    have hhigh : (192 + c / 64).toNat = 192 + c.toNat / 64 := by
      rw [UInt8.toNat_add, UInt8.toNat_div, show (192 : UInt8).toNat = 192 from rfl,
        show (64 : UInt8).toNat = 64 from rfl]
      omega
    have hlow : (128 + c % 64).toNat = 128 + c.toNat % 64 := by
      rw [UInt8.toNat_add, UInt8.toNat_mod, show (128 : UInt8).toNat = 128 from rfl,
        show (64 : UInt8).toNat = 64 from rfl]
      omega
    have hc' : 128 ≤ c.toNat := by simpa [UInt8.lt_iff_toNat_lt] using hc
    have h192 : ¬192 + c / 64 < 192 := by
      rw [UInt8.lt_iff_toNat_lt, hhigh, show (192 : UInt8).toNat = 192 from rfl]
      omega
    have h224 : 192 + c / 64 < 224 := by
      rw [UInt8.lt_iff_toNat_lt, hhigh, show (224 : UInt8).toNat = 224 from rfl]
      omega
    have hn : 64 * low 64 (192 + c / 64) + low 64 (128 + c % 64) = c.toNat := by
      rw [low, low, hhigh, hlow]
      omega
    rw [utf8Decode, if_neg h192, if_pos h224]
    simp only [hn, latin, if_pos hlt, UInt8.ofNat_toNat]
  induction b with
  | nil => rfl
  | cons c b ih =>
    rw [utf8Encode, List.flatMap_cons]
    split_ifs with hc
    · have h192 : c < 192 := by
        rw [UInt8.lt_iff_toNat_lt] at hc ⊢
        exact hc.trans (by decide)
      rw [List.singleton_append, utf8Decode.eq_def]
      simp only [if_pos h192]
      rw [← utf8Encode, ih]
    · rw [List.cons_append, List.cons_append, List.nil_append, hbyte c hc, ← utf8Encode, ih]

/-! ## Trimming -/

theorem rtrim_rtrim (b : Bytes) : rtrim (rtrim b) = rtrim b := List.rdropWhile_idempotent _ _

theorem trim_rtrim (b : Bytes) : trim (rtrim b) = trim b := by rw [trim, trim, rtrim_rtrim]

theorem isPrefix_rtrim (b : Bytes) : rtrim b <+: b := List.rdropWhile_prefix _ _

theorem rtrim_append_newline (b : Bytes) : rtrim (b ++ [10]) = rtrim b :=
  List.rdropWhile_concat_pos isTrim b 10 rfl

theorem rtrim_eq_self {b : Bytes} (h : ∀ c ∈ b, isTrim c = false) : rtrim b = b := by
  rw [rtrim, List.rdropWhile_eq_self_iff]
  intro hne
  simp [h _ (List.getLast_mem hne)]

theorem rtrim_concat {c : UInt8} (h : isTrim c = true) (b : Bytes) : rtrim (b ++ [c]) = rtrim b :=
  List.rdropWhile_concat_pos isTrim b c h

theorem trim_concat {c : UInt8} (h : isTrim c = true) (b : Bytes) : trim (b ++ [c]) = trim b := by
  rw [trim, trim, rtrim_concat h]

theorem trim_singleton {c : UInt8} (h : isTrim c = true) : trim [c] = [] := trim_concat h []

theorem rtrim_append_cons {c : UInt8} (h : isTrim c = false) (b b' : Bytes) :
    rtrim (b ++ c :: b') = b ++ c :: rtrim b' := by
  induction b' using List.reverseRecOn with
  | nil =>
    rw [rtrim, List.rdropWhile_concat_neg isTrim b c (by simp [h])]
    rfl
  | append_singleton b' d ih =>
    rw [← List.cons_append, ← List.append_assoc]
    by_cases hd : isTrim d = true
    · rw [rtrim_concat hd, rtrim_concat hd, ih]
    · rw [rtrim, rtrim, List.rdropWhile_concat_neg isTrim _ d hd,
        List.rdropWhile_concat_neg isTrim _ d hd, List.append_assoc, List.cons_append]

/-- A blank in front is trimmed away. -/
theorem trim_cons {c : UInt8} (h : isTrim c = true) (b : Bytes) : trim (c :: b) = trim b := by
  induction b using List.reverseRecOn with
  | nil => exact trim_singleton h
  | append_singleton b d ih =>
    rw [← List.cons_append]
    by_cases hd : isTrim d = true
    · rw [trim_concat hd, trim_concat hd, ih]
    · rw [trim, trim, rtrim, rtrim, List.rdropWhile_concat_neg isTrim _ d hd,
        List.rdropWhile_concat_neg isTrim _ d hd, List.cons_append, List.dropWhile_cons_of_pos h]

theorem rtrim_eq_self_of_trim {b : Bytes} (h : trim b = b) : rtrim b = b := by
  refine (isPrefix_rtrim b).eq_of_length_le ?_
  have hle := (List.dropWhile_suffix isTrim (l := rtrim b)).length_le
  rwa [← trim, h] at hle

theorem isTrim_head_of_trim {c : UInt8} {b : Bytes} (h : trim (c :: b) = c :: b) :
    isTrim c = false := by
  by_contra hc
  rw [trim_cons (by simpa using hc)] at h
  have hle := (List.dropWhile_suffix isTrim (l := rtrim b)).length_le.trans
    (isPrefix_rtrim b).length_le
  rw [← trim, h, List.length_cons] at hle
  omega

theorem trim_trim (b : Bytes) : trim (trim b) = trim b := by
  have hr : rtrim (trim b) = trim b := by
    rw [rtrim, List.rdropWhile_eq_self_iff]
    intro hne
    have hsplit : (rtrim b).takeWhile isTrim ++ trim b = rtrim b := List.takeWhile_append_dropWhile
    have hnil : rtrim b ≠ [] := fun hnil => hne (by rw [trim, hnil]; rfl)
    have hlast := List.rdropWhile_last_not isTrim b hnil
    have hgetLast : (trim b).getLast hne = (rtrim b).getLast hnil := by
      rw [← List.getLast_append_of_ne_nil (l := (rtrim b).takeWhile isTrim) (by simp [hne]) hne]
      simp only [hsplit]
    rwa [hgetLast]
  have hdrop : (trim b).dropWhile isTrim = trim b := List.dropWhile_idempotent _ _
  rw [trim, hr, hdrop]

theorem mem_of_mem_trim {c : UInt8} {b : Bytes} (h : c ∈ trim b) : c ∈ b :=
  (isPrefix_rtrim b).subset ((List.dropWhile_suffix isTrim).subset h)

/-- What stands around a symbol that is not trimmed. -/
theorem trim_append_cons {c : UInt8} (hc : isTrim c = false) {b b' : Bytes} (h : trim b = b)
    (h' : trim b' = b') : trim (b ++ c :: b') = b ++ c :: b' := by
  rw [trim, rtrim_append_cons hc, rtrim_eq_self_of_trim h']
  cases b with
  | nil => exact List.dropWhile_cons_of_neg (by simp [hc])
  | cons d b => exact List.dropWhile_cons_of_neg (by simp [isTrim_head_of_trim h])

theorem rtrim_append {b b' : Bytes} (h : rtrim b' = b') (hne : b' ≠ []) :
    rtrim (b ++ b') = b ++ b' := by
  obtain ⟨a, c, rfl⟩ := (List.eq_nil_or_concat' b').resolve_left hne
  have hc : isTrim c = false := by
    by_contra hc
    rw [rtrim_concat (by simpa using hc)] at h
    have hle := (isPrefix_rtrim a).length_le
    rw [h, List.length_append, List.length_singleton] at hle
    omega
  rw [← List.append_assoc]
  exact rtrim_append_cons hc (b ++ a) []

theorem not_isDigit_of_isTrim {c : UInt8} (h : isTrim c = true) : isDigit c = false := by
  simp only [isTrim, Bool.or_eq_true, decide_eq_true_eq] at h
  rcases h with ((((rfl | rfl) | rfl) | rfl) | rfl) | rfl <;> rfl

theorem long_eq_intval {b : Bytes} (h : -2 ^ 31 ≤ intval b) (h' : intval b < 2 ^ 31) :
    long b = intval b := by
  rw [intval] at h h' ⊢
  rw [long]
  omega

theorem long_le_intval {b : Bytes} (h : 0 < long b) : long b ≤ intval b := by
  rw [long] at h ⊢
  rw [intval]
  omega

theorem long_decimal {n : ℕ} (h : n < 2 ^ 31) : long (decimal n) = n := by
  have hvalue : intval (decimal n) = n := atoi_decimal n
  rw [long_eq_intval, hvalue] <;> rw [hvalue] <;> omega

theorem intval_rtrim (b : Bytes) : intval (rtrim b) = intval b := by
  have hsplit : rtrim b ++ b.rtakeWhile isTrim = b := List.rdropWhile_append_rtakeWhile
  have hw : ∀ c ∈ b.rtakeWhile isTrim, isDigit c = false := fun c hc =>
    not_isDigit_of_isTrim (List.mem_rtakeWhile_imp hc)
  by_cases hb : (rtrim b).dropWhile isSpace = []
  · have hspace : ∀ c ∈ rtrim b, isDigit c = false := by
      intro c hc
      by_contra hdigit
      have hnot := not_isSpace_of_isDigit (by simpa using hdigit)
      rw [List.dropWhile_eq_nil_iff.1 hb c hc] at hnot
      cases hnot
    have hall : ∀ c ∈ b, isDigit c = false := by
      rw [← hsplit]
      exact List.forall_mem_append.2 ⟨hspace, hw⟩
    rw [intval, intval, atoi_eq_zero hspace, atoi_eq_zero hall]
  · have happend := atoi_append hb fun c hc => hw c (List.mem_of_mem_head? hc)
    rw [hsplit] at happend
    exact happend.symm

theorem isSpace_of_isTrim {c : UInt8} (h : isTrim c = true) (h0 : c ≠ 0) : isSpace c = true := by
  simp only [isTrim, Bool.or_eq_true, decide_eq_true_eq] at h
  rcases h with ((((rfl | rfl) | rfl) | rfl) | rfl) | rfl
  all_goals first | rfl | exact absurd rfl h0

/-- Trimming changes no number but a zero. -/
theorem intval_trim {b : Bytes} (h : intval b ≠ 0) : intval (trim b) = intval b := by
  induction b with
  | nil => rfl
  | cons c b ih =>
    by_cases hc : isTrim c = true
    · have hne : c ≠ 0 := by
        rintro rfl
        exact h rfl
      have hdrop : intval (c :: b) = intval b := by
        rw [intval, intval, atoi, atoi, List.dropWhile_cons_of_pos (isSpace_of_isTrim hc hne)]
      rw [hdrop] at h ⊢
      rw [trim_cons hc, ih h]
    · have hr : rtrim (c :: b) = c :: rtrim b := rtrim_append_cons (by simpa using hc) [] b
      rw [trim, hr, List.dropWhile_cons_of_neg hc, ← hr, intval_rtrim]

/-! ## Parts of a line -/

theorem part_of_not_mem {sep : UInt8} {l : Bytes} (h : sep ∉ l) (n : ℕ) :
    part sep l n = if n = 0 then l else [] := by
  rw [part, List.splitOn_eq_singleton h]
  cases n <;> rfl

theorem part_append {sep : UInt8} {l : Bytes} (h : sep ∉ l) (r : Bytes) (n : ℕ) :
    part sep (l ++ sep :: r) n = if n = 0 then l else part sep r (n - 1) := by
  rw [part, List.splitOn_append_cons_self_of_not_mem h]
  cases n <;> rfl

/-- The first part stands at the front. -/
theorem isPrefix_part_zero (sep : UInt8) (l : Bytes) : part sep l 0 <+: l := by
  obtain ⟨f, fs, hfs⟩ := List.exists_cons_of_ne_nil (List.splitOn_ne_nil sep l)
  have hl : f ++ fs.flatMap (sep :: ·) = l := by
    rw [← joinFields_cons, ← hfs, joinFields, List.intercalate_splitOn]
  rw [part, hfs]
  exact ⟨_, hl⟩

theorem sep_not_mem_part (sep : UInt8) (l : Bytes) (n : ℕ) : sep ∉ part sep l n := by
  rw [part, List.getD_eq_getElem?_getD]
  cases hn : (l.splitOn sep)[n]? with
  | none => exact List.not_mem_nil
  | some f => exact not_mem_of_mem_splitOn (List.mem_of_getElem? hn)

theorem mem_of_mem_part {sep c : UInt8} {l : Bytes} {n : ℕ} (h : c ∈ part sep l n) : c ∈ l := by
  rw [part, List.getD_eq_getElem?_getD] at h
  cases hn : (l.splitOn sep)[n]? with
  | none =>
    rw [hn] at h
    cases h
  | some f =>
    rw [hn] at h
    exact mem_of_mem_splitOn (List.mem_of_getElem? hn) h

end Php
