import NoSpam.Base.Form
import NoSpam.Base.Numeric

/-!
# Values in a URL

`urlencode` and `urldecode`.  A script that decodes a value itself, after PHP has done so and has
added slashes, gets back just the values without special characters (`decodedAgain_eq_iff`).
-/

namespace Php

open Text Form

/-- A hexadecimal digit in upper case. -/
def hexDigit (n : ℕ) : UInt8 := if n < 10 then digit n else UInt8.ofNat (55 + n)

/-- A byte after a per cent sign. -/
def escape (c : UInt8) : Bytes := [37, hexDigit (c.toNat / 16), hexDigit (c.toNat % 16)]

/-- What `urlencode` leaves as it is. -/
def isUnreserved (c : UInt8) : Bool := isAlpha c || isDigit c || c = 45 || c = 95 || c = 46

/-- `urlencode`. -/
def urlencode (b : Bytes) : Bytes :=
  b.flatMap fun c => if isUnreserved c then [c] else if c = 32 then [43] else escape c

/-- `urldecode`. -/
def urldecode : Bytes → Bytes
  | [] => []
  | c :: l =>
      if c = 43 then 32 :: urldecode l
      else if c = 37 then
        match l with
        | x :: y :: r =>
            if isXDigit x && isXDigit y then UInt8.ofNat (hexValue [x, y]) :: urldecode r
            else 37 :: urldecode (x :: y :: r)
        | l => 37 :: urldecode l
      else c :: urldecode l

theorem urldecode_of_ne {c : UInt8} (h43 : c ≠ 43) (h37 : c ≠ 37) (l : Bytes) :
    urldecode (c :: l) = c :: urldecode l := by
  rw [urldecode.eq_def]
  simp only [if_neg h43, if_neg h37]

theorem hexValue_hexDigit : ∀ n < 16, ∀ m < 16,
    isXDigit (hexDigit n) = true ∧ isXDigit (hexDigit m) = true ∧
      hexValue [hexDigit n, hexDigit m] = 16 * n + m := by
  decide

theorem urldecode_escape (c : UInt8) (l : Bytes) :
    urldecode (escape c ++ l) = c :: urldecode l := by
  have hlt := c.toNat_lt
  obtain ⟨hx, hy, hvalue⟩ := hexValue_hexDigit (c.toNat / 16) (by omega) (c.toNat % 16) (by omega)
  rw [escape, List.cons_append, List.cons_append, List.cons_append, List.nil_append,
    urldecode.eq_def]
  simp only [hx, hy, hvalue, Nat.div_add_mod, UInt8.ofNat_toNat, Bool.and_self, if_true]
  rfl

/-- What `urlencode` has written is read back. -/
theorem urldecode_urlencode (b : Bytes) : urldecode (urlencode b) = b := by
  induction b with
  | nil => rfl
  | cons c b ih =>
    rw [urlencode, List.flatMap_cons]
    split_ifs with hc hspace
    · have h43 : c ≠ 43 := by
        rintro rfl
        cases hc
      have h37 : c ≠ 37 := by
        rintro rfl
        cases hc
      rw [List.singleton_append, urldecode_of_ne h43 h37, ← urlencode, ih]
    · rw [List.singleton_append, urldecode.eq_def]
      simp only [if_true]
      rw [← urlencode, ih, hspace]
    · rw [urldecode_escape, ← urlencode, ih]

/-! ## Decoded a second time -/

/-- What `addslashes` puts a backslash before. -/
def isSpecial (c : UInt8) : Bool := c = 0 || c = 34 || c = 39 || c = 92

/-- Two hexadecimal digits come first. -/
def startsEscape : Bytes → Bool
  | x :: y :: _ => isXDigit x && isXDigit y
  | _ => false

/-- A text without special characters: no quotation marks, backslashes, zero bytes and plus signs,
and no escapes. -/
def isSimple : Bytes → Bool
  | [] => true
  | c :: l => !isSpecial c && c ≠ 43 && !(c = 37 && startsEscape l) && isSimple l

/-- A value that PHP has decoded and that a script decodes again. -/
def decodedAgain (b : Bytes) : Bytes := urldecode (addSlashes b)

theorem addSlashes_cons_of_special {c : UInt8} (h : isSpecial c = true) (l : Bytes) :
    addSlashes (c :: l) = 92 :: (if c = 0 then 48 else c) :: addSlashes l := by
  rw [addSlashes]
  split_ifs with h0 hquote
  · rfl
  · rfl
  · simp only [isSpecial, Bool.or_eq_true, decide_eq_true_eq] at h hquote
    tauto

theorem addSlashes_cons_of_not_special {c : UInt8} (h : isSpecial c = false) (l : Bytes) :
    addSlashes (c :: l) = c :: addSlashes l := by
  simp only [isSpecial, Bool.or_eq_false_iff, decide_eq_false_iff_not] at h
  rw [addSlashes, if_neg h.1.1.1, if_neg (by simp [h])]

theorem not_special_of_isXDigit {c : UInt8} (h : isXDigit c = true) : isSpecial c = false := by
  by_contra hs
  simp only [isSpecial, Bool.not_eq_false, Bool.or_eq_true, decide_eq_true_eq] at hs
  rcases hs with ((rfl | rfl) | rfl) | rfl <;> cases h

theorem isXDigit_of_special {c : UInt8} (h : isSpecial c = true) : isXDigit c = false := by
  by_contra hx
  rw [not_special_of_isXDigit (by simpa using hx)] at h
  cases h

theorem startsEscape_addSlashes (l : Bytes) : startsEscape (addSlashes l) = startsEscape l := by
  have hback : isXDigit 92 = false := rfl
  cases l with
  | nil => rfl
  | cons x l =>
    by_cases hx : isSpecial x = true
    · rw [addSlashes_cons_of_special hx]
      cases l <;> simp [startsEscape, hback, isXDigit_of_special hx]
    · rw [addSlashes_cons_of_not_special (by simpa using hx)]
      cases l with
      | nil => rfl
      | cons y l =>
        by_cases hy : isSpecial y = true
        · rw [addSlashes_cons_of_special hy]
          simp [startsEscape, hback, isXDigit_of_special hy]
        · rw [addSlashes_cons_of_not_special (by simpa using hy)]
          rfl

theorem urldecode_percent {l : Bytes} (h : startsEscape l = false) :
    urldecode (37 :: l) = 37 :: urldecode l := by
  rw [urldecode.eq_def]
  simp only [show ¬(37 : UInt8) = 43 from by decide, if_false, if_true]
  split
  · rename_i x y r
    rw [if_neg (by simpa [startsEscape] using h)]
  · rfl

/-- What becomes of the first character. -/
theorem decodedAgain_cons (c : UInt8) (l : Bytes) :
    (isSpecial c = true ∧
        decodedAgain (c :: l) = 92 :: (if c = 0 then 48 else c) :: decodedAgain l) ∨
      (c = 43 ∧ decodedAgain (c :: l) = 32 :: decodedAgain l) ∨
      (∃ x y r, c = 37 ∧ l = x :: y :: r ∧ isXDigit x = true ∧ isXDigit y = true ∧
        decodedAgain (c :: l) = UInt8.ofNat (hexValue [x, y]) :: decodedAgain r) ∨
      (isSpecial c = false ∧ c ≠ 43 ∧ ¬(c = 37 ∧ startsEscape l = true) ∧
        decodedAgain (c :: l) = c :: decodedAgain l) := by
  by_cases hc : isSpecial c = true
  · refine .inl ⟨hc, ?_⟩
    rw [decodedAgain, addSlashes_cons_of_special hc, urldecode_of_ne (by decide) (by decide)]
    simp only [isSpecial, Bool.or_eq_true, decide_eq_true_eq] at hc
    rcases hc with ((rfl | rfl) | rfl) | rfl <;>
      rw [urldecode_of_ne (by decide) (by decide)] <;> rfl
  have hns : isSpecial c = false := by simpa using hc
  by_cases h43 : c = 43
  · refine .inr (.inl ⟨h43, ?_⟩)
    rw [decodedAgain, addSlashes_cons_of_not_special hns, h43, urldecode.eq_def]
    rfl
  by_cases hescape : c = 37 ∧ startsEscape l = true
  · obtain ⟨rfl, hstart⟩ := hescape
    unfold startsEscape at hstart
    split at hstart
    · rename_i x y r
      obtain ⟨hx, hy⟩ := Bool.and_eq_true_iff.1 hstart
      refine .inr (.inr (.inl ⟨x, y, r, rfl, rfl, hx, hy, ?_⟩))
      rw [decodedAgain, addSlashes_cons_of_not_special hns,
        addSlashes_cons_of_not_special (not_special_of_isXDigit hx),
        addSlashes_cons_of_not_special (not_special_of_isXDigit hy), urldecode.eq_def]
      simp only [hx, hy, Bool.and_self, if_true]
      rfl
    · cases hstart
  · refine .inr (.inr (.inr ⟨hns, h43, hescape, ?_⟩))
    rw [decodedAgain, addSlashes_cons_of_not_special hns]
    by_cases h37 : c = 37
    · have hstart : startsEscape (addSlashes l) = false := by
        rw [startsEscape_addSlashes]
        exact eq_false_of_ne_true fun h => hescape ⟨h37, h⟩
      rw [h37, urldecode_percent hstart]
      rfl
    · exact urldecode_of_ne h43 h37 _

theorem decodedAgain_of_isSimple {l : Bytes} (h : isSimple l = true) : decodedAgain l = l := by
  induction l with
  | nil => rfl
  | cons c l ih =>
    simp only [isSimple, Bool.and_eq_true, Bool.not_eq_true', decide_eq_true_eq] at h
    obtain ⟨⟨⟨hs, h43⟩, hescape⟩, hl⟩ := h
    rcases decodedAgain_cons c l with
      ⟨hc, -⟩ | ⟨hc, -⟩ | ⟨x, y, r, rfl, rfl, hx, hy, -⟩ | ⟨-, -, -, he⟩
    · rw [hs] at hc
      cases hc
    · exact absurd hc h43
    · simp [startsEscape, hx, hy] at hescape
    · rw [he, ih hl]

/-- What has been lost at an escape is never made up for. -/
theorem not_isPrefix_decodedAgain {q l : Bytes} (hq : q ≠ []) (hback : 92 ∉ q) :
    ¬q ++ l <+: decodedAgain l := by
  induction hn : l.length using Nat.strong_induction_on generalizing q l with
  | _ n ih =>
    intro h
    obtain ⟨d, q, rfl⟩ := List.exists_cons_of_ne_nil hq
    rw [List.mem_cons, not_or] at hback
    cases l with
    | nil => cases List.prefix_nil.1 h
    | cons c l =>
      rw [List.length_cons] at hn
      rcases decodedAgain_cons c l with ⟨hc, he⟩ | ⟨rfl, he⟩ | ⟨x, y, r, rfl, rfl, hx, hy, he⟩ |
        ⟨hs, -, -, he⟩
      · rw [he, List.cons_append, List.cons_prefix_cons] at h
        exact hback.1 h.1.symm
      · rw [he, List.cons_append, List.cons_prefix_cons, List.append_cons] at h
        exact ih l.length (by omega) (by simp) (by simp [hback.2]) rfl h.2
      · have hback' : ∀ e, isXDigit e = true → e ≠ 92 := by
          rintro e he rfl
          cases he
        rw [he, List.cons_append, List.cons_prefix_cons, List.append_cons, List.append_cons,
          List.append_cons] at h
        simp only [List.length_cons] at hn
        refine ih r.length (by omega) (by simp) ?_ rfl h.2
        simp [hback.2, (hback' x hx).symm, (hback' y hy).symm]
      · have hc : 92 ≠ c := by
          rintro rfl
          cases hs
        rw [he, List.cons_append, List.cons_prefix_cons, List.append_cons] at h
        exact ih l.length (by omega) (by simp) (by simp [hback.2, hc]) rfl h.2

/-- Backslashes grow in number. -/
theorem replicate_append_decodedAgain_ne {l z : Bytes} (hz : ∀ c ∈ z.head?, c = 0) (n : ℕ) :
    List.replicate (n + 1) 92 ++ decodedAgain l ≠ l ++ z := by
  induction l generalizing n with
  | nil =>
    intro h
    have hhead := hz 92 (by rw [← List.nil_append z, ← h]; rfl)
    cases hhead
  | cons d l ih =>
    intro h
    have hd : d = 92 := by
      rw [List.replicate_succ, List.cons_append, List.cons_append] at h
      exact (List.cons.inj h).1.symm
    rcases decodedAgain_cons d l with ⟨-, he⟩ | ⟨hc, -⟩ | ⟨x, y, r, hc, -⟩ | ⟨hs, -⟩
    · refine ih (n + 1) ?_
      rw [he, hd, List.replicate_succ, List.cons_append, List.cons_append] at h
      have htail := (List.cons.inj h).2
      rw [List.replicate_succ', List.replicate_succ', List.append_assoc, List.append_assoc]
      exact htail
    · rw [hd] at hc
      cases hc
    · rw [hd] at hc
      cases hc
    · rw [hd] at hs
      cases hs

theorem isSimple_of_decodedAgain {l z : Bytes} (hz : ∀ c ∈ z.head?, c = 0)
    (h : decodedAgain l = l ++ z) : isSimple l = true := by
  induction l with
  | nil => rfl
  | cons c l ih =>
    rcases decodedAgain_cons c l with ⟨-, he⟩ | ⟨rfl, he⟩ | ⟨x, y, r, rfl, rfl, hx, hy, he⟩ |
      ⟨hs, h43, hescape, he⟩
    · rw [he, List.cons_append] at h
      obtain ⟨hc, hl⟩ := List.cons.inj h
      rw [← hc] at hl
      exact absurd hl (replicate_append_decodedAgain_ne hz 0)
    · rw [he, List.cons_append] at h
      cases (List.cons.inj h).1
    · rw [he, List.cons_append] at h
      have hback : 92 ∉ [x, y] := by
        intro hmem
        rcases List.mem_cons.1 hmem with rfl | hmem
        · cases hx
        · rw [← List.mem_singleton.1 hmem] at hy
          cases hy
      refine absurd ?_ (not_isPrefix_decodedAgain (l := r) (List.cons_ne_nil x [y]) hback)
      rw [(List.cons.inj h).2]
      exact List.prefix_append _ _
    · rw [he, List.cons_append] at h
      have hstart : ¬(decide (c = 37) && startsEscape l) = true := by simpa using hescape
      rw [isSimple, hs, ih (List.cons.inj h).2, eq_false_of_ne_true hstart, decide_eq_true h43]
      rfl

/-- Only a text without special characters comes back. -/
theorem decodedAgain_eq_iff (l : Bytes) : cstr (decodedAgain l) = l ↔ isSimple l = true := by
  constructor
  · intro h
    have hsplit := List.takeWhile_append_dropWhile (p := fun c : UInt8 => decide (c ≠ 0))
      (l := decodedAgain l)
    rw [← cstr, h] at hsplit
    refine isSimple_of_decodedAgain (fun c hc => ?_) hsplit.symm
    have hnot := List.head?_dropWhile_not (fun c : UInt8 => decide (c ≠ 0)) (decodedAgain l)
    rw [Option.mem_def.1 hc] at hnot
    simpa using hnot
  · intro h
    rw [decodedAgain_of_isSimple h, cstr, List.takeWhile_eq_self_iff]
    intro c hc
    induction l with
    | nil => cases hc
    | cons d l ih =>
      simp only [isSimple, Bool.and_eq_true] at h
      rcases List.mem_cons.1 hc with rfl | hc
      · have hs := h.1.1.1
        simp only [isSpecial, Bool.not_eq_true', Bool.or_eq_false_iff] at hs
        simpa using hs.1.1.1
      · exact ih h.2 hc

end Php
