import Mathlib.Tactic.Linarith
import NoSpam.Base.Run
import NoSpam.Content.Rule

/-!
# What a size condition means

`check_size_value` on a sequence of checks made by one process.  A range means what it says
(`covers_iff`).  A single number is compared in double precision, where the factor 0.7 is a little
too small: a size that is exactly seven tenths of the number counts as larger when the rounding does
not make up for that (`nearSize_iff`).  A text without digits is compared with the bounds of the
last range (`fixedMeaning_iff`).
-/

namespace NoSpam.Content

open Text Perl Machine

/-! ## Doubles -/

section Doubles

variable {p : ℕ}

/-- The rounding error is at most half of the unit in the last place. -/
theorem round53_error (p : ℕ) :
    ∃ u, u * 2 ^ 52 ≤ p ∧ 2 * round53 p ≤ 2 * p + u ∧ 2 * p ≤ 2 * round53 p + u := by
  by_cases hp : p < 2 ^ 53
  · refine ⟨0, by omega, ?_, ?_⟩ <;> rw [round53, if_pos hp] <;> omega
  · have hlog : 52 ≤ Nat.log2 p := (Nat.le_log2 (by omega)).2 (by omega)
    refine ⟨2 ^ (Nat.log2 p - 52), ?_, ?_⟩
    · rw [← pow_add, Nat.sub_add_cancel hlog]
      exact Nat.log2_self_le (by omega)
    · have hdiv := Nat.div_add_mod p (2 ^ (Nat.log2 p - 52))
      have hmod := Nat.mod_lt p (Nat.two_pow_pos (Nat.log2 p - 52))
      rw [Nat.mul_comm] at hdiv
      rw [round53, if_neg hp]
      dsimp only
      split_ifs with hup
      · simp only [Bool.or_eq_true, Bool.and_eq_true, decide_eq_true_eq] at hup
        rw [Nat.add_mul, Nat.one_mul]
        omega
      · simp only [Bool.or_eq_true, Bool.and_eq_true, decide_eq_true_eq, not_or] at hup
        omega

/-- The relative error of a rounding. -/
theorem round53_bounds (p : ℕ) :
    2 ^ 53 * round53 p ≤ (2 ^ 53 + 1) * p ∧ (2 ^ 53 - 1) * p ≤ 2 ^ 53 * round53 p := by
  obtain ⟨u, hu, hupper, hlower⟩ := round53_error p
  omega

theorem round53_of_lt (h : p < 2 ^ 53) : round53 p = p := if_pos h

/-- A number that is written with the unit `2 ^ k` in the last place. -/
theorem round53_of_log2 {k q r : ℕ} (hk : 0 < k) (hlow : 2 ^ (k + 52) ≤ q * 2 ^ k + r)
    (hhigh : q * 2 ^ k + r < 2 ^ (k + 53)) (hr : r < 2 ^ k) :
    round53 (q * 2 ^ k + r) =
      if 2 * r > 2 ^ k || (2 * r = 2 ^ k && q % 2 = 1) then (q + 1) * 2 ^ k else q * 2 ^ k := by
  have hlog : Nat.log2 (q * 2 ^ k + r) = k + 52 := by
    rw [Nat.log2_eq_iff (by have hpos := Nat.two_pow_pos (k + 52); omega)]
    exact ⟨hlow, hhigh⟩
  have hbig : ¬q * 2 ^ k + r < 2 ^ 53 := by
    have hpow : 2 ^ 53 ≤ 2 ^ (k + 52) := Nat.pow_le_pow_right Nat.two_pos (by omega)
    omega
  have hdiv : (q * 2 ^ k + r) / 2 ^ k = q := by
    rw [Nat.add_comm, Nat.add_mul_div_right _ _ (Nat.two_pow_pos k), Nat.div_eq_of_lt hr,
      Nat.zero_add]
  have hmod : (q * 2 ^ k + r) % 2 ^ k = r := by
    rw [Nat.add_comm, Nat.add_mul_mod_self_right, Nat.mod_eq_of_lt hr]
  rw [round53, if_neg hbig, hlog, Nat.add_sub_cancel]
  dsimp only
  rw [hdiv, hmod]

/-- Seven is no power of two. -/
theorem seven_mul_ne_two_pow (t L : ℕ) : 7 * t ≠ 2 ^ L := fun he => by
  have hdvd : 7 ∣ 2 ^ L := ⟨t, he.symm⟩
  have hcoprime : Nat.Coprime 7 (2 ^ L) := Nat.Coprime.pow_right L (by decide)
  have hone := Nat.Coprime.eq_one_of_dvd hcoprime hdvd
  omega

/-- A multiple of `2 ^ 53` is an even number of smaller units. -/
theorem exists_even_mul {m L : ℕ} (hm : 0 < m) (hL : L < 52) :
    ∃ q, m * 2 ^ 53 = (2 * q + 2) * 2 ^ (L + 1) := by
  have hpos := Nat.mul_pos hm (Nat.two_pow_pos (51 - L))
  have hexp : 53 = 51 - L + 1 + (L + 1) := by omega
  have hpow : (2 : ℕ) ^ 53 = 2 * 2 ^ (51 - L) * 2 ^ (L + 1) := by
    rw [← pow_succ', ← pow_add, ← hexp]
  refine ⟨m * 2 ^ (51 - L) - 1, ?_⟩
  have hq : 2 * (m * 2 ^ (51 - L) - 1) + 2 = m * (2 * 2 ^ (51 - L)) := by
    rw [Nat.mul_left_comm]
    omega
  rw [hq, hpow, ← Nat.mul_assoc]

/-- The bounds of the numbers with a unit in the last place. -/
theorem two_pow_succ_add (L k : ℕ) : 2 ^ (L + 1 + k) = 2 ^ (k + 1) * 2 ^ L := by
  rw [← pow_add]
  exact congrArg (2 ^ ·) (by omega)

/-- Seven tenths of `10 * t` in double precision, where they are the integer `7 * t`. -/
theorem round53_seven_tenths {t : ℕ} (ht : 0 < t) (hlt : t < 2 ^ 45) :
    round53 (10 * t * 6305039478318694) < 7 * t * 2 ^ 53 ↔ 2 ^ Nat.log2 (7 * t) < 4 * t := by
  have hlow : 2 ^ Nat.log2 (7 * t) ≤ 7 * t := Nat.log2_self_le (by omega)
  have hhigh : 7 * t < 2 ^ (Nat.log2 (7 * t) + 1) := Nat.lt_log2_self
  have hL : Nat.log2 (7 * t) < 52 := (Nat.log2_lt (by omega)).2 (by omega)
  have hne := seven_mul_ne_two_pow t (Nat.log2 (7 * t))
  generalize Nat.log2 (7 * t) = L at *
  obtain ⟨q, hq⟩ := @exists_even_mul (7 * t) L (by omega) hL
  have hround := fun hlow hhigh hr =>
    @round53_of_log2 (L + 1) (2 * q + 1) (2 ^ (L + 1) - 4 * t) (Nat.succ_pos L) hlow hhigh hr
  have hodd : (2 * q + 1) % 2 = 1 := by omega
  have hpow53 : 2 ^ (L + 1 + 52) = 2 ^ 53 * 2 ^ L := two_pow_succ_add L 52
  have hpow54 : 2 ^ (L + 1 + 53) = 2 ^ 54 * 2 ^ L := two_pow_succ_add L 53
  have hpow : 2 ^ (L + 1) = 2 * 2 ^ L := pow_succ' 2 L
  have hsplit : (2 * q + 2) * 2 ^ (L + 1) = (2 * q + 1) * 2 ^ (L + 1) + 2 ^ (L + 1) := by ring
  have hnext : (2 * q + 1 + 1) * 2 ^ (L + 1) = (2 * q + 1) * 2 ^ (L + 1) + 2 ^ (L + 1) := by ring
  rw [hsplit] at hq
  simp only [hpow53, hpow54, hnext, hodd, decide_true, Bool.and_true, Bool.or_eq_true,
    decide_eq_true_eq] at hround
  rw [hpow] at hq hround hhigh
  generalize (2 * q + 1) * (2 * 2 ^ L) = A at *
  generalize 2 ^ L = V at *
  have hrest : 2 * V - 4 * t + 4 * t = 2 * V := by omega
  have hform : 10 * t * 6305039478318694 = A + (2 * V - 4 * t) := by linarith
  rw [hform, hround (by omega) (by omega) (by omega), hq]
  split_ifs with hup
  · refine iff_of_false (lt_irrefl _) ?_
    omega
  · refine iff_of_true ?_ ?_ <;> omega

/-- Thirteen tenths of `10 * t` in double precision, which are the integer `13 * t`. -/
theorem round53_thirteen_tenths {t : ℕ} (ht : 0 < t) (hlt : t < 2 ^ 45) :
    round53 (10 * t * 11709359031163290) = 13 * t * 2 ^ 53 := by
  have hlow : 2 ^ Nat.log2 (13 * t) ≤ 13 * t := Nat.log2_self_le (by omega)
  have hhigh : 13 * t < 2 ^ (Nat.log2 (13 * t) + 1) := Nat.lt_log2_self
  have hL : Nat.log2 (13 * t) < 52 := (Nat.log2_lt (by omega)).2 (by omega)
  generalize Nat.log2 (13 * t) = L at *
  obtain ⟨q, hq⟩ := @exists_even_mul (13 * t) L (by omega) hL
  have hround := fun hlow hhigh hr =>
    @round53_of_log2 (L + 1) (2 * q + 2) (4 * t) (Nat.succ_pos L) hlow hhigh hr
  have hpow53 : 2 ^ (L + 1 + 52) = 2 ^ 53 * 2 ^ L := two_pow_succ_add L 52
  have hpow54 : 2 ^ (L + 1 + 53) = 2 ^ 54 * 2 ^ L := two_pow_succ_add L 53
  have hpow : 2 ^ (L + 1) = 2 * 2 ^ L := pow_succ' 2 L
  rw [hpow53, hpow54] at hround
  rw [hpow] at hq hround hhigh
  generalize (2 * q + 2) * (2 * 2 ^ L) = A at *
  generalize 2 ^ L = V at *
  have hform : 10 * t * 11709359031163290 = A + 4 * t := by linarith
  have hdown : ¬(4 * t * 2 > 2 * V || (4 * t * 2 = 2 * V && (2 * q + 2) % 2 = 1)) = true := by
    simp only [Bool.or_eq_true, Bool.and_eq_true, decide_eq_true_eq, not_or]
    omega
  rw [Nat.mul_comm (4 * t) 2] at hdown
  rw [hform, hround (by omega) (by omega) (by omega), hq, if_neg hdown]

/-- The lower bound of a single number. -/
theorem lower_iff {n size : ℕ} (hn : n < 2 ^ 48) :
    round53 (n * 6305039478318694) < size * 2 ^ 53 ↔
      7 * n < 10 * size ∨ 10 * size = 7 * n ∧ 7 * 2 ^ Nat.log2 size < 4 * size := by
  obtain ⟨u, hu, hupper, hlower⟩ := round53_error (n * 6305039478318694)
  rcases lt_trichotomy (7 * n) (10 * size) with h | h | h
  · exact iff_of_true (by omega) (.inl h)
  · obtain ⟨t, rfl, rfl⟩ : ∃ t, n = 10 * t ∧ size = 7 * t := ⟨n / 10, by omega, by omega⟩
    rcases Nat.eq_zero_or_pos t with rfl | ht
    · decide
    · rw [round53_seven_tenths ht (by omega)]
      omega
  · refine iff_of_false (by omega) ?_
    omega

/-- The upper bound of a single number. -/
theorem upper_iff {n size : ℕ} (hn : n < 2 ^ 48) :
    size * 2 ^ 53 < round53 (n * 11709359031163290) ↔ 10 * size < 13 * n := by
  obtain ⟨u, hu, hupper, hlower⟩ := round53_error (n * 11709359031163290)
  rcases lt_trichotomy (10 * size) (13 * n) with h | h | h
  · exact iff_of_true (by omega) h
  · obtain ⟨t, rfl, rfl⟩ : ∃ t, n = 10 * t ∧ size = 13 * t := ⟨n / 10, by omega, by omega⟩
    rcases Nat.eq_zero_or_pos t with rfl | ht
    · decide
    · rw [round53_thirteen_tenths ht (by omega)]
      omega
  · exact iff_of_false (by omega) (by omega)

end Doubles

/-! ## A single number -/

/-- The comparison in double precision is the exact one: below `2 ^ 48` the size is not seven tenths
of the number with the rounding against it, and from there on no rounded bound has moved past it. -/
def Exact (n size : ℕ) : Prop :=
  if n < 2 ^ 48 then ¬(10 * size = 7 * n ∧ 7 * 2 ^ Nat.log2 size < 4 * size)
  else
    (round53 (round53 n * 6305039478318694) < size * 2 ^ 53 ↔ 7 * n < 10 * size) ∧
      (size * 2 ^ 53 < round53 (round53 n * 11709359031163290) ↔ 10 * size < 13 * n)

section Number

variable {n size : ℕ}

theorem nearSize_eq_true :
    nearSize n size = true ↔ round53 (round53 n * 6305039478318694) < size * 2 ^ 53 ∧
      size * 2 ^ 53 < round53 (round53 n * 11709359031163290) := by
  rw [nearSize, Bool.and_eq_true, decide_eq_true_eq, decide_eq_true_eq]

theorem nearSize_of_lt (hn : n < 2 ^ 48) :
    nearSize n size = true ↔
      (7 * n < 10 * size ∨ 10 * size = 7 * n ∧ 7 * 2 ^ Nat.log2 size < 4 * size) ∧
        10 * size < 13 * n := by
  have hself : round53 n = n := round53_of_lt (by omega)
  rw [nearSize_eq_true, hself, lower_iff hn, upper_iff hn]

/-- The products of a number are within a tenth. -/
theorem round53_product (n c : ℕ) :
    10 * round53 (round53 n * c) ≤ 11 * (n * c) ∧ 9 * (n * c) ≤ 10 * round53 (round53 n * c) := by
  obtain ⟨hn, hn'⟩ := round53_bounds n
  obtain ⟨hp, hp'⟩ := round53_bounds (round53 n * c)
  have hmul : 2 ^ 53 * (round53 n * c) ≤ (2 ^ 53 + 1) * (n * c) := by
    rw [← Nat.mul_assoc, ← Nat.mul_assoc]
    exact Nat.mul_le_mul_right c hn
  have hmul' : (2 ^ 53 - 1) * (n * c) ≤ 2 ^ 53 * (round53 n * c) := by
    rw [← Nat.mul_assoc, ← Nat.mul_assoc]
    exact Nat.mul_le_mul_right c hn'
  generalize round53 n * c = p at *
  generalize n * c = m at *
  omega

/-- Bounds that are within a tenth of the exact ones give the right answer only if both comparisons
are right: where one is off, the size is far from the other. -/
theorem and_iff_of_near {p q : ℕ} (hn : 0 < n)
    (hp : 10 * p ≤ 11 * (n * 6305039478318694) ∧ 9 * (n * 6305039478318694) ≤ 10 * p)
    (hq : 10 * q ≤ 11 * (n * 11709359031163290) ∧ 9 * (n * 11709359031163290) ≤ 10 * q) :
    (p < size * 2 ^ 53 ∧ size * 2 ^ 53 < q ↔ 7 * n < 10 * size ∧ 10 * size < 13 * n) ↔
      (p < size * 2 ^ 53 ↔ 7 * n < 10 * size) ∧ (size * 2 ^ 53 < q ↔ 10 * size < 13 * n) := by
  have hlower : ¬(p < size * 2 ^ 53 ↔ 7 * n < 10 * size) →
      size * 2 ^ 53 < q ∧ 10 * size < 13 * n := by
    intro hoff
    rcases lt_or_ge p (size * 2 ^ 53) with h | h
    · have hle : ¬7 * n < 10 * size := fun hlt => hoff (iff_of_true h hlt)
      omega
    · have hlt : 7 * n < 10 * size := by
        by_contra hle
        exact hoff (iff_of_false (not_lt.2 h) hle)
      omega
  have hupper : ¬(size * 2 ^ 53 < q ↔ 10 * size < 13 * n) →
      p < size * 2 ^ 53 ∧ 7 * n < 10 * size := by
    intro hoff
    rcases lt_or_ge (size * 2 ^ 53) q with h | h
    · have hle : ¬10 * size < 13 * n := fun hlt => hoff (iff_of_true h hlt)
      omega
    · have hlt : 10 * size < 13 * n := by
        by_contra hle
        exact hoff (iff_of_false (not_lt.2 h) hle)
      omega
  constructor
  · intro h
    refine ⟨?_, ?_⟩
    · by_contra hoff
      obtain ⟨hsize, hexact⟩ := hlower hoff
      exact hoff ⟨fun hp => (h.1 ⟨hp, hsize⟩).1, fun hp => (h.2 ⟨hp, hexact⟩).1⟩
    · by_contra hoff
      obtain ⟨hsize, hexact⟩ := hupper hoff
      exact hoff ⟨fun hq => (h.1 ⟨hsize, hq⟩).2, fun hq => (h.2 ⟨hexact, hq⟩).2⟩
  · rintro ⟨hsize, hexact⟩
    exact and_congr hsize hexact

/-- A single number is compared as it should be if and only if the comparison is exact. -/
theorem nearSize_iff :
    (nearSize n size = true ↔ 7 * n < 10 * size ∧ 10 * size < 13 * n) ↔ Exact n size := by
  rw [Exact]
  split_ifs with hn
  · rw [nearSize_of_lt hn]
    omega
  · rw [nearSize_eq_true]
    exact and_iff_of_near (by omega) (round53_product n _) (round53_product n _)

theorem not_nearSize_zero (n : ℕ) : nearSize n 0 = false := by
  rw [← Bool.not_eq_true, nearSize_eq_true, Nat.zero_mul]
  exact fun h => absurd h.1 (Nat.not_lt_zero _)

theorem not_nearSize_of_lt (h : 2 * n < size) : nearSize n size = false := by
  obtain ⟨hupper, -⟩ := round53_product n 11709359031163290
  rw [← Bool.not_eq_true, nearSize_eq_true]
  intro hnear
  omega

/-- From 4 on the size before a number is near it. -/
theorem nearSize_pred (h : 4 ≤ n) : nearSize n (n - 1) = true := by
  by_cases hn : n < 2 ^ 48
  · rw [nearSize_of_lt hn]
    omega
  · obtain ⟨hlow, -⟩ := round53_product n 6305039478318694
    obtain ⟨-, hhigh⟩ := round53_product n 11709359031163290
    rw [nearSize_eq_true]
    omega

end Number

/-! ## One check -/

section Check

variable {spec : Bytes}

theorem checkSizeValue_of_range {low high : ℕ} (h : matchRange spec = some (low, high)) (size : ℕ)
    (b : SizeBounds) :
    (checkSizeValue (some size) spec b).1 = (SizeBounds.mk low high).covers size := by
  simp only [checkSizeValue, h]
  rfl

theorem checkSizeValue_of_number {n : ℕ} (hrange : matchRange spec = none)
    (h : matchNumber spec = some n) (size : ℕ) (b : SizeBounds) :
    (checkSizeValue (some size) spec b).1 = nearSize n size := by
  simp only [checkSizeValue, hrange, h]
  rfl

theorem checkSizeValue_of_none (hrange : matchRange spec = none) (h : matchNumber spec = none)
    (size : ℕ) (b : SizeBounds) : (checkSizeValue (some size) spec b).1 = b.covers size := by
  simp only [checkSizeValue, hrange, h]

end Check

/-! ## Sequences of checks -/

/-- A size, if it is known, and what it is compared with. -/
structure SizeCheck where
  size : Option ℕ
  spec : Bytes

/-- The bounds that a check leaves. -/
def checkStep (b : SizeBounds) (c : SizeCheck) : SizeBounds := (checkSizeValue c.size c.spec b).2

/-- The answer of a check. -/
def checkAnswer (b : SizeBounds) (c : SizeCheck) : Bool := (checkSizeValue c.size c.spec b).1

/-- The size lies in the range, where 0 is no bound, or within three tenths of the number. -/
def Fits (c : SizeCheck) : Prop :=
  match c.size, matchRange c.spec, matchNumber c.spec with
  | some size, some (low, high), _ => low ≤ size ∧ (high = 0 ∨ size ≤ high)
  | some size, none, some n => 7 * n < 10 * size ∧ 10 * size < 13 * n
  | some _, none, none => False
  | none, _, _ => False

/-- Every check of the sequence answers whether the size fits. -/
def FixedMeaning (checks : List SizeCheck) : Prop :=
  Meets checkStep (fun b c => checkAnswer b c = true ↔ Fits c) {} checks

/-- A single number is compared exactly, and the bounds that are left do not cover a size that is
compared with a text without digits. -/
def Settled (b : SizeBounds) (c : SizeCheck) : Prop :=
  match c.size, matchRange c.spec, matchNumber c.spec with
  | some size, none, some n => Exact n size
  | some size, none, none => b.covers size = false
  | _, _, _ => True

section Sequences

theorem covers_iff {b : SizeBounds} {size : ℕ} :
    b.covers size = true ↔ b.low ≤ size ∧ (b.high = 0 ∨ size ≤ b.high) := by
  simp only [SizeBounds.covers, Bool.or_eq_true, Bool.and_eq_true, decide_eq_true_eq]
  omega

/-- A check answers whether the size fits if and only if it is settled. -/
theorem checkAnswer_iff (b : SizeBounds) (c : SizeCheck) :
    (checkAnswer b c = true ↔ Fits c) ↔ Settled b c := by
  obtain ⟨size, spec⟩ := c
  cases size with
  | none =>
    have hanswer : checkAnswer b ⟨none, spec⟩ = false := rfl
    rw [hanswer, Fits, Settled]
    exact iff_of_true (iff_of_false Bool.false_ne_true id) trivial
  | some size =>
    cases hrange : matchRange spec with
    | some range =>
      obtain ⟨low, high⟩ := range
      rw [checkAnswer, checkSizeValue_of_range hrange, covers_iff, Fits, Settled]
      simp [hrange]
    | none =>
      cases hnumber : matchNumber spec with
      | some n =>
        rw [checkAnswer, checkSizeValue_of_number hrange hnumber, Fits, Settled]
        simp only [hrange, hnumber]
        exact nearSize_iff
      | none =>
        rw [checkAnswer, checkSizeValue_of_none hrange hnumber, Fits, Settled]
        simp [hrange, hnumber]

/-- **What a size condition means**: every check of a sequence answers whether the size fits if and
only if every check is settled. -/
theorem fixedMeaning_iff (checks : List SizeCheck) :
    FixedMeaning checks ↔ Meets checkStep Settled {} checks :=
  meets_congr checkAnswer_iff

/-- At the start a text without digits matches every size. -/
theorem not_forall_fixedMeaning : ¬∀ checks, FixedMeaning checks := by
  intro h
  obtain ⟨hfits, -⟩ := h [⟨some 5, bytes "any"⟩]
  have hfind : matchRange (bytes "any") = none ∧ matchNumber (bytes "any") = none := by
    decide +kernel
  have hanswer : checkAnswer {} ⟨some 5, bytes "any"⟩ = true := by decide +kernel
  have hnot : ¬Fits ⟨some 5, bytes "any"⟩ := by
    rw [Fits]
    simp [hfind.1, hfind.2]
  exact hnot (hfits.1 hanswer)

end Sequences

end NoSpam.Content
