import NoSpam.Admin.RuleForm
import NoSpam.Base.Runs
import NoSpam.Content.SizeValue

/-!
# The sizes of the rule editor

The editor lets a range into a rule if both of its parts are numbers, and reads them with `intval`,
as integers of 32 bits; `check_size_value` looks for digits on both sides of the dash.  They mean
the same sizes if the digits are the numbers that the editor has read (`sizeValue_agrees_iff`).
-/

namespace NoSpam.Admin.RuleForm

open Text Perl Php Content

/-- The sizes between the numbers that the editor reads, where a second number 0 is no bound. -/
def InRange (v : Bytes) (size : ℕ) : Prop :=
  long (part 45 v 0) ≤ size ∧ (long (part 45 v 1) = 0 ∨ (size : ℤ) ≤ long (part 45 v 1))

/-- Digits stand on both sides of the dash, and they are the numbers that the editor reads.  Without
them the pattern finds a single number, which stands for itself up to 3. -/
def SameNumbers (v : Bytes) : Prop :=
  if (part 45 v 0).rtakeWhile isDigit ≠ [] ∧ (part 45 v 1).takeWhile isDigit ≠ [] then
    value ((part 45 v 0).rtakeWhile isDigit) = long (part 45 v 0) ∧
      value ((part 45 v 1).takeWhile isDigit) = long (part 45 v 1)
  else
    long (part 45 v 0) = long (part 45 v 1) ∧ 1 ≤ long (part 45 v 0) ∧ long (part 45 v 0) ≤ 3

section Agree

variable {v : Bytes}

/-- The parts of a size that the editor accepts. -/
theorem parts_of_sizeOk (h : sizeOk v = true) :
    ∃ x y, 45 ∉ x ∧ 45 ∉ y ∧ v = x ++ 45 :: y ∧ part 45 v 0 = x ∧ part 45 v 1 = y ∧
      isNumeric x = true ∧ isNumeric y = true ∧ ¬(long x > long y ∧ long y ≠ 0) := by
  simp only [sizeOk, Bool.and_eq_true, decide_eq_true_eq, Bool.not_eq_true',
    Bool.and_eq_false_iff, decide_eq_false_iff_not] at h
  obtain ⟨⟨⟨hlength, hx⟩, hy⟩, hle⟩ := h
  obtain ⟨x, y, hsplit⟩ := List.length_eq_two.1 hlength
  have hjoin : v = joinFields 45 [x, y] := by rw [← hsplit, joinFields, List.intercalate_splitOn]
  have hmem : ∀ f ∈ [x, y], 45 ∉ f := fun f hf => not_mem_of_mem_splitOn (l := v) (hsplit ▸ hf)
  have hx0 : part 45 v 0 = x := by rw [part, hsplit]; rfl
  have hy1 : part 45 v 1 = y := by rw [part, hsplit]; rfl
  rw [hx0] at hx hle
  rw [hy1] at hy hle
  refine ⟨x, y, hmem x (by simp), hmem y (by simp), ?_, hx0, hy1, hx, hy, ?_⟩
  · rw [hjoin, joinFields_cons]
    simp
  · rintro ⟨hgt, hne⟩
    rcases hle with hle | hle
    · exact hle hgt
    · exact hle hne

/-- What the editor reads before a dash and after it is a natural number: the first digits of the
part, the largest integer where they are more, or nothing. -/
theorem exists_long_eq {x : Bytes} (hx : 45 ∉ x) : ∃ n : ℕ, long x = n ∧ n < 2 ^ 31 ∧
    (value (firstRun x) = n ∨ n = 0 ∨ n = 2 ^ 31 - 1 ∧ n < value (firstRun x)) := by
  rcases atoi_eq_firstRun hx with hfirst | hzero
  · refine ⟨min (value (firstRun x)) (2 ^ 31 - 1), ?_, ?_, ?_⟩
    · rw [long, hfirst]
      omega
    · omega
    · omega
  · refine ⟨0, ?_, by decide, .inr (.inl rfl)⟩
    rw [long, hzero]
    rfl

theorem firstRun_ne_nil {x : Bytes} (h : ∃ c ∈ x, isDigit c = true) : firstRun x ≠ [] := by
  obtain ⟨c, hc, hdigit⟩ := h
  intro hnil
  cases hdrop : x.dropWhile fun c => !isDigit c with
  | nil =>
    have hall := List.dropWhile_eq_nil_iff.1 hdrop c hc
    rw [hdigit] at hall
    cases hall
  | cons d l =>
    have hd : isDigit d = true := by
      have hhead := List.head_dropWhile_not (fun c => !isDigit c) (l := x) (by simp [hdrop])
      simpa [hdrop] using hhead
    rw [firstRun, hdrop, List.takeWhile_cons_of_pos hd] at hnil
    cases hnil

/-- What the matcher finds in a size that the editor accepts. -/
theorem matchRange_of_parts {x y : Bytes} (hx : 45 ∉ x) (hy : 45 ∉ y) :
    matchRange (x ++ 45 :: y) =
      if x.rtakeWhile isDigit ≠ [] ∧ y.takeWhile isDigit ≠ [] then
        some (value (x.rtakeWhile isDigit), value (y.takeWhile isDigit))
      else none := by
  have hdash : isDigit 45 = false := rfl
  rw [matchRange, findRuns_append_cons hdash hx, findRuns_of_not_mem hy, Option.or_none, runsAt]
  by_cases hx' : x.rtakeWhile isDigit = []
  · rw [if_pos hx', if_neg fun h => h.1 hx']
  · rw [if_neg hx']
    by_cases hy' : y.takeWhile isDigit = []
    · rw [if_pos hy', if_neg fun h => h.2 hy']
      rfl
    · rw [if_neg hy', if_pos ⟨hx', hy'⟩]
      rfl

theorem matchNumber_of_parts {x : Bytes} (hx : isNumeric x = true) (y : Bytes) :
    matchNumber (x ++ 45 :: y) = some (value (firstRun x)) := by
  have hne := firstRun_ne_nil (exists_isDigit_of_isNumeric hx)
  have hfirst := @firstRun_append_cons 45 x rfl hne y
  rw [matchNumber, findRuns_zero, hfirst, if_neg hne]

/-- Two ranges, the second of them not empty, hold the same sizes if and only if they begin and end
with the same numbers. -/
theorem range_iff {n m low high : ℕ} (hle : ¬(n > m ∧ m ≠ 0)) :
    (∀ size, low ≤ size ∧ (high = 0 ∨ size ≤ high) ↔ n ≤ size ∧ (m = 0 ∨ size ≤ m)) ↔
      low = n ∧ high = m := by
  constructor
  · intro h
    have hn := (h n).2
    have hm := (h m).2
    have hlow := (h low).1
    have hhigh := (h high).1
    have hbeyond := (h (n + m + high + 1)).1
    have hbeyond' := (h (n + high + 1)).2
    omega
  · rintro ⟨rfl, rfl⟩
    exact fun size => Iff.rfl

/-- A single number has the sizes of a range if and only if it is at most 3 and alone in it. -/
theorem nearSize_range_iff {k n m : ℕ} (hle : ¬(n > m ∧ m ≠ 0))
    (hk : k = n ∨ n = 0 ∨ n = 2 ^ 31 - 1 ∧ n < k) (hm : m < 2 ^ 31) :
    (∀ size, nearSize k size = true ↔ n ≤ size ∧ (m = 0 ∨ size ≤ m)) ↔
      n = m ∧ 1 ≤ n ∧ n ≤ 3 := by
  constructor
  · intro h
    have hpos : n ≠ 0 := by
      rintro rfl
      have hzero := (h 0).2 ⟨le_rfl, by omega⟩
      rw [not_nearSize_zero] at hzero
      cases hzero
    have hm0 : m ≠ 0 := by
      rintro rfl
      have hfar := (h (2 * k + n + 1)).2 ⟨by omega, .inl rfl⟩
      rw [not_nearSize_of_lt (by omega)] at hfar
      cases hfar
    rcases hk with rfl | hlarge
    · have hthree : k ≤ 3 := by
        by_contra hgt
        have hpred := (h (k - 1)).1 (nearSize_pred (by omega))
        omega
      have hnear := (h m).2 ⟨by omega, .inr le_rfl⟩
      rw [nearSize_of_lt (by omega)] at hnear
      omega
    · -- the number is beyond the integers
      obtain ⟨hn, hlt⟩ := hlarge.resolve_left hpos
      have hpred := (h (k - 1)).1 (nearSize_pred (by omega))
      have hself := (h k).1 ((nearSize_of_lt (by omega)).2 (by omega))
      omega
  · rintro ⟨rfl, hlow, hhigh⟩ size
    obtain rfl : k = n := by omega
    rw [nearSize_of_lt (by omega)]
    have hlog : 7 * 2 ^ Nat.log2 size < 4 * size → 0 < size := by omega
    omega

/-- **The sizes of the rule editor**: the matcher finds in an accepted size the sizes between the
numbers that the editor reads if and only if it reads the same numbers. -/
theorem sizeValue_agrees_iff {p : Post} {i : ℕ} (h : checkParams p = true)
    (hi : i < p.count .sizeNum) :
    (∀ b size, (checkSizeValue (some size) (p.get (.sizeValue (i + 1))) b).1 = true ↔
      InRange (p.get (.sizeValue (i + 1))) size) ↔ SameNumbers (p.get (.sizeValue (i + 1))) := by
  rw [checkParams, Bool.and_eq_true, Bool.and_eq_true, List.all_eq_true, List.all_eq_true] at h
  obtain ⟨x, y, hx, hy, hv, hpx, hpy, hxnum, -, hle⟩ :=
    parts_of_sizeOk (h.1.2 i (List.mem_range.2 hi))
  have hmatch := matchRange_of_parts hx hy
  have hnumber := matchNumber_of_parts hxnum y
  obtain ⟨n, hn, -, hfirst⟩ := exists_long_eq hx
  obtain ⟨m, hm, hlt, -⟩ := exists_long_eq hy
  rw [hn, hm] at hle
  have hle : ¬(n > m ∧ m ≠ 0) := by omega
  have hin : ∀ size : ℕ, InRange (p.get (.sizeValue (i + 1))) size ↔
      n ≤ size ∧ (m = 0 ∨ size ≤ m) := fun size => by
    rw [InRange, hpx, hpy, hn, hm]
    omega
  have hbounds : Nonempty SizeBounds := ⟨{}⟩
  rw [SameNumbers, hpx, hpy, hn, hm]
  simp only [hin]
  split_ifs with hdigits
  · rw [if_pos hdigits, ← hv] at hmatch
    simp only [checkSizeValue_of_range hmatch, covers_iff]
    rw [forall_const, range_iff hle, Int.natCast_inj, Int.natCast_inj]
  · rw [if_neg hdigits, ← hv] at hmatch
    rw [← hv] at hnumber
    simp only [checkSizeValue_of_number hmatch hnumber]
    rw [forall_const, nearSize_range_iff hle hfirst hlt]
    omega

/-- One size, from 10 to 20. -/
def tenToTwenty : Post := fun f =>
  match f with
  | .sizeNum => some (bytes "1")
  | .sizeValue 1 => some (bytes "10-20")
  | _ => none

theorem sizeValue_agrees_tenToTwenty :
    checkParams tenToTwenty = true ∧ 0 < tenToTwenty.count .sizeNum ∧ ∀ b size,
      (checkSizeValue (some size) (tenToTwenty.get (.sizeValue 1)) b).1 = true ↔
        InRange (tenToTwenty.get (.sizeValue 1)) size := by
  have hcheck : checkParams tenToTwenty = true := by decide +kernel
  have hcount : 0 < tenToTwenty.count .sizeNum := by decide +kernel
  refine ⟨hcheck, hcount, (sizeValue_agrees_iff hcheck hcount).2 ?_⟩
  rw [SameNumbers]
  decide +kernel

/-- One size, from one and a half to 3. -/
def oneAndAHalf : Post := fun f =>
  match f with
  | .sizeNum => some (bytes "1")
  | .sizeValue 1 => some (bytes "1.5-3")
  | _ => none

/-- The editor reads 1 and 3, the matcher 5 and 3. -/
theorem not_forall_agree :
    ¬∀ (p : Post) (i : ℕ), checkParams p = true → i < p.count .sizeNum →
      ∀ b size, (checkSizeValue (some size) (p.get (.sizeValue (i + 1))) b).1 = true ↔
        InRange (p.get (.sizeValue (i + 1))) size := by
  intro h
  have htwo := h oneAndAHalf 0 (by decide +kernel) (by decide +kernel) {} 2
  have hanswer : (checkSizeValue (some 2) (oneAndAHalf.get (.sizeValue 1)) {}).1 = false := by
    decide +kernel
  have hin : InRange (oneAndAHalf.get (.sizeValue 1)) 2 := by
    rw [InRange]
    decide +kernel
  rw [hanswer] at htwo
  cases htwo.2 hin

end Agree

end NoSpam.Admin.RuleForm
