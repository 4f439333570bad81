import Mathlib.Data.Nat.Digits.Lemmas
import Mathlib.Tactic.IntervalCases
import NoSpam.Base.Text

/-!
# Decimal numbers

Numbers written in decimal (`decimal`, `showInt`) and read back the way C reads them (`atoi`):
white space, an optional sign, and the longest run of digits.  `length_showInt_le_iff` and
`atoi_bounds` say how large a number a field of bounded width can carry in either direction.
-/

namespace Text

/-- An ASCII digit. -/
def isDigit (c : UInt8) : Bool := 48 ≤ c && c ≤ 57

/-- White space as C sees it in a byte string. -/
def isSpace (c : UInt8) : Bool := c = 32 || (9 ≤ c && c ≤ 13)

/-- The digit `d`. -/
def digit (d : ℕ) : UInt8 := UInt8.ofNat (48 + d)

/-- A natural number in decimal, without leading zeros. -/
def decimal (n : ℕ) : Bytes :=
  if n = 0 then [48] else ((Nat.digits 10 n).map digit).reverse

/-- The number a run of digits stands for. -/
def value (l : Bytes) : ℕ := l.foldl (fun a c => 10 * a + (c.toNat - 48)) 0

/-- An integer in decimal. -/
def showInt : ℤ → Bytes
  | .ofNat n => decimal n
  | .negSucc n => 45 :: decimal (n + 1)

/-- C's `atoi`. -/
def atoi (l : Bytes) : ℤ :=
  match l.dropWhile isSpace with
  | [] => 0
  | c :: t =>
      if c = 45 then -(value (t.takeWhile isDigit) : ℤ)
      else if c = 43 then value (t.takeWhile isDigit)
      else value ((c :: t).takeWhile isDigit)

theorem toNat_digit {d : ℕ} (h : d < 10) : (digit d).toNat - 48 = d := by
  interval_cases d <;> rfl

theorem isDigit_digit {d : ℕ} (h : d < 10) : isDigit (digit d) = true := by
  interval_cases d <;> rfl

theorem toNat_of_isSpace {c : UInt8} (h : isSpace c = true) : c.toNat ≤ 32 := by
  simp only [isSpace, Bool.or_eq_true, Bool.and_eq_true, decide_eq_true_eq,
    UInt8.le_iff_toNat_le] at h
  rcases h with rfl | ⟨-, h⟩
  · decide
  · exact h.trans (by decide)

theorem not_isSpace_of_lt {c : UInt8} (h : 32 < c.toNat) : isSpace c = false := by
  by_contra hspace
  exact absurd (toNat_of_isSpace (by simpa using hspace)) (Nat.not_le.2 h)

theorem not_isSpace_of_isDigit {c : UInt8} (h : isDigit c = true) : isSpace c = false := by
  simp only [isDigit, Bool.and_eq_true, decide_eq_true_eq, UInt8.le_iff_toNat_le] at h
  exact not_isSpace_of_lt (lt_of_lt_of_le (by decide) h.1)

theorem isDigit_of_mem_decimal {n : ℕ} {c : UInt8} (h : c ∈ decimal n) : isDigit c = true := by
  unfold decimal at h
  split_ifs at h with h0
  · rw [List.mem_singleton] at h
    subst h
    rfl
  · simp only [List.mem_reverse, List.mem_map] at h
    obtain ⟨d, hd, rfl⟩ := h
    exact isDigit_digit (Nat.digits_lt_base (by norm_num) hd)

theorem decimal_ne_nil (n : ℕ) : decimal n ≠ [] := by
  unfold decimal
  split_ifs with h
  · simp
  · simpa [Nat.digits_eq_nil_iff_eq_zero] using h

theorem value_decimal (n : ℕ) : value (decimal n) = n := by
  unfold decimal
  split_ifs with h
  · subst h
    rfl
  · have key : ∀ ds : List ℕ, (∀ d ∈ ds, d < 10) →
        (ds.map digit).foldr (fun c a => 10 * a + (c.toNat - 48)) 0 = Nat.ofDigits 10 ds := by
      intro ds hds
      induction ds with
      | nil => rfl
      | cons d ds ih =>
        rw [List.map_cons, List.foldr_cons, ih fun x hx => hds x (by simp [hx]),
          toNat_digit (hds d (by simp)), Nat.ofDigits_cons]
        simp [Nat.add_comm]
    rw [value, List.foldl_reverse, key _ fun d hd => Nat.digits_lt_base (by norm_num) hd,
      Nat.ofDigits_digits]

theorem decimal_inj {n m : ℕ} (h : decimal n = decimal m) : n = m := by
  rw [← value_decimal n, h, value_decimal]

theorem length_decimal_le_iff (n k : ℕ) : (decimal n).length ≤ k + 1 ↔ n < 10 ^ (k + 1) := by
  unfold decimal
  split_ifs with h
  · subst h
    simp
  · rw [List.length_reverse, List.length_map]
    exact Nat.digits_length_le_iff (by norm_num) n

theorem length_showInt_le_iff (z : ℤ) (k : ℕ) :
    (showInt z).length ≤ k + 2 ↔ -(10 ^ (k + 1) : ℤ) < z ∧ z < 10 ^ (k + 2) := by
  cases z with
  | ofNat n =>
    have h := length_decimal_le_iff n (k + 1)
    have hp : (0 : ℤ) < 10 ^ (k + 1) := by positivity
    rw [showInt, h, Int.ofNat_eq_natCast]
    constructor
    · intro hn
      exact ⟨by omega, by exact_mod_cast hn⟩
    · rintro ⟨-, hn⟩
      exact_mod_cast hn
  | negSucc n =>
    have h := length_decimal_le_iff (n + 1) k
    have hp : (0 : ℤ) < 10 ^ (k + 2) := by positivity
    rw [showInt, List.length_cons, Nat.add_le_add_iff_right, h, Int.negSucc_eq]
    constructor
    · intro hn
      have hn' : (n : ℤ) + 1 < 10 ^ (k + 1) := by exact_mod_cast hn
      exact ⟨by omega, by omega⟩
    · rintro ⟨hn, -⟩
      have hn' : (n : ℤ) + 1 < 10 ^ (k + 1) := by omega
      exact_mod_cast hn'

/-! ## Reading back -/

theorem foldl_value_lt {l : Bytes} (h : ∀ c ∈ l, isDigit c = true) (a : ℕ) :
    l.foldl (fun a c => 10 * a + (c.toNat - 48)) a < (a + 1) * 10 ^ l.length := by
  induction l generalizing a with
  | nil => simp
  | cons c l ih =>
    have hc := h c (by simp)
    simp only [isDigit, Bool.and_eq_true, decide_eq_true_eq, UInt8.le_iff_toNat_le] at hc
    have hd : c.toNat - 48 ≤ 9 := by
      have := hc.2
      simp only [UInt8.toNat_ofNat] at this
      omega
    calc (c :: l).foldl (fun a c => 10 * a + (c.toNat - 48)) a
        < (10 * a + (c.toNat - 48) + 1) * 10 ^ l.length := ih (fun x hx => h x (by simp [hx])) _
      _ ≤ ((a + 1) * 10) * 10 ^ l.length := Nat.mul_le_mul_right _ (by omega)
      _ = (a + 1) * 10 ^ (c :: l).length := by rw [List.length_cons, pow_succ']; ring

theorem value_lt {l : Bytes} (h : ∀ c ∈ l, isDigit c = true) : value l < 10 ^ l.length := by
  simpa [value] using foldl_value_lt h 0

theorem value_takeWhile_lt {l : Bytes} {k : ℕ} (h : l.length ≤ k) :
    value (l.takeWhile isDigit) < 10 ^ k := by
  have hlen : (l.takeWhile isDigit).length ≤ k := (List.takeWhile_prefix _).length_le.trans h
  exact (value_lt fun c hc => List.mem_takeWhile_imp hc).trans_le
    (Nat.pow_le_pow_right (by norm_num) hlen)

/-- A field of width `k + 2` holds no number outside this range. -/
theorem atoi_bounds {l : Bytes} {k : ℕ} (h : l.length ≤ k + 2) :
    -(10 ^ (k + 1) : ℤ) < atoi l ∧ atoi l < 10 ^ (k + 2) := by
  have hp : (0 : ℤ) < 10 ^ (k + 1) := by positivity
  have hq : (0 : ℤ) < 10 ^ (k + 2) := by positivity
  have hle : (10 : ℤ) ^ (k + 1) ≤ 10 ^ (k + 2) := pow_le_pow_right₀ (by norm_num) (by omega)
  have hdrop : (l.dropWhile isSpace).length ≤ k + 2 :=
    (List.dropWhile_suffix _).length_le.trans h
  unfold atoi
  split
  · exact ⟨by omega, by omega⟩
  · rename_i c t ht
    rw [ht, List.length_cons] at hdrop
    have hv : (value (t.takeWhile isDigit) : ℤ) < 10 ^ (k + 1) := by
      exact_mod_cast value_takeWhile_lt (by omega)
    have hw : (value ((c :: t).takeWhile isDigit) : ℤ) < 10 ^ (k + 2) := by
      exact_mod_cast value_takeWhile_lt (by simpa using hdrop)
    split_ifs <;> exact ⟨by omega, by omega⟩

theorem takeWhile_decimal (n : ℕ) : (decimal n).takeWhile isDigit = decimal n :=
  List.takeWhile_eq_self_iff.2 fun _ hc => isDigit_of_mem_decimal hc

theorem atoi_decimal (n : ℕ) : atoi (decimal n) = n := by
  obtain ⟨c, t, hct⟩ := List.exists_cons_of_ne_nil (decimal_ne_nil n)
  have hd : isDigit c = true := isDigit_of_mem_decimal (n := n) (by simp [hct])
  have hs : isSpace c = false := not_isSpace_of_isDigit hd
  have h45 : c ≠ 45 := by rintro rfl; exact absurd hd (by decide)
  have h43 : c ≠ 43 := by rintro rfl; exact absurd hd (by decide)
  have htake := takeWhile_decimal n
  have hval := value_decimal n
  rw [hct] at htake hval
  unfold atoi
  rw [hct, List.dropWhile_cons_of_neg (by simp [hs])]
  simp only [if_neg h45, if_neg h43, htake, hval]

theorem dropWhile_decimal (n : ℕ) : (decimal n).dropWhile isSpace = decimal n := by
  obtain ⟨c, t, hct⟩ := List.exists_cons_of_ne_nil (decimal_ne_nil n)
  have hd : isDigit c = true := isDigit_of_mem_decimal (n := n) (by simp [hct])
  rw [hct, List.dropWhile_cons_of_neg (by simp [not_isSpace_of_isDigit hd])]

/-- What does not begin with a digit does not matter behind a number. -/
theorem atoi_append {b w : Bytes} (hb : b.dropWhile isSpace ≠ [])
    (h : ∀ c ∈ w.head?, isDigit c = false) : atoi (b ++ w) = atoi b := by
  obtain ⟨c, t, hct⟩ := List.exists_cons_of_ne_nil hb
  have ht := takeWhile_append_of_head h t
  have hcons := takeWhile_append_of_head h (c :: t)
  rw [List.cons_append] at hcons
  unfold atoi
  rw [List.dropWhile_append, hct, if_neg (by simp), List.cons_append]
  simp only [ht, hcons]

theorem atoi_eq_zero {b : Bytes} (h : ∀ c ∈ b, isDigit c = false) : atoi b = 0 := by
  have hdigits : ∀ l : Bytes, (∀ c ∈ l, c ∈ b) → value (l.takeWhile isDigit) = 0 := by
    intro l hl
    cases l with
    | nil => rfl
    | cons c l => rw [List.takeWhile_cons_of_neg (by simp [h c (hl c List.mem_cons_self)])]; rfl
  have hmem : ∀ c ∈ b.dropWhile isSpace, c ∈ b := fun c hc => (List.dropWhile_suffix _).subset hc
  unfold atoi
  cases hdrop : b.dropWhile isSpace with
  | nil => rfl
  | cons c t =>
    rw [hdrop] at hmem
    have ht := hdigits t fun c' hc' => hmem c' (List.mem_cons_of_mem c hc')
    simp only [ht, hdigits (c :: t) hmem]
    split_ifs <;> rfl

theorem atoi_showInt (z : ℤ) : atoi (showInt z) = z := by
  cases z with
  | ofNat n => exact atoi_decimal n
  | negSucc n =>
    have h : (45 : UInt8) :: decimal (n + 1) = (45 :: decimal (n + 1)).dropWhile isSpace := by
      rw [List.dropWhile_cons_of_neg (by decide)]
    unfold atoi showInt
    rw [← h]
    simp only [if_true, takeWhile_decimal, value_decimal]
    rfl

theorem not_mem_showInt {c : UInt8} (hd : isDigit c = false) (hm : c ≠ 45) (z : ℤ) :
    c ∉ showInt z := by
  intro h
  cases z with
  | ofNat n => exact absurd (isDigit_of_mem_decimal h) (by simp [hd])
  | negSucc n =>
    rcases List.mem_cons.1 h with h | h
    · exact hm h
    · exact absurd (isDigit_of_mem_decimal h) (by simp [hd])

end Text
