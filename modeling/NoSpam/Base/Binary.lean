import Mathlib.Tactic.Ring
import NoSpam.Base.Text

/-!
# Integers of 64 bits and binary text

The shifts of Perl, which takes a number that is too large for the largest integer, drops the bits
that leave a word and turns a negative count round; and texts of zeros and ones, as `pack` and
`unpack` pass between them and numbers.  A number is got back from the text of its digits
(`packBits_binary`), and the text splits as the digits do (`binary_add`).
-/

namespace Perl

open Text

/-! ## Shifts -/

/-- A number as an unsigned integer. -/
def uv (n : ℕ) : ℕ := min n (2 ^ 64 - 1)

/-- `<<`. -/
def shl (n k : ℕ) : ℕ := uv n * 2 ^ k % 2 ^ 64

/-- `>>`. -/
def shr (n : ℕ) (k : ℤ) : ℕ :=
  if 0 ≤ k then uv n / 2 ^ k.toNat else uv n * 2 ^ (-k).toNat % 2 ^ 64

theorem uv_of_lt {n : ℕ} (h : n < 2 ^ 64) : uv n = n := min_eq_left (by omega)

theorem shl_of_lt {n k : ℕ} (h : n * 2 ^ k < 2 ^ 64) : shl n k = n * 2 ^ k := by
  have hle : n ≤ n * 2 ^ k := Nat.le_mul_of_pos_right n (Nat.two_pow_pos k)
  rw [shl, uv_of_lt (hle.trans_lt h), Nat.mod_eq_of_lt h]

theorem shr_natCast (n k : ℕ) : shr n k = uv n / 2 ^ k := by
  rw [shr, if_pos (Int.natCast_nonneg k), Int.toNat_natCast]

theorem shr_of_lt {n : ℕ} (h : n < 2 ^ 64) (k : ℕ) : shr n k = n / 2 ^ k := by
  rw [shr_natCast, uv_of_lt h]

/-! ## Binary text -/

/-- The last `k` binary digits of a number. -/
def binary : ℕ → ℕ → Bytes
  | 0, _ => []
  | k + 1, n => binary k (n / 2) ++ [if n % 2 = 1 then 49 else 48]

/-- `pack('B*')` as a number: the last bit of every symbol counts. -/
def packBits (b : Bytes) : ℕ := b.foldl (fun a c => 2 * a + c.toNat % 2) 0

@[simp] theorem length_binary (k n : ℕ) : (binary k n).length = k := by
  induction k generalizing n with
  | zero => rfl
  | succ k ih => rw [binary, List.length_append, ih, List.length_singleton]

theorem binary_add (j k n : ℕ) : binary (j + k) n = binary j (n / 2 ^ k) ++ binary k n := by
  induction k generalizing n with
  | zero => rw [pow_zero, Nat.div_one, binary, List.append_nil, Nat.add_zero]
  | succ k ih =>
    rw [← Nat.add_assoc, binary, binary, ih, List.append_assoc, Nat.div_div_eq_div_mul, pow_succ']

theorem foldl_packBits (b : Bytes) (a : ℕ) :
    b.foldl (fun a c => 2 * a + c.toNat % 2) a = a * 2 ^ b.length + packBits b := by
  induction b generalizing a with
  | nil => simp [packBits]
  | cons c b ih =>
    have hzero := ih (2 * 0 + c.toNat % 2)
    rw [packBits, List.foldl_cons, List.foldl_cons, ih, hzero, List.length_cons]
    ring

theorem packBits_append (a b : Bytes) :
    packBits (a ++ b) = packBits a * 2 ^ b.length + packBits b := by
  rw [packBits, List.foldl_append, foldl_packBits]
  rfl

theorem packBits_binary (k n : ℕ) : packBits (binary k n) = n % 2 ^ k := by
  induction k generalizing n with
  | zero => rw [pow_zero, Nat.mod_one]; rfl
  | succ k ih =>
    have hlast : packBits [if n % 2 = 1 then 49 else 48] = n % 2 := by
      rcases Nat.mod_two_eq_zero_or_one n with h | h
      · rw [if_neg (by omega), h]; rfl
      · rw [if_pos h, h]; rfl
    rw [binary, packBits_append, ih, hlast, List.length_singleton, pow_one, pow_succ',
      Nat.mod_mul (x := n) (a := 2) (b := 2 ^ k)]
    ring

theorem packBits_replicate_zero (k : ℕ) : packBits (List.replicate k 48) = 0 := by
  induction k with
  | zero => rfl
  | succ k ih =>
    rw [List.replicate_succ', packBits_append, ih, Nat.zero_mul]
    rfl

theorem packBits_replicate_one (k : ℕ) : packBits (List.replicate k 49) = 2 ^ k - 1 := by
  have hstep : packBits (List.replicate k 49) + 1 = 2 ^ k := by
    induction k with
    | zero => rfl
    | succ k ih =>
      have hlast : packBits [49] = 1 := rfl
      rw [List.replicate_succ', packBits_append, hlast, List.length_singleton, pow_succ 2 k, ← ih]
      ring
  omega

/-- The low bits set. -/
theorem lor_two_pow_sub_one (n k : ℕ) : n ||| (2 ^ k - 1) = n / 2 ^ k * 2 ^ k + (2 ^ k - 1) := by
  have hlt : 2 ^ k - 1 < 2 ^ k := Nat.sub_lt (Nat.two_pow_pos k) Nat.one_pos
  have hfields := Nat.two_pow_add_eq_or_of_lt hlt (n / 2 ^ k)
  rw [Nat.mul_comm, hfields]
  apply Nat.eq_of_testBit_eq
  intro i
  rw [Nat.testBit_or, Nat.testBit_or, Nat.testBit_two_pow_sub_one, Nat.testBit_two_pow_mul]
  by_cases hi : i < k
  · simp [hi]
  · have hk : k ≤ i := by omega
    simp [hi, hk, Nat.testBit_div_two_pow]

end Perl
