import Mathlib.Data.Fin.Tuple.Basic
import Mathlib.Tactic.IntervalCases

/-!
# Integers of a 32-bit machine

PHP's integers on i386: a shift count is taken modulo 32, a difference that overflows becomes a
floating-point number, and such a number out of range becomes the smallest integer.  The mask of a
network that is computed with them is right up to 30 bits; from 31 bits on it is zero.
-/

namespace Php

/-- An integer of PHP. -/
abbrev Long := BitVec 32

/-- A number as an integer. -/
def toLong (z : ℤ) : Long := if -2 ^ 31 ≤ z ∧ z < 2 ^ 31 then BitVec.ofInt 32 z else 0x80000000

/-- `<<`. -/
def shl (a : Long) (n : ℤ) : Long := a <<< (n % 32).toNat

/-- `((1<<$n)-1)<<(32-$n)`. -/
def maskWord (n : ℤ) : Long := shl (toLong ((shl 1 n).toInt - 1)) (32 - n)

/-- `($a<<24)+($b<<16)+($c<<8)+$d`. -/
def quadWord (a b c d : ℤ) : Long :=
  toLong ((shl (toLong a) 24).toInt + (shl (toLong b) 16).toInt + (shl (toLong c) 8).toInt + d)

theorem maskWord_of_le {n : ℕ} (h : n ≤ 30) : maskWord n = BitVec.allOnes 32 <<< (32 - n) := by
  interval_cases n <;> decide

theorem maskWord_of_lt {n : ℕ} (h : 30 < n) (hle : n ≤ 32) : maskWord n = 0#32 := by
  interval_cases n <;> decide

/-- Two words agree under a mask if and only if they agree without their last bits. -/
theorem and_mask_eq_iff (x y : Long) (k : ℕ) :
    x &&& BitVec.allOnes 32 <<< k = y &&& BitVec.allOnes 32 <<< k ↔
      x.toNat / 2 ^ k = y.toNat / 2 ^ k := by
  have hshift : x >>> k = y >>> k ↔ x.toNat / 2 ^ k = y.toNat / 2 ^ k := by
    rw [← BitVec.toNat_inj, BitVec.toNat_ushiftRight, BitVec.toNat_ushiftRight,
      Nat.shiftRight_eq_div_pow, Nat.shiftRight_eq_div_pow]
  rw [← hshift]
  constructor
  · intro h
    apply BitVec.eq_of_getLsbD_eq
    intro i hi
    have hbit := congrArg (fun w => BitVec.getLsbD w (k + i)) h
    simp only [BitVec.getLsbD_and, BitVec.getLsbD_shiftLeft, BitVec.getLsbD_allOnes] at hbit
    rw [BitVec.getLsbD_ushiftRight, BitVec.getLsbD_ushiftRight]
    by_cases hlt : k + i < 32
    · simpa [hlt, show i < 32 by omega] using hbit
    · rw [BitVec.getLsbD_of_ge _ _ (by omega), BitVec.getLsbD_of_ge _ _ (by omega)]
  · intro h
    apply BitVec.eq_of_getLsbD_eq
    intro i hi
    simp only [BitVec.getLsbD_and, BitVec.getLsbD_shiftLeft, BitVec.getLsbD_allOnes]
    by_cases hle : k ≤ i
    · have hbit := congrArg (fun w => BitVec.getLsbD w (i - k)) h
      simp only [BitVec.getLsbD_ushiftRight, Nat.add_sub_cancel' hle] at hbit
      rw [hbit]
    · simp [show i < k by omega]

/-- The word of four octets. -/
theorem toNat_quadWord {a b c d : ℕ} (ha : a < 256) (hb : b < 256) (hc : c < 256) (hd : d < 256) :
    (quadWord a b c d).toNat = a * 2 ^ 24 + b * 2 ^ 16 + c * 2 ^ 8 + d := by
  have hlong : ∀ {n : ℕ}, n < 256 → toLong n = BitVec.ofNat 32 n := by
    intro n hn
    rw [toLong, if_pos (by omega), BitVec.ofInt_natCast]
  have hshift : ∀ {n : ℕ}, n < 256 →
      (shl (BitVec.ofNat 32 n) 24).toNat = n * 2 ^ 24 ∧
        (shl (BitVec.ofNat 32 n) 16).toNat = n * 2 ^ 16 ∧
          (shl (BitVec.ofNat 32 n) 8).toNat = n * 2 ^ 8 := by
    intro n hn
    simp only [shl, BitVec.toNat_shiftLeft, BitVec.toNat_ofNat, Nat.shiftLeft_eq, Int.reduceMod,
      Int.reduceToNat]
    omega
  obtain ⟨ha24, -, -⟩ := hshift ha
  obtain ⟨-, hb16, -⟩ := hshift hb
  obtain ⟨-, -, hc8⟩ := hshift hc
  have hrange : ∀ s : ℤ, -2 ^ 31 ≤ s → s < 2 ^ 31 → ((toLong s).toNat : ℤ) = s % 2 ^ 32 := by
    intro s hlow hhigh
    rw [toLong, if_pos ⟨hlow, hhigh⟩, BitVec.toNat_ofInt]
    omega
  rw [quadWord, hlong ha, hlong hb, hlong hc]
  simp only [BitVec.toInt_eq_toNat_cond, ha24, hb16, hc8]
  apply Int.natCast_inj.1
  rw [hrange] <;> split_ifs <;> omega

end Php
