import Mathlib.Data.Nat.Sqrt
import Mathlib.Tactic.Linarith
import Mathlib.Tactic.Ring
import Nolrem.Lib.CInt

/-!
# The integer square root

`IntegerSqrt` of `kernel/CLIPDRAW/fully_pageable/intsqrt.c`, which is the square root rounded down and
does not overflow.
-/

namespace Nolrem.Cd

open Nolrem.Lib

/-- The loop that finds the bit to begin with. -/
def lowerBit (x : Int) : Nat → Int → Int
  | 0, bit => bit
  | fuel + 1, bit => if bit > x then lowerBit x fuel (bit / 4) else bit

/-- The loop that adds the bits of the root. It has at most 16 rounds, one for each bit. -/
def sqrtLoop : Nat → Int → Int → Int → Option Int
  | 0, _, r, _ => some r
  | fuel + 1, x, r, bit =>
    if bit = 0 then some r
    else do
      let sum ← cInt (r + bit)
      if x ≥ sum then
        let x ← cInt (x - sum)
        let r ← cInt (r / 2 + bit)
        sqrtLoop fuel x r (bit / 4)
      else sqrtLoop fuel x (r / 2) (bit / 4)

/-- `IntegerSqrt`, `none` if it overflows -/
def integerSqrt (x : Int) : Option Int :=
  if x ≤ 0 then some 0
  else if x ≤ 2 then some 1
  else sqrtLoop 16 x 0 (lowerBit x 16 1073741824)

theorem lowerBit_spec {x : Int} (hx : 1 ≤ x) (k fuel : Nat) (hf : k ≤ fuel) (h : x < 4 ^ (k + 1)) :
    ∃ j ≤ k, lowerBit x fuel (4 ^ k) = 4 ^ j ∧ x < 4 ^ (j + 1) := by
  induction k generalizing fuel with
  | zero =>
    refine ⟨0, Nat.le_refl 0, ?_, h⟩
    cases fuel with
    | zero => rfl
    | succ fuel => exact if_neg (by omega)
  | succ k ih =>
    obtain ⟨fuel, rfl⟩ := Nat.exists_eq_succ_of_ne_zero (show fuel ≠ 0 by omega)
    rw [lowerBit]
    split_ifs with hgt
    · obtain ⟨j, hj, heq, hlt⟩ := ih fuel (Nat.le_of_succ_le_succ hf) hgt
      refine ⟨j, Nat.le_succ_of_le hj, ?_, hlt⟩
      rw [pow_succ, Int.mul_ediv_cancel _ (by decide), heq]
    · exact ⟨k + 1, Nat.le_refl _, rfl, h⟩

/-- The sum that is compared in a round fits: `p` is the bit, and `2 * q * p` what the root has. -/
theorem fits_sum {p q n : Int} (hp : 1 ≤ p) (hp' : p ≤ 268435456 ∨ p = 1073741824) (hq : 0 ≤ q)
    (hn : q * q * (4 * p) ≤ n) (hfits : n ≤ 2147483647) : q * (4 * p) + p ≤ 2147483647 := by
  rcases hp' with hp' | rfl
  · -- the square of the sum would be more than `n` allows
    by_contra hgt
    have hlow : 1879048192 ≤ q * (4 * p) := by omega
    have hsq : 1879048192 * 1879048192 ≤ q * (4 * p) * (q * (4 * p)) :=
      Int.mul_le_mul hlow hlow (by decide) (by omega)
    have hsplit : q * (4 * p) * (q * (4 * p)) = q * q * (4 * p) * (4 * p) := by ring
    have hbound : q * q * (4 * p) * (4 * p) ≤ 2147483647 * (4 * 268435456) :=
      Int.mul_le_mul (by omega) (by omega) (by omega) (by decide)
    omega
  · have h0 : q = 0 := by nlinarith
    subst h0
    decide

/--
The invariant of the loop: `q` are the bits of the root so far, and `x` is what is left of the
number.
-/
theorem sqrtLoop_spec (k fuel : Nat) (hf : k ≤ fuel) (hk : k ≤ 16) {x q : Int} (hx : 0 ≤ x)
    (hq : 0 ≤ q) (hlt : x < (2 * q + 1) * 4 ^ k) (hfits : x + q * q * 4 ^ k ≤ 2147483647) :
    ∃ s, sqrtLoop fuel x (q * 4 ^ k) (4 ^ k / 4) = some s ∧ 0 ≤ s ∧ s * s ≤ x + q * q * 4 ^ k ∧
      x + q * q * 4 ^ k < (s + 1) * (s + 1) := by
  induction k generalizing fuel x q with
  | zero =>
    rw [pow_zero, Int.mul_one] at hlt
    rw [pow_zero, Int.mul_one, Int.mul_one]
    refine ⟨q, ?_, hq, by omega, by linarith⟩
    cases fuel <;> rfl
  | succ k ih =>
    obtain ⟨fuel, rfl⟩ := Nat.exists_eq_succ_of_ne_zero (show fuel ≠ 0 by omega)
    have hbit : (4 : Int) ^ (k + 1) / 4 = 4 ^ k := by
      rw [pow_succ, Int.mul_ediv_cancel _ (by decide)]
    have hpow : (4 : Int) ^ (k + 1) = 4 * 4 ^ k := by rw [pow_succ, Int.mul_comm]
    have hp : (1 : Int) ≤ 4 ^ k := one_le_pow₀ (by decide)
    have hp' : (4 : Int) ^ k ≤ 268435456 ∨ (4 : Int) ^ k = 1073741824 := by
      rcases Nat.lt_or_ge k 15 with h15 | h15
      · exact Or.inl (pow_le_pow_right₀ (by decide) (Nat.le_of_lt_succ h15))
      · obtain rfl : k = 15 := by omega
        exact Or.inr rfl
    rw [hbit]
    rw [hpow] at hlt hfits ⊢
    generalize (4 : Int) ^ k = p at ih hlt hfits hp hp' ⊢
    have hsum := fits_sum hp hp' hq (show q * q * (4 * p) ≤ x + q * q * (4 * p) by omega) hfits
    have hqp : 0 ≤ q * (4 * p) := Int.mul_nonneg hq (by omega)
    have hhalf : q * (4 * p) / 2 = 2 * q * p := by
      rw [show q * (4 * p) = 2 * q * p * 2 by ring, Int.mul_ediv_cancel _ (by decide)]
    have hhalf0 : 0 ≤ 2 * q * p := Int.mul_nonneg (by omega) (by omega)
    have hx' : x ≤ 2147483647 := by
      have := Int.mul_nonneg (Int.mul_nonneg hq hq) (show 0 ≤ 4 * p by omega)
      omega
    rw [sqrtLoop, if_neg (by omega), cInt_of_fits ⟨by omega, hsum⟩, hhalf]
    simp only [Option.bind_eq_bind, Option.bind_some]
    split_ifs with hge
    · -- the bit belongs to the root
      have hx2 : q * (4 * p) = 2 * (2 * q * p) := by ring
      rw [cInt_of_fits ⟨by omega, by omega⟩, Option.bind_some, cInt_of_fits ⟨by omega, by omega⟩,
        Option.bind_some]
      have hr : 2 * q * p + p = (2 * q + 1) * p := by ring
      have htotal : x - (q * (4 * p) + p) + (2 * q + 1) * (2 * q + 1) * p =
          x + q * q * (4 * p) := by ring
      rw [hr, ← htotal]
      exact ih fuel (Nat.le_of_succ_le_succ hf) (Nat.le_of_succ_le hk) (by omega) (by omega)
        (by linarith) (htotal ▸ hfits)
    · have htotal : x + 2 * q * (2 * q) * p = x + q * q * (4 * p) := by ring
      rw [← htotal]
      exact ih fuel (Nat.le_of_succ_le_succ hf) (Nat.le_of_succ_le hk) hx (by omega)
        (by linarith) (htotal ▸ hfits)

/-- Both loops, with as many rounds as they need or more -/
theorem sqrtLoop_lowerBit {x : Int} (hx : 1 ≤ x) (h : x ≤ 2147483647) {n : Nat} (hn : 16 ≤ n) :
    sqrtLoop n x 0 (lowerBit x n 1073741824) = some (Nat.sqrt x.toNat : Int) := by
  obtain ⟨j, hj, heq, hlt⟩ := lowerBit_spec hx 15 n (by omega)
    (show x < 4 ^ (15 + 1) by norm_num; omega)
  have hstart : lowerBit x n 1073741824 = 4 ^ (j + 1) / 4 := by
    rw [pow_succ, Int.mul_ediv_cancel _ (by decide), ← heq]
    rfl
  obtain ⟨s, hs, hs0, hle, hgt⟩ := sqrtLoop_spec (j + 1) n (by omega) (by omega)
    (show 0 ≤ x by omega) (Int.le_refl 0) (by linarith) (by linarith)
  rw [hstart, show (0 : Int) = 0 * 4 ^ (j + 1) by ring, hs]
  congr 1
  obtain ⟨m, rfl⟩ := Int.eq_ofNat_of_zero_le (show 0 ≤ x by omega)
  obtain ⟨r, rfl⟩ := Int.eq_ofNat_of_zero_le hs0
  rw [Int.toNat_natCast, Int.natCast_inj, Nat.eq_sqrt]
  simp only [Int.mul_zero, Int.zero_mul, Int.add_zero] at hle hgt
  exact ⟨by exact_mod_cast hle, by exact_mod_cast hgt⟩

/-- The root is rounded down, and nothing overflows. -/
theorem integerSqrt_eq {x : Int} (h : x ≤ 2147483647) :
    integerSqrt x = some (Nat.sqrt x.toNat : Int) := by
  unfold integerSqrt
  split_ifs with h0 h2
  · rw [Int.toNat_of_nonpos h0]
    rfl
  · have hroot : (1 : Nat) = Nat.sqrt x.toNat := Nat.eq_sqrt.mpr ⟨by omega, by omega⟩
    rw [← hroot]
    rfl
  · exact sqrtLoop_lowerBit (by omega) h (Nat.le_refl 16)

/-- `IntegerSqrt` is the root rounded down, for every `int`, and no value on the way overflows. -/
theorem integerSqrt_exact (x : Int) (hmin : -2147483648 ≤ x) (hmax : x ≤ 2147483647) :
    ∃ r, integerSqrt x = some r ∧ (x < 0 → r = 0) ∧
      (0 ≤ x → 0 ≤ r ∧ r * r ≤ x ∧ x < (r + 1) * (r + 1)) ∧
      (2 < x → ∀ n, 16 ≤ n → sqrtLoop n x 0 (lowerBit x n 1073741824) = some r) := by
  refine ⟨Nat.sqrt x.toNat, integerSqrt_eq hmax, fun hneg => ?_, fun hx => ?_, fun hx n hn => ?_⟩
  · rw [Int.toNat_of_nonpos (by omega)]
    rfl
  · obtain ⟨n, rfl⟩ := Int.eq_ofNat_of_zero_le hx
    rw [Int.toNat_natCast]
    exact ⟨Int.natCast_nonneg _, by exact_mod_cast Nat.sqrt_le n,
      by exact_mod_cast Nat.lt_succ_sqrt n⟩
  · exact sqrtLoop_lowerBit (by omega) hmax hn

theorem integerSqrt_exact_max : ∃ r, integerSqrt 2147483647 = some r ∧
    ((2147483647 : Int) < 0 → r = 0) ∧
      (0 ≤ (2147483647 : Int) → 0 ≤ r ∧ r * r ≤ 2147483647 ∧ 2147483647 < (r + 1) * (r + 1)) ∧
      (2 < (2147483647 : Int) → ∀ n, 16 ≤ n →
        sqrtLoop n 2147483647 0 (lowerBit 2147483647 n 1073741824) = some r) :=
  integerSqrt_exact 2147483647 (by decide) (by decide)

end Nolrem.Cd
