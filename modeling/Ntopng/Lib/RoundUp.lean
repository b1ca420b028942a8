/-
  Ntopng.Lib.RoundUp — rounding up to a power of two by smearing bits.

  `v ||| v >>> 1`, then `>>> 2`, `>>> 4`, … copies the top bit of `v` to every lower
  place. `Covers k x v` says that bit `i` of `v` is set when one of the bits `i .. i + k - 1`
  of `x` is: a smear by `k` doubles the window (`covers_smear`), and a window as wide as the
  word leaves exactly `2 ^ n - 1`, where `2 ^ n` is the first power above `x` (`covers_full`).
-/

import Mathlib

namespace Ntopng.Lib.RoundUp

def Covers (k x v : Nat) : Prop := ∀ i, v.testBit i = true ↔ ∃ j < k, x.testBit (i + j) = true

theorem covers_self (x : Nat) : Covers 1 x x := fun i => by
  constructor
  · intro h; exact ⟨0, by omega, h⟩
  · rintro ⟨j, hj, h⟩
    have : j = 0 := by omega
    subst this; exact h

theorem covers_smear {k x v : Nat} (h : Covers k x v) : Covers (k + k) x (v ||| v >>> k) := by
  intro i
  simp only [Nat.testBit_or, Nat.testBit_shiftRight, Bool.or_eq_true]
  rw [h i, h (k + i)]
  constructor
  · rintro (⟨j, hj, hx⟩ | ⟨j, hj, hx⟩)
    · exact ⟨j, by omega, hx⟩
    · exact ⟨k + j, by omega, by rw [show i + (k + j) = k + i + j by omega]; exact hx⟩
  · rintro ⟨j, hj, hx⟩
    by_cases hk : j < k
    · exact Or.inl ⟨j, hk, hx⟩
    · exact Or.inr ⟨j - k, by omega, by rw [show k + i + (j - k) = i + j by omega]; exact hx⟩

/-- A number between `2 ^ n` and `2 ^ (n + 1)` has its top bit at `n`. -/
theorem testBit_top {x n : Nat} (hlo : 2 ^ n ≤ x) (hhi : x < 2 ^ (n + 1)) : x.testBit n = true := by
  have hd : x / 2 ^ n = 1 := by
    have h1 : 1 ≤ x / 2 ^ n := (Nat.le_div_iff_mul_le (Nat.two_pow_pos n)).mpr (by omega)
    have h2 : x / 2 ^ n < 2 := Nat.div_lt_of_lt_mul (by rw [Nat.pow_succ] at hhi; exact hhi)
    omega
  simp [Nat.testBit, Nat.shiftRight_eq_div_pow, hd]

theorem covers_full {k n x v : Nat} (h : Covers k x v) (hlo : 2 ^ n ≤ x) (hhi : x < 2 ^ (n + 1)) (hk : n < k) :
    v = 2 ^ (n + 1) - 1 := by
  apply Nat.eq_of_testBit_eq
  intro i
  rw [Nat.testBit_two_pow_sub_one, Bool.eq_iff_iff, decide_eq_true_iff, h i]
  constructor
  · rintro ⟨j, _, hx⟩
    have hlt : 2 ^ (i + j) ≤ x := Nat.ge_two_pow_of_testBit hx
    have : i + j < n + 1 := (Nat.pow_lt_pow_iff_right (by omega)).mp (Nat.lt_of_le_of_lt hlt hhi)
    omega
  · intro hi
    exact ⟨n - i, by omega, by rw [show i + (n - i) = n by omega]; exact testBit_top hlo hhi⟩

theorem covers_zero {k v : Nat} (h : Covers k 0 v) : v = 0 := by
  apply Nat.eq_of_testBit_eq
  intro i
  have : ¬ v.testBit i = true := by rw [h i]; simp
  simpa using this

/-- Every positive number lies between two powers of two. -/
theorem exists_log {x : Nat} (hx : 0 < x) : ∃ n, 2 ^ n ≤ x ∧ x < 2 ^ (n + 1) :=
  ⟨x.log2, Nat.log2_self_le (by omega), Nat.lt_log2_self⟩

end Ntopng.Lib.RoundUp
