/-
  Ntopng.Lib.Ramp — going down from one number to another in a number of equal steps.

  `ramp b v n p` is where one stands after `p` of the `n` steps from `b` down to `v`, in whole
  numbers: the way gone is rounded down.
-/

import Mathlib

namespace Ntopng.Lib.Ramp

def ramp (b v n p : ℕ) : ℕ := b - (b - v) * p / n

variable {b v n p q : ℕ}

@[simp] theorem ramp_zero : ramp b v n 0 = b := by simp [ramp]

@[simp] theorem ramp_self : ramp v v n p = v := by simp [ramp]

theorem gone_le (hp : p ≤ n) : (b - v) * p / n ≤ b - v := by
  rcases Nat.eq_zero_or_pos n with hn | hn
  · rw [hn, Nat.div_zero]
    exact Nat.zero_le _
  · exact Nat.div_le_of_le_mul (by rw [Nat.mul_comm n]; exact Nat.mul_le_mul_left _ hp)

theorem ramp_full (hn : 0 < n) (hv : v ≤ b) : ramp b v n n = v := by
  unfold ramp
  rw [Nat.mul_div_cancel _ hn]
  omega

theorem le_ramp (hp : p ≤ n) (hv : v ≤ b) : v ≤ ramp b v n p := by
  have := gone_le (b := b) (v := v) hp
  unfold ramp
  omega

theorem ramp_le : ramp b v n p ≤ b := Nat.sub_le _ _

theorem ramp_anti (h : p ≤ q) : ramp b v n q ≤ ramp b v n p := by
  have : (b - v) * p / n ≤ (b - v) * q / n := Nat.div_le_div_right (Nat.mul_le_mul_left _ h)
  unfold ramp
  omega

/-- Before the last step one is not there yet. -/
theorem lt_ramp (hp : p < n) (hv : v < b) : v < ramp b v n p := by
  have : (b - v) * p / n < b - v := by
    rw [Nat.div_lt_iff_lt_mul (by omega)]
    exact Nat.mul_lt_mul_of_pos_left hp (by omega)
  unfold ramp
  omega

/-- Between two steps one goes down no faster than in a straight line, up to the rounding. -/
theorem ramp_rate (hn : 0 < n) (h : p ≤ q) (hq : q ≤ n) :
    n * (ramp b v n p - ramp b v n q) < (b - v) * (q - p) + n := by
  have h1 := Nat.div_add_mod ((b - v) * p) n
  have h2 := Nat.div_add_mod ((b - v) * q) n
  have h3 := Nat.mod_lt ((b - v) * p) hn
  have h4 : (b - v) * p ≤ (b - v) * q := Nat.mul_le_mul_left _ h
  have h5 := gone_le (b := b) (v := v) hq
  have h6 : (b - v) * p / n ≤ (b - v) * q / n := Nat.div_le_div_right h4
  have hsub : ramp b v n p - ramp b v n q = (b - v) * q / n - (b - v) * p / n := by
    unfold ramp
    omega
  rw [hsub, Nat.mul_sub, Nat.mul_sub]
  omega

end Ntopng.Lib.Ramp
