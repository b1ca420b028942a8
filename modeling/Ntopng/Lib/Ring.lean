/-
  Ntopng.Lib.Ring — counters that only grow, seen through a ring of `n` slots.

  A ring index is a counter modulo the number of slots. Two counters less than one turn
  apart share a slot only when they are equal (`slot_eq_iff`), and with a power of two
  for `n` the mask `n - 1` takes the remainder (`mask_eq_mod`).
-/

import Mathlib

namespace Ntopng.Lib.Ring

theorem slot_eq_iff {a b n : Nat} (hle : a ≤ b) (hlt : b < a + n) : a % n = b % n ↔ a = b := by
  constructor
  · intro h
    have hd : (b - a) % n = 0 := Nat.sub_mod_eq_zero_of_mod_eq h.symm
    rw [Nat.mod_eq_of_lt (by omega)] at hd
    omega
  · intro h; rw [h]

theorem mask_eq_mod {n k : Nat} (hn : n = 2 ^ k) (i : Nat) : i &&& (n - 1) = i % n := by
  subst hn; exact Nat.and_two_pow_sub_one_eq_mod i k

@[simp] theorem succ_slot (a n : Nat) : (a % n + 1) % n = (a + 1) % n := Nat.mod_add_mod a n 1

/-- The slot after the one before `a` is `a`'s. -/
theorem succ_pred_slot (a : Nat) {n : Nat} (hn : 0 < n) : (a + (n - 1) + 1) % n = a % n := by
  rw [show a + (n - 1) + 1 = a + n by omega, Nat.add_mod_right]

/-- A watermark that divides the ring size sees the counter itself. -/
theorem slot_mod_of_dvd {w n : Nat} (h : w ∣ n) (a : Nat) : a % n % w = a % w := Nat.mod_mod_of_dvd a h

end Ntopng.Lib.Ring
