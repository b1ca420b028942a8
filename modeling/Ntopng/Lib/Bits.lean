/-
  Ntopng.Lib.Bits — one bit of a word: the masks that set, clear and read it. And what a signed number
  is as an unsigned one (`toNat_toUInt32`).
-/

import Mathlib

namespace Ntopng.Lib.Bits

variable {w o m : ℕ} {x : BitVec w}

theorem getLsbD_bit (hm : m < w) : (1#w <<< o).getLsbD m = decide (m = o) := by
  rw [BitVec.getLsbD_shiftLeft, decide_eq_true hm, BitVec.getLsbD_one]
  by_cases h : m < o
  · simp [h, show m ≠ o by omega]
  · simp only [h, decide_false, Bool.not_false, Bool.true_and]
    by_cases hmo : m = o
    · simp [hmo, show 0 < w by omega]
    · simp [hmo, show m - o ≠ 0 by omega]

theorem getLsbD_or_bit (hm : m < w) : (x ||| 1#w <<< o).getLsbD m = true ↔ x.getLsbD m = true ∨ m = o := by
  rw [BitVec.getLsbD_or, getLsbD_bit hm, Bool.or_eq_true, decide_eq_true_eq]

theorem getLsbD_and_not_bit (hm : m < w) : (x &&& ~~~(1#w <<< o)).getLsbD m = true ↔ x.getLsbD m = true ∧ m ≠ o := by
  rw [BitVec.getLsbD_and, BitVec.getLsbD_not, getLsbD_bit hm, decide_eq_true hm, Bool.true_and, Bool.and_eq_true,
    Bool.not_eq_true', decide_eq_false_iff_not]

theorem and_bit_ne_zero (ho : o < w) : x &&& 1#w <<< o ≠ 0#w ↔ x.getLsbD o = true := by
  constructor
  · intro h
    by_contra hx
    refine h (BitVec.eq_of_getLsbD_eq fun m hm => ?_)
    rw [BitVec.getLsbD_and, getLsbD_bit hm, BitVec.getLsbD_zero]
    by_cases hmo : m = o
    · rw [hmo, Bool.eq_false_of_not_eq_true hx, Bool.false_and]
    · rw [decide_eq_false hmo, Bool.and_false]
  · intro hx h
    have hbit := congrArg (BitVec.getLsbD · o) h
    simp only [BitVec.getLsbD_and, getLsbD_bit ho, hx, decide_true, Bool.and_self, BitVec.getLsbD_zero] at hbit
    cases hbit

theorem toNat_toUInt32 (n : Int32) : (n.toUInt32.toNat : ℤ) = n.toInt % 2 ^ 32 := by
  have hlt := n.toUInt32.toNat_lt
  rw [← Int32.toInt_toBitVec, BitVec.toInt_eq_toNat_bmod, show (2 ^ 32 : ℤ) = ((2 ^ 32 : ℕ) : ℤ) from rfl, Int.bmod_emod]
  change _ = ((n.toUInt32.toNat : ℕ) : ℤ) % _
  omega

end Ntopng.Lib.Bits
