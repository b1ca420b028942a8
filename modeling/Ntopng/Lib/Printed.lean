/-
  Ntopng.Lib.Printed — the bytes that `%u` prints of a number.

  Proved: what is printed is read back by `atoi`, as what an `int` keeps of it, and without its last digit it is
  what is printed of the tenth of the number.
-/

import Ntopng.Lib.CNumber
import Ntopng.Lib.Decimal

namespace Ntopng.Lib.Printed

open Ntopng.Lib.CString Ntopng.Lib.CNumber Ntopng.Lib.Decimal

variable {n : ℕ} {c : UInt8}

def digits (n : ℕ) : List UInt8 := (udec n).map ch

theorem ch_digitChar : ∀ d < 10, ch (Nat.digitChar d) = ch '0' + UInt8.ofNat d := by decide

theorem digits_of_lt (h : n < 10) : digits n = [ch '0' + UInt8.ofNat n] := by
  rw [digits, udec, Nat.toDigits_of_lt_base h, List.map_singleton, ch_digitChar n h]

theorem digits_of_le (h : 10 ≤ n) : digits n = digits (n / 10) ++ [ch '0' + UInt8.ofNat (n % 10)] := by
  rw [digits, udec, Nat.toDigits_of_base_le (by decide) h, List.map_append, List.map_singleton,
    ch_digitChar _ (Nat.mod_lt _ (by decide))]
  rfl

theorem digits_ne_nil (n : ℕ) : digits n ≠ [] := fun h => udec_ne_nil (List.map_eq_nil_iff.mp h)

theorem digit_isDigit : ∀ d < 10, isDigit (ch '0' + UInt8.ofNat d) = true ∧ (ch '0' + UInt8.ofNat d - ch '0').toNat = d := by
  decide

theorem isDigit_digits (n : ℕ) : ∀ c ∈ digits n, isDigit c := by
  induction n using Nat.strong_induction_on with
  | _ n ih =>
    by_cases h : n < 10
    · rw [digits_of_lt h]
      intro c hc
      rw [List.mem_singleton.mp hc]
      exact (digit_isDigit n h).1
    · rw [digits_of_le (Nat.le_of_not_lt h)]
      intro c hc
      rcases List.mem_append.mp hc with hc | hc
      · exact ih (n / 10) (by omega) c hc
      · rw [List.mem_singleton.mp hc]
        exact (digit_isDigit (n % 10) (Nat.mod_lt _ (by decide))).1

theorem not_mem_digits (h : isDigit c = false) (n : ℕ) : c ∉ digits n := by
  intro hc
  rw [isDigit_digits n c hc] at h
  cases h

theorem ofDigits_digits (n : ℕ) : ofDigits (digits n) = n := by
  induction n using Nat.strong_induction_on with
  | _ n ih =>
    by_cases h : n < 10
    · rw [digits_of_lt h, ofDigits, List.foldl_cons, List.foldl_nil, (digit_isDigit n h).2]
      omega
    · have hread := ih (n / 10) (by omega)
      rw [digits_of_le (Nat.le_of_not_lt h), ofDigits, List.foldl_append, ← ofDigits, hread, List.foldl_cons, List.foldl_nil,
        (digit_isDigit (n % 10) (Nat.mod_lt _ (by decide))).2]
      omega

theorem digits_dropLast (n : ℕ) : (digits n).dropLast = if n < 10 then [] else digits (n / 10) := by
  by_cases h : n < 10
  · rw [if_pos h, digits_of_lt h]
    rfl
  · rw [if_neg h, digits_of_le (Nat.le_of_not_lt h), List.dropLast_concat]

/-- Where a `long` holds the number, `atoi` gives what an `int` keeps of it. -/
theorem atoi_digits (h : n < 2 ^ 63) : atoi (digits n) = Int.bmod n (2 ^ 32) := by
  have hread := strtol_numeral ⟨false, digits n, digits_ne_nil n, isDigit_digits n⟩
  rw [Numeral.text, Numeral.value, if_neg Bool.false_ne_true, if_neg Bool.false_ne_true, ofDigits_digits] at hread
  rw [atoi, hread, clampLong]
  congr 1
  omega

theorem length_digits (h : n < 10 ^ 10) : (digits n).length ≤ 10 := by
  rw [digits, List.length_map]
  exact length_udec (by decide) h

end Ntopng.Lib.Printed
