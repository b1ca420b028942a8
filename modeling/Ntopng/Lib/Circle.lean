/-
  Ntopng.Lib.Circle — places in a circle, taken one after the other.

  `arc n a m` are the `m` places after place `a` of a circle of `n`. Up to `n` of them are
  all different (`arc_nodup`), from `n` on all places are among them (`mem_arc`), and an
  arc goes on where another ends (`arc_append`).
-/

import Mathlib

namespace Ntopng.Lib.Circle

variable {n a b m : ℕ}

def arc (n a m : ℕ) : List ℕ := (List.range m).map fun t => (a + 1 + t) % n

@[simp] theorem arc_zero (n a : ℕ) : arc n a 0 = [] := rfl

@[simp] theorem arc_length (n a m : ℕ) : (arc n a m).length = m := by
  rw [arc, List.length_map, List.length_range]

theorem arc_append (n a m m' : ℕ) : arc n a m ++ arc n ((a + m) % n) m' = arc n a (m + m') := by
  rw [arc, arc, arc, List.range_add, List.map_append, List.map_map]
  refine congrArg _ (List.map_congr_left fun t _ => ?_)
  rw [Function.comp_apply, Nat.add_assoc ((a + m) % n), Nat.mod_add_mod]
  congr 1
  omega

theorem arc_succ (n a m : ℕ) : arc n a (m + 1) = (a + 1) % n :: arc n ((a + 1) % n) m := by
  rw [Nat.add_comm m, ← arc_append n a 1 m]
  rfl

theorem lt_of_mem_arc (hn : 0 < n) (h : b ∈ arc n a m) : b < n := by
  obtain ⟨t, _, rfl⟩ := List.mem_map.mp h
  exact Nat.mod_lt _ hn

theorem arc_nodup (hm : m ≤ n) : (arc n a m).Nodup := by
  refine List.Nodup.map_on (fun s hs t ht heq => ?_) List.nodup_range
  rw [List.mem_range] at hs ht
  have hmod : s ≡ t [MOD n] := Nat.ModEq.add_left_cancel' (a + 1) heq
  exact Nat.ModEq.eq_of_lt_of_lt hmod (by omega) (by omega)

/-- A whole circle, or more, takes every place. -/
theorem mem_arc (hm : n ≤ m) (hb : b < n) : b ∈ arc n a m := by
  refine List.mem_map.mpr ⟨(b + (n - (a + 1) % n)) % n, ?_, ?_⟩
  · exact List.mem_range.mpr (lt_of_lt_of_le (Nat.mod_lt _ (by omega)) hm)
  · have hlt : (a + 1) % n < n := Nat.mod_lt _ (by omega)
    have hdiv := Nat.mod_add_div (a + 1) n
    have hround : a + 1 + (b + (n - (a + 1) % n)) = b + n * (1 + (a + 1) / n) := by
      rw [Nat.mul_add]
      omega
    rw [Nat.add_mod_mod, hround, Nat.add_mul_mod_self_left, Nat.mod_eq_of_lt hb]

end Ntopng.Lib.Circle
