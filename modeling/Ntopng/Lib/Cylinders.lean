/-
  Ntopng.Lib.Cylinders — sets of strings given by how they begin.

  A list of strings stands for all that begin with one of them (`In`). A beginning is filled by the
  list (`Filled`) if it begins with one of them itself, or is filled with every next symbol behind
  it, down to the length of the strings.

  Proved: a beginning is filled exactly when every string behind it is in the set, so that of two
  lists one is within the other exactly when it fills every beginning of the other
  (`filled_all_iff`).
-/

import Mathlib

namespace Ntopng.Lib.Cylinders

universe u

variable {α : Type u}

def In (C : List (List α)) (x : List α) : Prop := ∃ c ∈ C, c <+: x

/-- With `d` symbols to come. -/
def Filled (C : List (List α)) : (d : ℕ) → List α → Prop
  | 0, c => In C c
  | d + 1, c => In C c ∨ ∀ b, Filled C d (c ++ [b])

variable {C D : List (List α)} {c x : List α} {d n : ℕ}

theorem In.trans (h : In C c) (hx : c <+: x) : In C x := by
  obtain ⟨c', hc', hle⟩ := h
  exact ⟨c', hc', hle.trans hx⟩

theorem in_flatMap {β : Type u} {f : β → List (List α)} {l : List β} : In (l.flatMap f) x ↔ ∃ b ∈ l, In (f b) x := by
  simp only [In, List.mem_flatMap]
  constructor
  · rintro ⟨c, ⟨b, hb, hc⟩, hle⟩
    exact ⟨b, hb, c, hc, hle⟩
  · rintro ⟨b, hb, c, hc, hle⟩
    exact ⟨c, ⟨b, hb, hc⟩, hle⟩

/-- What stands behind a beginning begins with it and the next symbol. -/
theorem next_of_prefix (hx : x.length = c.length + (d + 1)) (hc : c <+: x) : ∃ b, c ++ [b] <+: x := by
  obtain ⟨r, rfl⟩ := hc
  cases r with
  | nil =>
    rw [List.append_nil] at hx
    omega
  | cons b r => exact ⟨b, r, by rw [List.append_assoc, List.singleton_append]⟩

/-- A beginning is filled if every string behind it is in the set. -/
theorem filled_iff : Filled C d c ↔ ∀ x : List α, x.length = c.length + d → c <+: x → In C x := by
  induction d generalizing c with
  | zero =>
    constructor
    · intro h x hx hc
      rwa [← hc.eq_of_length (by omega)]
    · intro h
      exact h c rfl (List.prefix_refl c)
  | succ d ih =>
    constructor
    · intro h x hx hc
      rcases h with h | h
      · exact h.trans hc
      · obtain ⟨b, hb⟩ := next_of_prefix hx hc
        exact ih.mp (h b) x (by rw [hx, List.length_append, List.length_singleton]; omega) hb
    · intro h
      by_cases hin : In C c
      · exact Or.inl hin
      · refine Or.inr fun b => ih.mpr fun x hx hb => h x ?_ ((List.prefix_append c [b]).trans hb)
        rw [hx, List.length_append, List.length_singleton]
        omega

/-- One set is within another: the strings of length `n`. -/
theorem filled_all_iff (h : ∀ c ∈ D, c.length ≤ n) :
    (∀ c ∈ D, Filled C (n - c.length) c) ↔ ∀ x : List α, x.length = n → In D x → In C x := by
  constructor
  · intro hfilled x hx hin
    obtain ⟨c, hc, hle⟩ := hin
    have := h c hc
    exact filled_iff.mp (hfilled c hc) x (by omega) hle
  · intro hall c hc
    have := h c hc
    exact filled_iff.mpr fun x hx hle => hall x (by omega) ⟨c, hc, hle⟩

end Ntopng.Lib.Cylinders
