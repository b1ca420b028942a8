/-
  Ntopng.Lib.Lex — bounds of sequences in the order of their first difference.

  The sequences of one length that start with a given part and go on with a letter of a range
  are those between this part, the least letter of the range and the least letters, and this
  part, the greatest letter of the range and the greatest letters (`between_of_prefix`).
-/

import Mathlib

namespace Ntopng.Lib.Lex

universe u

variable {α : Type u} [LT α] [Std.Asymm (α := α) (· < ·)]

theorem not_lt_self (a : α) : ¬ a < a := fun h => Std.Asymm.asymm a a h h

variable [Std.Trichotomous (α := α) (· < ·)]

theorem append_le_append {as xs ys : List α} : as ++ xs ≤ as ++ ys ↔ xs ≤ ys := by
  induction as with
  | nil => exact Iff.rfl
  | cons a as ih =>
    rw [List.cons_append, List.cons_append, List.cons_le_cons_iff, ih]
    constructor
    · rintro (h | ⟨-, h⟩)
      · exact absurd h (not_lt_self a)
      · exact h
    · exact fun h => Or.inr ⟨rfl, h⟩

/-- Between two sequences that start alike there are only such ones. -/
theorem prefix_of_between {as ls us ys : List α} (hlow : as ++ ls ≤ ys) (hup : ys ≤ as ++ us)
    (hlen : as.length ≤ ys.length) : ys.take as.length = as := by
  induction as generalizing ys with
  | nil => rfl
  | cons a as ih =>
    cases ys with
    | nil => exact absurd hlen (by simp)
    | cons y ys =>
      rw [List.cons_append, List.cons_le_cons_iff] at hlow hup
      have hy : a = y := by
        rcases hlow with h | ⟨h, -⟩
        · rcases hup with h' | ⟨h', -⟩
          · exact absurd h' (Std.Asymm.asymm a y h)
          · exact h'.symm
        · exact h
      subst hy
      have hlow' := (hlow.resolve_left (not_lt_self a)).2
      have hup' := (hup.resolve_left (not_lt_self a)).2
      rw [List.length_cons, List.take_succ_cons, ih hlow' hup' (Nat.le_of_succ_le_succ hlen)]

theorem between_append {as ls us ys : List α} (hlen : as.length ≤ ys.length) :
    (as ++ ls ≤ ys ∧ ys ≤ as ++ us) ↔
      ys.take as.length = as ∧ ls ≤ ys.drop as.length ∧ ys.drop as.length ≤ us := by
  constructor
  · rintro ⟨hlow, hup⟩
    have hpre := prefix_of_between hlow hup hlen
    rw [← List.take_append_drop as.length ys, hpre, append_le_append] at hlow hup
    exact ⟨hpre, hlow, hup⟩
  · rintro ⟨hpre, hlow, hup⟩
    rw [← List.take_append_drop as.length ys, hpre, append_le_append, append_le_append]
    exact ⟨hlow, hup⟩

theorem replicate_le {bot : α} (hbot : ∀ a, bot < a ∨ bot = a) (ys : List α) : List.replicate ys.length bot ≤ ys := by
  induction ys with
  | nil => exact List.nil_le []
  | cons y ys ih =>
    rw [List.length_cons, List.replicate_succ, List.cons_le_cons_iff]
    exact (hbot y).imp id fun h => ⟨h, ih⟩

theorem le_replicate {top : α} (htop : ∀ a, a < top ∨ a = top) (ys : List α) : ys ≤ List.replicate ys.length top := by
  induction ys with
  | nil => exact List.nil_le []
  | cons y ys ih =>
    rw [List.length_cons, List.replicate_succ, List.cons_le_cons_iff]
    exact (htop y).imp id fun h => ⟨h, ih⟩

/-- A range for one letter, and any letters after it. -/
theorem cons_between {bot top low up y : α} (hbot : ∀ a, bot < a ∨ bot = a) (htop : ∀ a, a < top ∨ a = top)
    (ys : List α) :
    (low :: List.replicate ys.length bot ≤ y :: ys ∧ y :: ys ≤ up :: List.replicate ys.length top) ↔
      (low < y ∨ low = y) ∧ (y < up ∨ y = up) := by
  rw [List.cons_le_cons_iff, List.cons_le_cons_iff]
  constructor
  · rintro ⟨hlow, hup⟩
    exact ⟨hlow.imp id And.left, hup.imp id And.left⟩
  · rintro ⟨hlow, hup⟩
    exact ⟨hlow.imp id fun h => ⟨h, replicate_le hbot ys⟩, hup.imp id fun h => ⟨h, le_replicate htop ys⟩⟩

/-- A part, a range for the next letter, and any letters after it. -/
theorem between_of_prefix {bot top : α} (hbot : ∀ a, bot < a ∨ bot = a) (htop : ∀ a, a < top ∨ a = top) (low up : α)
    {as ys : List α} {y : α} {rest : List α} (hys : ys.drop as.length = y :: rest) (hlen : as.length ≤ ys.length) :
    (as ++ low :: List.replicate rest.length bot ≤ ys ∧ ys ≤ as ++ up :: List.replicate rest.length top) ↔
      ys.take as.length = as ∧ (low < y ∨ low = y) ∧ (y < up ∨ y = up) := by
  rw [between_append hlen, hys, cons_between hbot htop]

end Ntopng.Lib.Lex
