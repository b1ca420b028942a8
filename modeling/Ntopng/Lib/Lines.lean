/-
  Ntopng.Lib.Lines — the pieces that `std::getline` reads from a stream one after the other.

  A stream that is at its end gives no piece, so that there is none behind the last separator. The
  pieces that are not empty are those of a split at the separators (`mem_lines`).
-/

import Mathlib

namespace Ntopng.Lib.Lines

variable {α : Type*} [DecidableEq α] {sep : α} {s piece p : List α}

/-- `piece` is what has been read of the next one. -/
def lines (sep : α) : List α → (piece : List α) → List (List α)
  | [], piece => if piece = [] then [] else [piece]
  | c :: s, piece => if c = sep then piece :: lines sep s [] else lines sep s (piece ++ [c])

theorem lines_eq_nil : lines sep s piece = [] ↔ s = [] ∧ piece = [] := by
  induction s generalizing piece with
  | nil =>
    rw [lines]
    by_cases hp : piece = [] <;> simp [hp]
  | cons c s ih =>
    rw [lines]
    by_cases hc : c = sep
    · simp [hc]
    · simp [hc, ih]

theorem length_lines_le (sep : α) (s piece : List α) : (lines sep s piece).length ≤ s.length + 1 := by
  induction s generalizing piece with
  | nil =>
    rw [lines]
    split <;> simp
  | cons c s ih =>
    rw [lines, List.length_cons]
    split
    · rw [List.length_cons]
      exact Nat.succ_le_succ (ih [])
    · exact (ih _).trans (Nat.le_succ _)

theorem splitOn_nil (sep : α) : ([] : List α).splitOn sep = [[]] := List.splitOn_nil sep

theorem splitOn_cons (sep c : α) (s : List α) :
    (c :: s).splitOn sep = if c = sep then [] :: s.splitOn sep else (s.splitOn sep).modifyHead (c :: ·) := by
  rw [List.splitOn_eq_splitOnP, List.splitOnP_cons_eq_if_modifyHead, ← List.splitOn_eq_splitOnP]
  exact if_congr beq_iff_eq rfl rfl

/-- All pieces but an empty one at the end. -/
theorem lines_eq (sep : α) (s piece : List α) : lines sep s piece =
    ((s.splitOn sep).modifyHead (piece ++ ·)).dropLast ++
      ((s.splitOn sep).modifyHead (piece ++ ·)).getLast?.toList.filter (· ≠ []) := by
  induction s generalizing piece with
  | nil =>
    rw [lines, splitOn_nil]
    by_cases hp : piece = [] <;> simp [hp]
  | cons c s ih =>
    rw [lines, splitOn_cons]
    by_cases hc : c = sep
    · have hne : s.splitOn sep ≠ [] := List.splitOn_ne_nil _ _
      obtain ⟨x, l, hx⟩ := List.exists_cons_of_ne_nil hne
      rw [if_pos hc, if_pos hc, ih, hx]
      simp [List.getLast?_cons_cons]
    · rw [if_neg hc, if_neg hc, ih, List.modifyHead_modifyHead]
      simp [Function.comp_def]

theorem mem_lines (h : p ≠ []) : p ∈ lines sep s [] ↔ p ∈ s.splitOn sep := by
  have hne : s.splitOn sep ≠ [] := List.splitOn_ne_nil _ _
  have hhead : (s.splitOn sep).modifyHead ([] ++ ·) = s.splitOn sep := by
    cases s.splitOn sep <;> rfl
  rw [lines_eq, hhead, List.mem_append, List.getLast?_eq_some_getLast hne, Option.toList_some, List.mem_filter,
    List.mem_singleton, decide_eq_true_iff, and_iff_left h]
  conv_rhs => rw [← List.dropLast_append_getLast hne]
  rw [List.mem_append, List.mem_singleton]

end Ntopng.Lib.Lines
