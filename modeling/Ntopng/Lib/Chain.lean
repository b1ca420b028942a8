/-
  Ntopng.Lib.Chain — singly linked chains in a heap, and tables of them.

  `Linked next h l`: following `next` from the head `h` visits `l` and ends. `flat n chains`
  lists the members of the first `n` chains of a table. Proved: what pushing at the head
  and unlinking at the head or behind a predecessor do to a chain, and what they do to the
  members of the table, up to their order.
-/

import Mathlib

namespace Ntopng.Lib.Chain

universe u

variable {α : Type u}

/-! ## One chain -/

def Linked (next : α → Option α) : Option α → List α → Prop
  | h, [] => h = none
  | h, a :: l => h = some a ∧ Linked next (next a) l

variable {next next' : α → Option α} {h : Option α} {a p : α} {l pre suf : List α}

@[simp] theorem linked_nil : Linked next h [] ↔ h = none := Iff.rfl

@[simp] theorem linked_cons : Linked next h (a :: l) ↔ h = some a ∧ Linked next (next a) l := Iff.rfl

theorem Linked.head_eq (hl : Linked next h l) : h = l.head? := by
  cases l with
  | nil => exact hl
  | cons a l => exact hl.1

/-- Only the links of the visited members count. -/
theorem Linked.congr (hl : Linked next h l) (heq : ∀ b ∈ l, next' b = next b) : Linked next' h l := by
  induction l generalizing h with
  | nil => exact hl
  | cons a l ih =>
    refine ⟨hl.1, ?_⟩
    rw [heq a (List.mem_cons_self ..)]
    exact ih hl.2 fun b hb => heq b (List.mem_cons_of_mem _ hb)

theorem Linked.next_eq (hl : Linked next h (pre ++ a :: suf)) : next a = suf.head? := by
  induction pre generalizing h with
  | nil => exact hl.2.head_eq
  | cons b pre ih => exact ih hl.2

theorem Linked.push (hl : Linked next h l) (ha : next' a = h) (heq : ∀ b ∈ l, next' b = next b) :
    Linked next' (some a) (a :: l) := by
  refine ⟨rfl, ?_⟩
  rw [ha]
  exact hl.congr heq

/-- The predecessor takes over the link of the member behind it. -/
theorem Linked.unlink (hl : Linked next h (pre ++ p :: a :: suf)) (hn : (pre ++ p :: a :: suf).Nodup)
    (hp : next' p = next a) (heq : ∀ b, b ≠ p → next' b = next b) :
    Linked next' h (pre ++ p :: suf) := by
  induction pre generalizing h with
  | nil =>
    obtain ⟨rfl, -, hs⟩ := hl
    refine ⟨rfl, ?_⟩
    rw [hp]
    refine hs.congr fun b hb => heq b ?_
    rintro rfl
    simp [hb] at hn
  | cons b pre ih =>
    have hb : b ≠ p := by
      rintro rfl
      simp at hn
    refine ⟨hl.1, ?_⟩
    rw [heq b hb]
    exact ih hl.2 (List.nodup_cons.mp hn).2

/-! ## A table of chains -/

def flat (n : Nat) (chains : Nat → List α) : List α := (List.range n).flatMap chains

variable {n i : Nat} {chains : Nat → List α}

theorem flat_succ : flat (n + 1) chains = flat n chains ++ chains n := by
  simp [flat, List.range_succ]

@[simp] theorem mem_flat : a ∈ flat n chains ↔ ∃ b, b < n ∧ a ∈ chains b := by
  simp [flat]

theorem flat_congr (chains' : Nat → List α) (heq : ∀ b, b < n → chains' b = chains b) :
    flat n chains' = flat n chains := by
  simp only [flat, List.flatMap_def]
  congr 1
  exact List.map_congr_left fun b hb => heq b (List.mem_range.mp hb)

@[simp] theorem flat_empty : flat n (fun _ => ([] : List α)) = [] := by
  simp [flat]

variable (chains) in
/-- A chain that loses a member loses it for the table. -/
theorem flat_update_perm (hi : i < n) (hp : (chains i).Perm (a :: l)) :
    (flat n chains).Perm (a :: flat n (Function.update chains i l)) := by
  induction n with
  | zero => omega
  | succ n ih =>
    rw [flat_succ, flat_succ]
    by_cases hin : i = n
    · subst hin
      rw [Function.update_self, flat_congr (Function.update chains i l)
        fun b hb => Function.update_of_ne (by omega) _ _]
      exact (hp.append_left _).trans List.perm_middle
    · rw [Function.update_of_ne (Ne.symm hin)]
      exact (ih (by omega)).append_right _

/-- A member pushed on a chain is a member more for the table. -/
theorem flat_push_perm (chains : Nat → List α) (hi : i < n) :
    (flat n (Function.update chains i (a :: chains i))).Perm (a :: flat n chains) := by
  have h := flat_update_perm (Function.update chains i (a :: chains i)) (a := a)
    (l := chains i) hi (by simp)
  rwa [Function.update_idem, Function.update_eq_self] at h

end Ntopng.Lib.Chain
