/-
  Ntopng.Lib.LastWrite — what a list of writes leaves.

  `writes m h` is the table `m` after the writes of `h`, in order; `last h k` is what the
  last write of `h` to `k` left there. A store whose reads see exactly its writes answers
  with `last` (`reads_last`). What is read when the writes come in another order is the
  same as long as all writes to one key agree (`last_of_agree`). A number that others are
  written over is their sum where only the last is not 0 (`overwrite_eq_iff`).
-/

import Mathlib

namespace Ntopng.Lib.LastWrite

universe u v w

variable {κ : Type u} {β : Type v} [DecidableEq κ]

def writes (m : κ → Option β) (h : List (κ × β)) : κ → Option β :=
  h.foldl (fun m e => Function.update m e.1 (some e.2)) m

def last (h : List (κ × β)) : κ → Option β := writes (fun _ => none) h

variable {m : κ → Option β} {h : List (κ × β)} {k : κ} {v : β}

@[simp] theorem last_nil : last ([] : List (κ × β)) k = none := rfl

theorem last_append (h : List (κ × β)) (e : κ × β) : last (h ++ [e]) = Function.update (last h) e.1 (some e.2) := by
  simp only [last, writes, List.foldl_append, List.foldl_cons, List.foldl_nil]

theorem last_append_self (h : List (κ × β)) (k : κ) (v : β) : last (h ++ [(k, v)]) k = some v := by
  rw [last_append, Function.update_self]

theorem last_append_ne (h : List (κ × β)) {k j : κ} (v : β) (hj : j ≠ k) : last (h ++ [(k, v)]) j = last h j := by
  rw [last_append, Function.update_of_ne hj]

theorem last_cons (e : κ × β) (h : List (κ × β)) (k : κ) :
    last (e :: h) k = (last h k).or (if k = e.1 then some e.2 else none) := by
  induction h using List.reverseRecOn with
  | nil =>
    show last ([] ++ [e]) k = _
    rw [last_append]
    by_cases hk : k = e.1
    · rw [if_pos hk, hk, Function.update_self]
      rfl
    · rw [if_neg hk, Function.update_of_ne hk]
      rfl
  | append_singleton h d ih =>
    rw [← List.cons_append, last_append, last_append]
    by_cases hk : k = d.1
    · rw [hk, Function.update_self, Function.update_self, Option.some_or]
    · rw [Function.update_of_ne hk, Function.update_of_ne hk, ih]

theorem last_mem (hl : last h k = some v) : (k, v) ∈ h := by
  induction h using List.reverseRecOn with
  | nil => cases hl
  | append_singleton h e ih =>
    by_cases hk : k = e.1
    · rw [hk, last_append_self h e.1 e.2, Option.some.injEq] at hl
      rw [← hl, hk]
      exact List.mem_append_right _ (List.mem_singleton_self _)
    · rw [last_append_ne h e.2 hk] at hl
      exact List.mem_append_left _ (ih hl)

theorem last_isSome (hmem : (k, v) ∈ h) : ∃ v', last h k = some v' := by
  induction h using List.reverseRecOn with
  | nil => cases hmem
  | append_singleton h e ih =>
    by_cases hk : k = e.1
    · exact ⟨e.2, by rw [hk]; exact last_append_self h e.1 e.2⟩
    · rcases List.mem_append.mp hmem with hmem | hmem
      · rw [last_append_ne h e.2 hk]
        exact ih hmem
      · exact absurd (congrArg Prod.fst (List.mem_singleton.mp hmem)) hk

theorem last_none_iff : last h k = none ↔ ∀ v, (k, v) ∉ h := by
  constructor
  · intro hnone v hmem
    obtain ⟨v', hv'⟩ := last_isSome hmem
    rw [hnone] at hv'
    cases hv'
  · intro hall
    cases hl : last h k with
    | none => rfl
    | some v => exact absurd (last_mem hl) (hall v)

/-- Writes to one key that agree leave their value, in whatever order they come. -/
theorem last_of_agree (hmem : (k, v) ∈ h) (hagree : ∀ v', (k, v') ∈ h → v' = v) : last h k = some v := by
  obtain ⟨v', hv'⟩ := last_isSome hmem
  rw [hv', hagree v' (last_mem hv')]

/-- The same writes, keyed more coarsely: a key's last write is that of one of its finer keys. -/
theorem last_map_mem {ι : Type w} [DecidableEq ι] (f : ι → κ) {g : List (ι × β)}
    (hl : last (g.map fun e => (f e.1, e.2)) k = some v) : ∃ i, f i = k ∧ last g i = some v := by
  induction g using List.reverseRecOn with
  | nil => cases hl
  | append_singleton g e ih =>
    rw [List.map_append, List.map_singleton] at hl
    by_cases hk : k = f e.1
    · rw [hk, last_append_self, Option.some.injEq] at hl
      exact ⟨e.1, hk.symm, by rw [← hl]; exact last_append_self g e.1 e.2⟩
    · rw [last_append_ne _ _ hk] at hl
      obtain ⟨i, hi, hv⟩ := ih hl
      refine ⟨i, hi, ?_⟩
      rw [last_append_ne g e.2]
      · exact hv
      · rintro rfl
        exact hk hi.symm

/-- A store whose write changes the one answer it is about answers what was written last. -/
theorem reads_last {σ : Type w} {write : σ → κ × β → σ} {read : σ → κ → Option β} {s : σ}
    (hs : ∀ k, read s k = none)
    (hwrite : ∀ s e, read (write s e) = Function.update (read s) e.1 (some e.2)) (h : List (κ × β)) :
    read (h.foldl write s) = last h := by
  induction h using List.reverseRecOn with
  | nil => exact funext hs
  | append_singleton h e ih => rw [List.foldl_append, List.foldl_cons, List.foldl_nil, hwrite, ih, last_append]

/-! ## Numbers written over each other -/

/-- What the last number leaves, where there is one. -/
def overwrite (v : ℕ) (xs : List (Option ℕ)) : ℕ := xs.foldl (fun v x => x.getD v) v

theorem overwrite_le (v : ℕ) (xs : List (Option ℕ)) : overwrite v xs ≤ v + (xs.map fun x => x.getD 0).sum := by
  induction xs generalizing v with
  | nil => exact Nat.le_add_right ..
  | cons x xs ih =>
    cases x with
    | none => simpa [overwrite] using ih v
    | some a =>
      have hrest := ih a
      simp only [overwrite, List.foldl_cons, Option.getD_some, List.map_cons, List.sum_cons] at hrest ⊢
      omega

/-- It is the sum of all exactly if those that are written over are 0. -/
theorem overwrite_eq_iff (v : ℕ) (xs : List (Option ℕ)) : overwrite v xs = v + (xs.map fun x => x.getD 0).sum ↔
    ((∃ x ∈ xs, x.isSome) → v = 0) ∧ xs.Pairwise fun x y => y.isSome → x.getD 0 = 0 := by
  induction xs generalizing v with
  | nil => simp [overwrite]
  | cons x xs ih =>
    cases x with
    | none => simpa [overwrite] using ih v
    | some a =>
      have hle := overwrite_le a xs
      have hsplit : overwrite a xs = v + (a + (xs.map fun x => x.getD 0).sum) ↔
          v = 0 ∧ overwrite a xs = a + (xs.map fun x => x.getD 0).sum := by omega
      have hsum : ((some a :: xs).map fun x => x.getD 0).sum = a + (xs.map fun x => x.getD 0).sum := rfl
      rw [hsum, show overwrite v (some a :: xs) = overwrite a xs from rfl, hsplit, ih a, List.pairwise_cons]
      constructor
      · intro h
        refine ⟨fun _ => h.1, ?_, h.2.2⟩
        intro y hy hsome
        exact h.2.1 ⟨y, hy, hsome⟩
      · intro h
        refine ⟨h.1 ⟨some a, List.mem_cons_self .., rfl⟩, ?_, h.2.2⟩
        intro hex
        rcases hex with ⟨y, hy, hsome⟩
        exact h.2.1 y hy hsome

end Ntopng.Lib.LastWrite
