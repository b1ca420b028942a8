/-
  Ntopng.Lib.Tally — counters of the entries of a list.

  `Counts kind n l`: for every `k`, `n k` is the number of entries of `l` that are of kind
  `k`. An entry comes, goes or is replaced by another; the rules say which new counters
  count the new list, in both directions, so that a counter that was not kept up is seen at once.
-/

import Mathlib

namespace Ntopng.Lib.Tally

universe u v

variable {α : Type u} {κ : Type v} (kind : κ → α → Bool)

/-! ## One kind -/

theorem countP_set_add {p : α → Bool} {l : List α} {i : Nat} {a : α} (hi : l[i]? = some a) (b : α) :
    (l.set i b).countP p + (p a).toNat = l.countP p + (p b).toNat := by
  induction l generalizing i with
  | nil => simp at hi
  | cons x l ih =>
    cases i with
    | zero =>
      simp only [List.getElem?_cons_zero, Option.some.injEq] at hi
      subst hi
      rw [List.set_cons_zero, List.countP_cons, List.countP_cons]
      cases p x <;> cases p b <;> simp
    | succ i =>
      rw [List.getElem?_cons_succ] at hi
      have := ih hi
      rw [List.set_cons_succ, List.countP_cons, List.countP_cons]
      omega

theorem countP_eraseIdx_add {p : α → Bool} {l : List α} {i : Nat} {a : α} (hi : l[i]? = some a) :
    (l.eraseIdx i).countP p + (p a).toNat = l.countP p := by
  induction l generalizing i with
  | nil => simp at hi
  | cons x l ih =>
    cases i with
    | zero =>
      simp only [List.getElem?_cons_zero, Option.some.injEq] at hi
      subst hi
      rw [List.eraseIdx_cons_zero, List.countP_cons]
      cases p x <;> simp
    | succ i =>
      rw [List.getElem?_cons_succ] at hi
      have := ih hi
      rw [List.eraseIdx_cons_succ, List.countP_cons, List.countP_cons]
      omega

/-! ## Counters -/

def Counts (n : κ → ℤ) (l : List α) : Prop := ∀ k, n k = l.countP (kind k)

variable {kind} {n n' : κ → ℤ} {l : List α} {i : Nat} {a : α}

theorem Counts.snoc_iff (h : Counts kind n l) (a : α) :
    Counts kind n' (l ++ [a]) ↔ ∀ k, n' k = n k + (kind k a).toNat := by
  refine forall_congr' fun k => ?_
  rw [h k, List.countP_append, List.countP_singleton]
  cases kind k a <;> simp

theorem Counts.set_iff (h : Counts kind n l) (hi : l[i]? = some a) (b : α) :
    Counts kind n' (l.set i b) ↔ ∀ k, n' k + (kind k a).toNat = n k + (kind k b).toNat := by
  refine forall_congr' fun k => ?_
  have := countP_set_add (p := kind k) hi b
  rw [h k]
  omega

theorem Counts.eraseIdx_iff (h : Counts kind n l) (hi : l[i]? = some a) :
    Counts kind n' (l.eraseIdx i) ↔ ∀ k, n' k + (kind k a).toNat = n k := by
  refine forall_congr' fun k => ?_
  have := countP_eraseIdx_add (p := kind k) hi
  rw [h k]
  omega

/-- No entry is uncounted: what an entry takes from a counter is there. -/
theorem Counts.toNat_le (h : Counts kind n l) (hi : l[i]? = some a) (k : κ) : (kind k a).toNat ≤ n k := by
  have := countP_eraseIdx_add (p := kind k) hi
  rw [h k]
  omega

theorem Counts.congr {kind' : κ → α → Bool} (h : ∀ k, ∀ a ∈ l, kind k a = kind' k a) :
    Counts kind n l ↔ Counts kind' n l :=
  forall_congr' fun k => by rw [List.countP_congr fun a ha => by rw [h k a ha]]

end Ntopng.Lib.Tally
