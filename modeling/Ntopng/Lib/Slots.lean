/-
  Ntopng.Lib.Slots — a table of slots, what its occupants add up to, and an index of them.

  A table has one slot for each key, empty or with an occupant. `tally f` adds up `f` over
  the occupants: with `f` constantly one it counts them. An index by tags is a map that is
  set at exactly the tags some occupant has. Several slots may hold the same tag, and the
  map does not count them: `indexed_clear_iff` says when clearing a tag is right.
-/

import Mathlib

namespace Ntopng.Lib.Slots

universe u v w x

variable {κ : Type u} {α : Type v} {τ : Type w} [DecidableEq κ]

/-! ## Adding up -/

section Tally

variable {M : Type x} [Fintype κ] [AddCommMonoid M] {f : α → M} {s : κ → Option α} {k : κ} {a b : α}

def tally (f : α → M) (s : κ → Option α) : M := ∑ k, (s k).elim 0 f

omit [DecidableEq κ] in
theorem tally_empty : tally f (fun _ : κ => none) = 0 :=
  Finset.sum_eq_zero fun _ _ => rfl

/-- The rest of the table does not see what happens in one slot. -/
theorem tally_update (o : Option α) :
    tally f (Function.update s k o) = o.elim 0 f + ∑ j ∈ Finset.univ.erase k, (s j).elim 0 f := by
  unfold tally
  rw [← Finset.add_sum_erase _ _ (Finset.mem_univ k), Function.update_self]
  congr 1
  apply Finset.sum_congr rfl
  intro j hj
  rw [Function.update_of_ne (Finset.ne_of_mem_erase hj)]

theorem tally_split : tally f s = (s k).elim 0 f + ∑ j ∈ Finset.univ.erase k, (s j).elim 0 f := by
  have h := tally_update (f := f) (s := s) (k := k) (s k)
  rwa [Function.update_eq_self] at h

theorem tally_fill (h : s k = none) : tally f (Function.update s k (some a)) = tally f s + f a := by
  rw [tally_update, tally_split (k := k), h]
  simp only [Option.elim, zero_add]
  exact add_comm _ _

theorem tally_clear (h : s k = some a) : tally f s = tally f (Function.update s k none) + f a := by
  rw [tally_update, tally_split (k := k), h]
  simp only [Option.elim, zero_add]
  exact add_comm _ _

theorem tally_change (h : s k = some a) (hf : f b = f a) : tally f (Function.update s k (some b)) = tally f s := by
  rw [tally_update, tally_split (k := k), h]
  simp only [Option.elim, hf]

end Tally

/-! ## The index -/

section Index

variable [DecidableEq τ] {tag : α → τ} {s : κ → Option α} {map : τ → Bool} {k : κ} {a b : α}

def Indexed (tag : α → τ) (s : κ → Option α) (map : τ → Bool) : Prop :=
  ∀ t, map t = true ↔ ∃ k a, s k = some a ∧ tag a = t

/-- No other slot holds the tag. -/
def Sole (tag : α → τ) (s : κ → Option α) (k : κ) (t : τ) : Prop := ∀ j a, j ≠ k → s j = some a → tag a ≠ t

omit [DecidableEq τ] in
theorem sole_update (o : Option α) (t : τ) : Sole tag (Function.update s k o) k t ↔ Sole tag s k t := by
  constructor
  · intro h j a hj hs
    exact h j a hj (by rw [Function.update_of_ne hj]; exact hs)
  · intro h j a hj hs
    rw [Function.update_of_ne hj] at hs
    exact h j a hj hs

omit [DecidableEq κ] [DecidableEq τ] in
theorem indexed_empty : Indexed tag (fun _ : κ => none) fun _ => false := by
  intro t
  constructor
  · intro h; cases h
  · rintro ⟨_, _, h, _⟩; cases h

theorem indexed_fill (h : Indexed tag s map) (hk : s k = none) :
    Indexed tag (Function.update s k (some a)) (Function.update map (tag a) true) := by
  intro t
  by_cases ht : t = tag a
  · subst ht
    rw [Function.update_self]
    exact ⟨fun _ => ⟨k, a, Function.update_self .., rfl⟩, fun _ => rfl⟩
  · rw [Function.update_of_ne ht, h t]
    constructor
    · rintro ⟨j, b, hj, hb⟩
      have hne : j ≠ k := by rintro rfl; rw [hk] at hj; cases hj
      exact ⟨j, b, by rw [Function.update_of_ne hne]; exact hj, hb⟩
    · rintro ⟨j, b, hj, hb⟩
      by_cases hne : j = k
      · subst hne
        rw [Function.update_self] at hj
        cases hj
        exact absurd hb.symm ht
      · rw [Function.update_of_ne hne] at hj
        exact ⟨j, b, hj, hb⟩

omit [DecidableEq τ] in
theorem indexed_change (h : Indexed tag s map) (hk : s k = some a) (hb : tag b = tag a) :
    Indexed tag (Function.update s k (some b)) map := by
  intro t
  rw [h t]
  constructor
  · rintro ⟨j, c, hj, hc⟩
    by_cases hne : j = k
    · subst hne
      rw [hk] at hj
      cases hj
      exact ⟨j, b, Function.update_self .., hb.trans hc⟩
    · exact ⟨j, c, by rw [Function.update_of_ne hne]; exact hj, hc⟩
  · rintro ⟨j, c, hj, hc⟩
    by_cases hne : j = k
    · subst hne
      rw [Function.update_self] at hj
      cases hj
      exact ⟨j, a, hk, hb.symm.trans hc⟩
    · rw [Function.update_of_ne hne] at hj
      exact ⟨j, c, hj, hc⟩

/-- Who empties a slot may clear its tag exactly when no other slot holds it. -/
theorem indexed_clear_iff (h : Indexed tag s map) (hk : s k = some a) :
    Indexed tag (Function.update s k none) (Function.update map (tag a) false) ↔ Sole tag s k (tag a) := by
  constructor
  · intro h' j b hj hs hb
    have hset := (h' (tag a)).mpr ⟨j, b, by rw [Function.update_of_ne hj]; exact hs, hb⟩
    rw [Function.update_self] at hset
    cases hset
  · intro hsole t
    by_cases ht : t = tag a
    · subst ht
      rw [Function.update_self]
      constructor
      · intro hf; cases hf
      · rintro ⟨j, b, hj, hb⟩
        by_cases hne : j = k
        · subst hne; rw [Function.update_self] at hj; cases hj
        · rw [Function.update_of_ne hne] at hj
          exact absurd hb (hsole j b hne hj)
    · rw [Function.update_of_ne ht, h t]
      constructor
      · rintro ⟨j, b, hj, hb⟩
        have hne : j ≠ k := by rintro rfl; rw [hk] at hj; cases hj; exact ht hb.symm
        exact ⟨j, b, by rw [Function.update_of_ne hne]; exact hj, hb⟩
      · rintro ⟨j, b, hj, hb⟩
        by_cases hne : j = k
        · subst hne; rw [Function.update_self] at hj; cases hj
        · rw [Function.update_of_ne hne] at hj
          exact ⟨j, b, hj, hb⟩

end Index

end Ntopng.Lib.Slots
