/-
  Ntopng.Lib.Hashed — a table kept under the hashes of its keys.

  `Files h K c t`: the entries `c` by hash are those of the table `t` by key, as far as the
  keys in `K` go, and there are no others. A write under a key of `K` and one under its
  hash keep it, if no two keys of `K` have one hash (`Files.update`). `held p t` are the
  keys whose entry meets `p`; a write changes their number by at most one.
-/

import Mathlib

namespace Ntopng.Lib.Hashed

variable {κ η α : Type*} {h : κ → η} {K : Set κ} {c : η → Option α} {t : κ → Option α}

structure Files (h : κ → η) (K : Set κ) (c : η → Option α) (t : κ → Option α) : Prop where
  found : ∀ k ∈ K, c (h k) = t k
  only : ∀ n, c n ≠ none → ∃ k ∈ K, h k = n
  inside : ∀ k, t k ≠ none → k ∈ K

theorem files_empty : Files h K (fun _ => none : η → Option α) (fun _ => none) :=
  ⟨fun _ _ => rfl, fun _ hn => absurd rfl hn, fun _ hn => absurd rfl hn⟩

variable [DecidableEq κ] [DecidableEq η]

theorem Files.update (hf : Files h K c t) (hinj : Set.InjOn h K) {k : κ} (hk : k ∈ K) (o : Option α) :
    Files h K (Function.update c (h k) o) (Function.update t k o) := by
  refine ⟨fun k' hk' => ?_, fun n hn => ?_, fun k' hk' => ?_⟩
  · by_cases heq : k' = k
    · rw [heq, Function.update_self, Function.update_self]
    · have hne : h k' ≠ h k := fun hh => heq (hinj hk' hk hh)
      rw [Function.update_of_ne hne, Function.update_of_ne heq]
      exact hf.found k' hk'
  · by_cases heq : n = h k
    · exact ⟨k, hk, heq.symm⟩
    · rw [Function.update_of_ne heq] at hn
      exact hf.only n hn
  · by_cases heq : k' = k
    · rwa [heq]
    · rw [Function.update_of_ne heq] at hk'
      exact hf.inside k' hk'

/-! ## Counting entries -/

def held (p : α → Prop) (t : κ → Option α) : Set κ := {k | ∃ v, t k = some v ∧ p v}

variable {p : α → Prop} [DecidablePred p] {k : κ} {v : α}

theorem held_insert (hnone : t k = none) (hfin : (held p t).Finite) :
    (held p (Function.update t k (some v))).Finite ∧
      (held p (Function.update t k (some v))).ncard = (held p t).ncard + if p v then 1 else 0 := by
  have hk : k ∉ held p t := fun hmem => by
    obtain ⟨v, hv, -⟩ := hmem
    rw [hnone] at hv
    cases hv
  by_cases hp : p v
  · have hset : held p (Function.update t k (some v)) = insert k (held p t) := by
      ext k'
      rcases eq_or_ne k' k with rfl | hne
      · simp [held, hp]
      · simp [held, hne]
    rw [hset, if_pos hp]
    exact ⟨hfin.insert k, Set.ncard_insert_of_notMem hk hfin⟩
  · have hset : held p (Function.update t k (some v)) = held p t := by
      ext k'
      rcases eq_or_ne k' k with rfl | hne
      · simp [held, hp, hnone]
      · simp [held, Function.update_of_ne hne]
    rw [hset, if_neg hp]
    exact ⟨hfin, rfl⟩

theorem held_erase (hsome : t k = some v) (hfin : (held p t).Finite) :
    (held p (Function.update t k none)).Finite ∧
      (held p t).ncard = (held p (Function.update t k none)).ncard + if p v then 1 else 0 := by
  have hback : Function.update (Function.update t k none) k (some v) = t := by
    rw [Function.update_idem, ← hsome, Function.update_eq_self]
  have hsub : held p (Function.update t k none) ⊆ held p t := by
    intro k' hk'
    rcases eq_or_ne k' k with rfl | hne
    · obtain ⟨v', hv', -⟩ := hk'
      rw [Function.update_self] at hv'
      cases hv'
    · simpa [held, Function.update_of_ne hne] using hk'
  have hinsert := held_insert (p := p) (t := Function.update t k none) (k := k) (v := v)
    (Function.update_self ..) (hfin.subset hsub)
  rw [hback] at hinsert
  exact ⟨hfin.subset hsub, hinsert.2⟩

end Ntopng.Lib.Hashed
