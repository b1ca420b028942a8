/-
  Ntopng.Lib.OrdMap — an ordered map as the sorted list of its entries.

  `put` is `m[k] = v`. A key has the value that was put last (`find_put`). Where the key is new
  one entry is added, up to the order (`put_perm`).
-/

import Mathlib

namespace Ntopng.Lib.OrdMap

variable {κ α : Type*} [DecidableEq κ] {m : List (κ × α)} {k : κ} {v : α}

def keys (m : List (κ × α)) : List κ := m.map Prod.fst

def find (m : List (κ × α)) (k : κ) : Option α := (m.find? fun e => e.1 = k).map Prod.snd

def erase (m : List (κ × α)) (k : κ) : List (κ × α) := m.filter fun e => e.1 ≠ k

@[simp] theorem find_nil (k : κ) : find ([] : List (κ × α)) k = none := rfl

theorem find_cons (e : κ × α) (m : List (κ × α)) (k : κ) :
    find (e :: m) k = if e.1 = k then some e.2 else find m k := by
  rw [find, List.find?_cons]
  by_cases h : e.1 = k
  · rw [decide_eq_true h, if_pos h]
    rfl
  · rw [decide_eq_false h, if_neg h]
    rfl

theorem find_append (m m' : List (κ × α)) (k : κ) : find (m ++ m') k = (find m k).or (find m' k) := by
  rw [find, List.find?_append, find, find]
  cases m.find? fun e => e.1 = k with
  | none => rfl
  | some e => rfl

theorem find_some_mem (h : find m k = some v) : (k, v) ∈ m := by
  obtain ⟨e, he, rfl⟩ := Option.map_eq_some_iff.mp h
  have hk := List.find?_some he
  rw [decide_eq_true_iff] at hk
  rw [← hk]
  exact List.mem_of_find?_eq_some he

theorem find_none (h : find m k = none) : k ∉ keys m := by
  rw [find, Option.map_eq_none_iff, List.find?_eq_none] at h
  intro hk
  obtain ⟨e, he, rfl⟩ := List.mem_map.mp hk
  exact h e he (decide_eq_true rfl)

theorem find_isSome : (find m k).isSome ↔ k ∈ keys m := by
  rcases hfind : find m k with _ | v
  · exact iff_of_false (by simp) (find_none hfind)
  · exact iff_of_true rfl (List.mem_map_of_mem (find_some_mem hfind))

theorem mem_iff_find (hnodup : (keys m).Nodup) : (k, v) ∈ m ↔ find m k = some v := by
  refine ⟨fun h => ?_, find_some_mem⟩
  induction m with
  | nil => exact absurd h List.not_mem_nil
  | cons e m ih =>
    rw [keys, List.map_cons, List.nodup_cons] at hnodup
    rw [find_cons]
    rcases List.mem_cons.mp h with rfl | h
    · exact if_pos rfl
    · have hne : e.1 ≠ k := fun heq => hnodup.1 (heq ▸ List.mem_map_of_mem h)
      rw [if_neg hne]
      exact ih hnodup.2 h

theorem erase_none (h : k ∉ keys m) : erase m k = m := by
  refine List.filter_eq_self.mpr fun e he => decide_eq_true fun hk => h ?_
  rw [← hk]
  exact List.mem_map_of_mem he

/-- With different keys, taking the entry of a key out leaves the others. -/
theorem erase_perm (hnodup : (keys m).Nodup) (h : (k, v) ∈ m) : m.Perm ((k, v) :: erase m k) := by
  induction m with
  | nil => exact absurd h List.not_mem_nil
  | cons e m ih =>
    rw [keys, List.map_cons, List.nodup_cons] at hnodup
    rcases List.mem_cons.mp h with rfl | h
    · rw [erase, List.filter_cons_of_neg (by simp), ← erase, erase_none hnodup.1]
    · have hne : e.1 ≠ k := fun heq => hnodup.1 (heq ▸ List.mem_map_of_mem h)
      rw [erase, List.filter_cons_of_pos (by simpa using hne), ← erase]
      exact ((ih hnodup.2 h).cons e).trans (List.Perm.swap ..)

/-! ## Writing -/

variable [LT κ] [DecidableLT κ]

def put : List (κ × α) → κ → α → List (κ × α)
  | [], k, v => [(k, v)]
  | (k', v') :: m, k, v =>
    if k = k' then (k, v) :: m else if k < k' then (k, v) :: (k', v') :: m else (k', v') :: put m k v

theorem find_put (m : List (κ × α)) (k : κ) (v : α) (k' : κ) :
    find (put m k v) k' = if k = k' then some v else find m k' := by
  induction m with
  | nil => exact find_cons (k, v) [] k'
  | cons e m ih =>
    obtain ⟨j, w⟩ := e
    rw [put]
    by_cases hk : k = j
    · rw [if_pos hk, find_cons, find_cons, hk]
      by_cases hj : j = k'
      · rw [if_pos hj, if_pos hj]
      · rw [if_neg hj, if_neg hj, if_neg hj]
    · rw [if_neg hk]
      by_cases hlt : k < j
      · rw [if_pos hlt, find_cons]
      · rw [if_neg hlt, find_cons, find_cons, ih]
        by_cases hj : j = k'
        · rw [if_pos hj, if_pos hj, if_neg fun heq => hk (heq.trans hj.symm)]
        · rw [if_neg hj, if_neg hj]

theorem put_perm (h : k ∉ keys m) : (put m k v).Perm ((k, v) :: m) := by
  induction m with
  | nil => exact List.Perm.refl _
  | cons e m ih =>
    obtain ⟨k', v'⟩ := e
    rw [keys, List.map_cons, List.mem_cons, not_or] at h
    rw [put, if_neg h.1]
    split
    · exact List.Perm.refl _
    · exact ((ih h.2).cons _).trans (List.Perm.swap ..)

end Ntopng.Lib.OrdMap
