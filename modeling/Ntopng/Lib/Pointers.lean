/-
  Ntopng.Lib.Pointers — maps to objects on the heap.

  `pointers m` are the objects of a map, `see os m k` is what the object of the key `k` holds. Where the
  map owns its objects, a new object and a change of one are seen under their key only.
-/

import Ntopng.Lib.EntryLoop
import Ntopng.Lib.Objects

namespace Ntopng.Lib.Pointers

open Ntopng.Lib.EntryLoop Ntopng.Lib.Objects

variable {κ α : Type*} {m : Map κ ℕ} {k k' : κ} {i j : ℕ} {os : Objects α}

def pointers (m : Map κ ℕ) : List ℕ := m.entries.map Sigma.snd

variable [DecidableEq κ]

def see (os : Objects α) (m : Map κ ℕ) (k : κ) : Option α := (m.lookup k).bind os.read

theorem lookup_mem (h : m.lookup k = some i) : i ∈ pointers m :=
  List.mem_map.mpr ⟨⟨k, i⟩, AList.mem_lookup_iff.mp h, rfl⟩

theorem mem_pointers : i ∈ pointers m ↔ ∃ k, m.lookup k = some i := by
  constructor
  · intro h
    rcases List.mem_map.mp h with ⟨⟨k, j⟩, hmem, rfl⟩
    exact ⟨k, AList.mem_lookup_iff.mpr hmem⟩
  · intro h
    rcases h with ⟨k, hk⟩
    exact lookup_mem hk

/-- No object is that of two keys. -/
theorem lookup_inj (h : (pointers m).Nodup) (hk : m.lookup k = some i) (hk' : m.lookup k' = some i) : k = k' := by
  have hmem : (⟨k, i⟩ : Σ _ : κ, ℕ) ∈ m.entries := AList.mem_lookup_iff.mp hk
  have hmem' : (⟨k', i⟩ : Σ _ : κ, ℕ) ∈ m.entries := AList.mem_lookup_iff.mp hk'
  have heq := List.inj_on_of_nodup_map h hmem hmem' rfl
  exact congrArg Sigma.fst heq

theorem pointers_insert_new (h : m.lookup k = none) (i : ℕ) : pointers (m.insert k i) = i :: pointers m := by
  rw [pointers, AList.entries_insert_of_notMem (AList.lookup_eq_none.mp h)]
  rfl

theorem pointers_insert_sublist (m : Map κ ℕ) (k : κ) (i : ℕ) : (pointers (m.insert k i)).Sublist (i :: pointers m) := by
  rw [pointers, AList.entries_insert]
  exact ((List.kerase_sublist k m.entries).map Sigma.snd).cons_cons i

theorem see_isSome (h : Owns os (pointers m)) : (see os m k).isSome ↔ (m.lookup k).isSome := by
  rw [see]
  cases hk : m.lookup k with
  | none => rfl
  | some i => exact iff_of_true (read_isSome.mpr (h.lt i (lookup_mem hk))) rfl

theorem see_insert_new (h : Owns os (pointers m)) (a : α) (k k' : κ) :
    see (os.new a) (m.insert k os.size) k' = if k' = k then some a else see os m k' := by
  rw [see, lookup_insert_eq]
  by_cases hk : k' = k
  · rw [if_pos hk, if_pos hk]
    exact read_new_self
  · rw [if_neg hk, if_neg hk, see]
    cases hk' : m.lookup k' with
    | none => rfl
    | some i => exact read_new_of_lt (h.lt i (lookup_mem hk'))

theorem see_modify (h : Owns os (pointers m)) (hk : m.lookup k = some i) (f : α → α) (k' : κ) :
    see (os.modify i f) m k' = if k' = k then (see os m k').map f else see os m k' := by
  by_cases heq : k' = k
  · subst heq
    rw [if_pos rfl, see, see, hk]
    exact read_modify_self f
  · rw [if_neg heq, see, see]
    cases hk' : m.lookup k' with
    | none => rfl
    | some j =>
      refine read_modify_ne f fun hij => heq ?_
      subst hij
      exact lookup_inj h.nodup hk' hk

end Ntopng.Lib.Pointers
