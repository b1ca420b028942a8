/-
  Ntopng.Lib.EntryLoop — loops over the entries of a map that write under the key of each entry.

  A map is Mathlib's `AList`: its entries have different keys, and come in any order. The loop
  changes some state, of which `view s k` is what is to be seen under the key `k`. If a turn changes
  only the view under the key of its entry, then what the loop leaves under a key is what the turn of
  that key makes of the first view (`view_foldl`), whatever the order of the entries.
-/

import Mathlib

namespace Ntopng.Lib.EntryLoop

/-- A map from `κ` to `α`. -/
abbrev Map (κ α : Type*) := AList fun _ : κ => α

variable {κ α β ω σ : Type*}

/-- What a loop with turns `g` leaves under a key that has an entry, or none. -/
def visited (g : κ → α → ω → ω) (k : κ) (entry : Option α) (v : ω) : ω :=
  match entry with
  | some a => g k a v
  | none => v

theorem inv_foldl {f : σ → (Σ _ : κ, α) → σ} {I : σ → Prop} {entries : List (Σ _ : κ, α)}
    (hinv : ∀ s, ∀ e ∈ entries, I s → I (f s e)) {s : σ} (hs : I s) : I (entries.foldl f s) := by
  induction entries generalizing s with
  | nil => exact hs
  | cons e entries ih =>
    rw [List.foldl_cons]
    exact ih (fun s x hx => hinv s x (List.mem_cons_of_mem e hx)) (hinv s e (List.mem_cons_self ..) hs)

variable [DecidableEq κ]

theorem view_foldl {f : σ → (Σ _ : κ, α) → σ} {v : σ → κ → ω} {g : κ → α → ω → ω} {I : σ → Prop}
    {entries : List (Σ _ : κ, α)} (hnodup : entries.NodupKeys)
    (hinv : ∀ s, ∀ e ∈ entries, I s → I (f s e))
    (hown : ∀ s, ∀ e ∈ entries, I s → v (f s e) e.1 = g e.1 e.2 (v s e.1))
    (hother : ∀ s, ∀ e ∈ entries, I s → ∀ k ≠ e.1, v (f s e) k = v s k) {s : σ} (hs : I s) (k : κ) :
    v (entries.foldl f s) k = visited g k (entries.dlookup k) (v s k) := by
  induction entries generalizing s with
  | nil => rfl
  | cons e entries ih =>
    rcases List.nodupKeys_cons.mp hnodup with ⟨hnew, hrest⟩
    have hmem : ∀ x ∈ entries, x ∈ e :: entries := fun x hx => List.mem_cons_of_mem e hx
    have hhead := List.mem_cons_self (a := e) (l := entries)
    rw [List.foldl_cons, ih hrest (fun s x hx => hinv s x (hmem x hx)) (fun s x hx => hown s x (hmem x hx))
      (fun s x hx => hother s x (hmem x hx)) (hinv s e hhead hs)]
    by_cases hk : k = e.1
    · subst hk
      have hnone : entries.dlookup e.1 = none := List.dlookup_eq_none.mpr hnew
      have hself : (e :: entries).dlookup e.1 = some e.2 := List.dlookup_cons_eq entries e.1 e.2
      rw [hnone, hself, visited, visited, hown s e hhead hs]
    · rw [hother s e hhead hs k hk, List.dlookup_cons_ne entries e hk]

/-- The state is a map, and what is seen is the entry. -/
theorem lookup_foldl {f : Map κ β → (Σ _ : κ, α) → Map κ β} {g : κ → α → Option β → Option β} {m : Map κ α}
    (hown : ∀ s e, (f s e).lookup e.1 = g e.1 e.2 (s.lookup e.1))
    (hother : ∀ s e, ∀ k ≠ e.1, (f s e).lookup k = s.lookup k) (s : Map κ β) (k : κ) :
    (m.entries.foldl f s).lookup k = visited g k (m.lookup k) (s.lookup k) :=
  view_foldl (I := fun _ => True) (v := fun s k => s.lookup k) m.nodupKeys (fun _ _ _ _ => trivial)
    (fun s e _ _ => hown s e) (fun s e _ _ => hother s e) trivial k

/-- An entry put under a key. -/
theorem lookup_insert_eq (m : Map κ α) (k k' : κ) (a : α) :
    (m.insert k a).lookup k' = if k' = k then some a else m.lookup k' := by
  by_cases hk : k' = k
  · rw [hk, AList.lookup_insert, if_pos rfl]
  · rw [AList.lookup_insert_ne hk, if_neg hk]

end Ntopng.Lib.EntryLoop
