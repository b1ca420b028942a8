/-
  Ntopng.Lib.Groups — a list read once into one row a key.

  The first entry of a key makes its row (`new`), every later one updates it (`upd`).
  Proved: the row of a key is that of the entries with the key, in their order
  (`mem_group_iff`), so what an update adds up is a sum over them (`row_sum`). Where two
  keys tell the same entries apart, the rows are the same (`rows_congr`).
-/

import Ntopng.Lib.OrdMap

namespace Ntopng.Lib.Groups

open Ntopng.Lib.OrdMap

universe u v w

variable {α : Type u} {κ : Type v} {β : Type w} [DecidableEq κ] (key : α → κ) (new : α → β) (upd : β → α → β)

def add (m : List (κ × β)) (x : α) : List (κ × β) :=
  if key x ∈ keys m then m.map fun e => if e.1 = key x then (e.1, upd e.2 x) else e else m ++ [(key x, new x)]

def group (xs : List α) : List (κ × β) := xs.foldl (add key new upd) []

/-- What a row becomes with the entries of one key. -/
def row : List α → Option β
  | [] => none
  | x :: xs => some (xs.foldl upd (new x))

/-! ## Keys -/

variable {key new upd} {m : List (κ × β)} {xs : List α} {x : α} {k : κ} {b : β}

theorem group_snoc (xs : List α) (x : α) :
    group key new upd (xs ++ [x]) = add key new upd (group key new upd xs) x := by
  rw [group, List.foldl_append]
  rfl

theorem keys_add (m : List (κ × β)) (x : α) :
    keys (add key new upd m x) = if key x ∈ keys m then keys m else keys m ++ [key x] := by
  rw [add]
  split
  · rw [keys, List.map_map]
    refine List.map_congr_left fun e _ => ?_
    rw [Function.comp_apply]
    split
    · rfl
    · rfl
  · rw [keys, List.map_append]
    rfl

theorem mem_keys_group : k ∈ keys (group key new upd xs) ↔ ∃ x ∈ xs, key x = k := by
  induction xs using List.reverseRecOn with
  | nil => simp [group, keys]
  | append_singleton xs x ih =>
    rw [group_snoc, keys_add]
    by_cases hx : key x ∈ keys (group key new upd xs)
    · rw [if_pos hx, ih]
      constructor
      · rintro ⟨y, hy, hk⟩
        exact ⟨y, List.mem_append_left _ hy, hk⟩
      · rintro ⟨y, hy, rfl⟩
        rcases List.mem_append.mp hy with hy | hy
        · exact ⟨y, hy, rfl⟩
        · obtain rfl := List.mem_singleton.mp hy
          exact ih.mp hx
    · rw [if_neg hx, List.mem_append, ih, List.mem_singleton]
      constructor
      · rintro (⟨y, hy, hk⟩ | rfl)
        · exact ⟨y, List.mem_append_left _ hy, hk⟩
        · exact ⟨x, List.mem_append_right _ (List.mem_singleton_self x), rfl⟩
      · rintro ⟨y, hy, rfl⟩
        rcases List.mem_append.mp hy with hy | hy
        · exact Or.inl ⟨y, hy, rfl⟩
        · exact Or.inr (by rw [List.mem_singleton.mp hy])

theorem keys_group_nodup (xs : List α) : (keys (group key new upd xs)).Nodup := by
  induction xs using List.reverseRecOn with
  | nil => exact List.nodup_nil
  | append_singleton xs x ih =>
    rw [group_snoc, keys_add]
    by_cases hx : key x ∈ keys (group key new upd xs)
    · rwa [if_pos hx]
    · rw [if_neg hx]
      exact List.nodup_append.mpr ⟨ih, List.nodup_singleton _, fun a ha c hc heq => hx (by
        rw [← List.mem_singleton.mp hc, ← heq]
        exact ha)⟩

theorem keys_group_perm (xs : List α) : (keys (group key new upd xs)).Perm (xs.map key).dedup := by
  refine (List.perm_ext_iff_of_nodup (keys_group_nodup xs) (List.nodup_dedup _)).mpr fun k => ?_
  rw [mem_keys_group, List.mem_dedup, List.mem_map]

/-! ## Rows -/

theorem row_snoc (xs : List α) (x : α) :
    row new upd (xs ++ [x]) = some ((row new upd xs).elim (new x) fun b => upd b x) := by
  cases xs with
  | nil => rfl
  | cons y ys =>
    rw [List.cons_append, row, List.foldl_append]
    rfl

theorem find_update {g : β → β} (m : List (κ × β)) (j k : κ) :
    find (m.map fun e => if e.1 = j then (e.1, g e.2) else e) k = if k = j then (find m k).map g else find m k := by
  induction m with
  | nil => simp
  | cons e m ih =>
    rw [List.map_cons, find_cons, find_cons, ih]
    by_cases hj : e.1 = j
    · by_cases hk : e.1 = k
      · simp [hj, ← hk]
      · have hne : k ≠ j := fun h => hk (hj.trans h.symm)
        simp [hj, hne, Ne.symm hne]
    · by_cases hk : e.1 = k
      · have hne : k ≠ j := fun h => hj (hk.trans h)
        simp [hk, hne]
      · simp [hj, hk]

theorem find_add (m : List (κ × β)) (x : α) (k : κ) : find (add key new upd m x) k =
    if k = key x then some ((find m k).elim (new x) fun b => upd b x) else find m k := by
  rw [add]
  by_cases hx : key x ∈ keys m
  · rw [if_pos hx, find_update (g := fun b => upd b x)]
    by_cases hk : k = key x
    · obtain ⟨b, hb⟩ := Option.isSome_iff_exists.mp (find_isSome.mpr hx)
      rw [if_pos hk, if_pos hk, hk, hb]
      rfl
    · rw [if_neg hk, if_neg hk]
  · rw [if_neg hx, find_append, find_cons, find_nil]
    by_cases hk : k = key x
    · have hnone : find m k = none := by
        rw [hk]
        exact Option.not_isSome_iff_eq_none.mp fun h => hx (find_isSome.mp h)
      rw [if_pos hk, if_pos hk.symm, hnone]
      rfl
    · rw [if_neg hk, if_neg (Ne.symm hk), Option.or_none]

/-- The row of a key is the row of the entries with that key. -/
theorem find_group (xs : List α) (k : κ) :
    find (group key new upd xs) k = row new upd (xs.filter fun x => key x = k) := by
  induction xs using List.reverseRecOn with
  | nil => rfl
  | append_singleton xs x ih =>
    rw [group_snoc, find_add, List.filter_append]
    by_cases hk : k = key x
    · rw [if_pos hk, List.filter_cons_of_pos (by simpa using hk.symm), List.filter_nil, row_snoc, ih]
    · rw [if_neg hk, List.filter_cons_of_neg (by simpa using Ne.symm hk), List.filter_nil, List.append_nil, ih]

theorem mem_group : (k, b) ∈ group key new upd xs ↔ row new upd (xs.filter fun x => key x = k) = some b := by
  rw [mem_iff_find (keys_group_nodup xs), find_group]

/-- What the updates add up. -/
theorem row_sum {γ : Type*} [AddCommMonoid γ] {f : β → γ} {t : α → γ} (hnew : ∀ x, f (new x) = t x)
    (hupd : ∀ b x, f (upd b x) = f b + t x) (h : row new upd xs = some b) : f b = (xs.map t).sum := by
  induction xs using List.reverseRecOn generalizing b with
  | nil => cases h
  | append_singleton xs x ih =>
    rw [row_snoc, Option.some.injEq] at h
    rw [← h, List.map_append, List.sum_append, List.map_singleton, List.sum_singleton]
    rcases hrow : row new upd xs with _ | b'
    · cases xs with
      | nil => rw [Option.elim_none, hnew, List.map_nil, List.sum_nil, zero_add]
      | cons y ys => cases hrow
    · rw [Option.elim_some, hupd, ih hrow]

/-- What holds of a first entry and after each update. -/
theorem row_inv {P : List α → β → Prop} (hnew : ∀ x, P [x] (new x))
    (hupd : ∀ xs b x, P xs b → P (xs ++ [x]) (upd b x)) (h : row new upd xs = some b) : P xs b := by
  induction xs using List.reverseRecOn generalizing b with
  | nil => cases h
  | append_singleton xs x ih =>
    rw [row_snoc, Option.some.injEq] at h
    rw [← h]
    rcases hrow : row new upd xs with _ | b'
    · cases xs with
      | nil => exact hnew x
      | cons y ys => cases hrow
    · exact hupd xs b' x (ih hrow)

/-- A sum of words, and of their values. -/
theorem sum_wraps {γ : Type*} [AddCommMonoid γ] {val : γ → ℕ} {n : ℕ} (hzero : val 0 = 0)
    (hadd : ∀ a b, val (a + b) = (val a + val b) % n) (l : List γ) : val l.sum = (l.map val).sum % n := by
  induction l with
  | nil => rw [List.sum_nil, hzero, List.map_nil, List.sum_nil, Nat.zero_mod]
  | cons a l ih => rw [List.sum_cons, hadd, ih, List.map_cons, List.sum_cons, Nat.add_mod_mod]

/-- What the updates leave. -/
theorem row_same {γ : Type*} {f : β → γ} (hupd : ∀ b x, f (upd b x) = f b) (h : row new upd xs = some b) :
    ∃ x ∈ xs, f b = f (new x) := by
  cases xs with
  | nil => cases h
  | cons x xs =>
    refine ⟨x, List.mem_cons_self .., ?_⟩
    rw [row, Option.some.injEq] at h
    rw [← h]
    clear h
    induction xs using List.reverseRecOn with
    | nil => rfl
    | append_singleton xs y ih => rw [List.foldl_append, List.foldl_cons, List.foldl_nil, hupd, ih]

/-- A view of the rows that is a function of their keys. -/
theorem rows_perm {γ : Type*} {f : β → γ} {g : κ → γ}
    (h : ∀ k b, row new upd (xs.filter fun x => key x = k) = some b → f b = g k) :
    ((group key new upd xs).map fun e => f e.2).Perm ((xs.map key).dedup.map g) := by
  have hview : ((group key new upd xs).map fun e => f e.2) = (keys (group key new upd xs)).map g := by
    rw [keys, List.map_map]
    exact List.map_congr_left fun e he => h e.1 e.2 (mem_group.mp he)
  rw [hview]
  exact (keys_group_perm xs).map g

/-- Keys that tell the same entries apart give the same rows. -/
theorem rows_congr {κ' : Type*} [DecidableEq κ'] {key' : α → κ'}
    (h : ∀ x ∈ xs, ∀ y ∈ xs, key x = key y ↔ key' x = key' y) :
    (group key new upd xs).map Prod.snd = (group key' new upd xs).map Prod.snd := by
  have hreps : ∃ l : List (α × β), (∀ e ∈ l, e.1 ∈ xs) ∧ group key new upd xs = l.map (fun e => (key e.1, e.2)) ∧
      group key' new upd xs = l.map fun e => (key' e.1, e.2) := by
    induction xs using List.reverseRecOn with
    | nil => exact ⟨[], fun e he => absurd he List.not_mem_nil, rfl, rfl⟩
    | append_singleton xs x ih =>
      obtain ⟨l, hmem, hl, hl'⟩ := ih fun a ha c hc => h a (List.mem_append_left _ ha) c (List.mem_append_left _ hc)
      have hx : ∀ e ∈ l, key e.1 = key x ↔ key' e.1 = key' x := fun e he =>
        h e.1 (List.mem_append_left _ (hmem e he)) x (List.mem_append_right _ (List.mem_singleton_self x))
      have hkeys : key x ∈ keys (group key new upd xs) ↔ key' x ∈ keys (group key' new upd xs) := by
        rw [hl, hl', keys, keys, List.map_map, List.map_map, List.mem_map, List.mem_map]
        exact exists_congr fun e => and_congr_right fun he => hx e he
      rw [group_snoc, group_snoc, add, add]
      by_cases hin : key x ∈ keys (group key new upd xs)
      · rw [if_pos hin, if_pos (hkeys.mp hin), hl, hl', List.map_map, List.map_map]
        refine ⟨l.map fun e => if key e.1 = key x then (e.1, upd e.2 x) else e, ?_, ?_, ?_⟩
        · intro e he
          obtain ⟨e', he', rfl⟩ := List.mem_map.mp he
          split
          · exact List.mem_append_left _ (hmem e' he')
          · exact List.mem_append_left _ (hmem e' he')
        · refine (List.map_congr_left fun e _ => ?_).trans List.map_map.symm
          simp only [Function.comp_apply]
          split
          · rfl
          · rfl
        · refine (List.map_congr_left fun e he => ?_).trans List.map_map.symm
          simp only [Function.comp_apply, ← hx e he]
          split
          · rfl
          · rfl
      · rw [if_neg hin, if_neg fun hin' => hin (hkeys.mpr hin'), hl, hl']
        refine ⟨l ++ [(x, new x)], ?_, ?_, ?_⟩
        · intro e he
          rcases List.mem_append.mp he with he | he
          · exact List.mem_append_left _ (hmem e he)
          · rw [List.mem_singleton.mp he]
            exact List.mem_append_right _ (List.mem_singleton_self x)
        · rw [List.map_append]
          rfl
        · rw [List.map_append]
          rfl
  obtain ⟨l, _, hl, hl'⟩ := hreps
  rw [hl, hl', List.map_map, List.map_map]
  rfl

end Ntopng.Lib.Groups
