/-
  Ntopng.Lib.Heap — heap objects that are freed by hand.

  `Mem` counts the objects created and logs every `delete` and every access to an object
  that was freed before (or to NULL). `Owned m os` says that the objects that `os` lists
  are the ones still alive, each listed once: every object is owned by one place or was
  freed once, and nothing freed was ever read. The rules are what `new`, `delete`, a read
  and a move between owners do to it.
-/

import Mathlib

namespace Ntopng.Lib.Heap

structure Mem where
  created : Nat
  freed : List Nat
  badReads : List (Option Nat)
  deriving DecidableEq, Repr

namespace Mem

def empty : Mem := ⟨0, [], []⟩

/-- The next object has the number `created`. -/
def new (m : Mem) : Mem := { m with created := m.created + 1 }

def delete (m : Mem) (id : Nat) : Mem := { m with freed := id :: m.freed }

/-- The object behind a pointer is read. -/
def touch (m : Mem) (p : Option Nat) : Mem :=
  match p with
  | none => { m with badReads := none :: m.badReads }
  | some id => if id ∈ m.freed then { m with badReads := some id :: m.badReads } else m

def touchAll (m : Mem) (ids : List Nat) : Mem := ids.foldl (fun m id => m.touch (some id)) m

end Mem

structure Owned (m : Mem) (os : List Nat) : Prop where
  perm : (os ++ m.freed).Perm (List.range m.created)
  clean : m.badReads = []

variable {m : Mem} {os os' : List Nat} {id : Nat}

theorem owned_empty : Owned .empty [] := ⟨.nil, rfl⟩

theorem Owned.of_perm (h : Owned m os) (hp : os'.Perm os) : Owned m os' :=
  ⟨(hp.append_right _).trans h.perm, h.clean⟩

theorem Owned.nodup (h : Owned m os) : (os ++ m.freed).Nodup := h.perm.nodup_iff.mpr List.nodup_range

theorem Owned.freed_nodup (h : Owned m os) : m.freed.Nodup := (List.nodup_append.mp h.nodup).2.1

theorem Owned.not_freed (h : Owned m os) (hid : id ∈ os) : id ∉ m.freed :=
  fun hf => (List.nodup_append.mp h.nodup).2.2 id hid id hf rfl

theorem Owned.owned_or_freed (h : Owned m os) : id < m.created ↔ id ∈ os ∨ id ∈ m.freed := by
  rw [← List.mem_append, h.perm.mem_iff, List.mem_range]

theorem Owned.lt_created (h : Owned m os) (hid : id ∈ os) : id < m.created := h.owned_or_freed.mpr (.inl hid)

theorem Owned.new (h : Owned m os) : Owned m.new (m.created :: os) := by
  refine ⟨?_, h.clean⟩
  simp only [Mem.new, List.range_succ, List.cons_append]
  exact (h.perm.cons _).trans (List.perm_append_singleton ..).symm

theorem Owned.delete (h : Owned m (id :: os)) : Owned (m.delete id) os :=
  ⟨List.perm_middle.trans h.perm, h.clean⟩

/-- Reading an owned object does nothing. -/
theorem Owned.touch_eq (h : Owned m os) (hid : id ∈ os) : m.touch (some id) = m := by
  simp only [Mem.touch, if_neg (h.not_freed hid)]

theorem Owned.touchAll_eq (h : Owned m os) {ids : List Nat} (hids : ∀ id ∈ ids, id ∈ os) : m.touchAll ids = m := by
  induction ids with
  | nil => rfl
  | cons id ids ih =>
    rw [Mem.touchAll, List.foldl_cons, h.touch_eq (hids id (List.mem_cons_self ..))]
    exact ih fun i hi => hids i (List.mem_cons_of_mem _ hi)

/-- All that a list of owners held is freed. -/
theorem Owned.deleteAll (h : Owned m (os' ++ os)) : Owned { m with freed := os'.reverse ++ m.freed } os := by
  refine ⟨List.Perm.trans ?_ h.perm, h.clean⟩
  calc os ++ (os'.reverse ++ m.freed)
      |>.Perm (os'.reverse ++ m.freed ++ os) := List.perm_append_comm
    _ |>.Perm (os' ++ m.freed ++ os) := ((List.reverse_perm os').append_right _).append_right _
    _ |>.Perm (os' ++ os ++ m.freed) := by
        simp only [List.append_assoc]; exact List.perm_append_comm.append_left _

/-! ## Owners that are a table of pointers -/

section Table

variable {ι : Type} [DecidableEq ι] {slots : ι → Option Nat} {keys : List ι} {i : ι}

/-- An object put into an empty slot is one more object that the table owns. -/
theorem slots_insert (hk : keys.Nodup) (hi : i ∈ keys) (hnone : slots i = none) (id : Nat) :
    (keys.filterMap (Function.update slots i (some id))).Perm (id :: keys.filterMap slots) := by
  induction keys with
  | nil => cases hi
  | cons k keys ih =>
    obtain ⟨hk1, hk2⟩ := List.nodup_cons.mp hk
    by_cases hki : k = i
    · subst hki
      have hrest : keys.filterMap (Function.update slots k (some id)) = keys.filterMap slots := by
        refine List.filterMap_congr fun x hx => Function.update_of_ne ?_ _ _
        rintro rfl
        exact hk1 hx
      simp [hnone, hrest]
    · have hmem : i ∈ keys := (List.mem_cons.mp hi).resolve_left fun h => hki h.symm
      have ih' := ih hk2 hmem
      cases hs : slots k with
      | none => simpa [List.filterMap_cons, Function.update_of_ne hki, hs] using ih'
      | some o =>
        simp only [List.filterMap_cons, Function.update_of_ne hki, hs]
        exact (ih'.cons o).trans (List.Perm.swap ..)

/-- An object taken out of its slot is one object less. -/
theorem slots_erase (hk : keys.Nodup) (hi : i ∈ keys) {id : Nat} (hsome : slots i = some id) :
    (id :: keys.filterMap (Function.update slots i none)).Perm (keys.filterMap slots) := by
  have h := slots_insert hk hi (Function.update_self i none slots) id
  rw [Function.update_idem, ← hsome, Function.update_eq_self] at h
  exact h.symm

omit [DecidableEq ι] in
theorem mem_slots (hi : i ∈ keys) {id : Nat} (hsome : slots i = some id) : id ∈ keys.filterMap slots :=
  List.mem_filterMap.mpr ⟨i, hi, hsome⟩

end Table

end Ntopng.Lib.Heap
