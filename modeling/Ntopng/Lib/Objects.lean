/-
  Ntopng.Lib.Objects — objects on the heap, by their numbers.

  The number of an object is how many there were before it. What a deleted object held stays
  there, and each `delete` is recorded. `Owns os ps` says that the objects `ps` are different, and
  alive. What is done to one object leaves what the others hold.
-/

import Mathlib

namespace Ntopng.Lib

structure Objects (α : Type*) where
  contents : List α
  deleted : List ℕ
  deriving DecidableEq, Repr

namespace Objects

variable {α : Type*} {os : Objects α} {i j : ℕ} {a : α}

def empty : Objects α := ⟨[], []⟩

/-- How many there have been. -/
def size (os : Objects α) : ℕ := os.contents.length

def read (os : Objects α) (i : ℕ) : Option α := os.contents[i]?

/-- The new object has the number `size`. -/
def new (os : Objects α) (a : α) : Objects α := { os with contents := os.contents ++ [a] }

def modify (os : Objects α) (i : ℕ) (f : α → α) : Objects α := { os with contents := os.contents.modify i f }

def delete (os : Objects α) (i : ℕ) : Objects α := { os with deleted := i :: os.deleted }

@[simp] theorem size_new : (os.new a).size = os.size + 1 := List.length_append

@[simp] theorem size_modify (f : α → α) : (os.modify i f).size = os.size := List.length_modify ..

@[simp] theorem size_delete : (os.delete i).size = os.size := rfl

@[simp] theorem deleted_new : (os.new a).deleted = os.deleted := rfl

@[simp] theorem deleted_modify (f : α → α) : (os.modify i f).deleted = os.deleted := rfl

@[simp] theorem deleted_delete : (os.delete i).deleted = i :: os.deleted := rfl

@[simp] theorem read_delete : (os.delete i).read j = os.read j := rfl

theorem read_isSome : (os.read i).isSome ↔ i < os.size := by
  simp [read, size]

@[simp] theorem read_new_self : (os.new a).read os.size = some a := by
  simp [new, read, size]

theorem read_new_of_lt (h : i < os.size) : (os.new a).read i = os.read i := List.getElem?_append_left h

theorem read_modify (f : α → α) : (os.modify i f).read j = if i = j then (os.read j).map f else os.read j := by
  rw [modify, read, read, List.getElem?_modify]
  split
  · rfl
  · exact Option.map_id' ..

theorem read_modify_self (f : α → α) : (os.modify i f).read i = (os.read i).map f := by
  rw [read_modify, if_pos rfl]

theorem read_modify_ne (f : α → α) (h : i ≠ j) : (os.modify i f).read j = os.read j := by
  rw [read_modify, if_neg h]

/-- The objects are alive, and each is listed once. -/
structure Owns (os : Objects α) (ps : List ℕ) : Prop where
  nodup : ps.Nodup
  lt : ∀ i ∈ ps, i < os.size
  alive : ∀ i ∈ ps, i ∉ os.deleted
  past : ∀ i ∈ os.deleted, i < os.size

variable {ps qs : List ℕ}

theorem owns_empty : Owns (empty : Objects α) [] := by
  refine ⟨List.nodup_nil, ?_, ?_, ?_⟩ <;>
  · intro i hi
    cases hi

theorem Owns.of_perm (h : Owns os ps) (hperm : qs.Perm ps) : Owns os qs :=
  ⟨hperm.nodup_iff.mpr h.nodup, fun i hi => h.lt i (hperm.subset hi), fun i hi => h.alive i (hperm.subset hi), h.past⟩

theorem Owns.sublist (h : Owns os ps) (hsub : qs.Sublist ps) : Owns os qs :=
  ⟨h.nodup.sublist hsub, fun i hi => h.lt i (hsub.subset hi), fun i hi => h.alive i (hsub.subset hi), h.past⟩

theorem Owns.new (h : Owns os ps) (a : α) : Owns (os.new a) (os.size :: ps) := by
  refine ⟨?_, ?_, ?_, ?_⟩
  · rw [List.nodup_cons]
    exact ⟨fun hmem => absurd (h.lt _ hmem) (lt_irrefl _), h.nodup⟩
  · intro i hi
    rw [size_new]
    rcases List.mem_cons.mp hi with rfl | hi
    · exact Nat.lt_succ_self _
    · exact Nat.lt_succ_of_lt (h.lt i hi)
  · intro i hi
    rw [deleted_new]
    rcases List.mem_cons.mp hi with rfl | hi
    · intro hmem
      exact absurd (h.past _ hmem) (lt_irrefl _)
    · exact h.alive i hi
  · intro i hi
    rw [size_new]
    exact Nat.lt_succ_of_lt (h.past i hi)

theorem Owns.modify (h : Owns os ps) (i : ℕ) (f : α → α) : Owns (os.modify i f) ps := by
  refine ⟨h.nodup, ?_, h.alive, ?_⟩
  · intro j hj
    rw [size_modify]
    exact h.lt j hj
  · intro j hj
    rw [size_modify]
    exact h.past j hj

end Objects

end Ntopng.Lib
