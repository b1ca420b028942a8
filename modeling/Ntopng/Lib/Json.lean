/-
  Ntopng.Lib.Json — JSON values, and what a reader of their members sees.

  An object is the list of its members in the order in which they were added. Adding a member
  under a key that is there replaces its value where it stands. A value that is not of the kind
  asked for is converted: `getInt64` is what becomes of it as an integer.
-/

import Ntopng.Lib.CNumber
import Ntopng.Lib.OrdMap

namespace Ntopng.Lib

open Ntopng.Lib.OrdMap

inductive Json where
  | null
  | boolean (b : Bool)
  | int (v : Int64)
  | string (s : String)
  | object (members : List (String × Json))
  /-- A double or an array, by the integer that becomes of it. -/
  | other (int64 : Int64)

namespace Json

def members : Json → List (String × Json)
  | object ms => ms
  | _ => []

def isObject : Json → Bool
  | object _ => true
  | _ => false

/-- The value of a member; nothing has members but an object. -/
def get (j : Json) (k : String) : Option Json := find j.members k

def getInt64 : Json → Int64
  | boolean b => if b then 1 else 0
  | int v => v
  | string s => Int64.ofInt (CNumber.strtol s.toUTF8.toList)
  | other v => v
  | null | object _ => 0

@[simp] theorem members_object (ms : List (String × Json)) : (object ms).members = ms := rfl

@[simp] theorem get_object (ms : List (String × Json)) (k : String) : (object ms).get k = find ms k := rfl

end Json

/-- A member added to those that are there. -/
def addMember : List (String × Json) → String → Json → List (String × Json)
  | [], k, v => [(k, v)]
  | e :: ms, k, v => if e.1 = k then (k, v) :: ms else e :: addMember ms k v

/-! ## Adding members -/

section

variable {σ : Type*} {ms : List (String × Json)} {k k' : String} {v : Json}

theorem addMember_new (h : k ∉ keys ms) (v : Json) : addMember ms k v = ms ++ [(k, v)] := by
  induction ms with
  | nil => rfl
  | cons e ms ih =>
    rw [keys, List.map_cons, List.mem_cons, not_or] at h
    rw [addMember, if_neg (Ne.symm h.1), ih h.2, List.cons_append]

theorem find_addMember (ms : List (String × Json)) (k : String) (v : Json) : find (addMember ms k v) k = some v := by
  induction ms with
  | nil => simp [addMember, find_cons]
  | cons e ms ih =>
    rw [addMember]
    by_cases h : e.1 = k
    · rw [if_pos h, find_cons, if_pos rfl]
    · rw [if_neg h, find_cons, if_neg h, ih]

/-- Members with different keys are there in the order in which they were added. -/
theorem foldl_addMember (l : List (String × Json)) (h : (keys ms ++ keys l).Nodup) :
    l.foldl (fun ms e => addMember ms e.1 e.2) ms = ms ++ l := by
  induction l generalizing ms with
  | nil => simp
  | cons e l ih =>
    have hnew : e.1 ∉ keys ms := fun hmem => (List.nodup_append.mp h).2.2 e.1 hmem e.1 (List.mem_cons_self ..) rfl
    rw [List.foldl_cons, addMember_new hnew, ih, List.append_assoc, List.singleton_append]
    simpa [keys] using h

/-- A reader that skips a key does not see it added. -/
theorem foldl_skip {f : σ → String × Json → σ} (hskip : ∀ s v, f s (k, v) = s) (s : σ) :
    (addMember ms k v).foldl f s = ms.foldl f s := by
  induction ms generalizing s with
  | nil => exact hskip s v
  | cons e ms ih =>
    rw [addMember]
    by_cases h : e.1 = k
    · rcases e with ⟨k', v'⟩
      subst h
      rw [if_pos rfl, List.foldl_cons, List.foldl_cons, hskip, hskip]
    · rw [if_neg h, List.foldl_cons, List.foldl_cons, ih]

end

end Ntopng.Lib
