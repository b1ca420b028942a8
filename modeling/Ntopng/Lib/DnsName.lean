/-
  Ntopng.Lib.DnsName — names of DNS as lists of labels.

  On the wire every label has its length before it; written out, labels have dots between them.
-/

import Ntopng.Lib.CString

namespace Ntopng.Lib.DnsName

open Ntopng.Lib.CString

abbrev Name := List (List UInt8)

def wireLabel (l : List UInt8) : List UInt8 := UInt8.ofNat l.length :: l

/-- Without the byte that ends a name. -/
def wire (ls : Name) : List UInt8 := ls.flatMap wireLabel

def joined (ls : Name) : List UInt8 := List.intercalate [ch '.'] ls

/-- A dot before every label. -/
def dots (ls : Name) : List UInt8 := ls.flatMap (ch '.' :: ·)

/-- Labels that may be written on the wire, of printable characters. -/
def Printable (ls : Name) : Prop := ∀ l ∈ ls, (1 ≤ l.length ∧ l.length ≤ 63) ∧ ∀ c ∈ l, 32 ≤ c ∧ c ≤ 126

theorem wire_cons (l : List UInt8) (ls : Name) : wire (l :: ls) = UInt8.ofNat l.length :: (l ++ wire ls) := rfl

theorem length_le_wire (ls : Name) : ls.length ≤ (wire ls).length := by
  induction ls with
  | nil => exact Nat.le_refl 0
  | cons l ls ih =>
    rw [wire_cons, List.length_cons, List.length_cons, List.length_append]
    omega

theorem dots_cons (l : List UInt8) (ls : Name) : dots (l :: ls) = ch '.' :: (l ++ dots ls) := rfl

theorem intercalate_cons (c : UInt8) (l : List UInt8) (ls : List (List UInt8)) :
    List.intercalate [c] (l :: ls) = l ++ ls.flatMap (c :: ·) := by
  rw [List.intercalate]
  induction ls generalizing l with
  | nil => rfl
  | cons l' ls ih =>
    rw [List.intersperse_cons_cons, List.flatten_cons, List.flatten_cons, ih l', List.flatMap_cons]
    rfl

theorem joined_cons (l : List UInt8) (ls : Name) : joined (l :: ls) = l ++ dots ls := intercalate_cons (ch '.') l ls

theorem dots_eq {ls : Name} (h : ls ≠ []) : dots ls = ch '.' :: joined ls := by
  cases ls with
  | nil => exact absurd rfl h
  | cons l ls => rw [dots_cons, joined_cons]

theorem length_dots (ls : Name) : (dots ls).length = (wire ls).length := by
  induction ls with
  | nil => rfl
  | cons l ls ih =>
    rw [dots_cons, wire_cons, List.length_cons, List.length_cons, List.length_append, List.length_append, ih]

end Ntopng.Lib.DnsName
