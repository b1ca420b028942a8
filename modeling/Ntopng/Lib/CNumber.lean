/-
  Ntopng.Lib.CNumber — numbers and lists in a string, as `strtol`, `atoi` and `strtok_r` read them.

  A string is its bytes before the NUL. A number ends where its digits do, and one that no
  `long` holds is the nearest `long`; `atoi` is what an `int` keeps of it. `items` are the items
  that `strtok_r` gives one after the other: what stands between delimiters, where something does.

  Proved: a numeral is read as its value, within the `long`s, and the items of a list are what it
  lists.
-/

import Ntopng.Lib.CString

namespace Ntopng.Lib.CNumber

open Ntopng.Lib.CString

def isDigit (c : UInt8) : Bool := ch '0' ≤ c && c ≤ ch '9'

/-- The number that a string of digits is. -/
def ofDigits (s : List UInt8) : ℕ := s.foldl (fun v c => 10 * v + (c - ch '0').toNat) 0

def number (s : List UInt8) : ℕ := ofDigits (s.takeWhile isDigit)

/-- The nearest `long`. -/
def clampLong (v : ℤ) : ℤ := max (-2 ^ 63) (min (2 ^ 63 - 1) v)

/-- `strtol` in base 10. -/
def strtol (s : List UInt8) : ℤ :=
  match s.dropWhile isSpace with
  | [] => 0
  | c :: t => clampLong (if c = ch '-' then -number t else if c = ch '+' then number t else number (c :: t))

def atoi (s : List UInt8) : ℤ := Int.bmod (strtol s) (2 ^ 32)

/-- `item` is what has been seen of the next one. -/
def items (sep : UInt8) : List UInt8 → (item : List UInt8) → List (List UInt8)
  | [], item => if item = [] then [] else [item]
  | c :: s, item =>
    if c = sep then (if item = [] then items sep s [] else item :: items sep s [])
    else items sep s (item ++ [c])

/-! ## Numerals -/

/-- A number as it is written. -/
structure Numeral where
  negative : Bool
  digits : List UInt8
  some_digits : digits ≠ []
  isDigits : ∀ c ∈ digits, isDigit c

def Numeral.text (z : Numeral) : List UInt8 := if z.negative then ch '-' :: z.digits else z.digits

def Numeral.value (z : Numeral) : ℤ := if z.negative then -ofDigits z.digits else ofDigits z.digits

theorem Numeral.text_ne_nil (z : Numeral) : z.text ≠ [] := by
  unfold Numeral.text
  split
  · exact List.cons_ne_nil _ _
  · exact z.some_digits

theorem Numeral.mem_text {z : Numeral} {c : UInt8} (h : c ∈ z.text) : c = ch '-' ∨ isDigit c := by
  unfold Numeral.text at h
  split at h
  · rcases List.mem_cons.mp h with h | h
    · exact .inl h
    · exact .inr (z.isDigits c h)
  · exact .inr (z.isDigits c h)

theorem number_digits {s : List UInt8} (h : ∀ c ∈ s, isDigit c) : number s = ofDigits s := by
  rw [number, List.takeWhile_eq_self_iff.mpr h]

theorem not_isSpace {c : UInt8} (h : c = ch '-' ∨ isDigit c) : isSpace c = false := by
  have all : ∀ c, c = ch '-' ∨ isDigit c → isSpace c = false := forall_byte (by decide)
  exact all c h

theorem isDigit_ne {c : UInt8} (h : isDigit c) : c ≠ ch '-' ∧ c ≠ ch '+' := by
  have all : ∀ c, isDigit c → c ≠ ch '-' ∧ c ≠ ch '+' := forall_byte (by decide)
  exact all c h

theorem strtol_numeral (z : Numeral) : strtol z.text = clampLong z.value := by
  obtain ⟨negative, digits, hne, hall⟩ := z
  obtain ⟨c, s, rfl⟩ := List.exists_cons_of_ne_nil hne
  have hc := hall c (List.mem_cons_self ..)
  have hspace := not_isSpace (.inr hc)
  cases negative with
  | true =>
    show strtol (ch '-' :: c :: s) = clampLong (-ofDigits (c :: s))
    rw [strtol, List.dropWhile_cons_of_neg (by decide)]
    show clampLong (if ch '-' = ch '-' then _ else _) = _
    rw [if_pos rfl, number_digits hall]
  | false =>
    show strtol (c :: s) = clampLong (ofDigits (c :: s))
    rw [strtol, List.dropWhile_cons_of_neg (by rw [hspace]; decide)]
    show clampLong (if c = ch '-' then _ else if c = ch '+' then _ else _) = _
    rw [if_neg (isDigit_ne hc).1, if_neg (isDigit_ne hc).2, number_digits hall]

/-! ## Lists -/

section Items

variable {sep : UInt8} {w : List UInt8}

theorem items_word (h : sep ∉ w) (s item : List UInt8) : items sep (w ++ s) item = items sep s (item ++ w) := by
  induction w generalizing item with
  | nil => rw [List.nil_append, List.append_nil]
  | cons c w ih =>
    have hc : c ≠ sep := fun hc => h (hc ▸ List.mem_cons_self ..)
    rw [List.cons_append, items, if_neg hc, ih fun hw => h (List.mem_cons_of_mem c hw), List.append_assoc,
      List.singleton_append]

theorem items_intercalate {ws : List (List UInt8)} (h : ∀ w ∈ ws, w ≠ [] ∧ sep ∉ w) :
    items sep (List.intercalate [sep] ws) [] = ws := by
  induction ws with
  | nil => rfl
  | cons w ws ih =>
    obtain ⟨hne, hsep⟩ := h w (List.mem_cons_self ..)
    have ih' := ih fun w hw => h w (List.mem_cons_of_mem _ hw)
    rcases ws with _ | ⟨w', ws⟩
    · have hword := items_word hsep [] []
      rw [List.append_nil, List.nil_append, items, if_neg hne] at hword
      rwa [List.intercalate_singleton]
    · rw [List.intercalate_cons_cons, List.append_assoc, List.singleton_append, items_word hsep, List.nil_append, items,
        if_pos rfl, if_neg hne, ih']

end Items

end Ntopng.Lib.CNumber
