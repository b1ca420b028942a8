/-
  Ntopng.Lib.Decimal — integers as `%u` and `%d` print them.

  `readNat` and `readInt` are what a text of digits stands for, and nothing else is a number.
  Proved: what is printed is read back, so no two integers have one text, also in front of a
  character that no number has; and how long a text gets.
-/

import Mathlib

namespace Ntopng.Lib.Decimal

def udec (n : ℕ) : List Char := Nat.toDigits 10 n

def idec (z : ℤ) : List Char := if z < 0 then '-' :: udec z.natAbs else udec z.natAbs

def readNat (s : List Char) : Option ℕ := if s ≠ [] ∧ s.all Char.isDigit then some (Nat.ofDigitChars 10 s 0) else none

def readInt (s : List Char) : Option ℤ :=
  if s.head? = some '-' then (readNat s.tail).map fun n => -Int.ofNat n else (readNat s).map Int.ofNat

variable {m n : ℕ} {y z : ℤ} {c : Char}

/-! ## What is printed -/

theorem udec_ne_nil : udec n ≠ [] := Nat.toDigits_ne_nil

theorem isDigit_of_mem (h : c ∈ udec n) : c.isDigit := Nat.isDigit_of_mem_toDigits (by decide) (by decide) h

theorem minus_not_mem : '-' ∉ udec n := fun h => absurd (isDigit_of_mem h) (by decide)

theorem mem_idec (h : c ∈ idec z) : c = '-' ∨ c.isDigit := by
  rw [idec] at h
  by_cases hz : z < 0
  · rw [if_pos hz, List.mem_cons] at h
    exact h.imp_right isDigit_of_mem
  · rw [if_neg hz] at h
    exact .inr (isDigit_of_mem h)

theorem length_udec {k : ℕ} (hk : 0 < k) (h : n < 10 ^ k) : (udec n).length ≤ k :=
  (Nat.length_toDigits_le_iff (by decide) hk).mpr h

theorem length_idec {k : ℕ} (hk : 0 < k) (h : z.natAbs < 10 ^ k) : (idec z).length ≤ k + 1 := by
  have hlen := length_udec hk h
  rw [idec]
  by_cases hz : z < 0
  · rw [if_pos hz, List.length_cons]
    omega
  · rw [if_neg hz]
    omega

/-! ## What is read -/

theorem readNat_udec (n : ℕ) : readNat (udec n) = some n := by
  have hall : (udec n).all Char.isDigit := List.all_eq_true.mpr fun c => isDigit_of_mem
  rw [readNat, if_pos ⟨udec_ne_nil, hall⟩, udec, Nat.ofDigitChars_ten_toDigits]

theorem readInt_idec (z : ℤ) : readInt (idec z) = some z := by
  rw [readInt, idec]
  by_cases hz : z < 0
  · rw [if_pos hz, List.head?_cons, if_pos rfl, List.tail_cons, readNat_udec, Option.map_some]
    congr 1
    rw [Int.ofNat_eq_natCast]
    omega
  · have hhead : (udec z.natAbs).head? ≠ some '-' := fun h => minus_not_mem (List.mem_of_mem_head? h)
    rw [if_neg hz, if_neg hhead, readNat_udec, Option.map_some]
    congr 1
    rw [Int.ofNat_eq_natCast]
    omega

theorem readInt_udec (n : ℕ) : readInt (udec n) = some (n : ℤ) := by
  have hread := readInt_idec (n : ℤ)
  rwa [idec, if_neg (by omega), Int.natAbs_natCast] at hread

theorem isDigit_of_readNat {s : List Char} (h : readNat s = some n) (hc : c ∈ s) : c.isDigit := by
  rw [readNat] at h
  split at h
  · rename_i hs
    exact List.all_eq_true.mp hs.2 c hc
  · cases h

theorem mem_of_readInt {s : List Char} (h : readInt s = some z) (hc : c ∈ s) : c = '-' ∨ c.isDigit := by
  rw [readInt] at h
  split at h
  · rename_i hminus
    obtain ⟨n, hn, -⟩ := Option.map_eq_some_iff.mp h
    rw [← List.cons_head?_tail hminus, List.mem_cons] at hc
    exact hc.imp_right (isDigit_of_readNat hn)
  · obtain ⟨n, hn, -⟩ := Option.map_eq_some_iff.mp h
    exact .inr (isDigit_of_readNat hn hc)

theorem udec_inj : udec m = udec n ↔ m = n := by
  constructor
  · intro h
    have hread := readNat_udec m
    rw [h, readNat_udec] at hread
    exact (Option.some.inj hread).symm
  · intro h
    rw [h]

theorem idec_inj : idec y = idec z ↔ y = z := by
  constructor
  · intro h
    have hread := readInt_idec y
    rw [h, readInt_idec] at hread
    exact (Option.some.inj hread).symm
  · intro h
    rw [h]

/-! ## In front of something else -/

/-- A text that ends at the first character of a kind is told from what follows it. -/
theorem append_inj_of_stop {α : Type*} {p : α → Prop} {s t r q : List α} {a b : α} (hs : ∀ x ∈ s, p x) (ht : ∀ x ∈ t, p x)
    (ha : ¬ p a) (hb : ¬ p b) (h : s ++ a :: r = t ++ b :: q) : s = t ∧ a :: r = b :: q := by
  induction s generalizing t with
  | nil =>
    cases t with
    | nil => exact ⟨rfl, h⟩
    | cons y t => exact absurd (ht y (List.mem_cons_self ..)) ((List.cons.inj h).1 ▸ ha)
  | cons x s ih =>
    cases t with
    | nil => exact absurd (hs x (List.mem_cons_self ..)) ((List.cons.inj h).1.symm ▸ hb)
    | cons y t =>
      rcases List.cons.inj h with ⟨hxy, hrest⟩
      have hst := ih (fun x hx => hs x (List.mem_cons_of_mem _ hx)) (fun x hx => ht x (List.mem_cons_of_mem _ hx)) hrest
      exact ⟨by rw [hxy, hst.1], hst.2⟩

theorem idec_append_inj {a b : Char} {r q : List Char} (ha : a ≠ '-' ∧ a.isDigit = false) (hb : b ≠ '-' ∧ b.isDigit = false)
    (h : idec y ++ a :: r = idec z ++ b :: q) : y = z ∧ a :: r = b :: q := by
  have hstop : ∀ {x : Char}, x ≠ '-' ∧ x.isDigit = false → ¬ (x = '-' ∨ x.isDigit) := by
    intro x hx hor
    rcases hor with heq | hdigit
    · exact hx.1 heq
    · exact absurd hdigit (by rw [hx.2]; exact Bool.false_ne_true)
  rcases append_inj_of_stop (fun x => mem_idec) (fun x => mem_idec) (hstop ha) (hstop hb) h with ⟨htext, hrest⟩
  exact ⟨idec_inj.mp htext, hrest⟩

end Ntopng.Lib.Decimal
