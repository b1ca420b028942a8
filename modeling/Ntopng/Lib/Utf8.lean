/-
  Ntopng.Lib.Utf8 — characters in UTF-8, byte by byte.

  A `Form` is a leading byte with as many continuation bytes as it asks for. The encodings
  of characters are the forms but those that are too long, a surrogate, or above U+10FFFF
  (`encodes_iff`): each of these shows in the second byte (`Excess`). A string is a
  sequence of forms in one way at most (`forms_unique`).
-/

import Mathlib

namespace Ntopng.Lib.Utf8

def Cont (c : UInt8) : Prop := 0x80 ≤ c ∧ c ≤ 0xBF

instance (c : UInt8) : Decidable (Cont c) := inferInstanceAs (Decidable (_ ∧ _))

/-- The length that a leading byte asks for. -/
def width (a : UInt8) : ℕ := if a < 0x80 then 1 else if a < 0xE0 then 2 else if a < 0xF0 then 3 else 4

inductive Form : List UInt8 → Prop where
  | one {a : UInt8} : a < 0x80 → Form [a]
  | two {a b : UInt8} : 0xC2 ≤ a → a ≤ 0xDF → Cont b → Form [a, b]
  | three {a b c : UInt8} : 0xE0 ≤ a → a ≤ 0xEF → Cont b → Cont c → Form [a, b, c]
  | four {a b c d : UInt8} : 0xF0 ≤ a → a ≤ 0xF4 → Cont b → Cont c → Cont d → Form [a, b, c, d]

/-- Too long a form, a surrogate, or too large a number. -/
def Excess : List UInt8 → Prop
  | a :: b :: _ => a = 0xE0 ∧ b < 0xA0 ∨ a = 0xED ∧ 0xA0 ≤ b ∨ a = 0xF0 ∧ b < 0x90 ∨ a = 0xF4 ∧ 0x90 ≤ b
  | _ => False

variable {l : List UInt8} {ls ls' : List (List UInt8)}

/-! ## Forms -/

theorem Form.ne_nil (h : Form l) : l ≠ [] := by
  cases h <;> exact List.cons_ne_nil _ _

theorem Form.length (h : Form l) : ∃ a t, l = a :: t ∧ l.length = width a := by
  cases h with
  | one h => exact ⟨_, _, rfl, by simp [width, h]⟩
  | @two a b h1 h2 hb =>
    refine ⟨_, _, rfl, ?_⟩
    rw [UInt8.le_iff_toNat_le] at h1 h2
    simp only [width, UInt8.lt_iff_toNat_lt]
    simp at h1 h2 ⊢
    rw [if_neg (by omega), if_pos (by omega)]
  | @three a b c h1 h2 hb hc =>
    refine ⟨_, _, rfl, ?_⟩
    rw [UInt8.le_iff_toNat_le] at h1 h2
    simp only [width, UInt8.lt_iff_toNat_lt]
    simp at h1 h2 ⊢
    rw [if_neg (by omega), if_neg (by omega), if_pos (by omega)]
  | @four a b c d h1 h2 hb hc hd =>
    refine ⟨_, _, rfl, ?_⟩
    rw [UInt8.le_iff_toNat_le] at h1 h2
    simp only [width, UInt8.lt_iff_toNat_lt]
    simp at h1 h2 ⊢
    rw [if_neg (by omega), if_neg (by omega), if_neg (by omega)]

/-- The first form of a string ends where its leading byte says. -/
theorem Form.append_inj {l l' r r' : List UInt8} (h : Form l) (h' : Form l') (heq : l ++ r = l' ++ r') :
    l = l' ∧ r = r' := by
  obtain ⟨a, t, rfl, hlen⟩ := h.length
  obtain ⟨a', t', rfl, hlen'⟩ := h'.length
  have hhead : a = a' := (List.cons.inj heq).1
  exact List.append_inj heq (by rw [hlen, hlen', hhead])

theorem forms_unique (h : ∀ l ∈ ls, Form l) (h' : ∀ l ∈ ls', Form l) (heq : ls.flatten = ls'.flatten) : ls = ls' := by
  induction ls generalizing ls' with
  | nil =>
    cases ls' with
    | nil => rfl
    | cons l' ls' =>
      rw [List.flatten_nil, List.flatten_cons] at heq
      exact absurd (List.append_eq_nil_iff.mp heq.symm).1 (h' l' (List.mem_cons_self ..)).ne_nil
  | cons l ls ih =>
    cases ls' with
    | nil =>
      rw [List.flatten_nil, List.flatten_cons] at heq
      exact absurd (List.append_eq_nil_iff.mp heq).1 (h l (List.mem_cons_self ..)).ne_nil
    | cons l' ls' =>
      rw [List.flatten_cons, List.flatten_cons] at heq
      obtain ⟨rfl, hrest⟩ := (h l (List.mem_cons_self ..)).append_inj (h' l' (List.mem_cons_self ..)) heq
      rw [ih (fun u hu => h u (List.mem_cons_of_mem _ hu)) (fun u hu => h' u (List.mem_cons_of_mem _ hu)) hrest]

/-! ## Encodings -/

theorem encode_one {c : Char} (h : c.val.toNat ≤ 0x7F) : String.utf8EncodeChar c = [UInt8.ofNat c.val.toNat] := if_pos h

theorem encode_two {c : Char} (h : 0x7F < c.val.toNat) (h' : c.val.toNat ≤ 0x7FF) : String.utf8EncodeChar c =
    [UInt8.ofNat (c.val.toNat / 64 % 32 + 0xC0), UInt8.ofNat (c.val.toNat % 64 + 0x80)] :=
  (if_neg (by omega)).trans (if_pos h')

theorem encode_three {c : Char} (h : 0x7FF < c.val.toNat) (h' : c.val.toNat ≤ 0xFFFF) : String.utf8EncodeChar c =
    [UInt8.ofNat (c.val.toNat / 4096 % 16 + 0xE0), UInt8.ofNat (c.val.toNat / 64 % 64 + 0x80),
     UInt8.ofNat (c.val.toNat % 64 + 0x80)] :=
  (if_neg (by omega)).trans ((if_neg (by omega)).trans (if_pos h'))

theorem encode_four {c : Char} (h : 0xFFFF < c.val.toNat) : String.utf8EncodeChar c =
    [UInt8.ofNat (c.val.toNat / 262144 % 8 + 0xF0), UInt8.ofNat (c.val.toNat / 4096 % 64 + 0x80),
     UInt8.ofNat (c.val.toNat / 64 % 64 + 0x80), UInt8.ofNat (c.val.toNat % 64 + 0x80)] :=
  (if_neg (by omega)).trans ((if_neg (by omega)).trans (if_neg (by omega)))

theorem ofNat_eq {n : ℕ} {a : UInt8} (h : n = a.toNat) : UInt8.ofNat n = a := by
  rw [h, UInt8.ofNat_toNat]

theorem cont_ofNat (n : ℕ) : Cont (UInt8.ofNat (n % 64 + 0x80)) := by
  rw [Cont, UInt8.le_iff_toNat_le, UInt8.le_iff_toNat_le, UInt8.toNat_ofNat', Nat.mod_eq_of_lt (by omega)]
  constructor
  · exact Nat.le_add_left ..
  · show n % 64 + 0x80 ≤ 0xBF
    omega

theorem cont_toNat {c : UInt8} (h : Cont c) : 0x80 ≤ c.toNat ∧ c.toNat ≤ 0xBF := by
  rw [Cont, UInt8.le_iff_toNat_le, UInt8.le_iff_toNat_le] at h
  exact h

theorem char_range (c : Char) : c.val.toNat < 0xD800 ∨ 0xDFFF < c.val.toNat ∧ c.val.toNat < 0x110000 := c.valid

theorem exists_char {v : ℕ} (h : v < 0xD800 ∨ 0xDFFF < v ∧ v < 0x110000) : ∃ c : Char, c.val.toNat = v :=
  ⟨Char.ofNatAux v h, rfl⟩

theorem toNat_small {n : ℕ} (h : n < 256) : (UInt8.ofNat n).toNat = n := by
  rw [UInt8.toNat_ofNat', Nat.mod_eq_of_lt h]

theorem excess_iff (a b : UInt8) (t : List UInt8) : Excess (a :: b :: t) ↔ a.toNat = 0xE0 ∧ b.toNat < 0xA0 ∨
    a.toNat = 0xED ∧ 0xA0 ≤ b.toNat ∨ a.toNat = 0xF0 ∧ b.toNat < 0x90 ∨ a.toNat = 0xF4 ∧ 0x90 ≤ b.toNat := by
  simp only [Excess, ← UInt8.toNat_inj, UInt8.lt_iff_toNat_lt, UInt8.le_iff_toNat_le]
  exact Iff.rfl

theorem encode_form (c : Char) : Form (String.utf8EncodeChar c) ∧ ¬ Excess (String.utf8EncodeChar c) := by
  have hrange := char_range c
  by_cases h1 : c.val.toNat ≤ 0x7F
  · rw [encode_one h1]
    refine ⟨.one ?_, id⟩
    rw [UInt8.lt_iff_toNat_lt, toNat_small (by omega)]
    exact Nat.lt_succ_of_le h1
  · by_cases h2 : c.val.toNat ≤ 0x7FF
    · rw [encode_two (by omega) h2, excess_iff, toNat_small (by omega), toNat_small (by omega)]
      refine ⟨.two ?_ ?_ (cont_ofNat _), by omega⟩
      · rw [UInt8.le_iff_toNat_le, toNat_small (by omega)]
        show 0xC2 ≤ c.val.toNat / 64 % 32 + 0xC0
        omega
      · rw [UInt8.le_iff_toNat_le, toNat_small (by omega)]
        show c.val.toNat / 64 % 32 + 0xC0 ≤ 0xDF
        omega
    · by_cases h3 : c.val.toNat ≤ 0xFFFF
      · rw [encode_three (by omega) h3, excess_iff, toNat_small (by omega), toNat_small (by omega)]
        refine ⟨.three ?_ ?_ (cont_ofNat _) (cont_ofNat _), by omega⟩
        · rw [UInt8.le_iff_toNat_le, toNat_small (by omega)]
          exact Nat.le_add_left ..
        · rw [UInt8.le_iff_toNat_le, toNat_small (by omega)]
          show c.val.toNat / 4096 % 16 + 0xE0 ≤ 0xEF
          omega
      · rw [encode_four (by omega), excess_iff, toNat_small (by omega), toNat_small (by omega)]
        refine ⟨.four ?_ ?_ (cont_ofNat _) (cont_ofNat _) (cont_ofNat _), by omega⟩
        · rw [UInt8.le_iff_toNat_le, toNat_small (by omega)]
          exact Nat.le_add_left ..
        · rw [UInt8.le_iff_toNat_le, toNat_small (by omega)]
          show c.val.toNat / 262144 % 8 + 0xF0 ≤ 0xF4
          omega

theorem encode_of_form (h : Form l) (hex : ¬ Excess l) : ∃ c : Char, String.utf8EncodeChar c = l := by
  cases h with
  | @one a h =>
    have hv : a.toNat < 0x80 := UInt8.lt_iff_toNat_lt.mp h
    obtain ⟨c, hc⟩ := exists_char (v := a.toNat) (by omega)
    exact ⟨c, by rw [encode_one (by omega), hc, UInt8.ofNat_toNat]⟩
  | @two a b h1 h2 hb =>
    have h1 : 0xC2 ≤ a.toNat := UInt8.le_iff_toNat_le.mp h1
    have h2 : a.toNat ≤ 0xDF := UInt8.le_iff_toNat_le.mp h2
    have hb := cont_toNat hb
    obtain ⟨c, hc⟩ := exists_char (v := (a.toNat - 0xC0) * 64 + (b.toNat - 0x80)) (by omega)
    refine ⟨c, ?_⟩
    rw [encode_two (by omega) (by omega), hc, ofNat_eq (a := a) (by omega), ofNat_eq (a := b) (by omega)]
  | @three a b d h1 h2 hb hd =>
    have h1 : 0xE0 ≤ a.toNat := UInt8.le_iff_toNat_le.mp h1
    have h2 : a.toNat ≤ 0xEF := UInt8.le_iff_toNat_le.mp h2
    have hb := cont_toNat hb
    have hd := cont_toNat hd
    rw [excess_iff] at hex
    obtain ⟨c, hc⟩ := exists_char
      (v := (a.toNat - 0xE0) * 4096 + (b.toNat - 0x80) * 64 + (d.toNat - 0x80)) (by omega)
    refine ⟨c, ?_⟩
    rw [encode_three (by omega) (by omega), hc, ofNat_eq (a := a) (by omega), ofNat_eq (a := b) (by omega),
      ofNat_eq (a := d) (by omega)]
  | @four a b d e h1 h2 hb hd he =>
    have h1 : 0xF0 ≤ a.toNat := UInt8.le_iff_toNat_le.mp h1
    have h2 : a.toNat ≤ 0xF4 := UInt8.le_iff_toNat_le.mp h2
    have hb := cont_toNat hb
    have hd := cont_toNat hd
    have he := cont_toNat he
    rw [excess_iff] at hex
    obtain ⟨c, hc⟩ := exists_char
      (v := (a.toNat - 0xF0) * 262144 + (b.toNat - 0x80) * 4096 + (d.toNat - 0x80) * 64 + (e.toNat - 0x80)) (by omega)
    refine ⟨c, ?_⟩
    rw [encode_four (by omega), hc, ofNat_eq (a := a) (by omega), ofNat_eq (a := b) (by omega),
      ofNat_eq (a := d) (by omega), ofNat_eq (a := e) (by omega)]

/-- The encodings of characters are the forms without excess. -/
theorem encodes_iff (l : List UInt8) : (∃ c : Char, String.utf8EncodeChar c = l) ↔ Form l ∧ ¬ Excess l := by
  constructor
  · rintro ⟨c, rfl⟩
    exact encode_form c
  · rintro ⟨hform, hex⟩
    exact encode_of_form hform hex

end Ntopng.Lib.Utf8
