/-
  Ntopng.Addresses.TagsText — the keys of host tags are read back as what they were
  written from.

  Digits first, then one lemma for each form of a key: a MAC with any suffix, an IPv4
  address, an IPv6 address. An IPv6 address is the one that may be read as something else:
  its text is taken for a MAC when six groups scan as one, and goes to the IPv4 tree when
  it has a dot.
-/

import Ntopng.Addresses.Tags

namespace Ntopng.Addresses.Tags

open Ntopng.Lib.Prefixes
open Ntopng.Lib.CString (isspace isspace_le)
open Ntopng.Lib.CNumber (clampLong)

/-! ## Splitting -/

section Split

variable {c : Char} {s r : List Char}

theorem takeWhile_ne (h : c ∉ s) : s.takeWhile (· ≠ c) = s := by
  refine List.takeWhile_eq_self_iff.mpr fun x hx => ?_
  simp only [ne_eq, decide_not, Bool.not_eq_true', decide_eq_false_iff_not]
  rintro rfl
  exact h hx

theorem dropWhile_ne (h : c ∉ s) : s.dropWhile (· ≠ c) = [] := by
  refine List.dropWhile_eq_nil_iff.mpr fun x hx => ?_
  simp only [ne_eq, decide_not, Bool.not_eq_true', decide_eq_false_iff_not]
  rintro rfl
  exact h hx

theorem after_append (h : c ∉ s) : after c (s ++ c :: r) = some r := by
  unfold after
  rw [List.dropWhile_append, dropWhile_ne h, List.isEmpty_nil, if_pos rfl, List.dropWhile_cons_of_neg (by simp)]
  rfl

theorem after_none (h : c ∉ s) : after c s = none := by
  unfold after
  rw [dropWhile_ne h]
  rfl

theorem before_append (h : c ∉ s) : before c (s ++ c :: r) = s := by
  unfold before
  rw [List.takeWhile_append, takeWhile_ne h, if_pos rfl, List.takeWhile_cons_of_neg (by simp), List.append_nil]

end Split

/-! ## Digits -/

theorem ne_of_digit {base : Nat} {c d : Char} (h : (digit base c).isSome) (hd : digit base d = none) : c ≠ d := by
  rintro rfl
  rw [hd] at h
  cases h

/-- The digits stand behind the spaces. -/
theorem not_space_of_digit {c : Char} (h : (digit 16 c).isSome) : isspace c = false := by
  have hlow : ∀ {d : Char}, '0' ≤ d → 48 ≤ d.toNat := fun hd => UInt32.le_iff_toNat_le.mp hd
  have hdigit : 48 ≤ c.toNat := by
    by_contra hlt
    have h0 : ¬ ('0' ≤ c ∧ c ≤ '9') := fun hc => hlt (hlow hc.1)
    have ha : ¬ ('a' ≤ c ∧ c ≤ 'f') := fun hc => hlt (hlow (le_trans (by decide) hc.1))
    have hA : ¬ ('A' ≤ c ∧ c ≤ 'F') := fun hc => hlt (hlow (le_trans (by decide) hc.1))
    rw [digit, if_neg h0, if_neg ha, if_neg hA, if_neg (Nat.lt_irrefl 16)] at h
    cases h
  by_contra hspace
  have := isspace_le (Bool.eq_true_of_not_eq_false hspace)
  omega

theorem skipSpaces_digit {c : Char} (h : (digit 16 c).isSome) (s : List Char) : skipSpaces (c :: s) = c :: s := by
  unfold skipSpaces
  rw [List.dropWhile_cons_of_neg (by rw [not_space_of_digit h]; decide)]

theorem sign_digit {c : Char} (h : (digit 16 c).isSome) (s : List Char) : sign (c :: s) = (false, 0, c :: s) := by
  have h1 : c ≠ '-' := ne_of_digit h (by decide)
  have h2 : c ≠ '+' := ne_of_digit h (by decide)
  unfold sign
  split
  · rename_i heq
    cases heq
    exact absurd rfl h1
  · rename_i heq
    cases heq
    exact absurd rfl h2
  · rfl

/-- What a row of digits adds to a value. -/
def valueFrom (base v : Nat) (ds : List Char) : Nat := ds.foldl (fun v c => v * base + (digit base c).getD 0) v

/-- A row of digits is read as a whole, when the width or what follows ends it. -/
theorem digits_append {base : Nat} {ds rest : List Char} (hds : ∀ c ∈ ds, (digit base c).isSome) (width n v : Nat)
    (hw : ds.length ≤ width) (hend : width = ds.length ∨ ∀ c ∈ rest.head?, digit base c = none) :
    digits base width n v (ds ++ rest) = (n + ds.length, valueFrom base v ds, rest) := by
  induction ds generalizing width n v with
  | nil =>
    cases width with
    | zero => cases rest <;> rfl
    | succ width =>
      cases rest with
      | nil => rfl
      | cons c rest =>
        have hc : digit base c = none := (hend.resolve_left (by simp)) c rfl
        simp only [List.nil_append, digits, hc]
        rfl
  | cons d ds ih =>
    obtain ⟨x, hx⟩ := Option.isSome_iff_exists.mp (hds d (List.mem_cons_self ..))
    cases width with
    | zero => cases hw
    | succ width =>
      have hw' : ds.length ≤ width := Nat.le_of_succ_le_succ hw
      have hend' : width = ds.length ∨ ∀ c ∈ rest.head?, digit base c = none :=
        hend.imp_left fun h => Nat.succ_inj.mp h
      rw [List.cons_append]
      simp only [digits, hx]
      rw [ih (fun c hc => hds c (List.mem_cons_of_mem _ hc)) width (n + 1) (v * base + x) hw' hend']
      simp only [List.length_cons, valueFrom, List.foldl_cons, hx, Option.getD_some]
      rw [Nat.add_assoc, Nat.add_comm 1]

/-! ### Decimal numbers -/

theorem digit_of_isDigit {base : Nat} {c : Char} (hbase : 10 ≤ base) (h : c.isDigit) :
    digit base c = some (c.toNat - '0'.toNat) := by
  have hc : '0' ≤ c ∧ c ≤ '9' := by simpa [Char.isDigit, Char.le_def] using h
  have hlt : c.toNat - '0'.toNat < base := by
    have h9 : c.toNat ≤ '9'.toNat := hc.2
    have hv : '9'.toNat = 57 := rfl
    have h0 : '0'.toNat = 48 := rfl
    omega
  simp only [digit, if_pos hc, if_pos hlt]

theorem decimal_isDigit {k : Nat} {c : Char} (hc : c ∈ decimal k) : c.isDigit :=
  Nat.isDigit_of_mem_toDigits (by decide) (by decide) hc

theorem decimal_digit {base k : Nat} (hbase : 10 ≤ base) : ∀ c ∈ decimal k, (digit base c).isSome := by
  intro c hc
  rw [digit_of_isDigit hbase (decimal_isDigit hc)]
  rfl

theorem decimal_ne {k : Nat} {d : Char} (hd : digit 10 d = none) : d ∉ decimal k := fun h =>
  ne_of_digit (decimal_digit (le_refl 10) d h) hd rfl

theorem decimal_cons (k : Nat) : ∃ c s, decimal k = c :: s := by
  cases h : decimal k with
  | nil => exact absurd h Nat.toDigits_ne_nil
  | cons c s => exact ⟨c, s, rfl⟩

theorem valueFrom_digits {ds : List Char} (hds : ∀ c ∈ ds, c.isDigit) (v : Nat) :
    valueFrom 10 v ds = Nat.ofDigitChars 10 ds v := by
  induction ds generalizing v with
  | nil => rfl
  | cons d ds ih =>
    have hd := digit_of_isDigit (le_refl 10) (hds d (List.mem_cons_self ..))
    rw [Nat.ofDigitChars_cons, ← ih fun c hc => hds c (List.mem_cons_of_mem _ hc)]
    simp only [valueFrom, List.foldl_cons, hd, Option.getD_some]
    rw [Nat.mul_comm]

theorem valueFrom_decimal (k : Nat) : valueFrom 10 0 (decimal k) = k := by
  rw [valueFrom_digits fun c hc => decimal_isDigit hc]
  exact Nat.ofDigitChars_ten_toDigits

/-- A number in front of something that is no digit. -/
theorem digits_decimal (k : Nat) {rest : List Char} (hrest : ∀ c ∈ rest.head?, digit 10 c = none) :
    digits 10 (decimal k ++ rest).length 0 0 (decimal k ++ rest) = ((decimal k).length, k, rest) := by
  rw [digits_append (decimal_digit (le_refl 10)) _ 0 0 (by simp) (.inr hrest), valueFrom_decimal, Nat.zero_add]

theorem clampULong_of_lt {v : Nat} (h : v < 2 ^ 64) : clampULong false v = v := by
  rw [clampULong, if_pos h]
  rfl

theorem atoi_digits {s : List Char} (hs : s ≠ []) (hd : ∀ c ∈ s, c.isDigit) (hlt : Nat.ofDigitChars 10 s 0 < 2 ^ 31) :
    atoi s = Nat.ofDigitChars 10 s 0 := by
  obtain ⟨c, r, rfl⟩ := List.exists_cons_of_ne_nil hs
  have hdigit : ∀ {base : Nat}, 10 ≤ base → ∀ d ∈ c :: r, (digit base d).isSome := by
    intro base hbase d hmem
    rw [digit_of_isDigit hbase (hd d hmem)]
    rfl
  have hc := hdigit (by decide : 10 ≤ 16) c (List.mem_cons_self ..)
  have hdigits := @digits_append 10 (c :: r) [] (hdigit (le_refl 10)) (c :: r).length 0 0 (le_refl _) (.inl rfl)
  rw [List.append_nil, valueFrom_digits hd] at hdigits
  unfold atoi
  rw [skipSpaces_digit hc, sign_digit hc]
  simp only [hdigits, Bool.false_eq_true, if_false]
  rw [clampLong, min_eq_right (by omega), max_eq_right (by omega)]
  exact Int.bmod_eq_of_le (by omega) (by omega)

theorem atoi_decimal {k : Nat} (hk : k < 2 ^ 31) : atoi (decimal k) = k := by
  obtain ⟨c, s, hcs⟩ := decimal_cons k
  have hvalue : Nat.ofDigitChars 10 (decimal k) 0 = k := Nat.ofDigitChars_ten_toDigits
  rw [atoi_digits (hcs ▸ List.cons_ne_nil c s) (fun c hc => decimal_isDigit hc) (by rw [hvalue]; exact hk), hvalue]

theorem atoi16_decimal (v : UInt16) : atoi16 (decimal v.toNat) = v := by
  unfold atoi16
  rw [atoi_decimal (lt_trans v.toNat_lt (by decide))]
  have hmod : ((v.toNat : Int) % 2 ^ 16).toNat = v.toNat := by
    have := v.toNat_lt
    omega
  rw [hmod]
  exact UInt16.ofNat_toNat

theorem strtoull_decimal (b : UInt64) : strtoull (decimal b.toNat) = b := by
  obtain ⟨c, s, hcs⟩ := decimal_cons b.toNat
  have hc : (digit 16 c).isSome := decimal_digit (by decide) c (hcs ▸ List.mem_cons_self ..)
  have hdigits := @digits_decimal b.toNat [] (fun c h => by cases h)
  rw [List.append_nil] at hdigits
  have hlen : (decimal b.toNat).length ≠ 0 := by rw [hcs]; simp
  have hclamp : clampULong false b.toNat = b.toNat := clampULong_of_lt b.toNat_lt
  have h10 : ¬ (10 : Nat) = 16 := by decide
  have hval : strtoul 10 (decimal b.toNat) = some (b.toNat, []) := by
    unfold strtoul
    rw [hcs, skipSpaces_digit hc, sign_digit hc, ← hcs]
    simp only [if_neg h10, hdigits, if_neg hlen, hclamp]
  unfold strtoull
  rw [hval, Option.map_some, Option.getD_some]
  exact UInt64.ofNat_toNat

/-! ## MAC addresses -/

theorem hexDigit_digit : ∀ k < 16, digit 16 (hexDigit k) = some k := by decide

theorem hexByte_digits (b : UInt8) : ∀ c ∈ hexByte b, (digit 16 c).isSome := by
  have h := b.toNat_lt
  have h1 := hexDigit_digit (b.toNat / 16) (by omega)
  have h2 := hexDigit_digit (b.toNat % 16) (by omega)
  simp [hexByte, h1, h2]

theorem hexByte_value (b : UInt8) : valueFrom 16 0 (hexByte b) = b.toNat := by
  have h := b.toNat_lt
  have h1 := hexDigit_digit (b.toNat / 16) (by omega)
  have h2 := hexDigit_digit (b.toNat % 16) (by omega)
  simp only [valueFrom, hexByte, List.foldl_cons, List.foldl_nil, h1, h2, Option.getD_some]
  omega

/-- One byte, for `sscanf`. -/
theorem scan_hexByte (b : UInt8) (rest : List Char) : scan 16 2 (hexByte b ++ rest) = some (b.toNat, rest) := by
  have hb := b.toNat_lt
  have hc := hexByte_digits b (hexDigit (b.toNat / 16)) (List.mem_cons_self ..)
  have hdigits : digits 16 2 0 0 (hexByte b ++ rest) = (2, b.toNat, rest) := by
    rw [digits_append (hexByte_digits b) 2 0 0 (le_refl 2) (.inl rfl), hexByte_value]
    rfl
  have hcons : hexByte b ++ rest = hexDigit (b.toNat / 16) :: ([hexDigit (b.toNat % 16)] ++ rest) := rfl
  unfold scan
  have hclamp : clampULong false b.toNat = b.toNat := clampULong_of_lt (by omega)
  have hmod : b.toNat % 2 ^ 32 = b.toNat := by omega
  rw [hcons, skipSpaces_digit hc, sign_digit hc, ← hcons]
  simp only [Nat.sub_zero, hdigits, hclamp, hmod]
  rw [if_neg (by omega)]

/-- One byte, for `strtoul`. -/
theorem strtoul_hexByte (b : UInt8) {rest : List Char} (hrest : ∀ c ∈ rest.head?, digit 16 c = none) :
    strtoul 16 (hexByte b ++ rest) = some (b.toNat, rest) := by
  have hb := b.toNat_lt
  have hc := hexByte_digits b (hexDigit (b.toNat / 16)) (List.mem_cons_self ..)
  have hd := hexByte_digits b (hexDigit (b.toNat % 16)) (by simp [hexByte])
  have hx : hexDigit (b.toNat % 16) ≠ 'x' := ne_of_digit hd (by decide)
  have hX : hexDigit (b.toNat % 16) ≠ 'X' := ne_of_digit hd (by decide)
  have hdigits : digits 16 (hexByte b ++ rest).length 0 0 (hexByte b ++ rest) = (2, b.toNat, rest) := by
    rw [digits_append (hexByte_digits b) _ 0 0 (by simp) (.inr hrest), hexByte_value]
    rfl
  have hcons : hexByte b ++ rest = hexDigit (b.toNat / 16) :: hexDigit (b.toNat % 16) :: rest := rfl
  have hskip : skipHex (hexByte b ++ rest) = hexByte b ++ rest := by
    rw [hcons]
    unfold skipHex
    split
    · rename_i heq
      simp only [List.cons.injEq] at heq
      obtain ⟨-, rfl, rfl⟩ := heq
      rw [if_neg (by simp [hx, hX])]
    · rfl
  have hclamp : clampULong false b.toNat = b.toNat := clampULong_of_lt (by omega)
  unfold strtoul
  rw [hcons, skipSpaces_digit hc, sign_digit hc, ← hcons]
  simp only [if_true, hskip, hdigits, hclamp]
  rw [if_neg (by decide)]

theorem formatMac_cons (b c : UInt8) (l : List UInt8) : formatMac (b :: c :: l) = hexByte b ++ ':' :: formatMac (c :: l) :=
  rfl

/-- What may follow a MAC: nothing that a number could go on with, and no colon. -/
def Ends (rest : List Char) : Prop := ∀ c ∈ rest.head?, digit 16 c = none ∧ c ≠ ':'

theorem suffix_ends (suffix : Suffix) : Ends suffix.text := by
  intro c hc
  cases suffix with
  | none => cases hc
  | v4 => cases hc; decide
  | v6 => cases hc; decide

theorem scanMany_formatMac {l : List UInt8} (hl : l ≠ []) {rest : List Char} (hrest : Ends rest) :
    scanMany (scan 16 2) ':' l.length (formatMac l ++ rest) = l.map UInt8.toNat := by
  induction l with
  | nil => exact absurd rfl hl
  | cons b l ih =>
    cases l with
    | nil =>
      show scanMany (scan 16 2) ':' 1 (hexByte b ++ rest) = [b.toNat]
      simp only [scanMany, scan_hexByte]
      cases rest with
      | nil => rfl
      | cons c rest =>
        show b.toNat :: (if c = ':' then [] else []) = [b.toNat]
        rw [ite_self]
    | cons c l =>
      rw [formatMac_cons, List.append_assoc, List.length_cons]
      simp only [scanMany, scan_hexByte, List.cons_append, if_true]
      rw [ih (List.cons_ne_nil _ _), List.map_cons, List.map_cons, List.map_cons]

theorem parseMacLoop_formatMac {l : List UInt8} (hl : l ≠ []) {rest : List Char} (hrest : Ends rest) :
    parseMacLoop l.length (formatMac l ++ rest) = l := by
  induction l with
  | nil => exact absurd rfl hl
  | cons b l ih =>
    cases l with
    | nil =>
      show parseMacLoop 1 (hexByte b ++ rest) = [b]
      simp only [parseMacLoop, strtoul_hexByte b fun c hc => (hrest c hc).1, UInt8.ofNat_toNat]
      split <;> rfl
    | cons c l =>
      have hcolon : ∀ d ∈ (':' :: (formatMac (c :: l) ++ rest)).head?, digit 16 d = none := by
        intro d hd
        cases hd
        decide
      rw [formatMac_cons, List.append_assoc, List.length_cons]
      simp only [parseMacLoop, List.cons_append, strtoul_hexByte b hcolon, UInt8.ofNat_toNat]
      rw [ih (List.cons_ne_nil _ _)]

variable (m : MacAddress) (suffix : Suffix)

theorem mac_ne_nil : m.val ≠ [] := fun h => by
  have := m.property
  rw [h] at this
  cases this

theorem scanMac_formatMac : scanMac (formatMac m.val ++ suffix.text) = some m.val := by
  have h := scanMany_formatMac (mac_ne_nil m) (suffix_ends suffix)
  rw [m.property] at h
  unfold scanMac
  simp only [h, List.length_map, m.property, if_true]
  rw [List.map_map]
  have hid : (UInt8.ofNat ∘ UInt8.toNat) = id := funext fun b => UInt8.ofNat_toNat
  rw [hid, List.map_id]

theorem parseMac_formatMac : parseMac (formatMac m.val ++ suffix.text) = m.val := by
  have h := parseMacLoop_formatMac (mac_ne_nil m) (suffix_ends suffix)
  rw [m.property] at h
  exact h

theorem parseMacLoop_length (n : Nat) (s : List Char) : (parseMacLoop n s).length = n := by
  induction n generalizing s with
  | zero => rfl
  | succ n ih =>
    unfold parseMacLoop
    cases strtoul 16 s with
    | none => exact List.length_replicate
    | some r =>
      simp only [List.length_cons]
      split
      · rw [ih]
      · rw [List.length_replicate]

theorem mem_formatMac {l : List UInt8} {c : Char} (h : c ∈ formatMac l) : c = ':' ∨ (digit 16 c).isSome := by
  induction l with
  | nil => cases h
  | cons b l ih =>
    cases l with
    | nil => exact .inr (hexByte_digits b c h)
    | cons d l =>
      rw [formatMac_cons] at h
      rcases List.mem_append.mp h with h | h
      · exact .inr (hexByte_digits b c h)
      · rcases List.mem_cons.mp h with rfl | h
        · exact .inl rfl
        · exact ih h

theorem length_formatMac (l : List UInt8) : (formatMac l).length ≤ 3 * l.length := by
  induction l with
  | nil => exact Nat.le_refl _
  | cons b l ih =>
    cases l with
    | nil => exact Nat.le_succ 2
    | cons c l =>
      rw [formatMac_cons]
      simp only [List.length_append, List.length_cons, List.length_nil, hexByte] at ih ⊢
      omega

theorem mac_no_at : '@' ∉ formatMac m.val ++ suffix.text := by
  intro h
  rcases List.mem_append.mp h with h | h
  · rcases mem_formatMac h with h | h
    · revert h; decide
    · revert h; decide
  · revert h
    cases suffix <;> decide

/-! ## Addresses -/

/-- Eight bits, and back. -/
theorem byteBits_bitsNat {l : List Bool} (h : l.length = 8) : byteBits (bitsNat l) = l := by
  match l, h with
  | [a, b, c, d, e, f, g, i], _ =>
    revert a b c d e f g i
    decide

theorem bitsNat_lt_256 {l : List Bool} (h : l.length = 8) : bitsNat l < 256 := by
  match l, h with
  | [a, b, c, d, e, f, g, i], _ =>
    revert a b c d e f g i
    decide

/-- The octets of an IPv4 address. -/
def octet (a : Bits 32) (i : Nat) : List Bool := (a.val.drop (8 * i)).take 8

theorem octet_length (a : Bits 32) {i : Nat} (hi : i < 4) : (octet a i).length = 8 := by
  unfold octet
  rw [List.length_take, List.length_drop, a.property]
  omega

theorem octets_append (a : Bits 32) : octet a 0 ++ octet a 1 ++ octet a 2 ++ octet a 3 = a.val := by
  have h3 : octet a 3 = a.val.drop 24 := List.take_of_length_le (by rw [List.length_drop, a.property])
  have h2 : octet a 2 ++ a.val.drop 24 = a.val.drop 16 := by
    have := List.take_append_drop 8 (a.val.drop 16)
    rwa [List.drop_drop] at this
  have h1 : octet a 1 ++ a.val.drop 16 = a.val.drop 8 := by
    have := List.take_append_drop 8 (a.val.drop 8)
    rwa [List.drop_drop] at this
  have h0 : octet a 0 ++ a.val.drop 8 = a.val := List.take_append_drop 8 a.val
  rw [h3, List.append_assoc, List.append_assoc, h2, h1, h0]

theorem intoaV4_eq (a : Bits 32) :
    intoaV4 a.val = decimal (bitsNat (octet a 0)) ++ '.' :: (decimal (bitsNat (octet a 1)) ++ '.' ::
      (decimal (bitsNat (octet a 2)) ++ '.' :: decimal (bitsNat (octet a 3)))) := by
  unfold intoaV4
  simp only [List.append_assoc, List.cons_append]
  rfl

theorem scan_decimal (k : Nat) (hk : k < 256) {rest : List Char} (hrest : ∀ c ∈ rest.head?, digit 10 c = none) :
    scan 10 (decimal k ++ rest).length (decimal k ++ rest) = some (k, rest) := by
  obtain ⟨c, s, hcs⟩ := decimal_cons k
  have hc : (digit 16 c).isSome := decimal_digit (by decide) c (hcs ▸ List.mem_cons_self ..)
  have hdigits := digits_decimal k hrest
  have hlen : (decimal k).length ≠ 0 := by rw [hcs]; simp
  have hcons : decimal k ++ rest = c :: (s ++ rest) := by rw [hcs]; rfl
  have hskip : skipSpaces (decimal k ++ rest) = decimal k ++ rest := by rw [hcons]; exact skipSpaces_digit hc _
  have hsign : sign (decimal k ++ rest) = (false, 0, decimal k ++ rest) := by rw [hcons]; exact sign_digit hc _
  have hclamp : clampULong false k = k := clampULong_of_lt (by omega)
  have hmod : k % 2 ^ 32 = k := by omega
  unfold scan
  rw [hskip, hsign]
  simp only [Nat.sub_zero, hdigits, hclamp, hmod]
  rw [if_neg (by simp [hlen])]

theorem scanOctets_intoaV4 (a : Bits 32) :
    scanOctets (intoaV4 a.val) =
      [bitsNat (octet a 0), bitsNat (octet a 1), bitsNat (octet a 2), bitsNat (octet a 3)] := by
  have hlt : ∀ i < 4, bitsNat (octet a i) < 256 := fun i hi => bitsNat_lt_256 (octet_length a hi)
  have hdot : ∀ r : List Char, ∀ c ∈ ('.' :: r).head?, digit 10 c = none := by
    intro r c hc
    cases hc
    decide
  have hlast := @scan_decimal (bitsNat (octet a 3)) (hlt 3 (by decide)) [] (fun c hc => by cases hc)
  rw [List.append_nil] at hlast
  rw [intoaV4_eq]
  simp only [scanOctets, scanMany, scan_decimal _ (hlt 0 (by decide)) (hdot _), scan_decimal _ (hlt 1 (by decide)) (hdot _),
    scan_decimal _ (hlt 2 (by decide)) (hdot _), hlast, if_true]

theorem mem_intoaV4 {a : Bits 32} {c : Char} (h : c ∈ intoaV4 a.val) : c = '.' ∨ (digit 10 c).isSome := by
  rw [intoaV4_eq] at h
  simp only [List.mem_append, List.mem_cons] at h
  have hd : ∀ {k : Nat}, c ∈ decimal k → (digit 10 c).isSome := fun h => decimal_digit (le_refl 10) c h
  rcases h with h | h | h | h | h | h | h
  · exact .inr (hd h)
  · exact .inl h
  · exact .inr (hd h)
  · exact .inl h
  · exact .inr (hd h)
  · exact .inl h
  · exact .inr (hd h)

theorem intoaV4_ne {a : Bits 32} {c : Char} (hdot : c ≠ '.') (hc : digit 10 c = none) : c ∉ intoaV4 a.val := by
  intro h
  rcases mem_intoaV4 h with h | h
  · exact hdot h
  · rw [hc] at h
    cases h

theorem intoaV4_length (a : Bits 32) : (intoaV4 a.val).length ≤ 15 := by
  have hlen : ∀ i < 4, (decimal (bitsNat (octet a i))).length ≤ 3 := by
    intro i hi
    have hlt := bitsNat_lt_256 (octet_length a hi)
    exact (Nat.length_toDigits_le_iff (by decide) (by decide)).mpr (by omega)
  have h0 := hlen 0 (by decide)
  have h1 := hlen 1 (by decide)
  have h2 := hlen 2 (by decide)
  have h3 := hlen 3 (by decide)
  rw [intoaV4_eq]
  simp only [List.length_append, List.length_cons]
  omega

section Rules

variable {E : Env}

/-- A rule that is one IPv4 address. -/
theorem ptreeAddRule_v4 (t : Option (PTree E.P)) (a : Bits 32) :
    E.ptreeAddRule t (intoaV4 a.val) = E.addToPtree t .inet a.val 32 := by
  have hhead : ¬ (intoaV4 a.val).head? = some '[' := fun h =>
    intoaV4_ne (by decide) (by decide) (List.mem_of_mem_head? h)
  have hslash : '/' ∉ intoaV4 a.val := intoaV4_ne (by decide) (by decide)
  have hcolon : ':' ∉ intoaV4 a.val := intoaV4_ne (by decide) (by decide)
  have hbyte : ∀ i < 4, byteBits (bitsNat (octet a i) % 256) = octet a i := by
    intro i hi
    rw [Nat.mod_eq_of_lt (bitsNat_lt_256 (octet_length a hi)), byteBits_bitsNat (octet_length a hi)]
  unfold Env.ptreeAddRule
  simp only [if_neg hhead, takeWhile_ne hslash, dropWhile_ne hslash, scanMac_sep hcolon, if_neg hcolon,
    scanOctets_intoaV4]
  rw [if_pos (by simp)]
  simp only [List.getD_cons_zero, List.getD_cons_succ, hbyte 0 (by decide), hbyte 1 (by decide),
    hbyte 2 (by decide), hbyte 3 (by decide), octets_append]
  rfl

/-- A rule that is one IPv6 address, when it is not taken for a MAC. -/
theorem ptreeAddRule_v6 (hE : TextOk E) (t : Option (PTree E.P)) {a : Bits 128}
    (hmac : scanMac (E.inetNtop6 a.val) = none) :
    E.ptreeAddRule t (E.inetNtop6 a.val) = E.addToPtree t .inet6 a.val 128 := by
  have hne : ∀ c : Char, c ≠ ':' → c ≠ '.' → digit 16 c = none → c ∉ E.inetNtop6 a.val := by
    intro c h1 h2 h3 hmem
    rcases hE.ntop6_chars a c hmem with h | h | h
    · exact h1 h
    · exact h2 h
    · rw [h3] at h
      cases h
  have hhead : ¬ (E.inetNtop6 a.val).head? = some '[' := fun h =>
    hne '[' (by decide) (by decide) (by decide) (List.mem_of_mem_head? h)
  have hslash : '/' ∉ E.inetNtop6 a.val := hne '/' (by decide) (by decide) (by decide)
  unfold Env.ptreeAddRule
  simp only [if_neg hhead, takeWhile_ne hslash, dropWhile_ne hslash, hmac, if_pos (hE.ntop6_colon a), hE.pton6]
  rfl

end Rules

/-! ## Keys -/

section Keys

variable {E : Env}

theorem ipText_no_at (hE : TextOk E) (a : IpAddress) : '@' ∉ ipText E a := by
  cases a with
  | v4 a => exact intoaV4_ne (by decide) (by decide)
  | v6 a =>
    intro h
    rcases hE.ntop6_chars a '@' h with h | h | h
    · revert h; decide
    · revert h; decide
    · revert h; decide

theorem ipText_length (hE : TextOk E) (a : IpAddress) : (ipText E a).length ≤ 45 := by
  cases a with
  | v4 a => exact (intoaV4_length a).trans (by decide)
  | v6 a => exact hE.ntop6_length a

theorem ipText_inj (hE : TextOk E) {a b : IpAddress} (h : ipText E a = ipText E b) : a = b := by
  have hmixed : ∀ (x : Bits 32) (y : Bits 128), intoaV4 x.val ≠ E.inetNtop6 y.val := by
    intro x y hxy
    have h1 := hE.pton4 x
    rw [hxy, hE.pton4_colon _ (hE.ntop6_colon y)] at h1
    cases h1
  cases a with
  | v4 a =>
    cases b with
    | v4 b =>
      have h' : intoaV4 a.val = intoaV4 b.val := h
      have hab := (hE.pton4 a).symm.trans ((congrArg E.inetPton4 h').trans (hE.pton4 b))
      rw [Option.some.inj hab]
    | v6 b => exact absurd h (hmixed a b)
  | v6 a =>
    cases b with
    | v4 b => exact absurd h.symm (hmixed b a)
    | v6 b =>
      have h' : E.inetNtop6 a.val = E.inetNtop6 b.val := h
      have hab := (hE.pton6 a).symm.trans ((congrArg E.inetPton6 h').trans (hE.pton6 b))
      rw [Option.some.inj hab]

theorem after_text (ifaceId : Nat) (k : Key) : after '_' (k.text E ifaceId) = some (k.addrPart E) :=
  after_append (decimal_ne (by decide))

theorem text_ne_nil (ifaceId : Nat) (k : Key) : k.text E ifaceId ≠ [] := by
  unfold Key.text
  simp

theorem addrPart_inj (hE : TextOk E) {j k : Key} (h : j.addrPart E = k.addrPart E) : j = k := by
  have hat : ∀ (a : IpAddress) (v : VlanId), '@' ∈ (Key.ip a v).addrPart E := fun a v =>
    List.mem_append_right _ (List.mem_cons_self ..)
  cases j with
  | mac m s =>
    cases k with
    | mac m' s' =>
      have h' : formatMac m.val ++ s.text = formatMac m'.val ++ s'.text := h
      have hm := (scanMac_formatMac m s).symm.trans ((congrArg scanMac h').trans (scanMac_formatMac m' s'))
      have hmm : m = m' := Subtype.ext (Option.some.inj hm)
      subst hmm
      have hs := List.append_cancel_left h'
      cases s <;> cases s' <;> first | rfl | cases hs
    | ip a v =>
      have hmem := hat a v
      rw [← h] at hmem
      exact absurd hmem (mac_no_at m s)
  | ip a v =>
    cases k with
    | mac m s =>
      have hmem := hat a v
      rw [h] at hmem
      exact absurd hmem (mac_no_at m s)
    | ip b w =>
      have h' : ipText E a ++ '@' :: decimal v.val.toNat = ipText E b ++ '@' :: decimal w.val.toNat := h
      have hab := (before_append (ipText_no_at hE a)).symm.trans
        ((congrArg (before '@') h').trans (before_append (ipText_no_at hE b)))
      have hvw := (after_append (ipText_no_at hE a)).symm.trans
        ((congrArg (after '@') h').trans (after_append (ipText_no_at hE b)))
      have hv := congrArg atoi16 (Option.some.inj hvw)
      rw [atoi16_decimal, atoi16_decimal] at hv
      rw [ipText_inj hE hab, Subtype.ext hv]

theorem text_inj (hE : TextOk E) (ifaceId : Nat) {j k : Key} (h : j.text E ifaceId = k.text E ifaceId) : j = k := by
  have hpart := (after_text ifaceId j).symm.trans ((congrArg (after '_') h).trans (after_text ifaceId k))
  exact addrPart_inj hE (Option.some.inj hpart)

/-- Interface ids are `int`. -/
theorem text_length (hE : TextOk E) {ifaceId : Nat} (hid : ifaceId < 2 ^ 31) (k : Key) :
    (k.text E ifaceId).length ≤ 62 := by
  have h1 : (decimal ifaceId).length ≤ 10 := (Nat.length_toDigits_le_iff (by decide) (by decide)).mpr (by omega)
  have h2 : (k.addrPart E).length ≤ 51 := by
    cases k with
    | mac m s =>
      have hm := length_formatMac m.val
      have hs : s.text.length ≤ 3 := by cases s <;> decide
      have h6 := m.property
      show (formatMac m.val ++ s.text).length ≤ 51
      rw [List.length_append]
      omega
    | ip a v =>
      have ha := ipText_length hE a
      have hv : (decimal v.val.toNat).length ≤ 5 :=
        (Nat.length_toDigits_le_iff (by decide) (by decide)).mpr (by have := v.val.toNat_lt; omega)
      show (ipText E a ++ '@' :: decimal v.val.toNat).length ≤ 51
      rw [List.length_append, List.length_cons]
      omega
  unfold Key.text
  rw [List.length_append, List.length_cons]
  omega

theorem redisKey_text (hE : TextOk E) {ifaceId : Nat} (hid : ifaceId < 2 ^ 31) (k : Key) :
    redisKey (k.text E ifaceId) = bitmapPrefix ++ k.text E ifaceId := by
  have hlen := text_length hE hid k
  have hprefix : bitmapPrefix.length = 30 := by decide
  unfold redisKey
  rw [List.take_of_length_le]
  rw [List.length_append]
  omega

theorem redisKey_inj (hE : TextOk E) {ifaceId : Nat} (hid : ifaceId < 2 ^ 31) {j k : Key}
    (h : redisKey (j.text E ifaceId) = redisKey (k.text E ifaceId)) : j = k := by
  rw [redisKey_text hE hid, redisKey_text hE hid] at h
  exact text_inj hE ifaceId (List.append_cancel_left h)

/-- Every key matches the pattern of its interface. -/
theorem keysPattern_redisKey (hE : TextOk E) {ifaceId : Nat} (hid : ifaceId < 2 ^ 31) (k : Key) :
    keysPattern ifaceId <+: redisKey (k.text E ifaceId) := by
  rw [redisKey_text hE hid]
  refine ⟨k.addrPart E, ?_⟩
  unfold keysPattern Key.text
  simp only [List.append_assoc, List.cons_append, List.nil_append]

end Keys

end Ntopng.Addresses.Tags
