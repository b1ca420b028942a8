/-
  Ntopng.Hosts.Intoa — an address with a mask as text
  (`IpAddress::intoa`, src/IpAddress.cpp; `Utils::intoaV6`, src/Utils.cpp).

  An IPv4 address is masked as a number, an IPv6 address byte by byte. `inet_ntop` is a
  parameter: what is relied on is that it writes different texts for different addresses,
  each with a colon and of at most 45 characters, and an IPv4-mapped address with the
  dotted quad at its end. `intoaV6` cuts such a text down to the quad and writes the
  address of zeros as `0.0.0.0`.

  Proved (`intoa_law`): of an IPv4 address exactly the bits of the mask are printed. Of an
  IPv6 address so if the bytes past the last one the mask reaches into are zero: the loop
  ends there and leaves them as they are (`host_bits_left`). Two texts tell the masked
  addresses apart but for the zeros and `::ffff:0.0.0.0`, which print the same.
-/

import Ntopng.Protocols.MdnsQuestion
import Ntopng.Text.Hex

namespace Ntopng.Hosts.Intoa

open Ntopng.Lib.CString
open Ntopng.Protocols.Mdns (intoaByte intoaLoop intoaV4)
open Ntopng.Protocols.MdnsQuestion (intoaByte_digits)
open Ntopng.Text.Hex (hexDigit strtoul16_digits)

/-! ## The code -/

/-- The 16 bytes of an IPv6 address. -/
abbrev Ipv6 := { l : List UInt8 // l.length = 16 }

/-- An IPv4 address in host byte order (a version of 0 is taken for IPv4), or an IPv6 address. -/
inductive IpAddress where
  | v4 (a : UInt32)
  | v6 (a : Ipv6)
  deriving DecidableEq

/-- `inet_ntop` for IPv6. -/
abbrev Ntop := Ipv6 → List UInt8

def zeros : Ipv6 := ⟨List.replicate 16 0, rfl⟩

/-- `IN6_IS_ADDR_V4MAPPED`. -/
def isV4Mapped (a : Ipv6) : Bool := a.val.take 12 == List.replicate 10 0 ++ [0xff, 0xff]

/-- `none` where the end of the text, which is written first, does not leave room for its start. -/
def intoaV4Buf (a : UInt32) (bufLen : ℕ) : Option (List UInt8) :=
  if (intoaV4 a.toNat).length < bufLen then some (intoaV4 a.toNat) else none

def intoaV6 (ntop : Ntop) (ipv6 : Ipv6) (bufLen : ℕ) : List UInt8 :=
  if (ntop ipv6).length < bufLen then
    if ipv6 = zeros then text "0.0.0.0"
    else if isV4Mapped ipv6 then (ntop ipv6).drop 7
    else ntop ipv6
  else []

/-- What a byte is masked with when `i` bits of the mask are left. -/
def byteMask (i : ℕ) : UInt8 := if 8 ≤ i then 0xff else UInt8.ofNat ((0xff <<< (8 - i)) &&& 0xff)

/-- `for (i = bitmask, j = 0; i > 0; i -= 8, ++j)`. -/
def maskLoop : ℕ → List UInt8 → List UInt8
  | _, [] => []
  | i, b :: bytes => if 0 < i then (b &&& byteMask i) :: maskLoop (i - 8) bytes else b :: bytes

theorem maskLoop_length (i : ℕ) (l : List UInt8) : (maskLoop i l).length = l.length := by
  induction l generalizing i with
  | nil => rfl
  | cons b l ih =>
    unfold maskLoop
    split
    · rw [List.length_cons, List.length_cons, ih]
    · rfl

def maskIpv6 (bitmask : ℕ) (a : Ipv6) : Ipv6 := ⟨maskLoop bitmask a.val, (maskLoop_length ..).trans a.property⟩

/-- The mask of an IPv4 address; a shift by 32 is avoided. -/
def maskIpv4 (bitmask : ℕ) (a : UInt32) : UInt32 :=
  if 0 < bitmask then a &&& ~~~(((1 : UInt32) <<< UInt32.ofNat (32 - bitmask)) - 1) else 0

/-- `IpAddress::intoa`; `none` where it writes outside of the buffer. -/
def intoa (ntop : Ntop) (x : IpAddress) (bufLen : ℕ) (bitmask : UInt8) : Option (List UInt8) :=
  match x with
  | .v4 a => intoaV4Buf (maskIpv4 (min bitmask.toNat 32) a) bufLen
  | .v6 a =>
    let bitmask := min bitmask.toNat 128
    some (intoaV6 ntop (if bitmask ≠ 128 then maskIpv6 bitmask a else a) bufLen)

/-! ## What it is for -/

/-- The IPv4-mapped address of `q`. -/
def mapped (q : UInt32) : Ipv6 :=
  ⟨List.replicate 10 0 ++ [0xff, 0xff, UInt8.ofNat (q.toNat / 2 ^ 24), UInt8.ofNat (q.toNat / 2 ^ 16),
    UInt8.ofNat (q.toNat / 2 ^ 8), UInt8.ofNat q.toNat], rfl⟩

/-- What is documented of `inet_ntop`. -/
structure NtopOk (ntop : Ntop) : Prop where
  inj : Function.Injective ntop
  colon : ∀ a, ch ':' ∈ ntop a
  length : ∀ a, (ntop a).length ≤ 45
  /-- An IPv4-mapped address ends with its dotted quad. -/
  quad : ∀ q : UInt32, ntop (mapped q) = text "::ffff:" ++ intoaV4 q.toNat

/-- Bit `k` of an address, from the left. -/
def bit : IpAddress → ℕ → Bool
  | .v4 a, k => a.toNat.testBit (31 - k)
  | .v6 a, k => (a.val.getD (k / 8) 0).toNat.testBit (7 - k % 8)

def width : IpAddress → ℕ
  | .v4 _ => 32
  | .v6 _ => 128

/-- An address of the same family with the first `m` bits of `x` and no others. -/
def Masked (m : ℕ) (x x' : IpAddress) : Prop :=
  width x = width x' ∧ ∀ k < width x, bit x' k = (decide (k < m) && bit x k)

/-- How a whole address is printed. -/
def printed (ntop : Ntop) : IpAddress → List UInt8
  | .v4 a => intoaV4 a.toNat
  | .v6 a => if a = zeros then text "0.0.0.0" else if isV4Mapped a then (ntop a).drop 7 else ntop a

def Prints (ntop : Ntop) (bufLen : ℕ) (m : UInt8) (x : IpAddress) : Prop :=
  ∃ x', Masked m.toNat x x' ∧ intoa ntop x bufLen m = some (printed ntop x')

/-- Both are printed masked, and the texts are the same exactly if the bits of the mask are. -/
def Right (ntop : Ntop) (bufLen : ℕ) (m : UInt8) (x y : IpAddress) : Prop :=
  Prints ntop bufLen m x ∧ Prints ntop bufLen m y ∧
    (intoa ntop x bufLen m = intoa ntop y bufLen m ↔ ∀ k < width x, k < m.toNat → bit x k = bit y k)

/-- The bytes behind the mask are zero. -/
def Clean (m : UInt8) (x : Ipv6) : Prop := ∀ j < 16, m.toNat ≤ 8 * j → x.val.getD j 0 = 0

/-- No bit in the mask, and behind it the rest of `::ffff:0.0.0.0`: this prints as the zeros do. -/
def MappedTail (m : UInt8) (x : Ipv6) : Prop :=
  m.toNat ≤ 80 ∧ (∀ k < 128, k < m.toNat → bit (.v6 x) k = false) ∧
    ∀ j < 16, m.toNat ≤ 8 * j → x.val.getD j 0 = (mapped 0).val.getD j 0

def Told (m : UInt8) (x : Ipv6) : Prop := Clean m x ∨ MappedTail m x

/-- In the mask one has no bit, the other exactly those of `::ffff:0.0.0.0`. -/
def Cross (m : UInt8) (x y : Ipv6) : Prop :=
  (∀ k < 128, k < m.toNat → bit (.v6 x) k = false) ∧
    ∀ k < 128, bit (.v6 (mapped 0)) k = (decide (k < m.toNat) && bit (.v6 y) k)

instance (m : UInt8) (x : Ipv6) : Decidable (Clean m x) := inferInstanceAs (Decidable (∀ j < 16, _))

instance (m : UInt8) (x : Ipv6) : Decidable (MappedTail m x) := inferInstanceAs (Decidable (_ ∧ (∀ k < 128, _) ∧ ∀ j < 16, _))

instance (m : UInt8) (x : Ipv6) : Decidable (Told m x) := inferInstanceAs (Decidable (_ ∨ _))

instance (m : UInt8) (x y : Ipv6) : Decidable (Cross m x y) := inferInstanceAs (Decidable ((∀ k < 128, _) ∧ ∀ k < 128, _))

/-! ## Bits -/

theorem byteMask_bit (n : ℕ) {r : ℕ} (hr : r < 8) : (byteMask n).toNat.testBit (7 - r) = decide (r < n) := by
  by_cases hn : 8 ≤ n
  · rw [byteMask, if_pos hn, decide_eq_true (by omega)]
    revert r
    decide
  · have hall : ∀ n < 8, ∀ r < 8, (byteMask n).toNat.testBit (7 - r) = decide (r < n) := by decide
    exact hall n (by omega) r hr

theorem and_byteMask_bit (b : UInt8) (n : ℕ) {r : ℕ} (hr : r < 8) :
    (b &&& byteMask n).toNat.testBit (7 - r) = (decide (r < n) && b.toNat.testBit (7 - r)) := by
  rw [UInt8.toNat_and, Nat.testBit_and, byteMask_bit n hr, Bool.and_comm]

theorem byte_ext {b c : UInt8} (h : ∀ r < 8, b.toNat.testBit (7 - r) = c.toNat.testBit (7 - r)) : b = c := by
  refine UInt8.toNat_inj.mp (Nat.eq_of_testBit_eq fun i => ?_)
  by_cases hi : i < 8
  · have := h (7 - i) (by omega)
    rwa [show 7 - (7 - i) = i by omega] at this
  · have hlow : ∀ x : UInt8, x.toNat.testBit i = false := fun x =>
      Nat.testBit_lt_two_pow (lt_of_lt_of_le x.toNat_lt (Nat.pow_le_pow_right (by decide) (by omega)))
    rw [hlow, hlow]

theorem ipv6_ext {a b : Ipv6} (h : ∀ j < 16, a.val.getD j 0 = b.val.getD j 0) : a = b := by
  refine Subtype.ext (List.ext_getElem (a.property.trans b.property.symm) fun j hj hj' => ?_)
  have := h j (by rw [a.property] at hj; exact hj)
  rwa [List.getD_eq_getElem _ _ hj, List.getD_eq_getElem _ _ hj'] at this

theorem v6_bit (a : Ipv6) (j : ℕ) {r : ℕ} (hr : r < 8) :
    bit (.v6 a) (8 * j + r) = (a.val.getD j 0).toNat.testBit (7 - r) := by
  rw [bit, show (8 * j + r) / 8 = j by omega, show (8 * j + r) % 8 = r by omega]

theorem bit_ext {x y : IpAddress} (hw : width x = width y) (h : ∀ k < width x, bit x k = bit y k) : x = y := by
  cases x with
  | v4 a =>
    cases y with
    | v6 b => cases hw
    | v4 b =>
      refine congrArg IpAddress.v4 (UInt32.toNat_inj.mp (Nat.eq_of_testBit_eq fun i => ?_))
      by_cases hi : i < 32
      · have := h (31 - i) (by show _ < 32; omega)
        rwa [bit, bit, show 31 - (31 - i) = i by omega] at this
      · have hlow : ∀ x : UInt32, x.toNat.testBit i = false := fun x =>
          Nat.testBit_lt_two_pow (lt_of_lt_of_le x.toNat_lt (Nat.pow_le_pow_right (by decide) (by omega)))
        rw [hlow, hlow]
  | v6 a =>
    cases y with
    | v4 b => cases hw
    | v6 b =>
      refine congrArg IpAddress.v6 (ipv6_ext fun j hj => byte_ext fun r hr => ?_)
      have := h (8 * j + r) (by show _ < 128; omega)
      rwa [v6_bit a j hr, v6_bit b j hr] at this

theorem Masked.unique {m : ℕ} {x x₁ x₂ : IpAddress} (h₁ : Masked m x x₁) (h₂ : Masked m x x₂) : x₁ = x₂ := by
  refine bit_ext (h₁.1.symm.trans h₂.1) fun k hk => ?_
  rw [← h₁.1] at hk
  rw [h₁.2 k hk, h₂.2 k hk]

/-! ## The masks -/

theorem netmask_toNat {n : ℕ} (hn : n < 32) : (((1 : UInt32) <<< UInt32.ofNat n) - 1).toNat = 2 ^ n - 1 := by
  have hshift : ((1 : UInt32) <<< UInt32.ofNat n).toNat = 2 ^ n := by
    rw [UInt32.toNat_shiftLeft, UInt32.toNat_ofNat', Nat.mod_eq_of_lt (by omega : n < 2 ^ 32), Nat.mod_eq_of_lt hn,
      Nat.shiftLeft_eq, UInt32.toNat_one, Nat.one_mul]
    exact Nat.mod_eq_of_lt (Nat.pow_lt_pow_right (by decide) hn)
  rw [UInt32.toNat_sub_of_le, hshift, UInt32.toNat_one]
  rw [UInt32.le_iff_toNat_le, hshift]
  exact Nat.one_le_two_pow

theorem maskIpv4_masked (m : ℕ) (a : UInt32) : Masked m (.v4 a) (.v4 (maskIpv4 (min m 32) a)) := by
  refine ⟨rfl, fun k hk => ?_⟩
  have hk' : k < 32 := hk
  show (maskIpv4 (min m 32) a).toNat.testBit (31 - k) = (decide (k < m) && a.toNat.testBit (31 - k))
  by_cases hm : 0 < min m 32
  · rw [maskIpv4, if_pos hm, UInt32.toNat_and, Nat.testBit_and]
    have hnot : (~~~(((1 : UInt32) <<< UInt32.ofNat (32 - min m 32)) - 1)).toNat.testBit (31 - k) = decide (k < m) := by
      show (~~~(((1 : UInt32) <<< UInt32.ofNat (32 - min m 32)) - 1)).toBitVec.getLsbD (31 - k) = _
      rw [UInt32.toBitVec_not, BitVec.getLsbD_not, decide_eq_true (by omega), Bool.true_and]
      show (!((((1 : UInt32) <<< UInt32.ofNat (32 - min m 32)) - 1).toNat.testBit (31 - k))) = _
      rw [netmask_toNat (by omega), Nat.testBit_two_pow_sub_one, ← decide_not, decide_eq_decide]
      omega
    rw [hnot, Bool.and_comm]
  · rw [maskIpv4, if_neg hm, decide_eq_false (by omega), UInt32.toNat_zero, Nat.zero_testBit, Bool.false_and]

/-- The bytes of an address with nothing left behind the mask. -/
def cut (m : ℕ) (a : Ipv6) : Ipv6 :=
  ⟨(List.range 16).map fun j => if 8 * j < m then a.val.getD j 0 &&& byteMask (m - 8 * j) else 0, by simp⟩

theorem cut_getD (m : ℕ) (a : Ipv6) {j : ℕ} (hj : j < 16) :
    (cut m a).val.getD j 0 = if 8 * j < m then a.val.getD j 0 &&& byteMask (m - 8 * j) else 0 := by
  rw [List.getD_eq_getElem _ _ (by rw [(cut m a).property]; exact hj)]
  simp [cut]

theorem cut_masked (m : ℕ) (a : Ipv6) : Masked m (.v6 a) (.v6 (cut m a)) := by
  refine ⟨rfl, fun k hk => ?_⟩
  have hk' : k < 128 := hk
  rw [show k = 8 * (k / 8) + k % 8 by omega, v6_bit _ _ (Nat.mod_lt k (by decide)), v6_bit _ _ (Nat.mod_lt k (by decide)),
    cut_getD m a (by omega)]
  split
  · rw [and_byteMask_bit _ _ (Nat.mod_lt k (by decide))]
    congr 1
    rw [decide_eq_decide]
    omega
  · rw [decide_eq_false (by omega)]
    simp

theorem maskLoop_getD (i : ℕ) (l : List UInt8) (j : ℕ) :
    (maskLoop i l).getD j 0 = if 8 * j < i then l.getD j 0 &&& byteMask (i - 8 * j) else l.getD j 0 := by
  induction l generalizing i j with
  | nil => simp [maskLoop]
  | cons b l ih =>
    unfold maskLoop
    split
    · rename_i hi
      cases j with
      | zero => simp [hi]
      | succ j =>
        rw [List.getD_cons_succ, List.getD_cons_succ, ih, show i - 8 - 8 * j = i - 8 * (j + 1) by omega]
        exact if_congr (by omega) rfl rfl
    · rename_i hi
      rw [if_neg (by omega)]

/-! ## Texts -/

/-- Two texts are the same up to their first dot and behind it. -/
theorem split_dot {l₁ l₂ r₁ r₂ : List UInt8} (h₁ : ch '.' ∉ l₁) (h₂ : ch '.' ∉ l₂)
    (h : l₁ ++ ch '.' :: r₁ = l₂ ++ ch '.' :: r₂) : l₁ = l₂ ∧ r₁ = r₂ := by
  induction l₁ generalizing l₂ with
  | nil =>
    cases l₂ with
    | nil => exact ⟨rfl, (List.cons_eq_cons.mp h).2⟩
    | cons c l₂ => exact absurd (List.cons_eq_cons.mp h).1 fun hc => h₂ (hc ▸ List.mem_cons_self ..)
  | cons b l₁ ih =>
    cases l₂ with
    | nil => exact absurd (List.cons_eq_cons.mp h).1 fun hb => h₁ (hb ▸ List.mem_cons_self ..)
    | cons c l₂ =>
      obtain ⟨rfl, htail⟩ := List.cons_eq_cons.mp h
      obtain ⟨rfl, rfl⟩ := ih (fun hm => h₁ (List.mem_cons_of_mem _ hm)) (fun hm => h₂ (List.mem_cons_of_mem _ hm)) htail
      exact ⟨rfl, rfl⟩

theorem intoaByte_chars {b : ℕ} (hb : b < 256) : ch '.' ∉ intoaByte b ∧ ch ':' ∉ intoaByte b := by
  have hall := List.all_eq_true.mp (intoaByte_digits b hb).1
  exact ⟨fun h => absurd (hall _ h) (by decide), fun h => absurd (hall _ h) (by decide)⟩

theorem intoaByte_inj {b c : ℕ} (hb : b < 256) (hc : c < 256) (h : intoaByte b = intoaByte c) : b = c := by
  rw [← (intoaByte_digits b hb).2.1, h, (intoaByte_digits c hc).2.1]

theorem intoaV4_eq (n : ℕ) : intoaV4 n = intoaByte (n / 256 / 256 / 256 % 256) ++ ch '.' ::
    (intoaByte (n / 256 / 256 % 256) ++ ch '.' :: (intoaByte (n / 256 % 256) ++ ch '.' :: intoaByte (n % 256))) := by
  simp [intoaV4, intoaLoop]

theorem intoaV4_inj {a b : UInt32} (h : intoaV4 a.toNat = intoaV4 b.toNat) : a = b := by
  have hmod : ∀ n, n % 256 < 256 := fun n => Nat.mod_lt n (by decide)
  have hdot := fun n => (intoaByte_chars (hmod n)).1
  rw [intoaV4_eq, intoaV4_eq] at h
  obtain ⟨h3, h⟩ := split_dot (hdot _) (hdot _) h
  obtain ⟨h2, h⟩ := split_dot (hdot _) (hdot _) h
  obtain ⟨h1, h0⟩ := split_dot (hdot _) (hdot _) h
  have e3 := intoaByte_inj (hmod _) (hmod _) h3
  have e2 := intoaByte_inj (hmod _) (hmod _) h2
  have e1 := intoaByte_inj (hmod _) (hmod _) h1
  have e0 := intoaByte_inj (hmod _) (hmod _) h0
  have ha := a.toNat_lt
  have hb := b.toNat_lt
  exact UInt32.toNat_inj.mp (by omega)

theorem intoaV4_no_colon (n : ℕ) : ch ':' ∉ intoaV4 n := by
  have hcolon := fun n => (intoaByte_chars (Nat.mod_lt n (by decide : 0 < 256))).2
  have hdot : ch ':' ≠ ch '.' := by decide
  rw [intoaV4_eq]
  simp only [List.mem_append, List.mem_cons, not_or]
  exact ⟨hcolon _, hdot, hcolon _, hdot, hcolon _, hdot, hcolon _⟩

theorem intoaV4_length (n : ℕ) : (intoaV4 n).length ≤ 15 := by
  have hlen := fun n => (intoaByte_digits (n % 256) (Nat.mod_lt n (by decide))).2.2.2
  have h3 := hlen (n / 256 / 256 / 256)
  have h2 := hlen (n / 256 / 256)
  have h1 := hlen (n / 256)
  have h0 := hlen n
  rw [intoaV4_eq]
  simp only [List.length_append, List.length_cons]
  omega

theorem exists_quad {a : Ipv6} (h : isV4Mapped a) : ∃ q : UInt32, a = mapped q := by
  have htake : a.val.take 12 = List.replicate 10 0 ++ [0xff, 0xff] := beq_iff_eq.mp h
  have hlen : (a.val.drop 12).length = 4 := by rw [List.length_drop, a.property]
  rcases hdrop : a.val.drop 12 with _ | ⟨b3, _ | ⟨b2, _ | ⟨b1, _ | ⟨b0, _ | ⟨b, l⟩⟩⟩⟩⟩
  · rw [hdrop] at hlen; cases hlen
  · rw [hdrop] at hlen; cases hlen
  · rw [hdrop] at hlen; cases hlen
  · rw [hdrop] at hlen; cases hlen
  · have h3 := b3.toNat_lt
    have h2 := b2.toNat_lt
    have h1 := b1.toNat_lt
    have h0 := b0.toNat_lt
    have hq : (UInt32.ofNat (b3.toNat * 2 ^ 24 + b2.toNat * 2 ^ 16 + b1.toNat * 2 ^ 8 + b0.toNat)).toNat =
        b3.toNat * 2 ^ 24 + b2.toNat * 2 ^ 16 + b1.toNat * 2 ^ 8 + b0.toNat :=
      UInt32.toNat_ofNat_of_lt' (by show _ < 2 ^ 32; omega)
    have hbyte : ∀ (b : UInt8) (n : ℕ), n % 256 = b.toNat → UInt8.ofNat n = b := fun b n hn => by
      rw [← UInt8.toNat_inj, UInt8.toNat_ofNat', hn]
    refine ⟨UInt32.ofNat (b3.toNat * 2 ^ 24 + b2.toNat * 2 ^ 16 + b1.toNat * 2 ^ 8 + b0.toNat), Subtype.ext ?_⟩
    rw [← List.take_append_drop 12 a.val, htake, hdrop]
    simp only [mapped, hq, List.append_assoc, List.cons_append, List.nil_append]
    rw [hbyte b3 _ (by omega), hbyte b2 _ (by omega), hbyte b1 _ (by omega), hbyte b0 _ (by omega)]
  · rw [hdrop] at hlen
    simp at hlen

theorem texts : text "0.0.0.0" = intoaV4 (0 : UInt32).toNat ∧ (text "::ffff:").length = 7 := by decide

theorem printed_zeros (ntop : Ntop) : printed ntop (.v6 zeros) = intoaV4 (0 : UInt32).toNat := by
  rw [printed, if_pos rfl, texts.1]

theorem printed_mapped {ntop : Ntop} (hn : NtopOk ntop) (q : UInt32) : printed ntop (.v6 (mapped q)) = intoaV4 q.toNat := by
  have hne : mapped q ≠ zeros := fun h => by
    have := congrArg (fun a : Ipv6 => a.val.getD 10 0) h
    exact absurd this (by decide : (0xff : UInt8) ≠ 0)
  have hmapped : isV4Mapped (mapped q) = true := beq_iff_eq.mpr rfl
  rw [printed, if_neg hne, if_pos hmapped, hn.quad, ← texts.2, List.drop_left]

/-- What is printed: the quad of an IPv4-mapped address and of the zeros, the text of any other. -/
theorem printed_v6 {ntop : Ntop} (hn : NtopOk ntop) (a : Ipv6) :
    (∃ q : UInt32, printed ntop (.v6 a) = intoaV4 q.toNat ∧ (a = mapped q ∨ (q = 0 ∧ a = zeros))) ∨
      printed ntop (.v6 a) = ntop a := by
  by_cases hz : a = zeros
  · exact .inl ⟨0, by rw [hz, printed_zeros], .inr ⟨rfl, hz⟩⟩
  · by_cases hm : isV4Mapped a
    · obtain ⟨q, rfl⟩ := exists_quad hm
      exact .inl ⟨q, printed_mapped hn q, .inl rfl⟩
    · exact .inr (by rw [printed, if_neg hz, if_neg hm])

/-- Two addresses print the same only if they are the same, or the zeros and the mapped zeros. -/
theorem printed_v6_eq {ntop : Ntop} (hn : NtopOk ntop) {a b : Ipv6} :
    printed ntop (.v6 a) = printed ntop (.v6 b) ↔
      a = b ∨ (a = zeros ∧ b = mapped 0) ∨ (a = mapped 0 ∧ b = zeros) := by
  have hcolon : ∀ (q : UInt32) (c : Ipv6), intoaV4 q.toNat ≠ ntop c := fun q c h =>
    intoaV4_no_colon q.toNat (h ▸ hn.colon c)
  constructor
  · intro h
    rcases printed_v6 hn a with ⟨q, hq, ha⟩ | ha
    · rcases printed_v6 hn b with ⟨r, hr, hb⟩ | hb
      · rw [hq, hr] at h
        obtain rfl := intoaV4_inj h
        rcases ha with rfl | ⟨rfl, rfl⟩
        · rcases hb with rfl | ⟨rfl, rfl⟩
          · exact .inl rfl
          · exact .inr (.inr ⟨rfl, rfl⟩)
        · rcases hb with rfl | ⟨-, rfl⟩
          · exact .inr (.inl ⟨rfl, rfl⟩)
          · exact .inl rfl
      · rw [hq, hb] at h
        exact absurd h (hcolon q b)
    · rcases printed_v6 hn b with ⟨r, hr, -⟩ | hb
      · rw [ha, hr] at h
        exact absurd h.symm (hcolon r a)
      · rw [ha, hb] at h
        exact .inl (hn.inj h)
  · intro h
    rcases h with rfl | ⟨rfl, rfl⟩ | ⟨rfl, rfl⟩
    · rfl
    · rw [printed_zeros, printed_mapped hn]
    · rw [printed_zeros, printed_mapped hn]

/-! ## What is printed under a mask -/

/-- What the code prints of an IPv6 address. -/
def coded (m : ℕ) (a : Ipv6) : Ipv6 := if min m 128 ≠ 128 then maskIpv6 (min m 128) a else a

theorem coded_getD (m : ℕ) (a : Ipv6) {j : ℕ} (hj : j < 16) : (coded m a).val.getD j 0 =
    if 8 * j < m then a.val.getD j 0 &&& byteMask (m - 8 * j) else a.val.getD j 0 := by
  unfold coded
  split
  · rename_i hm
    rw [Nat.min_eq_left (by omega)]
    exact maskLoop_getD m a.val j
  · rename_i hm
    have hfull : byteMask (m - 8 * j) = 0xff := if_pos (by omega)
    have hall : ∀ b : UInt8, b &&& 0xff = b := fun b => byte_ext fun r hr => by
      rw [show (0xff : UInt8) = byteMask 8 from rfl, and_byteMask_bit b 8 hr, decide_eq_true hr, Bool.true_and]
    rw [if_pos (by omega), hfull, hall]

theorem coded_eq_cut {m : UInt8} {a : Ipv6} : coded m.toNat a = cut m.toNat a ↔ Clean m a := by
  constructor
  · intro h j hj hm
    have hbyte := congrArg (fun x : Ipv6 => x.val.getD j 0) h
    simp only [coded_getD _ _ hj, cut_getD _ _ hj, if_neg (Nat.not_lt.mpr hm)] at hbyte
    exact hbyte
  · intro h
    refine ipv6_ext fun j hj => ?_
    rw [coded_getD _ _ hj, cut_getD _ _ hj]
    split
    · rfl
    · rename_i hm
      exact h j hj (Nat.not_lt.mp hm)

theorem zeros_getD (j : ℕ) : zeros.val.getD j 0 = 0 := by
  by_cases hj : j < 16
  · revert j
    decide
  · rw [List.getD_eq_default _ _ (by show 16 ≤ j; omega)]

theorem bit_zeros (k : ℕ) : bit (.v6 zeros) k = false := by
  rw [bit, zeros_getD]
  exact Nat.zero_testBit _

theorem masked_eq_iff {m : ℕ} {a b : Ipv6} : cut m a = b ↔ ∀ k < 128, bit (.v6 b) k = (decide (k < m) && bit (.v6 a) k) := by
  constructor
  · rintro rfl k hk
    exact (cut_masked m a).2 k hk
  · intro h
    exact IpAddress.v6.inj (Masked.unique (cut_masked m a) ⟨rfl, h⟩)

theorem cut_eq_zeros {m : ℕ} {a : Ipv6} : cut m a = zeros ↔ ∀ k < 128, k < m → bit (.v6 a) k = false := by
  rw [masked_eq_iff]
  refine forall₂_congr fun k _ => ?_
  rw [bit_zeros]
  by_cases hk : k < m
  · rw [decide_eq_true hk, Bool.true_and]
    exact ⟨fun h _ => h.symm, fun h => (h hk).symm⟩
  · rw [decide_eq_false hk, Bool.false_and]
    exact ⟨fun _ h => absurd h hk, fun _ => rfl⟩

/-- Of each byte the code prints, the mask keeps it or makes it zero. -/
theorem cut_getD_coded (m : ℕ) (a : Ipv6) {j : ℕ} (hj : j < 16) :
    (cut m a).val.getD j 0 = if 8 * j < m then (coded m a).val.getD j 0 else 0 := by
  rw [cut_getD m a hj, coded_getD m a hj]
  split
  · rfl
  · rfl

theorem cut_of_coded_zeros {m : ℕ} {a : Ipv6} (h : coded m a = zeros) : cut m a = zeros := by
  refine ipv6_ext fun j hj => ?_
  rw [cut_getD_coded m a hj, h, zeros_getD, ite_self]

theorem mapped_tail_iff {m : UInt8} {a : Ipv6} :
    coded m.toNat a = mapped 0 ∧ cut m.toNat a = zeros ↔ MappedTail m a := by
  constructor
  · rintro ⟨hcoded, hcut⟩
    refine ⟨?_, cut_eq_zeros.mp hcut, fun j hj hm => ?_⟩
    · by_contra hm
      have h10 := cut_getD_coded m.toNat a (by decide : 10 < 16)
      rw [hcut, hcoded, if_pos (by omega)] at h10
      exact absurd h10 (by decide)
    · have hbyte := coded_getD m.toNat a hj
      rw [hcoded, if_neg (by omega)] at hbyte
      exact hbyte.symm
  · rintro ⟨hm, hbits, htail⟩
    have hcut := cut_eq_zeros.mpr hbits
    refine ⟨ipv6_ext fun j hj => ?_, hcut⟩
    by_cases hj' : 8 * j < m.toNat
    · have hbyte := cut_getD_coded m.toNat a hj
      rw [hcut, if_pos hj', zeros_getD] at hbyte
      have hlow : ∀ j < 10, (mapped 0).val.getD j 0 = 0 := by decide
      rw [← hbyte, hlow j (by omega)]
    · rw [coded_getD m.toNat a hj, if_neg hj']
      exact htail j hj (by omega)

section Laws

variable {ntop : Ntop} {bufLen : ℕ}

theorem intoa_v6 (hn : NtopOk ntop) (hb : 46 ≤ bufLen) (m : UInt8) (a : Ipv6) :
    intoa ntop (.v6 a) bufLen m = some (printed ntop (.v6 (coded m.toNat a))) := by
  have hlen := hn.length (coded m.toNat a)
  show some (intoaV6 ntop (coded m.toNat a) bufLen) = _
  rw [intoaV6, if_pos (by omega)]
  rfl

theorem intoa_v4 (hb : 46 ≤ bufLen) (m : UInt8) (a : UInt32) :
    intoa ntop (.v4 a) bufLen m = some (printed ntop (.v4 (maskIpv4 (min m.toNat 32) a))) := by
  have hlen := intoaV4_length (maskIpv4 (min m.toNat 32) a).toNat
  show intoaV4Buf _ _ = _
  rw [intoaV4Buf, if_pos (by omega)]
  rfl

theorem prints_v6_iff (hn : NtopOk ntop) (hb : 46 ≤ bufLen) (m : UInt8) (a : Ipv6) :
    Prints ntop bufLen m (.v6 a) ↔ Told m a := by
  have hsame : Prints ntop bufLen m (.v6 a) ↔ printed ntop (.v6 (coded m.toNat a)) = printed ntop (.v6 (cut m.toNat a)) := by
    rw [Prints, intoa_v6 hn hb]
    constructor
    · rintro ⟨x, hx, htext⟩
      rw [(cut_masked m.toNat a).unique hx]
      exact Option.some_inj.mp htext
    · intro h
      exact ⟨_, cut_masked m.toNat a, congrArg some h⟩
  rw [hsame, printed_v6_eq hn, Told, ← coded_eq_cut, ← mapped_tail_iff]
  constructor
  · intro h
    rcases h with h | ⟨hz, hm⟩ | h
    · exact .inl h
    · rw [cut_of_coded_zeros hz] at hm
      exact absurd hm (by decide)
    · exact .inr h
  · intro h
    exact h.imp_right .inr

theorem prints_v4 (hb : 46 ≤ bufLen) (m : UInt8) (a : UInt32) : Prints ntop bufLen m (.v4 a) :=
  ⟨_, maskIpv4_masked m.toNat a, intoa_v4 hb m a⟩

theorem right_v4 (hb : 46 ≤ bufLen) (m : UInt8) (a b : UInt32) : Right ntop bufLen m (.v4 a) (.v4 b) := by
  refine ⟨prints_v4 hb m a, prints_v4 hb m b, ?_⟩
  rw [intoa_v4 hb, intoa_v4 hb]
  have ha := maskIpv4_masked m.toNat a
  have hb := maskIpv4_masked m.toNat b
  constructor
  · intro h k hk hm
    have heq := intoaV4_inj (Option.some_inj.mp h)
    have h1 := ha.2 k hk
    have h2 := hb.2 k hk
    rw [heq, decide_eq_true hm, Bool.true_and] at h1
    rw [decide_eq_true hm, Bool.true_and] at h2
    exact h1.symm.trans h2
  · intro h
    have heq : IpAddress.v4 (maskIpv4 (min m.toNat 32) a) = .v4 (maskIpv4 (min m.toNat 32) b) := by
      refine ha.unique ⟨rfl, fun k hk => ?_⟩
      rw [hb.2 k hk]
      by_cases hm : k < m.toNat
      · rw [h k hk hm]
      · rw [decide_eq_false hm, Bool.false_and, Bool.false_and]
    rw [heq]

theorem cut_eq_cut {m : ℕ} {x y : Ipv6} : cut m x = cut m y ↔ ∀ k < 128, k < m → bit (.v6 x) k = bit (.v6 y) k := by
  rw [masked_eq_iff]
  refine forall₂_congr fun k hk => ?_
  rw [(cut_masked m y).2 k hk]
  by_cases hm : k < m
  · rw [decide_eq_true hm, Bool.true_and, Bool.true_and]
    exact ⟨fun h _ => h.symm, fun h => (h hm).symm⟩
  · rw [decide_eq_false hm, Bool.false_and, Bool.false_and]
    exact ⟨fun _ h => absurd h hm, fun _ => rfl⟩

theorem right_v6_iff (hn : NtopOk ntop) (hb : 46 ≤ bufLen) (m : UInt8) (x y : Ipv6) :
    Right ntop bufLen m (.v6 x) (.v6 y) ↔ Told m x ∧ Told m y ∧ ¬ Cross m x y ∧ ¬ Cross m y x := by
  rw [Right, prints_v6_iff hn hb, prints_v6_iff hn hb]
  refine and_congr_right fun hx => and_congr_right fun hy => ?_
  have htext : ∀ z, Told m z → intoa ntop (.v6 z) bufLen m = some (printed ntop (.v6 (cut m.toNat z))) := by
    intro z hz
    obtain ⟨z', hz', h⟩ := (prints_v6_iff hn hb m z).mpr hz
    rw [h, (cut_masked m.toNat z).unique hz']
  have hcross : ∀ z w : Ipv6, cut m.toNat z = zeros ∧ cut m.toNat w = mapped 0 ↔ Cross m z w := fun z w =>
    and_congr cut_eq_zeros masked_eq_iff
  have hagree : (∀ k < width (.v6 x), k < m.toNat → bit (.v6 x) k = bit (.v6 y) k) ↔ cut m.toNat x = cut m.toNat y :=
    cut_eq_cut.symm
  rw [htext x hx, htext y hy, Option.some_inj, printed_v6_eq hn, hagree, ← hcross, ← hcross]
  have hne : zeros ≠ mapped 0 := by decide
  constructor
  · intro h
    refine ⟨fun hc => ?_, fun hc => ?_⟩
    · have := h.mp (.inr (.inl hc))
      rw [hc.1, hc.2] at this
      exact hne this
    · have := h.mp (.inr (.inr ⟨hc.2, hc.1⟩))
      rw [hc.1, hc.2] at this
      exact hne this.symm
  · intro h
    refine ⟨fun hprint => ?_, .inl⟩
    rcases hprint with h' | h' | h'
    · exact h'
    · exact absurd h' h.1
    · exact absurd ⟨h'.2, h'.1⟩ h.2

end Laws

/-- Of IPv4 addresses the mask is printed; of IPv6 addresses exactly if the bytes behind it print as zeros, and the
    two are not told for one another as the zeros and `::ffff:0.0.0.0` are. -/
theorem intoa_law (ntop : Ntop) (hn : NtopOk ntop) (bufLen : ℕ) (hb : 46 ≤ bufLen) (a b : UInt32) (x y : Ipv6) (m : UInt8) :
    Right ntop bufLen m (.v4 a) (.v4 b) ∧
      (Right ntop bufLen m (.v6 x) (.v6 y) ↔ Told m x ∧ Told m y ∧ ¬ Cross m x y ∧ ¬ Cross m y x) :=
  ⟨right_v4 hb m a b, right_v6_iff hn hb m x y⟩

/-! ## An `inet_ntop` -/

def hexText (b : UInt8) : List UInt8 := [hexDigit (b >>> 4), hexDigit (b &&& 15)]

/-- Groups of two bytes. -/
def groups : List UInt8 → List UInt8
  | b :: c :: d :: l => hexText b ++ hexText c ++ ch ':' :: groups (d :: l)
  | l => l.flatMap hexText

/-- All eight groups, or the quad behind `::ffff:`. Groups are not shortened. -/
def fullNtop (a : Ipv6) : List UInt8 :=
  if isV4Mapped a then
    text "::ffff:" ++ intoaV4 ((a.val.drop 12).foldl (fun n b => n * 256 + b.toNat) 0)
  else groups a.val

theorem hexText_inj {b c : UInt8} (h : hexText b = hexText c) : b = c := by
  have hb := (strtoul16_digits b).1
  rw [show [hexDigit (b >>> 4), hexDigit (b &&& 15)] = [hexDigit (c >>> 4), hexDigit (c &&& 15)] from h] at hb
  exact hb.symm.trans (strtoul16_digits c).1

theorem hexDigit_ne_colon : ∀ b : UInt8, hexDigit (b >>> 4) ≠ ch ':' := forall_byte (by decide)

theorem groups_inj {l : List UInt8} : ∀ {l' : List UInt8}, l.length = l'.length → groups l = groups l' → l = l' := by
  have hpair : ∀ {b c : UInt8} {r r' : List UInt8}, hexText b ++ r = hexText c ++ r' → b = c ∧ r = r' := fun h => by
    obtain ⟨h1, h2⟩ := List.append_inj h rfl
    exact ⟨hexText_inj h1, h2⟩
  induction l using groups.induct with
  | case1 b c d l ih =>
    intro l' hlen h
    rcases l' with _ | ⟨b', _ | ⟨c', _ | ⟨d', l'⟩⟩⟩
    · cases hlen
    · cases hlen
    · cases hlen
    · rw [groups, groups, List.append_assoc, List.append_assoc] at h
      obtain ⟨hb, h⟩ := hpair h
      obtain ⟨hc, h⟩ := hpair h
      rw [hb, hc, ih (by simpa using hlen) (List.cons_eq_cons.mp h).2]
  | case2 l hshort =>
    intro l' hlen h
    rcases l with _ | ⟨b, _ | ⟨c, _ | ⟨d, l⟩⟩⟩
    · exact (List.length_eq_zero_iff.mp hlen.symm).symm
    · obtain ⟨b', rfl⟩ := List.length_eq_one_iff.mp hlen.symm
      rw [(hpair h).1]
    · obtain ⟨b', c', rfl⟩ := List.length_eq_two.mp hlen.symm
      obtain ⟨hb, h⟩ := hpair h
      rw [hb, (hpair h).1]
    · exact absurd rfl (hshort b c d l)

theorem groups_length (l : List UInt8) : 2 * (groups l).length ≤ 5 * l.length := by
  have hhex : ∀ b, (hexText b).length = 2 := fun _ => rfl
  induction l using groups.induct with
  | case1 b c d l ih =>
    rw [groups]
    simp only [List.length_append, List.length_cons, hhex] at ih ⊢
    omega
  | case2 l hshort =>
    rcases l with _ | ⟨b, _ | ⟨c, _ | ⟨d, l⟩⟩⟩
    · exact Nat.le_refl 0
    · exact (by decide : 4 ≤ 5)
    · exact (by decide : 8 ≤ 10)
    · exact absurd rfl (hshort b c d l)

theorem fullNtop_mapped (q : UInt32) : fullNtop (mapped q) = text "::ffff:" ++ intoaV4 q.toNat := by
  have hq := q.toNat_lt
  have hmapped : isV4Mapped (mapped q) = true := beq_iff_eq.mpr rfl
  have hvalue : ((mapped q).val.drop 12).foldl (fun n b => n * 256 + b.toNat) 0 = q.toNat := by
    show (((0 * 256 + (UInt8.ofNat (q.toNat / 2 ^ 24)).toNat) * 256 + (UInt8.ofNat (q.toNat / 2 ^ 16)).toNat) * 256 +
      (UInt8.ofNat (q.toNat / 2 ^ 8)).toNat) * 256 + (UInt8.ofNat q.toNat).toNat = q.toNat
    simp only [UInt8.toNat_ofNat']
    omega
  rw [fullNtop, if_pos hmapped, hvalue]

theorem fullNtop_cases (a : Ipv6) : (∃ q, a = mapped q) ∨ fullNtop a = groups a.val := by
  by_cases h : isV4Mapped a
  · exact .inl (exists_quad h)
  · exact .inr (if_neg h)

/-- Where the bytes of an address are, there are three of them. -/
theorem exists_bytes (a : Ipv6) : ∃ b c d l, a.val = b :: c :: d :: l := by
  rcases h : a.val with _ | ⟨b, _ | ⟨c, _ | ⟨d, l⟩⟩⟩
  · exact absurd a.property (by rw [h]; exact (by decide : ¬ 0 = 16))
  · exact absurd a.property (by rw [h]; exact (by decide : ¬ 1 = 16))
  · exact absurd a.property (by rw [h]; exact (by decide : ¬ 2 = 16))
  · exact ⟨b, c, d, l, rfl⟩

theorem fullNtop_ok : NtopOk fullNtop := by
  have hcolon : (text "::ffff:").head? = some (ch ':') := by decide
  have hmixed : ∀ (q : UInt32) (a : Ipv6), fullNtop (mapped q) ≠ groups a.val := fun q a h => by
    obtain ⟨b, c, d, l, ha⟩ := exists_bytes a
    rw [fullNtop_mapped, ha, groups] at h
    have hhead := congrArg List.head? h
    rw [List.head?_append, hcolon] at hhead
    exact hexDigit_ne_colon b (Option.some_inj.mp hhead).symm
  refine ⟨fun a b h => ?_, fun a => ?_, fun a => ?_, fullNtop_mapped⟩
  · rcases fullNtop_cases a with ⟨q, rfl⟩ | ha
    · rcases fullNtop_cases b with ⟨r, rfl⟩ | hb
      · rw [fullNtop_mapped, fullNtop_mapped] at h
        rw [intoaV4_inj (List.append_cancel_left h)]
      · exact absurd (h.trans hb) (hmixed q b)
    · rcases fullNtop_cases b with ⟨r, rfl⟩ | hb
      · exact absurd (h.symm.trans ha) (hmixed r a)
      · rw [ha, hb] at h
        exact Subtype.ext (groups_inj (a.property.trans b.property.symm) h)
  · rcases fullNtop_cases a with ⟨q, rfl⟩ | ha
    · rw [fullNtop_mapped]
      exact List.mem_append_left _ (List.mem_of_mem_head? hcolon)
    · obtain ⟨b, c, d, l, hbytes⟩ := exists_bytes a
      rw [ha, hbytes, groups]
      exact List.mem_append_right _ (List.mem_cons_self ..)
  · rcases fullNtop_cases a with ⟨q, rfl⟩ | ha
    · have := intoaV4_length q.toNat
      rw [fullNtop_mapped, List.length_append, texts.2]
      omega
    · have := groups_length a.val
      rw [a.property] at this
      rw [ha]
      omega

/-- 2001:1111:2222:3333:4444:5555:6666:7777, and the same but for the last digit. -/
def someIpv6 : Ipv6 :=
  ⟨[0x20, 0x01, 0x11, 0x11, 0x22, 0x22, 0x33, 0x33, 0x44, 0x44, 0x55, 0x55, 0x66, 0x66, 0x77, 0x77], rfl⟩

def otherIpv6 : Ipv6 :=
  ⟨[0x20, 0x01, 0x11, 0x11, 0x22, 0x22, 0x33, 0x33, 0x44, 0x44, 0x55, 0x55, 0x66, 0x66, 0x77, 0x76], rfl⟩

/-- 192.168.1.10 and 192.168.1.11, and the two IPv6 addresses in full. -/
theorem intoa_law_full : Right fullNtop 64 128 (.v4 0xC0A8010A) (.v4 0xC0A8010B) ∧
    Right fullNtop 64 128 (.v6 someIpv6) (.v6 otherIpv6) := by
  have h := intoa_law fullNtop fullNtop_ok 64 (by decide) 0xC0A8010A 0xC0A8010B someIpv6 otherIpv6 128
  exact ⟨h.1, h.2.mpr (by decide)⟩

/-- Whatever `inet_ntop` writes: 2001:1111:2222:3333::/64 is not what is printed of the first. -/
theorem host_bits_left : ¬ ∃ ntop, NtopOk ntop ∧ ∀ bufLen, 46 ≤ bufLen → ∀ m x, Prints ntop bufLen m x := by
  rintro ⟨ntop, hn, hall⟩
  have h := (prints_v6_iff hn (le_refl 46) 64 someIpv6).mp (hall 46 (le_refl 46) 64 (.v6 someIpv6))
  revert h
  decide

end Ntopng.Hosts.Intoa
