/-
  Ntopng.Alerts.BitmapHex — `Bitmap<N>::toHexString` (src/include/Bitmap.h).

  The words are written from the last one down, sixteen digits each, and then the zeros that the
  text starts with are taken away, two by two. The words are counted in an `int`, so of a number
  of words that no `int` holds the last ones are left out; the characters are counted in an
  `u_int`, which past 2^32 zeros comes round to 0: a loop without an end. `none` is that, or a
  write past the buffer.

  Proved: `denotes_iff`: the text in the buffer is the set as a hexadecimal number just if the
  words that are written hold all members, and there are not 2^32 zeros to take away
  (`Printable`). Below 2^28 words both are so.
-/

import Ntopng.Alerts.Bitmap
import Ntopng.Text.Hex

namespace Ntopng.Alerts.BitmapSet

open Ntopng.Lib.CString Ntopng.Lib.CNumber Ntopng.Lib.Run Ntopng.Text.Hex

variable {N : ℕ}

/-- The low `n` digits of a number: `%016lX` writes 16. -/
def hexDigits : (n : ℕ) → (v : ℕ) → List UInt8
  | 0, _ => []
  | n + 1, v => hexDigits n (v / 16) ++ [hexDigit (UInt8.ofNat (v % 16))]

/-- `snprintf` into what remains of the buffer. -/
def snprintf (buf : Mem) (ptr remaining : ℕ) (s : List UInt8) : Option Mem :=
  if remaining = 0 then some buf else storeAll buf ptr (s.take (remaining - 1) ++ [0])

/-- The loop over the words below `n`. -/
def wordsLoop (b : Words N) : (n : ℕ) → (buf : Mem) → (ptr remaining : ℕ) → Option Mem
  | 0, buf, _, _ => some buf
  | i + 1, buf, ptr, remaining =>
    (snprintf buf ptr remaining (hexDigits 16 (getBits64 b i).toNat)).bind fun buf =>
      if 16 ≥ remaining then some buf else wordsLoop b i buf (ptr + 16) (remaining - 16)

/-- The number of words from `int i = N - 1` down. -/
def wordCount (N : ℕ) : ℕ := (Int.bmod ((N : ℤ) - 1) (2 ^ 32) + 1).toNat

/-- `%02hhX` -/
def curByte (s : List UInt8) (pos : ℕ) : UInt8 := Text.Hex.digits 0 ((s.drop pos).take 2)

/-- The characters to take away, `shifts`, are as many as the position: both are a `u_int` that
    goes up by 2. The loop has come round to position 0 after 2^31 rounds. -/
def zerosLoop (s : List UInt8) : (rounds : ℕ) → (pos : ℕ) → Option ℕ
  | 0, _ => none
  | rounds + 1, pos =>
    if (pos + 2) % 2 ^ 32 < s.length then
      if curByte s pos > 0 then some pos else zerosLoop s rounds (pos + 2)
    else some pos

def toHexString (b : Words N) (buf : Mem) : Option Mem :=
  (if buf.length > 0 then store buf 0 0 else some buf).bind fun buf =>
    (wordsLoop b (wordCount N) buf 0 buf.length).bind fun buf =>
      (cstr buf 0).bind fun s =>
        (zerosLoop s (2 ^ 31) 0).map fun shifts =>
          if shifts > 0 then buf.drop shifts ++ buf.drop (buf.length - shifts) else buf

/-! ## What a text denotes -/

def digitValue (c : UInt8) : ℕ := ((hexValue c).getD 0).toNat

def hexNumber (s : List UInt8) : ℕ := s.foldl (fun v c => v * 16 + digitValue c) 0

/-- The buffer holds the set, as a hexadecimal number. -/
def Denotes (b : Words N) (buf : Mem) : Prop :=
  ∃ buf' t, toHexString b buf = some buf' ∧ cstr buf' 0 = some t ∧ (∀ c ∈ t, (hexValue c).isSome) ∧
    ∀ n, (hexNumber t).testBit n = true ↔ n ∈ members b

def Printable (N : ℕ) (s : Finset ℕ) : Prop :=
  (∀ m ∈ s, m < 64 * wordCount N) ∧ (64 * wordCount N < 2 ^ 34 ∨ ∃ m ∈ s, 64 * wordCount N ≤ m + 2 ^ 34)

theorem printable_of_lt (h : N < 2 ^ 28) (b : Words N) : Printable N (members b) := by
  have hcount : wordCount N = N := by
    rw [wordCount, Int.bmod_eq_of_le (by omega) (by omega)]
    omega
  rw [Printable, hcount]
  exact ⟨fun m hm => members_lt hm, .inl (by omega)⟩

/-! ## Numbers of digits -/

theorem hexNumber_snoc (s : List UInt8) (c : UInt8) : hexNumber (s ++ [c]) = hexNumber s * 16 + digitValue c := by
  rw [hexNumber, List.foldl_append]
  rfl

theorem hexNumber_append (a r : List UInt8) : hexNumber (a ++ r) = hexNumber a * 16 ^ r.length + hexNumber r := by
  induction r using List.reverseRecOn with
  | nil => simp [hexNumber]
  | append_singleton r c ih =>
    rw [← List.append_assoc, hexNumber_snoc, ih, hexNumber_snoc, List.length_append, List.length_singleton, pow_succ]
    ring

theorem digitValue_lt (c : UInt8) : digitValue c < 16 := by
  have all : ∀ c, digitValue c < 16 := forall_byte (by decide)
  exact all c

theorem hexNumber_singleton (c : UInt8) : hexNumber [c] = digitValue c := by
  show 0 * 16 + digitValue c = digitValue c
  omega

theorem hexNumber_lt (s : List UInt8) : hexNumber s < 16 ^ s.length := by
  induction s using List.reverseRecOn with
  | nil => exact Nat.one_pos
  | append_singleton s c ih =>
    have := digitValue_lt c
    rw [hexNumber_append, hexNumber_singleton, List.length_append, List.length_singleton, pow_succ]
    omega

/-- The digits `hexDigit` writes. -/
theorem hexDigit_spec {n : ℕ} (h : n < 16) :
    digitValue (hexDigit (UInt8.ofNat n)) = n ∧ (hexValue (hexDigit (UInt8.ofNat n))).isSome ∧ hexDigit (UInt8.ofNat n) ≠ 0 := by
  revert n
  decide

theorem length_hexDigits (n v : ℕ) : (hexDigits n v).length = n := by
  induction n generalizing v with
  | zero => rfl
  | succ n ih => rw [hexDigits, List.length_append, ih, List.length_singleton]

theorem hexNumber_hexDigits (n v : ℕ) : hexNumber (hexDigits n v) = v % 16 ^ n := by
  induction n generalizing v with
  | zero => rw [pow_zero, Nat.mod_one]; rfl
  | succ n ih =>
    have hd := (hexDigit_spec (Nat.mod_lt v (show 16 > 0 by decide))).1
    rw [hexDigits, hexNumber_append, ih, hexNumber_singleton, hd, List.length_singleton, pow_one, pow_succ, Nat.mul_comm (16 ^ n),
      Nat.mod_mul, Nat.mul_comm]
    omega

theorem mem_hexDigits {n v : ℕ} {c : UInt8} (h : c ∈ hexDigits n v) : (hexValue c).isSome ∧ c ≠ 0 := by
  induction n generalizing v with
  | zero => cases h
  | succ n ih =>
    rw [hexDigits, List.mem_append, List.mem_singleton] at h
    rcases h with h | rfl
    · exact ih h
    · exact (hexDigit_spec (Nat.mod_lt v (by decide))).2

/-! ## The words -/

/-- The text of the words below `n`. -/
def wordsText (b : Words N) : (n : ℕ) → List UInt8
  | 0 => []
  | i + 1 => hexDigits 16 (getBits64 b i).toNat ++ wordsText b i

theorem length_wordsText (b : Words N) (n : ℕ) : (wordsText b n).length = 16 * n := by
  induction n with
  | zero => rfl
  | succ n ih =>
    rw [wordsText, List.length_append, length_hexDigits, ih]
    omega

theorem mem_wordsText {b : Words N} {n : ℕ} {c : UInt8} (h : c ∈ wordsText b n) : (hexValue c).isSome ∧ c ≠ 0 := by
  induction n with
  | zero => cases h
  | succ n ih =>
    rw [wordsText, List.mem_append] at h
    rcases h with h | h
    · exact mem_hexDigits h
    · exact ih h

theorem testBit_wordsText (b : Words N) (n k : ℕ) :
    (hexNumber (wordsText b n)).testBit k = true ↔ k < 64 * n ∧ k ∈ members b := by
  induction n with
  | zero =>
    refine iff_of_false ?_ (by omega)
    rw [wordsText, hexNumber, List.foldl_nil, Nat.zero_testBit]
    simp
  | succ n ih =>
    have hlow := hexNumber_lt (wordsText b n)
    rw [length_wordsText, pow_mul, show 16 ^ 16 = 2 ^ 64 by decide, ← pow_mul] at hlow
    rw [wordsText, hexNumber_append, hexNumber_hexDigits, length_wordsText, pow_mul, show 16 ^ 16 = 2 ^ 64 by decide, ← pow_mul,
      Nat.mod_eq_of_lt (BitVec.isLt _), Nat.mul_comm, Nat.testBit_two_pow_mul_add _ hlow]
    split
    · rename_i hk
      rw [ih]
      exact and_congr_left fun _ => iff_of_true hk (by omega)
    · rename_i hk
      rw [mem_members]
      show (getBits64 b n).getLsbD (k - 64 * n) = true ↔ _
      constructor
      · intro h
        have hlt := BitVec.lt_of_getLsbD h
        rw [show k / 64 = n by omega, show k % 64 = k - 64 * n by omega]
        exact ⟨by omega, h⟩
      · rintro ⟨hlt, h⟩
        rwa [show k / 64 = n by omega, show k % 64 = k - 64 * n by omega] at h

/-- The loop writes behind what is there, and keeps the NUL behind it. -/
theorem wordsLoop_eq (b : Words N) {n : ℕ} (a r : Mem) {ptr remaining : ℕ} (hptr : ptr = a.length)
    (hlen : remaining = r.length + 1) (hfit : 16 * n ≤ r.length) :
    ∃ r', wordsLoop b n (a ++ 0 :: r) ptr remaining = some (a ++ wordsText b n ++ 0 :: r') ∧
      r'.length + 16 * n = r.length := by
  induction n generalizing a r ptr remaining with
  | zero => exact ⟨r, by rw [wordsLoop, wordsText, List.append_nil], rfl⟩
  | succ n ih =>
    have hdigits := length_hexDigits 16 (getBits64 b n).toNat
    have hwrite : snprintf (a ++ 0 :: r) ptr remaining (hexDigits 16 (getBits64 b n).toNat) =
        some ((a ++ hexDigits 16 (getBits64 b n).toNat) ++ 0 :: r.drop 16) := by
      rw [snprintf, if_neg (by omega), List.take_of_length_le (by omega),
        storeAll_at hptr (by rw [List.length_append, hdigits, List.length_singleton, List.length_cons]; omega),
        List.length_append, hdigits, List.length_singleton, List.drop_succ_cons]
      simp
    have hptr' : ptr + 16 = (a ++ hexDigits 16 (getBits64 b n).toNat).length := by rw [List.length_append, hdigits, hptr]
    have hlen' : remaining - 16 = (r.drop 16).length + 1 := by
      rw [List.length_drop]
      omega
    obtain ⟨r', hloop, hr'⟩ := ih _ (r.drop 16) hptr' hlen' (by rw [List.length_drop]; omega)
    refine ⟨r', ?_, ?_⟩
    · rw [wordsLoop, hwrite, Option.bind_some, if_neg (by omega), hloop, wordsText, ← List.append_assoc a]
    · rw [List.length_drop] at hr'
      omega

/-! ## The zeros -/

section Zeros

variable {s : List UInt8}

theorem curByte_eq_zero {c d : UInt8} (hc : (hexValue c).isSome) (hd : (hexValue d).isSome) :
    Text.Hex.digits 0 [c, d] = 0 ↔ hexNumber [c, d] = 0 := by
  have hc16 := digitValue_lt c
  have hd16 := digitValue_lt d
  obtain ⟨x, hx⟩ := Option.isSome_iff_exists.mp hc
  obtain ⟨y, hy⟩ := Option.isSome_iff_exists.mp hd
  have hxv : digitValue c = x.toNat := by rw [digitValue, hx]; rfl
  have hyv : digitValue d = y.toNat := by rw [digitValue, hy]; rfl
  have hread : Text.Hex.digits 0 [c, d] = (0 * 16 + x) * 16 + y := by simp only [Text.Hex.digits, hx, hy]
  have hnumber : hexNumber [c, d] = (0 * 16 + x.toNat) * 16 + y.toNat := by rw [← hxv, ← hyv]; rfl
  have hnat : ((0 * 16 + x) * 16 + y).toNat = x.toNat * 16 + y.toNat := by
    simp only [UInt8.toNat_add, UInt8.toNat_mul, show (0 : UInt8).toNat = 0 from rfl, show (16 : UInt8).toNat = 16 from rfl]
    omega
  rw [hread, hnumber, ← UInt8.toNat_inj, hnat, show (0 : UInt8).toNat = 0 from rfl]
  omega

theorem take_two {pos : ℕ} (hpos : pos + 2 ≤ s.length) : ∃ c d, (s.drop pos).take 2 = [c, d] := by
  refine ⟨s[pos], s[pos + 1], ?_⟩
  rw [List.drop_eq_getElem_cons (by omega), List.take_succ_cons, List.drop_eq_getElem_cons (by omega), List.take_succ_cons,
    List.take_zero]

theorem curByte_zero_iff (hs : ∀ c ∈ s, (hexValue c).isSome) {pos : ℕ} (hpos : pos + 2 ≤ s.length)
    (h : hexNumber (s.take pos) = 0) : curByte s pos = 0 ↔ hexNumber (s.take (pos + 2)) = 0 := by
  obtain ⟨c, d, hcd⟩ := take_two hpos
  have hmem : ∀ x ∈ [c, d], x ∈ s := fun x hx => List.mem_of_mem_drop (List.mem_of_mem_take (hcd ▸ hx))
  rw [List.take_add, hexNumber_append, h, Nat.zero_mul, Nat.zero_add, curByte, hcd,
    curByte_eq_zero (hs c (hmem c (by simp))) (hs d (hmem d (by simp)))]

theorem hexNumber_take_mono {p q : ℕ} (hpq : p ≤ q) (h : hexNumber (s.take q) = 0) : hexNumber (s.take p) = 0 := by
  obtain ⟨d, rfl⟩ := Nat.exists_eq_add_of_le hpq
  rw [List.take_add, hexNumber_append] at h
  have hz : hexNumber (s.take p) * 16 ^ ((s.drop p).take d).length = 0 := by omega
  rcases Nat.mul_eq_zero.mp hz with hz | hz
  · exact hz
  · exact absurd hz (by positivity)

/-- 2^32 zeros, with which the loop comes round. -/
def Endless (s : List UInt8) : Prop := 2 ^ 32 ≤ s.length ∧ hexNumber (s.take (2 ^ 32)) = 0

theorem zerosLoop_cases (hs : ∀ c ∈ s, (hexValue c).isSome) (heven : s.length % 2 = 0) {rounds k : ℕ}
    (hround : rounds + k = 2 ^ 31) (hk : 2 * k ≤ s.length) (hlt : rounds ≠ 0 → 2 * k < s.length ∨ s.length = 0)
    (h : hexNumber (s.take (2 * k)) = 0) :
    (zerosLoop s rounds (2 * k) = none ∧ Endless s) ∨
      ∃ p ≤ s.length, zerosLoop s rounds (2 * k) = some p ∧ hexNumber (s.take p) = 0 ∧ ¬ Endless s := by
  induction rounds generalizing k with
  | zero =>
    have hk' : 2 * k = 2 ^ 32 := by omega
    rw [hk'] at hk h ⊢
    exact .inl ⟨rfl, hk, h⟩
  | succ rounds ih =>
    have hlt' := hlt (Nat.succ_ne_zero rounds)
    rw [zerosLoop]
    by_cases hmore : (2 * k + 2) % 2 ^ 32 < s.length
    · rw [if_pos hmore]
      have hpos : 2 * k + 2 ≤ s.length := by omega
      have hbyte := curByte_zero_iff hs hpos h
      by_cases hzero : curByte s (2 * k) = 0
      · rw [if_neg (by rw [hzero]; exact fun h => by cases h)]
        refine ih (k := k + 1) (by omega) (by omega) (fun hr => ?_) (hbyte.mp hzero)
        have hsmall : (2 * k + 2) % 2 ^ 32 = 2 * k + 2 := Nat.mod_eq_of_lt (by omega)
        omega
      · rw [if_pos (UInt8.pos_iff_ne_zero.mpr hzero)]
        refine .inr ⟨2 * k, hk, rfl, h, fun hend => hzero (hbyte.mpr ?_)⟩
        exact hexNumber_take_mono (by omega) hend.2
    · rw [if_neg hmore]
      refine .inr ⟨2 * k, hk, rfl, h, fun hend => ?_⟩
      have := hend.1
      omega

end Zeros

/-! ## The text -/

theorem wordCount_le (N : ℕ) : wordCount N ≤ N := by
  have hle : Int.bmod ((N : ℤ) - 1) (2 ^ 32) ≤ max ((N : ℤ) - 1) (-1) := by
    rw [Int.bmod]
    split <;> omega
  rw [wordCount]
  omega

theorem endless_wordsText (b : Words N) : Endless (wordsText b (wordCount N)) ↔
    2 ^ 34 ≤ 64 * wordCount N ∧ ∀ m ∈ members b, m < 64 * wordCount N → m + 2 ^ 34 < 64 * wordCount N := by
  have hlen := length_wordsText b (wordCount N)
  rw [Endless, hlen]
  have hsplit := hexNumber_append ((wordsText b (wordCount N)).take (2 ^ 32)) ((wordsText b (wordCount N)).drop (2 ^ 32))
  rw [List.take_append_drop, List.length_drop, hlen] at hsplit
  have hpow : 2 ^ 32 ≤ 16 * wordCount N → 16 ^ (16 * wordCount N - 2 ^ 32) = 2 ^ (64 * wordCount N - 2 ^ 34) := fun hle => by
    have hexp : 4 * (16 * wordCount N - 2 ^ 32) = 64 * wordCount N - 2 ^ 34 := by omega
    rw [← hexp, pow_mul, show 2 ^ 4 = 16 from rfl]
  constructor
  · rintro ⟨hle, hzero⟩
    refine ⟨by omega, fun m hm hlt => ?_⟩
    have hrest := hexNumber_lt ((wordsText b (wordCount N)).drop (2 ^ 32))
    rw [List.length_drop, hlen, hpow hle] at hrest
    rw [hzero, Nat.zero_mul, Nat.zero_add] at hsplit
    have hbit := (testBit_wordsText b (wordCount N) m).mpr ⟨hlt, hm⟩
    by_contra hm34
    have hle2 : 2 ^ (64 * wordCount N - 2 ^ 34) ≤ 2 ^ m := Nat.pow_le_pow_right (by decide) (by omega)
    rw [hsplit, Nat.testBit_lt_two_pow (lt_of_lt_of_le hrest hle2)] at hbit
    cases hbit
  · rintro ⟨hle, hbits⟩
    refine ⟨by omega, ?_⟩
    by_contra hzero
    rw [hpow (by omega)] at hsplit
    have hge : hexNumber (wordsText b (wordCount N)) ≥ 2 ^ (64 * wordCount N - 2 ^ 34) := by
      rw [hsplit]
      exact Nat.le_add_right_of_le (Nat.le_mul_of_pos_left _ (Nat.pos_of_ne_zero hzero))
    obtain ⟨m, hm, hbit⟩ := Nat.exists_ge_and_testBit_of_ge_two_pow hge
    obtain ⟨hlt, hmem⟩ := (testBit_wordsText b (wordCount N) m).mp hbit
    have := hbits m hmem hlt
    omega

theorem denotes_iff (b : Words N) {buf : Mem} (hlarge : 16 * N + 1 ≤ buf.length) :
    Denotes b buf ↔ Printable N (members b) := by
  have hcount := wordCount_le N
  obtain ⟨c, r, rfl⟩ := List.exists_cons_of_length_pos (show 0 < buf.length by omega)
  rw [List.length_cons] at hlarge
  have hstore : store (c :: r) 0 0 = some (0 :: r) := store_at (a := []) rfl 0
  obtain ⟨r', hwords, -⟩ := wordsLoop_eq b (n := wordCount N) [] r rfl rfl (by omega)
  have hs : ∀ c ∈ wordsText b (wordCount N), (hexValue c).isSome := fun c hc => (mem_wordsText hc).1
  have hno : 0 ∉ wordsText b (wordCount N) := fun h => (mem_wordsText h).2 rfl
  have hstr : ∀ {t : List UInt8}, 0 ∉ t → ∀ u, cstr (t ++ 0 :: u) 0 = some t := fun ht u => scan_append ht u
  have hrun : toHexString b (c :: r) = (zerosLoop (wordsText b (wordCount N)) (2 ^ 31) 0).map fun shifts =>
      if shifts > 0 then (wordsText b (wordCount N) ++ 0 :: r').drop shifts ++
        (wordsText b (wordCount N) ++ 0 :: r').drop ((wordsText b (wordCount N) ++ 0 :: r').length - shifts)
      else wordsText b (wordCount N) ++ 0 :: r' := by
    rw [toHexString, if_pos (by simp), hstore, Option.bind_some, List.length_cons]
    rw [List.nil_append, List.nil_append, List.length_nil] at hwords
    rw [hwords, Option.bind_some, hstr hno, Option.bind_some]
  have hprint : Printable N (members b) ↔
      (∀ m ∈ members b, m < 64 * wordCount N) ∧ ¬ Endless (wordsText b (wordCount N)) := by
    rw [Printable, endless_wordsText]
    refine and_congr_right fun hall => ?_
    constructor
    · rintro (h | ⟨m, hm, h⟩) ⟨hle, hbits⟩
      · omega
      · have := hbits m hm (hall m hm)
        omega
    · intro h
      by_contra hn
      obtain ⟨hle, hbits⟩ := not_or.mp hn
      exact h ⟨Nat.le_of_not_lt hle, fun m hm _ => Nat.lt_of_not_le fun hm34 => hbits ⟨m, hm, hm34⟩⟩
  have heven : (wordsText b (wordCount N)).length % 2 = 0 := by
    rw [length_wordsText]
    omega
  rw [hprint]
  have hzeros := zerosLoop_cases hs heven (show 2 ^ 31 + 0 = 2 ^ 31 from rfl) (by omega) (by omega) rfl
  rw [Nat.mul_zero] at hzeros
  rcases hzeros with ⟨hnone, hend⟩ | ⟨p, hp, hsome, hzero, hend⟩
  · refine iff_of_false ?_ (fun h => h.2 hend)
    rintro ⟨buf', t, hb, -⟩
    rw [hrun, hnone] at hb
    cases hb
  · have hvalue : hexNumber ((wordsText b (wordCount N)).drop p) = hexNumber (wordsText b (wordCount N)) := by
      have hsplit := hexNumber_append ((wordsText b (wordCount N)).take p) ((wordsText b (wordCount N)).drop p)
      rwa [List.take_append_drop, hzero, Nat.zero_mul, Nat.zero_add, eq_comm] at hsplit
    have htext : ∃ buf', toHexString b (c :: r) = some buf' ∧ cstr buf' 0 = some ((wordsText b (wordCount N)).drop p) := by
      rw [hrun, hsome, Option.map_some]
      refine ⟨_, rfl, ?_⟩
      by_cases hp0 : p > 0
      · rw [if_pos hp0, List.drop_append_of_le_length hp, List.append_assoc, List.cons_append]
        exact hstr (fun h => hno (List.mem_of_mem_drop h)) _
      · rw [if_neg hp0, Nat.eq_zero_of_not_pos hp0]
        exact hstr hno r'
    obtain ⟨buf', hb, ht⟩ := htext
    constructor
    · rintro ⟨buf2, t2, hb2, ht2, -, hbits⟩
      obtain rfl : buf' = buf2 := Option.some_inj.mp (hb.symm.trans hb2)
      obtain rfl := Option.some_inj.mp (ht.symm.trans ht2)
      refine ⟨fun m hm => ?_, hend⟩
      have hbit := (hbits m).mpr hm
      rw [hvalue, testBit_wordsText] at hbit
      exact hbit.1
    · rintro ⟨hall, -⟩
      refine ⟨buf', _, hb, ht, fun c hc => hs c (List.mem_of_mem_drop hc), fun n => ?_⟩
      rw [hvalue, testBit_wordsText]
      exact and_iff_right_of_imp (hall n)

/-- What `Bitmap<N>` does as a set does, and when. -/
theorem bitmap_law (N : ℕ) :
    (∀ (b : Words N) (id : UInt16), isSetBit b id = true ↔ id.toNat ∈ members b) ∧
    (∀ es : List (Op N), Always step Agree (reset, ∅) es ↔ Along step (fun st => Clean N st.2) (reset, ∅) es) ∧
    (∀ (b : Words N) (l : List Numeral),
      members (setBits b (listText l)) = members b ∪ inRange N (listed l) ↔ Listed N (members b) l) ∧
    (∀ (b : Words N) (start : UInt16), Enumerates b start ↔ ∀ k ∈ members b, k < 65535) ∧
    ∀ (b : Words N) (buf : Mem), 16 * N + 1 ≤ buf.length → (Denotes b buf ↔ Printable N (members b)) :=
  ⟨fun _ _ => isSetBit_iff, agree_iff, fun _ _ => members_setBits_iff, enumerates_iff, fun b _ h => denotes_iff b h⟩

/-- Of 4096 identifiers, the list `65536` adds the first. -/
theorem zero_added : 0 ∈ members (setBits (reset : Words 64) (text "65536")) :=
  mem_members.mpr (by decide)

end Ntopng.Alerts.BitmapSet
