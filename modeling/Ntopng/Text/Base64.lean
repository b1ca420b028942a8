/-
  Ntopng.Text.Base64 — `Utils::base64_encode` and `Utils::base64_decode` (src/Utils.cpp).

  Both are loops that collect characters in an array (three bytes, four digits) and write a
  group when it is full; a last group is filled up. The decoder counts down the size of its
  string in an `int`, and up its index in another: `none` is one of them running over. Past its
  last character a string has a NUL.

  Proved:
  - `decode_encode_iff`: the bytes come back just if the text is shorter than 2^31 characters.
  - `decode_iff`: the digits a string starts with are decoded (`bytesOf`) just if the counters
    are enough for them (`Fits`), as they are for every string shorter than that (`fits_of_lt`).
-/

import Ntopng.Lib.CString

namespace Ntopng.Text.Base64

open Ntopng.Lib.CString

/-- The digit at a place of `base64_chars`. -/
def digit (v : UInt8) : UInt8 :=
  if v < 26 then ch 'A' + v
  else if v < 52 then ch 'a' + (v - 26)
  else if v < 62 then ch '0' + (v - 52)
  else if v = 62 then ch '+' else ch '/'

def isBase64 (c : UInt8) : Bool :=
  (ch 'A' ≤ c && c ≤ ch 'Z') || (ch 'a' ≤ c && c ≤ ch 'z') || (ch '0' ≤ c && c ≤ ch '9') || c = ch '+' || c = ch '/'

/-- `base64_chars.find`, as a byte: 255 where there is none. -/
def find (c : UInt8) : UInt8 :=
  if ch 'A' ≤ c ∧ c ≤ ch 'Z' then c - ch 'A'
  else if ch 'a' ≤ c ∧ c ≤ ch 'z' then c - ch 'a' + 26
  else if ch '0' ≤ c ∧ c ≤ ch '9' then c - ch '0' + 52
  else if c = ch '+' then 62
  else if c = ch '/' then 63
  else 255

/-! ## Encoding -/

def charArray4 (a b c : UInt8) : List UInt8 :=
  [(a &&& 0xfc) >>> 2, ((a &&& 0x03) <<< 4) + ((b &&& 0xf0) >>> 4), ((b &&& 0x0f) <<< 2) + ((c &&& 0xc0) >>> 6), c &&& 0x3f]

/-- The bytes that are left when the input ends, and the text so far. -/
def encodeLoop : List UInt8 → (arr ret : List UInt8) → List UInt8 × List UInt8
  | [], arr, ret => (arr, ret)
  | x :: s, arr, ret =>
    match arr with
    | [a, b] => encodeLoop s [] (ret ++ (charArray4 a b x).map digit)
    | arr => encodeLoop s (arr ++ [x]) ret

def encodeTail : List UInt8 → List UInt8
  | [a] => ((charArray4 a 0 0).take 2).map digit ++ [ch '=', ch '=']
  | [a, b] => ((charArray4 a b 0).take 3).map digit ++ [ch '=']
  | _ => []

def base64Encode (bytes : List UInt8) : List UInt8 :=
  let r := encodeLoop bytes [] []
  r.2 ++ encodeTail r.1

/-! ## Decoding -/

def charArray3 (a b c d : UInt8) : List UInt8 :=
  [(a <<< 2) + ((b &&& 0x30) >>> 4), ((b &&& 0xf) <<< 4) + ((c &&& 0x3c) >>> 2), ((c &&& 0x3) <<< 6) + d]

/-- `in_len--`, an `int`. -/
def decrement (inLen : Int) : Option Int := if inLen = -2 ^ 31 then none else some (inLen - 1)

def increment (i : ℕ) : Option ℕ := if i = 2 ^ 31 - 1 then none else some (i + 1)

def decodeLoop : List UInt8 → (inLen : Int) → (i : ℕ) → (arr ret : List UInt8) → Option (List UInt8 × List UInt8)
  | [], inLen, _, arr, ret => (decrement inLen).map fun _ => (arr, ret)
  | x :: s, inLen, i, arr, ret =>
    (decrement inLen).bind fun inLen' =>
      if inLen ≠ 0 ∧ x ≠ ch '=' ∧ isBase64 x then
        (increment i).bind fun i =>
          match arr with
          | [a, b, c] => decodeLoop s inLen' i [] (ret ++ charArray3 (find a) (find b) (find c) (find x))
          | arr => decodeLoop s inLen' i (arr ++ [x]) ret
      else some (arr, ret)

/-- The places that are not filled are looked up as NULs. -/
def decodeTail : List UInt8 → List UInt8
  | [a] => (charArray3 (find a) (find 0) (find 0) (find 0)).take 0
  | [a, b] => (charArray3 (find a) (find b) (find 0) (find 0)).take 1
  | [a, b, c] => (charArray3 (find a) (find b) (find c) (find 0)).take 2
  | _ => []

def base64Decode (s : List UInt8) : Option (List UInt8) :=
  (decodeLoop s (Int.bmod s.length (2 ^ 32)) 0 [] []).map fun r => r.2 ++ decodeTail r.1

/-! ## What digits stand for -/

/-- Four digits are a number of 24 bits, of which the last group gives as many bytes as it fills. -/
def bytesOf : List ℕ → List UInt8
  | a :: b :: c :: d :: s =>
    let v := ((a * 64 + b) * 64 + c) * 64 + d
    UInt8.ofNat (v / 65536) :: UInt8.ofNat (v / 256) :: UInt8.ofNat v :: bytesOf s
  | [a, b, c] =>
    let v := ((a * 64 + b) * 64 + c) / 4
    [UInt8.ofNat (v / 256), UInt8.ofNat v]
  | [a, b] => [UInt8.ofNat ((a * 64 + b) / 16)]
  | _ => []

def value (c : UInt8) : ℕ := (find c).toNat

/-- The digits a string starts with. -/
def digitsOf (s : List UInt8) : List UInt8 := s.takeWhile isBase64

/-! ## Bytes and digits -/

theorem digit_table : ∀ n < 64, find (digit (UInt8.ofNat n)) = UInt8.ofNat n ∧ isBase64 (digit (UInt8.ofNat n)) := by
  decide

/-- What the shifts and masks do of the values of digits that are joined. -/
theorem digit_bits : ∀ c : UInt8, isBase64 c →
    value c < 64 ∧ find c <<< 2 = UInt8.ofNat (value c * 4) ∧
      (find c &&& 0x30) >>> 4 = UInt8.ofNat (value c / 16) ∧ (find c &&& 0xf) <<< 4 = UInt8.ofNat (value c * 16) ∧
      (find c &&& 0x3c) >>> 2 = UInt8.ofNat (value c / 4) ∧ (find c &&& 0x3) <<< 6 = UInt8.ofNat (value c * 64) :=
  forall_byte (by decide)

/-- What they do of a byte that is split. -/
theorem byte_bits : ∀ c : UInt8,
    (c &&& 0xfc) >>> 2 = UInt8.ofNat (c.toNat / 4) ∧ (c &&& 0x03) <<< 4 = UInt8.ofNat (c.toNat % 4 * 16) ∧
    (c &&& 0xf0) >>> 4 = UInt8.ofNat (c.toNat / 16) ∧ (c &&& 0x0f) <<< 2 = UInt8.ofNat (c.toNat % 16 * 4) ∧
    (c &&& 0xc0) >>> 6 = UInt8.ofNat (c.toNat / 64) ∧ c &&& 0x3f = UInt8.ofNat (c.toNat % 64) :=
  forall_byte (by decide)

theorem find_digit {n : ℕ} (h : n < 64) : find (digit (UInt8.ofNat n)) = UInt8.ofNat n := (digit_table n h).1

theorem isBase64_digit {n : ℕ} (h : n < 64) : isBase64 (digit (UInt8.ofNat n)) := (digit_table n h).2

theorem value_lt {c : UInt8} (h : isBase64 c) : value c < 64 := (digit_bits c h).1

theorem isBase64_ne {c : UInt8} (h : isBase64 c) : c ≠ ch '=' := by
  rintro rfl
  revert h
  decide

/-- The bytes of a group, each from two digits. -/
theorem first_byte {a b : UInt8} (ha : isBase64 a) (hb : isBase64 b) :
    (find a <<< 2) + ((find b &&& 0x30) >>> 4) = UInt8.ofNat ((value a * 64 + value b) / 16) := by
  have h1 := (digit_bits a ha).2.1
  have h2 := (digit_bits b hb).2.2.1
  rw [h1, h2, ← UInt8.ofNat_add, show value a * 4 + value b / 16 = (value a * 64 + value b) / 16 by omega]

theorem second_byte {b c : UInt8} (hb : isBase64 b) (hc : isBase64 c) :
    ((find b &&& 0xf) <<< 4) + ((find c &&& 0x3c) >>> 2) = UInt8.ofNat ((value b * 64 + value c) / 4) := by
  have h1 := (digit_bits b hb).2.2.2.1
  have h2 := (digit_bits c hc).2.2.2.2.1
  rw [h1, h2, ← UInt8.ofNat_add, show value b * 16 + value c / 4 = (value b * 64 + value c) / 4 by omega]

theorem third_byte {c d : UInt8} (hc : isBase64 c) :
    ((find c &&& 0x3) <<< 6) + find d = UInt8.ofNat (value c * 64 + value d) := by
  have h1 := (digit_bits c hc).2.2.2.2.2
  have h2 : UInt8.ofNat (value d) = find d := UInt8.ofNat_toNat
  rw [h1, UInt8.ofNat_add, h2]

theorem ofNat_congr {m n : ℕ} (h : m % 256 = n % 256) : UInt8.ofNat m = UInt8.ofNat n := by
  rw [← UInt8.toNat_inj, UInt8.toNat_ofNat', UInt8.toNat_ofNat']
  exact h

theorem bytesOf_group (a b c d : ℕ) (s : List ℕ) : bytesOf (a :: b :: c :: d :: s) =
    UInt8.ofNat ((((a * 64 + b) * 64 + c) * 64 + d) / 65536) :: UInt8.ofNat ((((a * 64 + b) * 64 + c) * 64 + d) / 256) ::
      UInt8.ofNat (((a * 64 + b) * 64 + c) * 64 + d) :: bytesOf s := by
  rw [bytesOf]

theorem charArray3_eq {a b c d : UInt8} (ha : isBase64 a) (hb : isBase64 b) (hc : isBase64 c) (hd : isBase64 d) (s : List ℕ) :
    charArray3 (find a) (find b) (find c) (find d) ++ bytesOf s = bytesOf (value a :: value b :: value c :: value d :: s) := by
  have := value_lt hb
  have := value_lt hc
  have := value_lt hd
  unfold charArray3
  rw [first_byte ha hb, second_byte hb hc, third_byte hc, bytesOf_group, List.cons_append, List.cons_append, List.cons_append,
    List.nil_append,
    ofNat_congr (m := (value a * 64 + value b) / 16) (n := (((value a * 64 + value b) * 64 + value c) * 64 + value d) / 65536)
    (by omega),
    ofNat_congr (m := (value b * 64 + value c) / 4) (n := (((value a * 64 + value b) * 64 + value c) * 64 + value d) / 256)
    (by omega),
    ofNat_congr (m := value c * 64 + value d) (n := ((value a * 64 + value b) * 64 + value c) * 64 + value d) (by omega)]

/-- What the last, incomplete group gives. -/
theorem decodeTail_eq {arr : List UInt8} (h : ∀ c ∈ arr, isBase64 c) (hlen : arr.length < 4) :
    decodeTail arr = bytesOf (arr.map value) := by
  rcases arr with _ | ⟨a, _ | ⟨b, _ | ⟨c, _ | ⟨d, arr⟩⟩⟩⟩
  · rfl
  · rfl
  · have ha := h a (by simp)
    have hb := h b (by simp)
    show [(find a <<< 2) + ((find b &&& 0x30) >>> 4)] = _
    rw [first_byte ha hb]
    rfl
  · have ha := h a (by simp)
    have hb := h b (by simp)
    have hc := h c (by simp)
    have := value_lt hb
    have := value_lt hc
    show [(find a <<< 2) + ((find b &&& 0x30) >>> 4), ((find b &&& 0xf) <<< 4) + ((find c &&& 0x3c) >>> 2)] =
      [UInt8.ofNat (((value a * 64 + value b) * 64 + value c) / 4 / 256),
        UInt8.ofNat (((value a * 64 + value b) * 64 + value c) / 4)]
    rw [first_byte ha hb, second_byte hb hc,
      ofNat_congr (m := (value a * 64 + value b) / 16) (n := ((value a * 64 + value b) * 64 + value c) / 4 / 256) (by omega),
      ofNat_congr (m := (value b * 64 + value c) / 4) (n := ((value a * 64 + value b) * 64 + value c) / 4) (by omega)]
  · simp only [List.length_cons] at hlen
    omega

/-- The digits of a group of bytes. -/
theorem charArray4_eq (a b c : UInt8) : charArray4 a b c =
    [UInt8.ofNat (a.toNat / 4), UInt8.ofNat (a.toNat % 4 * 16 + b.toNat / 16), UInt8.ofNat (b.toNat % 16 * 4 + c.toNat / 64),
      UInt8.ofNat (c.toNat % 64)] := by
  obtain ⟨h1, h2, -⟩ := byte_bits a
  obtain ⟨-, -, h3, h4, -⟩ := byte_bits b
  obtain ⟨-, -, -, -, h5, h6⟩ := byte_bits c
  unfold charArray4
  rw [h1, h2, h3, h4, h5, h6, ← UInt8.ofNat_add, ← UInt8.ofNat_add]

/-! ## The decoder's loop -/

/-- The counters do not run over, nor out, within the next `n` characters. -/
def Runs (v : Int) (i n : ℕ) : Prop := ∀ j < n, v - j ≠ -2 ^ 31 ∧ v - j ≠ 0 ∧ i + j ≠ 2 ^ 31 - 1

theorem decodeLoop_digits {p : List UInt8} (hp : ∀ c ∈ p, isBase64 c) {v : Int} {i : ℕ} (arr ret : List UInt8)
    (ha : ∀ c ∈ arr, isBase64 c) (hlen : arr.length < 4) (hr : Runs v i p.length) (t : List UInt8) :
    ∃ arr' ret', decodeLoop (p ++ t) v i arr ret = decodeLoop t (v - p.length) (i + p.length) arr' ret' ∧
      ret' ++ decodeTail arr' = ret ++ bytesOf ((arr ++ p).map value) := by
  induction p generalizing v i arr ret with
  | nil =>
    refine ⟨arr, ret, by simp, ?_⟩
    rw [decodeTail_eq ha hlen, List.append_nil]
  | cons x p ih =>
    have hx := hp x (List.mem_cons_self ..)
    obtain ⟨h1, h2, h3⟩ := hr 0 (by rw [List.length_cons]; omega)
    have hp' : ∀ c ∈ p, isBase64 c := fun c hc => hp c (List.mem_cons_of_mem x hc)
    have hr' : Runs (v - 1) (i + 1) p.length := fun j hj => by
      obtain ⟨g1, g2, g3⟩ := hr (j + 1) (by rw [List.length_cons]; omega)
      push_cast at g1 g2
      exact ⟨by omega, by omega, by omega⟩
    have hdec : decrement v = some (v - 1) := if_neg (by simpa using h1)
    have hinc : increment i = some (i + 1) := if_neg h3
    have hcond : v ≠ 0 ∧ x ≠ ch '=' ∧ isBase64 x := ⟨by simpa using h2, isBase64_ne hx, hx⟩
    have hlast : v - ((x :: p).length : ℕ) = v - 1 - (p.length : ℕ) ∧ i + (x :: p).length = i + 1 + p.length := by
      rw [List.length_cons]
      push_cast
      exact ⟨by omega, by omega⟩
    rw [hlast.1, hlast.2, List.cons_append, decodeLoop, hdec, Option.bind_some, if_pos hcond, hinc, Option.bind_some]
    -- A group is full with its fourth digit; until then the digit is put with the others.
    by_cases h3 : arr.length = 3
    · obtain ⟨a, b, c, rfl⟩ := List.length_eq_three.mp h3
      obtain ⟨arr', ret', hloop, hbytes⟩ := ih hp' [] (ret ++ charArray3 (find a) (find b) (find c) (find x))
        (fun c hc => by cases hc) (by decide) hr'
      refine ⟨arr', ret', hloop, ?_⟩
      rw [hbytes, List.append_assoc, List.nil_append,
        charArray3_eq (ha a (by simp)) (ha b (by simp)) (ha c (by simp)) hx]
      rfl
    · obtain ⟨arr', ret', hloop, hbytes⟩ := ih hp' (arr ++ [x]) ret
        (by rw [List.forall_mem_append, List.forall_mem_singleton]; exact ⟨ha, hx⟩)
        (by rw [List.length_append, List.length_singleton]; omega) hr'
      refine ⟨arr', ret', ?_, by rw [hbytes, List.append_assoc, List.singleton_append]⟩
      rw [← hloop]
      rcases arr with _ | ⟨a, _ | ⟨b, _ | ⟨c, _ | ⟨d, arr⟩⟩⟩⟩
      · rfl
      · rfl
      · rfl
      · exact absurd rfl h3
      · rfl

/-- Past the digits, or with the count at 0, the loop ends. -/
theorem decodeLoop_stop {t : List UInt8} {v : Int} (hv : v ≠ -2 ^ 31) (ht : v = 0 ∨ digitsOf t = []) (i : ℕ)
    (arr ret : List UInt8) : decodeLoop t v i arr ret = some (arr, ret) := by
  have hdec : decrement v = some (v - 1) := if_neg hv
  rcases t with _ | ⟨x, t⟩
  · rw [decodeLoop, hdec]
    rfl
  · have hcond : ¬ (v ≠ 0 ∧ x ≠ ch '=' ∧ isBase64 x) := by
      rintro ⟨h1, -, h3⟩
      rcases ht with ht | ht
      · exact h1 ht
      · rw [digitsOf, List.takeWhile_cons_of_pos h3] at ht
        cases ht
    rw [decodeLoop, hdec, Option.bind_some, if_neg hcond]

/-- Where the count runs over among the digits, there is no result. -/
theorem decodeLoop_over {p : List UInt8} (hp : ∀ c ∈ p, isBase64 c) {v : Int} (hv : v < 0) (hover : v + 2 ^ 31 ≤ p.length)
    (hlow : -2 ^ 31 ≤ v) (t : List UInt8) : decodeLoop (p ++ t) v 0 [] [] = none := by
  have hcut : p ++ t = p.take (v + 2 ^ 31).toNat ++ (p.drop (v + 2 ^ 31).toNat ++ t) := by
    rw [← List.append_assoc, List.take_append_drop]
  have hlen : ((p.take (v + 2 ^ 31).toNat).length : Int) = v + 2 ^ 31 := by
    rw [List.length_take]
    omega
  have hr : Runs v 0 (p.take (v + 2 ^ 31).toNat).length := fun j hj => ⟨by omega, by omega, by omega⟩
  obtain ⟨arr, ret, hloop, -⟩ := decodeLoop_digits (fun c hc => hp c (List.mem_of_mem_take hc)) [] [] (by simp) (by decide) hr
    (p.drop (v + 2 ^ 31).toNat ++ t)
  rw [hcut, hloop, hlen, show v - (v + 2 ^ 31) = -2 ^ 31 by omega]
  generalize p.drop (v + 2 ^ 31).toNat ++ t = u
  rcases u with _ | ⟨x, u⟩
  · rfl
  · rfl

/-! ## What is decoded -/

theorem length_bytesOf (s : List ℕ) : (bytesOf s).length = 3 * s.length / 4 := by
  induction s using bytesOf.induct with
  | case1 a b c d s ih =>
    rw [bytesOf_group]
    simp only [List.length_cons, ih]
    omega
  | case2 => simp only [bytesOf, List.length_cons, List.length_nil, Nat.reduceAdd, Nat.reduceMul, Nat.reduceDiv]
  | case3 => simp only [bytesOf, List.length_cons, List.length_nil, Nat.reduceAdd, Nat.reduceMul, Nat.reduceDiv]
  | case4 s h4 h3 h2 =>
    rcases s with _ | ⟨a, _ | ⟨b, s⟩⟩
    · rfl
    · simp [bytesOf]
    · rcases s with _ | ⟨c, _ | ⟨d, s⟩⟩
      · exact absurd rfl (h2 a b)
      · exact absurd rfl (h3 a b c)
      · exact absurd rfl (h4 a b c d s)

/-- A digit on its own, past full groups, gives nothing. -/
theorem bytesOf_lone {s : List ℕ} (h : s.length % 4 = 0) (c : ℕ) : bytesOf (s ++ [c]) = bytesOf s := by
  induction s using bytesOf.induct with
  | case1 a b c' d s ih =>
    have hs : s.length % 4 = 0 := by
      simp only [List.length_cons] at h
      omega
    rw [List.cons_append, List.cons_append, List.cons_append, List.cons_append, bytesOf_group, bytesOf_group, ih hs]
  | case2 => simp at h
  | case3 => simp at h
  | case4 s h4 h3 h2 =>
    rcases s with _ | ⟨a, _ | ⟨b, s⟩⟩
    · rfl
    · simp at h
    · rcases s with _ | ⟨c, _ | ⟨d, s⟩⟩
      · simp at h
      · simp at h
      · exact absurd rfl (h4 a b c d s)

theorem bytesOf_take_iff (s : List ℕ) {k : ℕ} (hk : k ≤ s.length) :
    bytesOf (s.take k) = bytesOf s ↔ 3 * k / 4 = 3 * s.length / 4 := by
  constructor
  · intro h
    have hlen := congrArg List.length h
    rwa [length_bytesOf, length_bytesOf, List.length_take_of_le hk] at hlen
  · intro h
    rcases Nat.lt_or_eq_of_le hk with hlt | rfl
    · -- One digit is missing, past full groups.
      have hone : s.length = k + 1 := by omega
      obtain ⟨c, hc⟩ := List.length_eq_one_iff.mp (show (s.drop k).length = 1 by rw [List.length_drop, hone]; omega)
      have hfull : (s.take k).length % 4 = 0 := by
        rw [hone] at h
        rw [List.length_take_of_le hk]
        omega
      rw [← bytesOf_lone hfull c, ← hc, List.take_append_drop]
    · rw [List.take_length]

/-- The counters are enough for the digits of `s`: the `int` that the size of `s` becomes is
    not below their number (but for a digit on its own, which gives nothing), or it is negative
    and does not run over before they end. -/
def Fits (s : List UInt8) : Prop :=
  (0 ≤ Int.bmod s.length (2 ^ 32) ∧
    3 * min (Int.bmod s.length (2 ^ 32)).toNat (digitsOf s).length / 4 = 3 * (digitsOf s).length / 4) ∨
  (Int.bmod s.length (2 ^ 32) < 0 ∧ (digitsOf s).length < Int.bmod s.length (2 ^ 32) + 2 ^ 31)

theorem fits_of_lt {s : List UInt8} (h : s.length < 2 ^ 31) : Fits s := by
  have hv : Int.bmod s.length (2 ^ 32) = s.length := Int.bmod_eq_of_le (by omega) (by omega)
  have hn : (digitsOf s).length ≤ s.length := (List.takeWhile_sublist isBase64).length_le
  left
  rw [hv, Int.toNat_natCast, Nat.min_eq_right hn]
  exact ⟨by omega, rfl⟩

theorem isBase64_of_digitsOf (s : List UInt8) : ∀ c ∈ digitsOf s, isBase64 c := fun _ hc => List.mem_takeWhile_imp hc

/-- What the decoder gives where the first `k` digits are the ones it reads. -/
theorem base64Decode_start {s : List UInt8} {k : ℕ} (hk : k ≤ (digitsOf s).length)
    (hr : Runs (Int.bmod s.length (2 ^ 32)) 0 k) (hv : Int.bmod s.length (2 ^ 32) - k ≠ -2 ^ 31)
    (hend : Int.bmod s.length (2 ^ 32) - k = 0 ∨ k = (digitsOf s).length) :
    base64Decode s = some (bytesOf (((digitsOf s).map value).take k)) := by
  have hsplit : s = (digitsOf s).take k ++ ((digitsOf s).drop k ++ s.dropWhile isBase64) := by
    rw [← List.append_assoc, List.take_append_drop, digitsOf, List.takeWhile_append_dropWhile]
  have hlen : ((digitsOf s).take k).length = k := List.length_take_of_le hk
  obtain ⟨arr, ret, hloop, hbytes⟩ := decodeLoop_digits
    (fun c hc => isBase64_of_digitsOf s c (List.mem_of_mem_take hc)) [] [] (by simp) (by decide) (hlen.symm ▸ hr)
    ((digitsOf s).drop k ++ s.dropWhile isBase64)
  have hstop : Int.bmod s.length (2 ^ 32) - k = 0 ∨ digitsOf ((digitsOf s).drop k ++ s.dropWhile isBase64) = [] := by
    refine hend.imp_right fun hk => ?_
    rw [hk, List.drop_length, List.nil_append]
    rcases hd : s.dropWhile isBase64 with _ | ⟨x, t⟩
    · rfl
    · have hx := List.head?_dropWhile_not isBase64 s
      rw [hd] at hx
      exact List.takeWhile_cons_of_neg (by simpa using hx)
  rw [← hsplit, hlen, decodeLoop_stop hv hstop] at hloop
  rw [base64Decode, hloop, Option.map_some, hbytes, List.nil_append, List.nil_append, List.map_take]

theorem decode_iff (s : List UInt8) : base64Decode s = some (bytesOf ((digitsOf s).map value)) ↔ Fits s := by
  have hlow : -2 ^ 31 ≤ Int.bmod s.length (2 ^ 32) := Int.le_bmod (by decide)
  have hhigh : Int.bmod s.length (2 ^ 32) < 2 ^ 31 := Int.bmod_lt (by decide)
  unfold Fits
  by_cases hv : Int.bmod s.length (2 ^ 32) < 0
  · by_cases hn : (digitsOf s).length < Int.bmod s.length (2 ^ 32) + 2 ^ 31
    · have hr : Runs (Int.bmod s.length (2 ^ 32)) 0 (digitsOf s).length := fun j hj => ⟨by omega, by omega, by omega⟩
      rw [base64Decode_start (le_refl _) hr (by omega) (.inr rfl), List.take_of_length_le (by rw [List.length_map])]
      exact iff_of_true rfl (.inr ⟨hv, hn⟩)
    · have hsplit : digitsOf s ++ s.dropWhile isBase64 = s := List.takeWhile_append_dropWhile
      have hnone := decodeLoop_over (isBase64_of_digitsOf s) hv (by omega) hlow (s.dropWhile isBase64)
      rw [hsplit] at hnone
      rw [base64Decode, hnone]
      exact iff_of_false (fun h => by cases h) (by omega)
  · have hr : Runs (Int.bmod s.length (2 ^ 32)) 0 (min (Int.bmod s.length (2 ^ 32)).toNat (digitsOf s).length) :=
      fun j hj => ⟨by omega, by omega, by omega⟩
    rw [base64Decode_start (by omega) hr (by omega) (by omega), Option.some_inj, bytesOf_take_iff _ (by rw [List.length_map]; omega),
      List.length_map]
    omega

/-! ## Bytes as digits -/

def sextets : List UInt8 → List ℕ
  | a :: b :: c :: s =>
    a.toNat / 4 :: (a.toNat % 4 * 16 + b.toNat / 16) :: (b.toNat % 16 * 4 + c.toNat / 64) :: c.toNat % 64 :: sextets s
  | [a, b] => [a.toNat / 4, a.toNat % 4 * 16 + b.toNat / 16, b.toNat % 16 * 4]
  | [a] => [a.toNat / 4, a.toNat % 4 * 16]
  | [] => []

def digits (s : List ℕ) : List UInt8 := s.map fun v => digit (UInt8.ofNat v)

theorem sextets_lt (x : List UInt8) : ∀ v ∈ sextets x, v < 64 := by
  induction x using sextets.induct with
  | case1 a b c s ih =>
    have := a.toNat_lt
    have := b.toNat_lt
    have := c.toNat_lt
    rw [sextets]
    simp only [List.forall_mem_cons]
    exact ⟨by omega, by omega, by omega, by omega, ih⟩
  | case2 a b =>
    have := a.toNat_lt
    have := b.toNat_lt
    rw [sextets]
    simp only [List.forall_mem_cons]
    exact ⟨by omega, by omega, by omega, fun v hv => by cases hv⟩
  | case3 a =>
    have := a.toNat_lt
    rw [sextets]
    simp only [List.forall_mem_cons]
    exact ⟨by omega, by omega, fun v hv => by cases hv⟩
  | case4 => exact fun v hv => by cases hv

theorem length_sextets (x : List UInt8) : (sextets x).length = (4 * x.length + 2) / 3 := by
  induction x using sextets.induct with
  | case1 a b c s ih =>
    rw [sextets]
    simp only [List.length_cons, ih]
    omega
  | case2 => simp [sextets]
  | case3 => simp [sextets]
  | case4 => rfl

theorem bytesOf_sextets (x : List UInt8) : bytesOf (sextets x) = x := by
  have same : ∀ (a : UInt8) (n : ℕ), n % 256 = a.toNat → UInt8.ofNat n = a := fun a n h => by
    rw [← UInt8.toNat_inj, UInt8.toNat_ofNat']
    exact h
  induction x using sextets.induct with
  | case1 a b c s ih =>
    have := a.toNat_lt
    have := b.toNat_lt
    have := c.toNat_lt
    rw [sextets, bytesOf_group, ih, same a _ (by omega), same b _ (by omega), same c _ (by omega)]
  | case2 a b =>
    have := a.toNat_lt
    have := b.toNat_lt
    rw [sextets, bytesOf]
    have hv : ((a.toNat / 4 * 64 + (a.toNat % 4 * 16 + b.toNat / 16)) * 64 + b.toNat % 16 * 4) / 4 =
        a.toNat * 256 + b.toNat := by omega
    rw [hv, same a _ (by omega), same b _ (by omega)]
  | case3 a =>
    have := a.toNat_lt
    rw [sextets, bytesOf, same a _ (by omega)]
  | case4 => rfl

def padding (x : List UInt8) : List UInt8 := List.replicate ((3 - x.length % 3) % 3) (ch '=')

theorem base64Encode_eq (x : List UInt8) : base64Encode x = digits (sextets x) ++ padding x := by
  have loop : ∀ (x ret : List UInt8), (encodeLoop x [] ret).2 ++ encodeTail (encodeLoop x [] ret).1 =
      ret ++ (digits (sextets x) ++ padding x) := by
    intro x
    induction x using sextets.induct with
    | case1 a b c s ih =>
      intro ret
      have hpad : padding (a :: b :: c :: s) = padding s := by
        simp only [padding, List.length_cons, show (s.length + 1 + 1 + 1) % 3 = s.length % 3 by omega]
      have hgroup : digits (sextets (a :: b :: c :: s)) = (charArray4 a b c).map digit ++ digits (sextets s) := by
        rw [charArray4_eq, sextets]
        rfl
      have hstep : encodeLoop (a :: b :: c :: s) [] ret = encodeLoop s [] (ret ++ (charArray4 a b c).map digit) := rfl
      rw [hpad, hgroup, hstep, ih, List.append_assoc, List.append_assoc]
    | case2 a b =>
      intro ret
      have htail : encodeTail [a, b] = digits (sextets [a, b]) ++ [ch '='] := by
        rw [encodeTail, charArray4_eq]
        rfl
      exact congrArg (ret ++ ·) htail
    | case3 a =>
      intro ret
      have htail : encodeTail [a] = digits (sextets [a]) ++ [ch '=', ch '='] := by
        rw [encodeTail, charArray4_eq]
        rfl
      exact congrArg (ret ++ ·) htail
    | case4 => exact fun ret => rfl
  exact loop x []

theorem length_base64Encode (x : List UInt8) : (base64Encode x).length = 4 * ((x.length + 2) / 3) := by
  rw [base64Encode_eq, List.length_append, digits, List.length_map, length_sextets, padding, List.length_replicate]
  omega

theorem digitsOf_base64Encode (x : List UInt8) : digitsOf (base64Encode x) = digits (sextets x) := by
  have hpad : (padding x).takeWhile isBase64 = [] := by
    unfold padding
    rcases (3 - x.length % 3) % 3 with _ | n
    · rfl
    · rfl
  have hall : ∀ c ∈ digits (sextets x), isBase64 c := fun c hc => by
    obtain ⟨v, hv, rfl⟩ := List.mem_map.mp hc
    exact isBase64_digit (sextets_lt x v hv)
  rw [digitsOf, base64Encode_eq, List.takeWhile_append_of_pos hall, hpad, List.append_nil]

theorem value_digits {s : List ℕ} (h : ∀ v ∈ s, v < 64) : (digits s).map value = s := by
  rw [digits, List.map_map]
  refine List.map_congr_left (fun v hv => ?_) |>.trans (List.map_id s)
  show (find (digit (UInt8.ofNat v))).toNat = v
  rw [find_digit (h v hv), UInt8.toNat_ofNat_of_lt' (by have := h v hv; show v < 256; omega)]

theorem fits_base64Encode (x : List UInt8) : Fits (base64Encode x) ↔ (base64Encode x).length < 2 ^ 31 := by
  have hlen : (digitsOf (base64Encode x)).length = (4 * x.length + 2) / 3 := by
    rw [digitsOf_base64Encode, digits, List.length_map, length_sextets]
  have hlow : -2 ^ 31 ≤ Int.bmod (base64Encode x).length (2 ^ 32) := Int.le_bmod (by decide)
  have hhigh : Int.bmod (base64Encode x).length (2 ^ 32) < 2 ^ 31 := Int.bmod_lt (by decide)
  -- What the size loses in an `int` is a multiple of 2^32.
  obtain ⟨q, hq⟩ : ∃ q : ℤ, ((base64Encode x).length : ℤ) - Int.bmod (base64Encode x).length (2 ^ 32) = 2 ^ 32 * q :=
    Int.dvd_self_sub_bmod
  unfold Fits
  rw [hlen]
  rw [length_base64Encode] at *
  generalize Int.bmod _ _ = v at *
  by_cases h : 4 * ((x.length + 2) / 3) < 2 ^ 31
  · have h0 : q = 0 := by omega
    omega
  · have h0 : 1 ≤ q := by omega
    omega

theorem decode_encode_iff (x : List UInt8) :
    base64Decode (base64Encode x) = some x ↔ (base64Encode x).length < 2 ^ 31 := by
  have h := decode_iff (base64Encode x)
  rwa [digitsOf_base64Encode, value_digits (sextets_lt x), bytesOf_sextets, fits_base64Encode] at h

/-- Bytes come back from texts that an `int` counts, and of such a text the digits it starts with are decoded. -/
theorem base64_law (x s : List UInt8) :
    (base64Decode (base64Encode x) = some x ↔ (base64Encode x).length < 2 ^ 31) ∧
    (base64Decode s = some (bytesOf ((digitsOf s).map value)) ↔ Fits s) ∧
    (s.length < 2 ^ 31 → base64Decode s = some (bytesOf ((digitsOf s).map value))) :=
  ⟨decode_encode_iff x, decode_iff s, fun h => (decode_iff s).mpr (fits_of_lt h)⟩

theorem base64_law_user : base64Decode (text "YWRtaW46YWRtaW4*") =
    some (bytesOf ((digitsOf (text "YWRtaW46YWRtaW4*")).map value)) :=
  (base64_law [] (text "YWRtaW46YWRtaW4*")).2.2 (by decide)

/-- The text of 3221225472 bytes has 2^32 characters: the count starts at 0, and nothing is read. -/
theorem long_text_lost :
    base64Decode (base64Encode (List.replicate 3221225472 0)) ≠ some (List.replicate 3221225472 0) := by
  intro h
  have hlen := (decode_encode_iff (List.replicate 3221225472 0)).mp h
  rw [length_base64Encode, List.length_replicate] at hlen
  omega

end Ntopng.Text.Base64
