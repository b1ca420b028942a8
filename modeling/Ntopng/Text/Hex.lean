/-
  Ntopng.Text.Hex — bytes as hexadecimal digits and back (`Utils::toHex`, `Utils::fromHex` of
  src/Utils.cpp).

  Both functions get their lengths; a memory is as long as its length says. Outside of the
  result `none` is a read or a write past it, inside the refusal (a NULL, a false).

  Proved:
  - `toHex_ok_iff` / `fromHex_ok_iff`: when each function stays inside its buffers and refuses
    just what does not fit (or is no hexadecimal string). `toHex` checks the input against twice
    the output instead of the output against twice the input, and neither counts the NUL.
  - `fromHex_toHex`: with room for both the bytes come back.
-/

import Ntopng.Lib.CString

namespace Ntopng.Text.Hex

open Ntopng.Lib.CString

/-! ## The functions -/

/-- The characters of `0123456789ABCDEF`. -/
def hexDigit (n : UInt8) : UInt8 := if n < 10 then ch '0' + n else ch 'A' + (n - 10)

def toHexLoop : List UInt8 → (j : ℕ) → Mem → Option (ℕ × Mem)
  | [], j, out => some (j, out)
  | c :: s, j, out =>
    (store out j (hexDigit (c >>> 4))).bind fun out =>
      (store out (j + 1) (hexDigit (c &&& 15))).bind fun out => toHexLoop s (j + 2) out

def toHex (inp out : Mem) : Option (Option Mem) :=
  if inp.length > (2 * out.length) % 2 ^ 32 then some none
  else (toHexLoop inp 0 out).bind fun r => (store r.2 r.1 0).map some

def hexValue (c : UInt8) : Option UInt8 :=
  if ch '0' ≤ c ∧ c ≤ ch '9' then some (c - ch '0')
  else if ch 'a' ≤ c ∧ c ≤ ch 'f' then some (c - ch 'a' + 10)
  else if ch 'A' ≤ c ∧ c ≤ ch 'F' then some (c - ch 'A' + 10)
  else none

/-- The digits a number starts with. -/
def digits (v : UInt8) : List UInt8 → UInt8
  | [] => v
  | c :: s =>
    match hexValue c with
    | none => v
    | some d => digits (v * 16 + d) s

/-- `strtoul` in base 16, as a `char`, of a string too short for a prefix `0x` with a digit. -/
def strtoul16 (s : List UInt8) : UInt8 :=
  match s.dropWhile isSpace with
  | [] => 0
  | c :: s => if c = ch '-' then -digits 0 s else if c = ch '+' then digits 0 s else digits 0 (c :: s)

/-- An odd character is read together with the one behind the input. -/
def fromHexLoop : List UInt8 → (j : ℕ) → Mem → Option (ℕ × Mem)
  | [], j, out => some (j, out)
  | [_], _, _ => none
  | a :: b :: s, j, out =>
    (store out j (strtoul16 ([a, b].takeWhile (· ≠ 0)))).bind fun out => fromHexLoop s (j + 1) out

def fromHex (inp out : Mem) : Option (Option Mem) :=
  if inp.length / 2 > out.length then some none
  else (fromHexLoop inp 0 out).bind fun r => (store r.2 r.1 0).map some

/-! ## What they are for -/

def hexOf (x : List UInt8) : List UInt8 := x.flatMap fun c : UInt8 => [hexDigit (c >>> 4), hexDigit (c &&& 15)]

/-- Inside the buffers, and refused just if it does not fit. -/
def ToHexOk (inp out : Mem) : Prop :=
  ∃ r, toHex inp out = some r ∧ (r = none ↔ out.length < 2 * inp.length + 1)

def IsHex (s : List UInt8) : Prop := s.length % 2 = 0 ∧ ∀ c ∈ s, (hexValue c).isSome

def FromHexOk (inp out : Mem) : Prop :=
  ∃ r, fromHex inp out = some r ∧ (r = none ↔ ¬ (IsHex inp ∧ inp.length / 2 + 1 ≤ out.length))

/-! ## Writing digits -/

theorem length_hexOf (x : List UInt8) : (hexOf x).length = 2 * x.length := by
  induction x with
  | nil => rfl
  | cons c x ih =>
    unfold hexOf at ih ⊢
    rw [List.flatMap_cons, List.length_append, ih]
    show 2 + 2 * x.length = 2 * (x.length + 1)
    omega

theorem toHexLoop_eq {x : List UInt8} {a b : List UInt8} (hb : 2 * x.length ≤ b.length) :
    toHexLoop x a.length (a ++ b) = some (a.length + 2 * x.length, a ++ hexOf x ++ b.drop (2 * x.length)) := by
  induction x generalizing a b with
  | nil => simp [toHexLoop, hexOf]
  | cons c x ih =>
    rw [List.length_cons] at hb
    obtain ⟨y, b, rfl⟩ := List.exists_cons_of_length_pos (show 0 < b.length by omega)
    rw [List.length_cons] at hb
    obtain ⟨z, b, rfl⟩ := List.exists_cons_of_length_pos (show 0 < b.length by omega)
    rw [List.length_cons] at hb
    have h1 : store (a ++ y :: z :: b) a.length (hexDigit (c >>> 4)) = some (a ++ hexDigit (c >>> 4) :: z :: b) := store_at rfl _
    have h2 : store (a ++ hexDigit (c >>> 4) :: z :: b) (a.length + 1) (hexDigit (c &&& 15)) =
        some ((a ++ [hexDigit (c >>> 4)]) ++ hexDigit (c &&& 15) :: b) := by
      rw [show a ++ hexDigit (c >>> 4) :: z :: b = (a ++ [hexDigit (c >>> 4)]) ++ z :: b by simp]
      exact store_at (by rw [List.length_append, List.length_singleton]) _
    have ih := ih (a := a ++ [hexDigit (c >>> 4), hexDigit (c &&& 15)]) (b := b) (by omega)
    rw [List.length_append] at ih
    rw [toHexLoop, h1, Option.bind_some, h2, Option.bind_some,
      show a ++ [hexDigit (c >>> 4)] ++ hexDigit (c &&& 15) :: b = a ++ [hexDigit (c >>> 4), hexDigit (c &&& 15)] ++ b by simp]
    rw [show a.length + 2 = a.length + [hexDigit (c >>> 4), hexDigit (c &&& 15)].length from rfl, ih]
    simp only [hexOf, List.flatMap_cons, List.length_cons, List.length_nil]
    rw [show 2 * (x.length + 1) = 2 * x.length + 1 + 1 by omega, List.drop_succ_cons, List.drop_succ_cons]
    refine congrArg some (Prod.ext ?_ ?_)
    · simp only
      omega
    · simp

/-- With a byte too few for the NUL, or fewer. -/
theorem toHexLoop_none {x : List UInt8} {j : ℕ} {out : Mem} (h : out.length < j + 2 * x.length) (hj : j ≤ out.length) :
    toHexLoop x j out = none := by
  induction x generalizing j out with
  | nil =>
    rw [List.length_nil] at h
    omega
  | cons c x ih =>
    rw [List.length_cons] at h
    rw [toHexLoop]
    by_cases h1 : j < out.length
    · rw [store_some h1, Option.bind_some]
      by_cases h2 : j + 1 < out.length
      · rw [store_some (by rw [List.length_set]; exact h2), Option.bind_some]
        exact ih (by rw [List.length_set, List.length_set]; omega) (by rw [List.length_set, List.length_set]; omega)
      · rw [store_none (by rw [List.length_set]; omega), Option.bind_none]
    · rw [store_none (by omega), Option.bind_none]

/-- Past the check: with room for the NUL the digits are written, without it there is a write past the end. -/
theorem toHex_accepted {inp out : Mem} (h : inp.length ≤ (2 * out.length) % 2 ^ 32) :
    (2 * inp.length + 1 ≤ out.length → ∃ r, toHex inp out = some (some (hexOf inp ++ 0 :: r))) ∧
      (out.length < 2 * inp.length + 1 → toHex inp out = none) := by
  unfold toHex
  rw [if_neg (Nat.not_lt.mpr h)]
  constructor
  · intro hfit
    have hloop := toHexLoop_eq (x := inp) (a := []) (b := out) (by omega)
    rw [List.nil_append, List.nil_append, List.length_nil, Nat.zero_add] at hloop
    obtain ⟨y, r, hr⟩ := List.exists_cons_of_length_pos (show 0 < (out.drop (2 * inp.length)).length by
      rw [List.length_drop]; omega)
    refine ⟨r, ?_⟩
    rw [hloop, Option.bind_some, hr, ← length_hexOf]
    simp only
    rw [store_at rfl]
    rfl
  · intro hshort
    by_cases hlt : out.length < 2 * inp.length
    · rw [toHexLoop_none (by omega) (Nat.zero_le _), Option.bind_none]
    · have hloop := toHexLoop_eq (x := inp) (a := []) (b := out) (by omega)
      rw [List.nil_append, List.nil_append, List.length_nil, Nat.zero_add] at hloop
      rw [hloop, Option.bind_some]
      simp only
      rw [store_none (by rw [List.length_append, length_hexOf, List.length_drop]; omega)]
      rfl

theorem toHex_ok_iff (inp out : Mem) : ToHexOk inp out ↔
    (2 * inp.length + 1 ≤ out.length ∧ inp.length ≤ (2 * out.length) % 2 ^ 32) ∨
      (out.length < 2 * inp.length + 1 ∧ (2 * out.length) % 2 ^ 32 < inp.length) := by
  unfold ToHexOk
  by_cases h : inp.length ≤ (2 * out.length) % 2 ^ 32
  · obtain ⟨hfits, hshort⟩ := toHex_accepted h
    by_cases hfit : 2 * inp.length + 1 ≤ out.length
    · obtain ⟨r, hr⟩ := hfits hfit
      refine ⟨fun _ => Or.inl ⟨hfit, h⟩, fun _ => ⟨_, hr, ?_⟩⟩
      exact ⟨(fun h => by cases h), fun h => absurd hfit (Nat.not_le.mpr h)⟩
    · rw [hshort (Nat.not_le.mp hfit)]
      refine ⟨?_, fun hc => ?_⟩
      · rintro ⟨r, hr, -⟩
        cases hr
      · rcases hc with hc | hc
        · exact absurd hc.1 hfit
        · exact absurd h (Nat.not_le.mpr hc.2)
  · have hnull : toHex inp out = some none := if_pos (Nat.not_le.mp h)
    constructor
    · rintro ⟨r, hr, hiff⟩
      rw [hnull] at hr
      exact Or.inr ⟨hiff.mp (Option.some.inj hr).symm, Nat.not_le.mp h⟩
    · intro hc
      rcases hc with hc | hc
      · exact absurd hc.2 h
      · exact ⟨none, hnull, fun _ => hc.1, fun _ => rfl⟩

/-! ## Reading digits -/

/-- The bytes two by two. -/
def unhex : List UInt8 → List UInt8
  | a :: b :: s => strtoul16 ([a, b].takeWhile (· ≠ 0)) :: unhex s
  | _ => []

theorem fromHexLoop_eq {x : List UInt8} {a b : List UInt8} (heven : x.length % 2 = 0) (hb : x.length / 2 ≤ b.length) :
    fromHexLoop x a.length (a ++ b) = some (a.length + x.length / 2, a ++ unhex x ++ b.drop (x.length / 2)) ∧
      (unhex x).length = x.length / 2 := by
  induction x using unhex.induct generalizing a b with
  | case1 c d s ih =>
    rw [List.length_cons, List.length_cons] at heven hb
    obtain ⟨y, b, rfl⟩ := List.exists_cons_of_length_pos (show 0 < b.length by omega)
    rw [List.length_cons] at hb
    have h1 : store (a ++ y :: b) a.length (strtoul16 ([c, d].takeWhile (· ≠ 0))) =
        some (a ++ [strtoul16 ([c, d].takeWhile (· ≠ 0))] ++ b) := by
      rw [store_at rfl]
      simp
    obtain ⟨ih, hlen⟩ := ih (a := a ++ [strtoul16 ([c, d].takeWhile (· ≠ 0))]) (b := b) (by omega) (by omega)
    rw [List.length_append, List.length_singleton] at ih
    constructor
    · rw [fromHexLoop, h1, Option.bind_some, ih, unhex, List.length_cons, List.length_cons,
        show (s.length + 1 + 1) / 2 = s.length / 2 + 1 by omega, List.drop_succ_cons]
      refine congrArg some (Prod.ext ?_ ?_)
      · simp only
        omega
      · simp
    · rw [unhex, List.length_cons, hlen, List.length_cons, List.length_cons]
      omega
  | case2 x hx =>
    rcases x with _ | ⟨c, _ | ⟨d, s⟩⟩
    · simp [fromHexLoop, unhex]
    · rw [List.length_singleton] at heven
      cases heven
    · exact absurd rfl (hx c d s)

theorem fromHexLoop_none {x : List UInt8} {j : ℕ} {out : Mem} (h : x.length % 2 = 1 ∨ out.length < j + x.length / 2)
    (hj : j ≤ out.length) : fromHexLoop x j out = none := by
  induction x using unhex.induct generalizing j out with
  | case1 c d s ih =>
    rw [List.length_cons, List.length_cons] at h
    rw [fromHexLoop]
    by_cases h1 : j < out.length
    · rw [store_some h1, Option.bind_some]
      refine ih ?_ (by rw [List.length_set]; omega)
      rw [List.length_set]
      omega
    · rw [store_none (by omega), Option.bind_none]
  | case2 x hx =>
    rcases x with _ | ⟨c, _ | ⟨d, s⟩⟩
    · rw [List.length_nil] at h
      omega
    · rfl
    · exact absurd rfl (hx c d s)

theorem fromHex_accepted {inp out : Mem} (h : inp.length / 2 ≤ out.length) :
    (inp.length % 2 = 0 ∧ inp.length / 2 + 1 ≤ out.length → ∃ r, fromHex inp out = some (some (unhex inp ++ 0 :: r))) ∧
      (¬ (inp.length % 2 = 0 ∧ inp.length / 2 + 1 ≤ out.length) → fromHex inp out = none) := by
  unfold fromHex
  rw [if_neg (Nat.not_lt.mpr h)]
  constructor
  · rintro ⟨heven, hfit⟩
    obtain ⟨hloop, hlen⟩ := fromHexLoop_eq (x := inp) (a := []) (b := out) heven h
    rw [List.nil_append, List.nil_append, List.length_nil, Nat.zero_add] at hloop
    obtain ⟨y, r, hr⟩ := List.exists_cons_of_length_pos (show 0 < (out.drop (inp.length / 2)).length by
      rw [List.length_drop]; omega)
    refine ⟨r, ?_⟩
    rw [hloop, Option.bind_some, hr, ← hlen]
    simp only
    rw [store_at rfl]
    rfl
  · intro hn
    by_cases heven : inp.length % 2 = 0
    · obtain ⟨hloop, hlen⟩ := fromHexLoop_eq (x := inp) (a := []) (b := out) heven h
      rw [List.nil_append, List.nil_append, List.length_nil, Nat.zero_add] at hloop
      rw [hloop, Option.bind_some]
      simp only
      rw [store_none (by rw [List.length_append, hlen, List.length_drop]; omega)]
      rfl
    · rw [fromHexLoop_none (Or.inl (by omega)) (Nat.zero_le _), Option.bind_none]

theorem fromHex_ok_iff (inp out : Mem) : FromHexOk inp out ↔
    (IsHex inp ∧ inp.length / 2 + 1 ≤ out.length) ∨ out.length < inp.length / 2 := by
  unfold FromHexOk
  by_cases h : inp.length / 2 ≤ out.length
  · obtain ⟨hfits, hshort⟩ := fromHex_accepted h
    by_cases hfit : inp.length % 2 = 0 ∧ inp.length / 2 + 1 ≤ out.length
    · obtain ⟨r, hr⟩ := hfits hfit
      rw [hr]
      constructor
      · rintro ⟨r', hr', hiff⟩
        refine Or.inl ?_
        by_contra hn
        rw [hiff.mpr hn] at hr'
        cases hr'
      · intro hc
        rcases hc with hc | hc
        · exact ⟨_, rfl, (fun h => by cases h), fun hn => absurd hc hn⟩
        · exact absurd h (Nat.not_le.mpr hc)
    · rw [hshort hfit]
      constructor
      · rintro ⟨r, hr, -⟩
        cases hr
      · intro hc
        rcases hc with hc | hc
        · exact absurd ⟨hc.1.1, hc.2⟩ hfit
        · exact absurd h (Nat.not_le.mpr hc)
  · have hfalse : fromHex inp out = some none := if_pos (Nat.not_le.mp h)
    exact ⟨fun _ => Or.inr (Nat.not_le.mp h), fun _ => ⟨none, hfalse, fun _ => fun hc => h (by omega), fun _ => rfl⟩⟩

/-! ## Back and forth -/

/-- Of every byte: its two digits are no NUL and are read as the byte. -/
theorem strtoul16_digits : ∀ c : UInt8,
    strtoul16 ([hexDigit (c >>> 4), hexDigit (c &&& 15)].takeWhile (· ≠ 0)) = c ∧
      hexDigit (c >>> 4) ≠ 0 ∧ hexDigit (c &&& 15) ≠ 0 :=
  forall_byte (by decide)

theorem unhex_hexOf (x : List UInt8) : unhex (hexOf x) = x := by
  induction x with
  | nil => rfl
  | cons c x ih =>
    show strtoul16 _ :: unhex (hexOf x) = c :: x
    rw [(strtoul16_digits c).1, ih]

theorem zero_notMem_hexOf (x : List UInt8) : 0 ∉ hexOf x := by
  intro h
  obtain ⟨c, -, hc⟩ := List.mem_flatMap.mp h
  rw [List.mem_cons, List.mem_singleton] at hc
  rcases hc with hc | hc
  · exact (strtoul16_digits c).2.1 hc.symm
  · exact (strtoul16_digits c).2.2 hc.symm

/-- With room in both buffers: only for an output of 2 GiB and more the check may refuse. -/
theorem fromHex_toHex (x : List UInt8) {out out' : Mem} (hout : 2 * x.length + 1 ≤ out.length)
    (hout' : x.length + 1 ≤ out'.length) :
    (∃ h s r, toHex x out = some (some h) ∧ cstr h 0 = some s ∧ fromHex s out' = some (some r) ∧ r.take x.length = x) ↔
      x.length ≤ (2 * out.length) % 2 ^ 32 := by
  constructor
  · rintro ⟨h, -, -, hx, -⟩
    by_contra hn
    have hnull : toHex x out = some none := if_pos (Nat.not_le.mp hn)
    rw [hnull] at hx
    cases hx
  · intro hle
    obtain ⟨r, hr⟩ := (toHex_accepted hle).1 hout
    have hlen := length_hexOf x
    have hhalf : (hexOf x).length / 2 ≤ out'.length := by omega
    obtain ⟨r', hr'⟩ := (fromHex_accepted hhalf).1 ⟨by omega, by omega⟩
    refine ⟨_, hexOf x, _, hr, cstr_drop rfl (zero_notMem_hexOf x), hr', ?_⟩
    rw [unhex_hexOf, List.take_left]

/-- The round trip, and when each function keeps to its buffers and refuses what it should. -/
theorem hex_law (x inp out out' : Mem) :
    (2 * x.length + 1 ≤ out.length → x.length + 1 ≤ out'.length →
      ((∃ h s r, toHex x out = some (some h) ∧ cstr h 0 = some s ∧ fromHex s out' = some (some r) ∧ r.take x.length = x) ↔
        x.length ≤ (2 * out.length) % 2 ^ 32)) ∧
    (ToHexOk inp out ↔
      (2 * inp.length + 1 ≤ out.length ∧ inp.length ≤ (2 * out.length) % 2 ^ 32) ∨
        (out.length < 2 * inp.length + 1 ∧ (2 * out.length) % 2 ^ 32 < inp.length)) ∧
    (FromHexOk inp out ↔
      (IsHex inp ∧ inp.length / 2 + 1 ≤ out.length) ∨ out.length < inp.length / 2) :=
  ⟨fun h h' => fromHex_toHex x h h', toHex_ok_iff inp out, fromHex_ok_iff inp out⟩

/-- One byte for a buffer of two: the NUL is written behind it. `41` for a buffer of one likewise. -/
theorem nul_past_the_end : toHex [ch 'A'] [0, 0] = none ∧ fromHex [ch '4', ch '1'] [0] = none := by decide

end Ntopng.Text.Hex
