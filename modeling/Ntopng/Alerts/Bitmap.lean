/-
  Ntopng.Alerts.Bitmap — `Bitmap<N>` (src/include/Bitmap.h) and `Utils::bitmapGetNext`
  (src/Utils.cpp).

  N words of 64 bits. The identifiers of the calls are 16 bits wide: what `setBits` reads in its
  list is an `int` cut to them, and so is what a caller goes on from after a bit that was found.

  Proved:
  - `members` (the numbers below 64 * N whose bit is set) is the set that every call changes the
    way a set is changed, but `setBits`: it does just if no number of its list that is not one of
    16 bits becomes one that was not to be added, nor is to be added itself (`Listed`).
  - `agree_iff`: so along every run.
  - `enumerates_iff`: the iteration from any start gives the members from there on just if no
    member is above 65534: after 65535 it begins anew.
-/

import Ntopng.Lib.Bits
import Ntopng.Lib.CNumber
import Ntopng.Lib.Run

namespace Ntopng.Alerts.BitmapSet

open Ntopng.Lib.Bits Ntopng.Lib.CString Ntopng.Lib.CNumber Ntopng.Lib.Run

abbrev Words (N : ℕ) := Vector (BitVec 64) N

variable {N : ℕ}

def reset : Words N := Vector.replicate N 0

def idx (id : UInt16) : ℕ := (id >>> 6).toNat

def offset (id : UInt16) : ℕ := (id &&& 0x3F).toNat

def setBit (b : Words N) (id : UInt16) : Words N :=
  if h : idx id < N then b.set (idx id) (b[idx id] ||| 1#64 <<< offset id) h else b

def clearBit (b : Words N) (id : UInt16) : Words N :=
  if h : idx id < N then b.set (idx id) (b[idx id] &&& ~~~(1#64 <<< offset id)) h else b

def isSetBit (b : Words N) (id : UInt16) : Bool :=
  if h : idx id < N then (b[idx id] >>> offset id) &&& 1#64 ≠ 0#64 else false

def bitmapOr (a b : Words N) : Words N := Vector.zipWith (· ||| ·) a b

def getBits64 (b : Words N) (i : ℕ) : BitVec 64 := if h : i < N then b[i] else 0

/-- An item of the list is cut to 16 bits where it is passed on. -/
def setBits (b : Words N) (list : List UInt8) : Words N :=
  (items (ch ',') list []).foldl (fun b item => setBit b (UInt16.ofInt (atoi item))) b

/-! ## The next bit -/

def bitmapGetNext (bitmap : BitVec 64) (start : ℕ) : ℤ :=
  if start ≥ 64 then -1
  else
    let bitmap := bitmap &&& ~~~(1#64 <<< start - 1#64)
    if bitmap = 0#64 then -1 else bitmap.ctz.toNat

/-- The loop from word `i` on, `n` words before the end. What is found is returned as an `int`. -/
def getNextLoop (b : Words N) (startIdx startOffset : ℕ) : (n i : ℕ) → ℤ
  | 0, _ => -1
  | n + 1, i =>
    let bit := bitmapGetNext (getBits64 b i) (if i = startIdx then startOffset else 0)
    if bit ≥ 0 then Int.bmod (i * 64 + bit) (2 ^ 32) else getNextLoop b startIdx startOffset n (i + 1)

def getNext (b : Words N) (start : UInt16) : ℤ := getNextLoop b (idx start) (offset start) (N - idx start) (idx start)

/-- The callers' loop: `for (id = getNext(start); id >= 0; id = getNext(id + 1))`. -/
def iterate (b : Words N) : (fuel : ℕ) → (start : UInt16) → Option (List ℤ)
  | 0, _ => none
  | fuel + 1, start =>
    let id := getNext b start
    if id ≥ 0 then (iterate b fuel (UInt16.ofInt (id + 1))).map (id :: ·) else some []

/-! ## The set -/

def members (b : Words N) : Finset ℕ :=
  (Finset.range (64 * N)).filter fun n => (getBits64 b (n / 64)).getLsbD (n % 64)

theorem idx_eq (id : UInt16) : idx id = id.toNat / 64 := by
  simp [idx, UInt16.toNat_shiftRight, Nat.shiftRight_eq_div_pow]

theorem offset_eq (id : UInt16) : offset id = id.toNat % 64 := by
  rw [offset, UInt16.toNat_and]
  exact Nat.and_two_pow_sub_one_eq_mod id.toNat 6

theorem getBits64_of_lt {b : Words N} {i : ℕ} (h : i < N) : getBits64 b i = b[i] := dif_pos h

theorem mem_members {b : Words N} {n : ℕ} : n ∈ members b ↔ (getBits64 b (n / 64)).getLsbD (n % 64) := by
  rw [members, Finset.mem_filter, Finset.mem_range, and_iff_right_iff_imp]
  intro h
  by_contra hn
  rw [getBits64, dif_neg (by omega)] at h
  simp at h

theorem members_lt {b : Words N} {n : ℕ} (h : n ∈ members b) : n < 64 * N :=
  Finset.mem_range.mp (Finset.mem_filter.mp h).1

theorem getBits64_set {b : Words N} {i : ℕ} (h : i < N) (w : BitVec 64) (j : ℕ) :
    getBits64 (b.set i w h) j = if j = i then w else getBits64 b j := by
  unfold getBits64
  split
  · rename_i hj
    rw [Vector.getElem_set]
    by_cases hij : i = j
    · rw [if_pos hij, if_pos hij.symm]
    · rw [if_neg hij, if_neg (Ne.symm hij)]
  · rw [if_neg (by omega)]

theorem members_reset : members (reset : Words N) = ∅ := by
  refine Finset.eq_empty_of_forall_notMem fun n => ?_
  rw [mem_members, getBits64, reset]
  split <;> simp

/-- What a call on one word does to the set. -/
theorem mem_members_set {b : Words N} {i : ℕ} (h : i < N) {w : BitVec 64} {n : ℕ} :
    n ∈ members (b.set i w h) ↔ if n / 64 = i then w.getLsbD (n % 64) = true else n ∈ members b := by
  rw [mem_members, mem_members, getBits64_set]
  split <;> rfl

theorem mem_setBit {b : Words N} {id : UInt16} {n : ℕ} :
    n ∈ members (setBit b id) ↔ n ∈ members b ∨ (n = id.toNat ∧ n < 64 * N) := by
  unfold setBit
  split
  · rename_i h
    rw [mem_members_set]
    rw [idx_eq] at h
    by_cases hn : n / 64 = idx id
    · rw [if_pos hn, BitVec.getLsbD_or, getLsbD_bit (Nat.mod_lt _ (by decide)), Bool.or_eq_true, decide_eq_true_eq,
        mem_members, getBits64_of_lt (by omega)]
      rw [idx_eq] at hn
      have hsame : n % 64 = offset id ↔ n = id.toNat ∧ n < 64 * N := by
        rw [offset_eq]
        omega
      rw [hsame]
      simp only [hn, idx_eq]
    · rw [if_neg hn]
      rw [idx_eq] at hn
      constructor
      · exact fun h => .inl h
      · rintro (h | ⟨rfl, -⟩)
        · exact h
        · exact absurd rfl hn
  · rename_i h
    rw [idx_eq] at h
    constructor
    · exact fun h => .inl h
    · rintro (h | ⟨rfl, hlt⟩)
      · exact h
      · omega

theorem mem_clearBit {b : Words N} {id : UInt16} {n : ℕ} :
    n ∈ members (clearBit b id) ↔ n ∈ members b ∧ n ≠ id.toNat := by
  unfold clearBit
  split
  · rename_i h
    rw [mem_members_set]
    rw [idx_eq] at h
    by_cases hn : n / 64 = idx id
    · have hm : n % 64 < 64 := Nat.mod_lt _ (by decide)
      rw [if_pos hn, BitVec.getLsbD_and, BitVec.getLsbD_not, getLsbD_bit hm, decide_eq_true hm, Bool.true_and, Bool.and_eq_true,
        Bool.not_eq_true', decide_eq_false_iff_not, mem_members, getBits64_of_lt (by rw [hn, idx_eq]; omega)]
      rw [idx_eq] at hn
      have hsame : n % 64 = offset id ↔ n = id.toNat := by
        rw [offset_eq]
        omega
      rw [hsame]
      simp only [hn, idx_eq]
    · rw [if_neg hn]
      rw [idx_eq] at hn
      exact (and_iff_left fun h => hn (congrArg (· / 64) h)).symm
  · rename_i h
    rw [idx_eq] at h
    refine (and_iff_left_of_imp fun hm => ?_).symm
    have := members_lt hm
    omega

theorem isSetBit_iff {b : Words N} {id : UInt16} : isSetBit b id ↔ id.toNat ∈ members b := by
  have hbit : ∀ (w : BitVec 64) (o : ℕ), (w >>> o) &&& 1#64 ≠ 0#64 ↔ w.getLsbD o := fun w o => by
    rw [BitVec.and_one_eq_setWidth_ofBool_getLsbD, BitVec.getLsbD_ushiftRight, Nat.add_zero]
    cases w.getLsbD o <;> decide
  rw [mem_members, ← idx_eq, ← offset_eq]
  unfold isSetBit getBits64
  split
  · rw [decide_eq_true_eq, hbit]
  · simp

theorem mem_bitmapOr {a b : Words N} {n : ℕ} : n ∈ members (bitmapOr a b) ↔ n ∈ members a ∨ n ∈ members b := by
  rw [mem_members, mem_members, mem_members]
  unfold getBits64
  split
  · rw [bitmapOr, Vector.getElem_zipWith, BitVec.getLsbD_or, Bool.or_eq_true]
  · simp

/-! ## Lists of numbers -/

def listText (l : List Numeral) : List UInt8 := List.intercalate [ch ','] (l.map Numeral.text)

/-- What a listed number becomes as an identifier. -/
def image (v : ℤ) : ℕ := (UInt16.ofInt (Int.bmod (clampLong v) (2 ^ 32))).toNat

theorem image_of_lt {v : ℤ} (h0 : 0 ≤ v) (h : v < 65536) : (image v : ℤ) = v := by
  have hc : clampLong v = v := by
    unfold clampLong
    omega
  have hb : Int.bmod v (2 ^ 32) = v := Int.bmod_eq_of_le (by omega) (by omega)
  rw [image, hc, hb, UInt16.ofInt, UInt16.toNat_ofNat']
  omega

theorem image_lt (v : ℤ) : image v < 65536 := UInt16.toNat_lt _

theorem items_listText (l : List Numeral) : items (ch ',') (listText l) [] = l.map Numeral.text := by
  refine items_intercalate fun w hw => ?_
  obtain ⟨z, -, rfl⟩ := List.mem_map.mp hw
  refine ⟨z.text_ne_nil, fun hc => ?_⟩
  rcases Numeral.mem_text hc with h | h
  · revert h
    decide
  · revert h
    decide

theorem mem_foldl_setBit {α : Type} (f : α → UInt16) (l : List α) (b : Words N) {n : ℕ} :
    n ∈ members (l.foldl (fun b x => setBit b (f x)) b) ↔ n ∈ members b ∨ ∃ x ∈ l, n = (f x).toNat ∧ n < 64 * N := by
  induction l generalizing b with
  | nil => simp
  | cons x l ih =>
    rw [List.foldl_cons, ih, mem_setBit]
    simp only [List.exists_mem_cons_iff, or_assoc]

theorem mem_setBits {b : Words N} {l : List Numeral} {n : ℕ} :
    n ∈ members (setBits b (listText l)) ↔ n ∈ members b ∨ ∃ z ∈ l, n = image z.value ∧ n < 64 * N := by
  rw [setBits, items_listText, mem_foldl_setBit]
  refine or_congr_right ?_
  constructor
  · rintro ⟨x, hx, rfl, hlt⟩
    obtain ⟨z, hz, rfl⟩ := List.mem_map.mp hx
    exact ⟨z, hz, by rw [image, ← strtol_numeral, atoi], hlt⟩
  · rintro ⟨z, hz, rfl, hlt⟩
    exact ⟨z.text, List.mem_map_of_mem hz, by rw [image, ← strtol_numeral, atoi], hlt⟩

/-! ## Runs -/

inductive Op (N : ℕ) where
  | setBit (id : UInt16)
  | clearBit (id : UInt16)
  | bitmapOr (b : Words N)
  | setBits (l : List Numeral)
  | reset

def call (b : Words N) : Op N → Words N
  | .setBit id => setBit b id
  | .clearBit id => clearBit b id
  | .bitmapOr a => bitmapOr b a
  | .setBits l => setBits b (listText l)
  | .reset => reset

def inRange (N : ℕ) (s : Finset ℕ) : Finset ℕ := s.filter (· < 64 * N)

/-- The numbers of a list, which has negative ones as well. -/
def listed (l : List Numeral) : Finset ℕ := ((l.map Numeral.value).filter (0 ≤ ·)).toFinset.image Int.toNat

/-- The call on the set. -/
def change (s : Finset ℕ) : Op N → Finset ℕ
  | .setBit id => s ∪ inRange N {id.toNat}
  | .clearBit id => s.erase id.toNat
  | .bitmapOr a => s ∪ members a
  | .setBits l => s ∪ inRange N (listed l)
  | .reset => ∅

/-- A listed number that is no identifier is one of the set already, where it is in range, and
    so is, or is listed itself, the identifier it becomes. -/
def Listed (N : ℕ) (s : Finset ℕ) (l : List Numeral) : Prop :=
  ∀ z ∈ l, ¬ (0 ≤ z.value ∧ z.value < 65536) →
    (image z.value < 64 * N → image z.value ∈ s ∨ image z.value ∈ listed l) ∧
      (0 ≤ z.value → z.value < 64 * N → z.value.toNat ∈ s)

def Clean (N : ℕ) (s : Finset ℕ) : Op N → Prop
  | .setBits l => Listed N s l
  | _ => True

theorem mem_inRange {s : Finset ℕ} {n : ℕ} : n ∈ inRange N s ↔ n ∈ s ∧ n < 64 * N := Finset.mem_filter

theorem mem_listed {l : List Numeral} {n : ℕ} : n ∈ listed l ↔ ∃ z ∈ l, z.value = n := by
  simp only [listed, Finset.mem_image, List.mem_toFinset, List.mem_filter, List.mem_map, decide_eq_true_eq]
  constructor
  · rintro ⟨v, ⟨⟨z, hz, rfl⟩, h0⟩, rfl⟩
    exact ⟨z, hz, (Int.toNat_of_nonneg h0).symm⟩
  · rintro ⟨z, hz, hv⟩
    exact ⟨z.value, ⟨⟨z, hz, rfl⟩, by omega⟩, by omega⟩

theorem members_setBits_iff {b : Words N} {l : List Numeral} :
    members (setBits b (listText l)) = members b ∪ inRange N (listed l) ↔ Listed N (members b) l := by
  constructor
  · intro h z hz hno
    constructor
    · intro hlt
      have hin : image z.value ∈ members (setBits b (listText l)) := mem_setBits.mpr (.inr ⟨z, hz, rfl, hlt⟩)
      rw [h, Finset.mem_union, mem_inRange] at hin
      exact hin.imp_right And.left
    · intro h0 hlt
      have hin : z.value.toNat ∈ members (setBits b (listText l)) := by
        rw [h, Finset.mem_union, mem_inRange, mem_listed]
        exact .inr ⟨⟨z, hz, by omega⟩, by omega⟩
      rcases mem_setBits.mp hin with hin | ⟨y, -, hy, -⟩
      · exact hin
      · have := image_lt y.value
        omega
  · intro h
    ext n
    rw [mem_setBits, Finset.mem_union, mem_inRange, mem_listed]
    constructor
    · rintro (hn | ⟨z, hz, rfl, hlt⟩)
      · exact .inl hn
      · by_cases hid : 0 ≤ z.value ∧ z.value < 65536
        · exact .inr ⟨⟨z, hz, (image_of_lt hid.1 hid.2).symm⟩, hlt⟩
        · exact ((h z hz hid).1 hlt).imp_right fun hl => ⟨mem_listed.mp hl, hlt⟩
    · rintro (hn | ⟨⟨z, hz, hv⟩, hlt⟩)
      · exact .inl hn
      · by_cases hid : 0 ≤ z.value ∧ z.value < 65536
        · have := image_of_lt hid.1 hid.2
          exact .inr ⟨z, hz, by omega, hlt⟩
        · have hin := (h z hz hid).2 (by omega) (by omega)
          rw [hv] at hin
          exact .inl hin

/-- A call does what it does to the set, just if it is clean. -/
theorem members_call_iff {b : Words N} {op : Op N} :
    members (call b op) = change (members b) op ↔ Clean N (members b) op := by
  cases op with
  | setBit id =>
    refine iff_of_true (Finset.ext fun n => ?_) trivial
    show n ∈ members (setBit b id) ↔ n ∈ members b ∪ inRange N {id.toNat}
    rw [mem_setBit, Finset.mem_union, mem_inRange, Finset.mem_singleton]
  | clearBit id =>
    refine iff_of_true (Finset.ext fun n => ?_) trivial
    show n ∈ members (clearBit b id) ↔ n ∈ (members b).erase id.toNat
    rw [mem_clearBit, Finset.mem_erase, and_comm]
  | bitmapOr a =>
    refine iff_of_true (Finset.ext fun n => ?_) trivial
    show n ∈ members (bitmapOr b a) ↔ n ∈ members b ∪ members a
    rw [mem_bitmapOr, Finset.mem_union]
  | setBits l => exact members_setBits_iff
  | reset => exact iff_of_true members_reset trivial

def step (st : Words N × Finset ℕ) (op : Op N) : Words N × Finset ℕ := (call st.1 op, change st.2 op)

/-- The bitmap is the set. -/
def Agree (st : Words N × Finset ℕ) : Prop := members st.1 = st.2

theorem agree_iff (es : List (Op N)) :
    Always step Agree (reset, ∅) es ↔ Along step (fun st => Clean N st.2) (reset, ∅) es := by
  have hiff : ∀ (st : Words N × Finset ℕ) op, Agree st → (Agree (step st op) ↔ Clean N st.2 op) := fun st op h => by
    obtain ⟨b, s⟩ := st
    obtain rfl : members b = s := h
    exact members_call_iff
  have hkeep : ∀ (st : Words N × Finset ℕ) op, Agree st → Clean N st.2 op → Agree (step st op) :=
    fun st op h => (hiff st op h).mpr
  exact always_iff_along step hkeep (fun _ h => h) (fun st op h => mt (hiff st op h).mp) members_reset

/-! ## The iteration -/

theorem getLsbD_above {start m : ℕ} (hs : start < 64) (hm : m < 64) :
    (~~~(1#64 <<< start - 1#64)).getLsbD m = decide (start ≤ m) := by
  have hpow : 1 ≤ 2 ^ start := Nat.one_le_two_pow
  have hlt : 2 ^ start < 2 ^ 64 := Nat.pow_lt_pow_right (by decide) hs
  have hone : (1#64 <<< start).toNat = 2 ^ start := by
    rw [BitVec.toNat_shiftLeft, BitVec.toNat_ofNat, Nat.shiftLeft_eq, Nat.one_mod_two_pow (by decide), Nat.one_mul,
      Nat.mod_eq_of_lt hlt]
  have hmask : (1#64 <<< start - 1#64).toNat = 2 ^ start - 1 := by
    rw [BitVec.toNat_sub_of_le (by rw [BitVec.le_def, hone]; exact hpow), hone]
    rfl
  rw [BitVec.getLsbD_not, decide_eq_true hm, Bool.true_and, BitVec.getLsbD, hmask, Nat.testBit_two_pow_sub_one]
  by_cases h : start ≤ m
  · simp [h]
  · simp [h, show m < start by omega]

/-- The first bit from `start` on, or -1. -/
theorem bitmapGetNext_cases (w : BitVec 64) {start : ℕ} (hs : start < 64) :
    (bitmapGetNext w start = -1 ∧ ∀ k, start ≤ k → ¬ w.getLsbD k) ∨
      ∃ m : ℕ, bitmapGetNext w start = m ∧ m < 64 ∧ start ≤ m ∧ w.getLsbD m ∧ ∀ k, start ≤ k → k < m → ¬ w.getLsbD k := by
  have hbit : ∀ k < 64, (w &&& ~~~(1#64 <<< start - 1#64)).getLsbD k = (w.getLsbD k && decide (start ≤ k)) := fun k hk => by
    rw [BitVec.getLsbD_and, getLsbD_above hs hk]
  unfold bitmapGetNext
  rw [if_neg (Nat.not_le.mpr hs)]
  generalize w &&& ~~~(1#64 <<< start - 1#64) = v at hbit
  by_cases hv : v = 0#64
  · left
    refine ⟨if_pos hv, fun k hk hw => ?_⟩
    have hk64 := BitVec.lt_of_getLsbD hw
    have h0 := hbit k hk64
    rw [hv, hw, decide_eq_true hk] at h0
    simp at h0
  · right
    have hset := BitVec.getLsbD_true_ctz_of_ne_zero hv
    have hlt := BitVec.lt_of_getLsbD hset
    have hsplit := hbit _ hlt
    rw [hset, eq_comm, Bool.and_eq_true, decide_eq_true_eq] at hsplit
    refine ⟨v.ctz.toNat, if_neg hv, hlt, hsplit.2, hsplit.1, fun k hk hkm hw => ?_⟩
    have h0 := hbit k (by omega)
    rw [BitVec.getLsbD_false_of_lt_ctz hkm, hw, decide_eq_true hk] at h0
    cases h0

/-- The least member from `start` on, or -1. -/
def Next (b : Words N) (start : ℕ) (found : ℤ) : Prop :=
  (found = -1 ∧ ∀ k ∈ members b, k < start) ∨
    ∃ m, m ∈ members b ∧ start ≤ m ∧ (∀ k ∈ members b, start ≤ k → m ≤ k) ∧ found = Int.bmod m (2 ^ 32)

theorem getNextLoop_next {b : Words N} {start n i : ℕ} (hi : start / 64 ≤ i) (hn : N ≤ i + n)
    (hbefore : ∀ k ∈ members b, start ≤ k → 64 * i ≤ k) :
    Next b start (getNextLoop b (start / 64) (start % 64) n i) := by
  induction n generalizing i with
  | zero =>
    refine .inl ⟨rfl, fun k hk => ?_⟩
    have := members_lt hk
    by_contra hks
    have := hbefore k hk (by omega)
    omega
  | succ n ih =>
    rw [getNextLoop]
    -- A bit of this word is from the start on just if it is from the loop's first bit on.
    obtain ⟨o, ho, ho64, hstart⟩ : ∃ o, (if i = start / 64 then start % 64 else 0) = o ∧ o < 64 ∧
        ∀ m < 64, start ≤ i * 64 + m ↔ o ≤ m := by
      refine ⟨_, rfl, ?_, fun m hm => ?_⟩
      · split <;> omega
      · split <;> omega
    have hword : ∀ m < 64, i * 64 + m ∈ members b ↔ (getBits64 b i).getLsbD m := fun m hm => by
      rw [mem_members, show (i * 64 + m) / 64 = i by omega, show (i * 64 + m) % 64 = m by omega]
    rw [ho]
    rcases bitmapGetNext_cases (getBits64 b i) ho64 with ⟨hnone, hno⟩ | ⟨m, hm, hm64, hom, hset, hleast⟩
    · rw [hnone]
      refine ih (by omega) (by omega) fun k hk hks => ?_
      by_contra hki
      have := hbefore k hk hks
      have hk' : k = i * 64 + (k - i * 64) := by omega
      rw [hk'] at hk hks
      exact hno _ ((hstart _ (by omega)).mp hks) ((hword _ (by omega)).mp hk)
    · rw [hm]
      show Next b start (if (m : ℤ) ≥ 0 then _ else _)
      rw [if_pos (Int.natCast_nonneg m)]
      refine .inr ⟨i * 64 + m, (hword m hm64).mpr hset, (hstart m hm64).mpr hom, fun k hk hks => ?_, by push_cast; rfl⟩
      by_contra hkm
      have := hbefore k hk hks
      have hk' : k = i * 64 + (k - i * 64) := by omega
      rw [hk'] at hk hks
      exact hleast _ ((hstart _ (by omega)).mp hks) (by omega) ((hword _ (by omega)).mp hk)

theorem getNext_next (b : Words N) (start : UInt16) : Next b start.toNat (getNext b start) := by
  rw [getNext, idx_eq, offset_eq]
  exact getNextLoop_next (le_refl _) (by omega) fun k _ hk => by omega

/-- The members from `start` on, in increasing order, and an end. -/
def Enumerates (b : Words N) (start : UInt16) : Prop :=
  ∃ fuel, ∃ l : List ℕ, iterate b fuel start = some (l.map fun n : ℕ => (n : ℤ)) ∧ l.Pairwise (· < ·) ∧
    ∀ n, n ∈ l ↔ n ∈ members b ∧ start.toNat ≤ n

theorem enumerates_of_lt {b : Words N} (h : ∀ k ∈ members b, k < 65535) (start : UInt16) : Enumerates b start := by
  -- The number of starts that are left.
  obtain ⟨n, hn⟩ : ∃ n, 65536 - start.toNat ≤ n := ⟨_, le_refl _⟩
  induction n generalizing start with
  | zero =>
    have := start.toNat_lt
    omega
  | succ n ih =>
    rcases getNext_next b start with ⟨hnone, hno⟩ | ⟨m, hm, hstart, hleast, hfound⟩
    · refine ⟨1, [], ?_, List.Pairwise.nil, fun k => ?_⟩
      · rw [iterate, hnone]
        rfl
      · refine iff_of_false (by simp) fun ⟨hk, hks⟩ => ?_
        have := hno k hk
        omega
    · have hm16 := h m hm
      have hbmod : Int.bmod m (2 ^ 32) = m := Int.bmod_eq_of_le (by omega) (by omega)
      have hnext : (UInt16.ofInt ((m : ℤ) + 1)).toNat = m + 1 := by
        rw [UInt16.ofInt, UInt16.toNat_ofNat']
        omega
      obtain ⟨fuel, l, hl, hsorted, hmem⟩ := ih (UInt16.ofInt ((m : ℤ) + 1)) (by omega)
      rw [hnext] at hmem
      refine ⟨fuel + 1, m :: l, ?_, List.pairwise_cons.mpr ⟨fun k hk => ?_, hsorted⟩, fun k => ?_⟩
      · rw [iterate, hfound, hbmod]
        show (if (m : ℤ) ≥ 0 then _ else _) = _
        rw [if_pos (Int.natCast_nonneg m), hl]
        rfl
      · have := ((hmem k).mp hk).2
        omega
      · rw [List.mem_cons, hmem]
        constructor
        · rintro (rfl | ⟨hk, hlt⟩)
          · exact ⟨hm, hstart⟩
          · exact ⟨hk, by omega⟩
        · rintro ⟨hk, hks⟩
          have := hleast k hk hks
          by_cases hkm : k = m
          · exact .inl hkm
          · exact .inr ⟨hk, by omega⟩

/-- A member above 65534 lies ahead of every start. -/
theorem iterate_endless {b : Words N} {m : ℕ} (hm : m ∈ members b) (hm16 : 65535 ≤ m) (hint : ∀ k ∈ members b, k < 2 ^ 31)
    (fuel : ℕ) (start : UInt16) : iterate b fuel start = none := by
  induction fuel generalizing start with
  | zero => rfl
  | succ fuel ih =>
    rcases getNext_next b start with ⟨hnone, hno⟩ | ⟨k, hk, -, -, hfound⟩
    · have := hno m hm
      have := start.toNat_lt
      omega
    · have := hint k hk
      have hbmod : Int.bmod k (2 ^ 32) = k := Int.bmod_eq_of_le (by omega) (by omega)
      rw [iterate, hfound, hbmod]
      show (if (k : ℤ) ≥ 0 then _ else _) = _
      rw [if_pos (Int.natCast_nonneg k), ih]
      rfl

theorem iterate_int {b : Words N} {fuel : ℕ} {start : UInt16} {l : List ℤ} (h : iterate b fuel start = some l) :
    ∀ v ∈ l, v < 2 ^ 31 := by
  induction fuel generalizing start l with
  | zero => cases h
  | succ fuel ih =>
    rw [iterate] at h
    split at h
    · obtain ⟨l', hl', rfl⟩ := Option.map_eq_some_iff.mp h
      rw [List.forall_mem_cons]
      refine ⟨?_, ih hl'⟩
      rcases getNext_next b start with ⟨hnone, -⟩ | ⟨m, -, -, -, hfound⟩
      · rw [hnone]
        decide
      · rw [hfound]
        exact Int.bmod_lt (by decide)
    · cases h
      exact fun v hv => by cases hv

theorem enumerates_iff (b : Words N) (start : UInt16) : Enumerates b start ↔ ∀ k ∈ members b, k < 65535 := by
  refine ⟨?_, fun h => enumerates_of_lt h start⟩
  rintro ⟨fuel, l, hl, -, hmem⟩ m hm
  by_contra hm16
  have hint : ∀ k ∈ members b, k < 2 ^ 31 := fun k hk => by
    by_cases hks : start.toNat ≤ k
    · have := iterate_int hl k (List.mem_map_of_mem ((hmem k).mpr ⟨hk, hks⟩))
      omega
    · have := start.toNat_lt
      omega
  rw [iterate_endless hm (by omega) hint] at hl
  cases hl

end Ntopng.Alerts.BitmapSet
