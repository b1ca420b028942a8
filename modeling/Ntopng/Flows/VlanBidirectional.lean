/-
  Ntopng.Flows.VlanBidirectional — `Bitmask` (src/Bitmask.cpp) and the VLANs of the check
  `VLANBidirectionalTraffic` (src/flow_checks/VLANBidirectionalTraffic.cpp).

  `num_elems` bytes are allocated, and read and written as words of 32 bits. Each operation compares the index
  of its word with `num_elems`, which is four times the number of words. `bits` has the words that lie in
  the allocation as a whole; `none` is an access to another one.

  The items of the check's configuration are what `json_object_get_int` gives of them.

  Proved (`bitmask_law`):
  - a sequence of operations stays within the words, leaves the set and answers as the operations on a set
    would, exactly if each position is in a whole word or in none that passes the range test,
  - loading a list of VLAN ids leaves the listed ones below 4096 exactly if no id, cut to 16 bits, is from 4096
    to 16383, nor below 4096 and not listed itself.
-/

import Ntopng.Lib.Bits

namespace Ntopng.Flows.VlanBidirectional

open Ntopng.Lib.Bits

structure Bitmask where
  totElems : UInt32
  numElems : UInt32
  bits : List (BitVec 32)
  size : totElems.toNat = 8 * numElems.toNat
  words : bits.length = numElems.toNat / 4

namespace Bitmask

/-- `none` is the exit. -/
def new (numTotElems : UInt32) : Option Bitmask :=
  let numElems := numTotElems / 8
  if h : numElems = 0 ∨ numTotElems ≠ numElems * 8 then none
  else
    some
      { totElems := numTotElems, numElems := numElems, bits := List.replicate (numElems.toNat / 4) 0
        size := by
          have heq : numTotElems = numElems * 8 := by
            by_contra hne
            exact h (.inr hne)
          have hdiv : numElems.toNat = numTotElems.toNat / 8 := UInt32.toNat_div ..
          have hmul := congrArg UInt32.toNat heq
          rw [UInt32.toNat_mul, hdiv] at hmul
          have hlt := numTotElems.toNat_lt
          have height : (8 : UInt32).toNat = 8 := rfl
          rw [height] at hmul
          omega
        words := List.length_replicate }

def store (b : Bitmask) (idx : ℕ) (w : BitVec 32) : Bitmask :=
  { b with bits := b.bits.set idx w, words := by rw [List.length_set, b.words] }

/-- The word of a position. -/
def idx (n : UInt32) : ℕ := (n >>> 5).toNat

def offset (n : UInt32) : ℕ := (n &&& 0x1F).toNat

def bitmaskSet (b : Bitmask) (n : UInt32) : Option Bitmask :=
  if idx n ≥ b.numElems.toNat then some b
  else (b.bits[idx n]?).map fun w => b.store (idx n) (w ||| 1#32 <<< offset n)

def bitmaskClr (b : Bitmask) (n : UInt32) : Option Bitmask :=
  if idx n ≥ b.numElems.toNat then some b
  else (b.bits[idx n]?).map fun w => b.store (idx n) (w &&& ~~~(1#32 <<< offset n))

def bitmaskIsset (b : Bitmask) (n : UInt32) : Option Bool :=
  if idx n ≥ b.numElems.toNat then some false
  else (b.bits[idx n]?).map fun w => decide (w &&& 1#32 <<< offset n ≠ 0#32)

def bitmaskClrAll (b : Bitmask) : Bitmask :=
  { b with bits := List.replicate b.bits.length 0, words := by rw [List.length_replicate, b.words] }

end Bitmask

/-! ## Runs -/

inductive Op where
  | setBit (bit : UInt32)
  | clearBit (bit : UInt32)
  | isSetBit (bit : UInt32)
  | clearAllBits

/-- The bitmask, and the answer of a read. -/
def call (b : Bitmask) : Op → Option (Bitmask × Option Bool)
  | .setBit bit => (b.bitmaskSet bit).map (·, none)
  | .clearBit bit => (b.bitmaskClr bit).map (·, none)
  | .isSetBit bit => (b.bitmaskIsset bit).map fun r => (b, some r)
  | .clearAllBits => some (b.bitmaskClrAll, none)

def run : Bitmask → List Op → Option (Bitmask × List (Option Bool))
  | b, [] => some (b, [])
  | b, op :: ops => (call b op).bind fun r => (run r.1 ops).map fun q => (q.1, r.2 :: q.2)

/-! ## Sets -/

/-- The operation on a set of positions below the size. -/
def change (size : ℕ) (s : Finset ℕ) : Op → Finset ℕ
  | .setBit bit => if bit.toNat < size then insert bit.toNat s else s
  | .clearBit bit => s.erase bit.toNat
  | .isSetBit _ => s
  | .clearAllBits => ∅

def answer (s : Finset ℕ) : Op → Option Bool
  | .isSetBit bit => some (decide (bit.toNat ∈ s))
  | _ => none

def answers (size : ℕ) : Finset ℕ → List Op → List (Option Bool)
  | _, [] => []
  | s, op :: ops => answer s op :: answers size (change size s op) ops

def word (b : Bitmask) (i : ℕ) : BitVec 32 := b.bits.getD i 0

/-- The positions below the size whose bit is set. -/
def members (b : Bitmask) : Finset ℕ :=
  (Finset.range b.totElems.toNat).filter fun n => (word b (n / 32)).getLsbD (n % 32)

/-- The operations go as on the set. -/
def Agrees (b : Bitmask) (ops : List Op) : Prop :=
  ∃ b' rs, run b ops = some (b', rs) ∧ members b' = ops.foldl (change b.totElems.toNat) (members b) ∧
    rs = answers b.totElems.toNat (members b) ops

def SafeAt (size : UInt32) (bit : UInt32) : Prop :=
  4 * (bit.toNat / 32 + 1) ≤ size.toNat / 8 ∨ size.toNat / 8 ≤ bit.toNat / 32

instance (size bit : UInt32) : Decidable (SafeAt size bit) := inferInstanceAs (Decidable (_ ∨ _))

/-- The word of the position is in the allocation, or the range test stops it. -/
def Safe (size : UInt32) : Op → Prop
  | .setBit bit => SafeAt size bit
  | .clearBit bit => SafeAt size bit
  | .isSetBit bit => SafeAt size bit
  | .clearAllBits => True

/-! ## One operation -/

variable {b b' : Bitmask} {bit : UInt32} {n : ℕ}

theorem idx_eq (n : UInt32) : Bitmask.idx n = n.toNat / 32 := by
  simp [Bitmask.idx, UInt32.toNat_shiftRight, Nat.shiftRight_eq_div_pow]

theorem offset_eq (n : UInt32) : Bitmask.offset n = n.toNat % 32 := by
  rw [Bitmask.offset, UInt32.toNat_and]
  exact Nat.and_two_pow_sub_one_eq_mod n.toNat 5

theorem mem_members : n ∈ members b ↔ n / 32 < b.bits.length ∧ (word b (n / 32)).getLsbD (n % 32) = true := by
  rw [members, Finset.mem_filter, Finset.mem_range]
  have hsize := b.size
  have hwords := b.words
  constructor
  · rintro ⟨-, hbit⟩
    refine ⟨?_, hbit⟩
    by_contra hlt
    rw [word, List.getD_eq_getElem?_getD, List.getElem?_eq_none (by omega)] at hbit
    simp at hbit
  · rintro ⟨hlt, hbit⟩
    exact ⟨by omega, hbit⟩

/-- Whether an operation stays in the allocation depends on its position only. -/
theorem safeAt_iff : SafeAt b.totElems bit ↔ Bitmask.idx bit < b.bits.length ∨ b.numElems.toNat ≤ Bitmask.idx bit := by
  have hsize := b.size
  have hwords := b.words
  rw [SafeAt, idx_eq]
  omega

theorem word_store {i : ℕ} {w : BitVec 32} (hi : i < b.bits.length) (j : ℕ) :
    word (b.store i w) j = if j = i then w else word b j := by
  rw [word, word, Bitmask.store, List.getD_eq_getElem?_getD, List.getD_eq_getElem?_getD]
  by_cases hj : j = i
  · rw [if_pos hj, hj, List.getElem?_set_self hi, Option.getD_some]
  · rw [if_neg hj, List.getElem?_set_ne (Ne.symm hj)]

theorem word_of_lt {i : ℕ} (h : i < b.bits.length) : b.bits[i]? = some (word b i) := by
  rw [word, List.getD_eq_getElem?_getD, List.getElem?_eq_getElem h, Option.getD_some]

/-- What storing a word does to the set. -/
theorem mem_members_store {w : BitVec 32} (hi : Bitmask.idx bit < b.bits.length) :
    n ∈ members (b.store (Bitmask.idx bit) w) ↔
      if n / 32 = Bitmask.idx bit then w.getLsbD (n % 32) = true else n ∈ members b := by
  have hlen : (b.store (Bitmask.idx bit) w).bits.length = b.bits.length := List.length_set
  rw [mem_members, mem_members, word_store hi, hlen]
  by_cases hn : n / 32 = Bitmask.idx bit
  · rw [if_pos hn, if_pos hn, and_iff_right (by omega)]
  · rw [if_neg hn, if_neg hn]

theorem same_position : n / 32 = Bitmask.idx bit → (n % 32 = Bitmask.offset bit ↔ n = bit.toNat) := by
  rw [idx_eq, offset_eq]
  omega

theorem bitmaskSet_out (h : b.numElems.toNat ≤ Bitmask.idx bit) : b.bitmaskSet bit = some b := if_pos h

theorem bitmaskClr_out (h : b.numElems.toNat ≤ Bitmask.idx bit) : b.bitmaskClr bit = some b := if_pos h

theorem bitmaskIsset_out (h : b.numElems.toNat ≤ Bitmask.idx bit) : b.bitmaskIsset bit = some false := if_pos h

theorem lt_numElems (h : Bitmask.idx bit < b.bits.length) : ¬ Bitmask.idx bit ≥ b.numElems.toNat := by
  have := b.words
  omega

/-- No position of a word that does not pass the test is below the size. -/
theorem not_mem_out (h : b.numElems.toNat ≤ Bitmask.idx bit) : ¬ bit.toNat < b.totElems.toNat := by
  have := b.size
  rw [idx_eq] at h
  omega

theorem bitmaskSet_some (h : SafeAt b.totElems bit) : ∃ b', b.bitmaskSet bit = some b' ∧ b'.totElems = b.totElems ∧
    members b' = change b.totElems.toNat (members b) (.setBit bit) := by
  rcases safeAt_iff.mp h with hin | hout
  · refine ⟨b.store (Bitmask.idx bit) (word b (Bitmask.idx bit) ||| 1#32 <<< Bitmask.offset bit), ?_, rfl, ?_⟩
    · rw [Bitmask.bitmaskSet, if_neg (lt_numElems hin), word_of_lt hin]
      rfl
    · have hlt : bit.toNat < b.totElems.toNat := by
        have hsize := b.size
        have hwords := b.words
        rw [idx_eq] at hin
        omega
      ext n
      rw [mem_members_store hin, change, if_pos hlt, Finset.mem_insert]
      by_cases hn : n / 32 = Bitmask.idx bit
      · rw [if_pos hn, getLsbD_or_bit (Nat.mod_lt _ (by decide)), same_position hn, mem_members, hn,
          and_iff_right hin, or_comm]
      · rw [if_neg hn]
        refine (or_iff_right ?_).symm
        rintro rfl
        exact hn (idx_eq bit).symm
  · refine ⟨b, bitmaskSet_out hout, rfl, ?_⟩
    rw [change, if_neg (not_mem_out hout)]

theorem bitmaskClr_some (h : SafeAt b.totElems bit) : ∃ b', b.bitmaskClr bit = some b' ∧ b'.totElems = b.totElems ∧
    members b' = change b.totElems.toNat (members b) (.clearBit bit) := by
  rcases safeAt_iff.mp h with hin | hout
  · refine ⟨b.store (Bitmask.idx bit) (word b (Bitmask.idx bit) &&& ~~~(1#32 <<< Bitmask.offset bit)), ?_, rfl, ?_⟩
    · rw [Bitmask.bitmaskClr, if_neg (lt_numElems hin), word_of_lt hin]
      rfl
    · ext n
      rw [mem_members_store hin, change, Finset.mem_erase]
      by_cases hn : n / 32 = Bitmask.idx bit
      · rw [if_pos hn, getLsbD_and_not_bit (Nat.mod_lt _ (by decide)), Ne, same_position hn, mem_members, hn,
          and_iff_right hin, and_comm]
      · rw [if_neg hn]
        refine (and_iff_right ?_).symm
        rintro rfl
        exact hn (idx_eq bit).symm
  · refine ⟨b, bitmaskClr_out hout, rfl, ?_⟩
    rw [change, Finset.erase_eq_of_notMem]
    intro hmem
    exact not_mem_out hout (Finset.mem_range.mp (Finset.mem_filter.mp hmem).1)

theorem bitmaskIsset_some (h : SafeAt b.totElems bit) : b.bitmaskIsset bit = some (decide (bit.toNat ∈ members b)) := by
  rcases safeAt_iff.mp h with hin | hout
  · have hoffset : Bitmask.offset bit < 32 := by
      rw [offset_eq]
      exact Nat.mod_lt _ (by decide)
    rw [Bitmask.bitmaskIsset, if_neg (lt_numElems hin), word_of_lt hin, Option.map_some, Option.some_inj, decide_eq_decide,
      mem_members, ← idx_eq, ← offset_eq, and_iff_right hin, and_bit_ne_zero hoffset]
  · rw [bitmaskIsset_out hout, decide_eq_false fun hmem => ?_]
    exact not_mem_out hout (Finset.mem_range.mp (Finset.mem_filter.mp hmem).1)

theorem members_clrAll (b : Bitmask) : members b.bitmaskClrAll = ∅ := by
  refine Finset.eq_empty_of_forall_notMem fun n hmem => ?_
  have hbit := (mem_members.mp hmem).2
  rw [word, Bitmask.bitmaskClrAll, List.getD_eq_getElem?_getD, List.getElem?_replicate] at hbit
  split at hbit <;> simp at hbit

/-! ## Runs and sets -/

theorem call_some {op : Op} (h : Safe b.totElems op) : ∃ b', call b op = some (b', answer (members b) op) ∧
    b'.totElems = b.totElems ∧ members b' = change b.totElems.toNat (members b) op := by
  cases op with
  | setBit bit =>
    obtain ⟨b', hb', hrest⟩ := bitmaskSet_some h
    exact ⟨b', by rw [call, hb']; rfl, hrest⟩
  | clearBit bit =>
    obtain ⟨b', hb', hrest⟩ := bitmaskClr_some h
    exact ⟨b', by rw [call, hb']; rfl, hrest⟩
  | isSetBit bit => exact ⟨b, by rw [call, bitmaskIsset_some h]; rfl, rfl, rfl⟩
  | clearAllBits => exact ⟨b.bitmaskClrAll, rfl, rfl, members_clrAll b⟩

/-- A position that is not safe is in the range of the test and in no whole word. -/
theorem not_safeAt (h : ¬ SafeAt b.totElems bit) :
    ¬ Bitmask.idx bit ≥ b.numElems.toNat ∧ b.bits[Bitmask.idx bit]? = none := by
  rw [safeAt_iff, not_or] at h
  exact ⟨h.2, List.getElem?_eq_none (Nat.le_of_not_lt h.1)⟩

theorem call_none {op : Op} (h : ¬ Safe b.totElems op) : call b op = none := by
  cases op with
  | setBit bit =>
    obtain ⟨hin, hnone⟩ := not_safeAt h
    rw [call, Bitmask.bitmaskSet, if_neg hin, hnone]
    rfl
  | clearBit bit =>
    obtain ⟨hin, hnone⟩ := not_safeAt h
    rw [call, Bitmask.bitmaskClr, if_neg hin, hnone]
    rfl
  | isSetBit bit =>
    obtain ⟨hin, hnone⟩ := not_safeAt h
    rw [call, Bitmask.bitmaskIsset, if_neg hin, hnone]
    rfl
  | clearAllBits => exact absurd trivial h

theorem agrees_iff (ops : List Op) : Agrees b ops ↔ ∀ op ∈ ops, Safe b.totElems op := by
  induction ops generalizing b with
  | nil => exact ⟨fun _ op hop => absurd hop List.not_mem_nil, fun _ => ⟨b, [], rfl, rfl, rfl⟩⟩
  | cons op ops ih =>
    rw [List.forall_mem_cons]
    by_cases hop : Safe b.totElems op
    · obtain ⟨b', hcall, htot, hmembers⟩ := call_some hop
      rw [and_iff_right hop, ← htot, ← ih]
      unfold Agrees
      rw [run, hcall, Option.bind_some, List.foldl_cons, answers, ← hmembers, htot]
      constructor
      · rintro ⟨c, rs, hrun, hset, hrs⟩
        rcases Option.map_eq_some_iff.mp hrun with ⟨⟨d, qs⟩, hd, heq⟩
        cases heq
        exact ⟨d, qs, hd, hset, (List.cons.inj hrs).2⟩
      · rintro ⟨c, rs, hrun, hset, hrs⟩
        exact ⟨c, answer (members b) op :: rs, by rw [hrun]; rfl, hset, by rw [hrs]⟩
    · constructor
      · rintro ⟨c, rs, hrun, -⟩
        rw [run, call_none hop] at hrun
        cases hrun
      · exact fun h => absurd h.1 hop

theorem members_new {size : UInt32} (h : Bitmask.new size = some b) : b.totElems = size ∧ members b = ∅ := by
  rw [Bitmask.new] at h
  split at h
  · cases h
  · cases h
    refine ⟨rfl, Finset.eq_empty_of_forall_notMem fun n hmem => ?_⟩
    have hbit := (mem_members.mp hmem).2
    rw [word, List.getD_eq_getElem?_getD, List.getElem?_replicate] at hbit
    split at hbit <;> simp at hbit

/-! ## The list of VLANs -/

/-- `(u_int16_t)json_object_get_int` -/
def vlanId (item : Int32) : UInt16 := item.toUInt32.toUInt16

def loadItems : Bitmask → List Int32 → Option Bitmask
  | vlans, [] => some vlans
  | vlans, item :: items =>
    if vlanId item ≠ 0xFFFF then
      (vlans.bitmaskIsset (vlanId item).toUInt32).bind fun set =>
        if !set then (vlans.bitmaskSet (vlanId item).toUInt32).bind fun vlans => loadItems vlans items
        else loadItems vlans items
    else loadItems vlans items

/-- The configuration has `items`, or it has not. -/
def loadConfiguration (vlans : Bitmask) (items : Option (List Int32)) : Option Bitmask :=
  match items with
  | some items => loadItems vlans.bitmaskClrAll items
  | none => some vlans.bitmaskClrAll

/-- The listed ids below 4096 are set, and nothing else is. -/
def LoadsListed (vlans : Bitmask) (items : Option (List Int32)) : Prop :=
  ∃ b, loadConfiguration vlans items = some b ∧
    ∀ n : ℕ, n ∈ members b ↔ n < 4096 ∧ (n : ℤ) ∈ (items.getD []).map Int32.toInt

/-- As 16 bits an id is out of the bitmask and not in the range of its test by mistake, or it is one of the list. -/
def ItemOk (items : List Int32) (item : Int32) : Prop :=
  ¬ (4096 ≤ (vlanId item).toNat ∧ (vlanId item).toNat < 16384) ∧
    ((vlanId item).toNat < 4096 → ((vlanId item).toNat : ℤ) ∈ items.map Int32.toInt)

def InWords (item : Int32) : Prop := ¬ (4096 ≤ (vlanId item).toNat ∧ (vlanId item).toNat < 16384)

section

variable {vlans : Bitmask}

theorem safe_vlan (h : vlans.totElems = 4096) {v : UInt16} :
    SafeAt vlans.totElems v.toUInt32 ↔ ¬ (4096 ≤ v.toNat ∧ v.toNat < 16384) := by
  have hsize : (4096 : UInt32).toNat = 4096 := rfl
  rw [SafeAt, h, hsize, UInt16.toNat_toUInt32]
  omega

/-- One item of the loop. -/
theorem loadItems_cons (h : vlans.totElems = 4096) {item : Int32} (hitem : InWords item) (items : List Int32) :
    ∃ b, loadItems vlans (item :: items) = loadItems b items ∧ b.totElems = 4096 ∧
      ∀ n, n ∈ members b ↔ n ∈ members vlans ∨ n < 4096 ∧ (vlanId item).toNat = n := by
  have hsafe := (safe_vlan h).mpr hitem
  have hsize : vlans.totElems.toNat = 4096 := congrArg UInt32.toNat h
  by_cases hskip : vlanId item = 0xFFFF
  · refine ⟨vlans, by rw [loadItems, if_neg (not_not.mpr hskip)], h, fun n => ?_⟩
    refine (or_iff_left ?_).symm
    rintro ⟨hn, rfl⟩
    rw [hskip] at hn
    exact absurd hn (by decide)
  · by_cases hmem : (vlanId item).toUInt32.toNat ∈ members vlans
    · refine ⟨vlans, ?_, h, fun n => ?_⟩
      · rw [loadItems, if_pos hskip, bitmaskIsset_some hsafe, Option.bind_some, decide_eq_true hmem]
        rfl
      · rw [UInt16.toNat_toUInt32] at hmem
        refine (or_iff_left_of_imp ?_).symm
        rintro ⟨-, rfl⟩
        exact hmem
    · obtain ⟨b, hb, htot, hmembers⟩ := bitmaskSet_some hsafe
      refine ⟨b, ?_, htot.trans h, fun n => ?_⟩
      · rw [loadItems, if_pos hskip, bitmaskIsset_some hsafe, Option.bind_some, decide_eq_false hmem, hb]
        rfl
      · rw [hmembers, change, hsize, UInt16.toNat_toUInt32]
        by_cases hlt : (vlanId item).toNat < 4096
        · rw [if_pos hlt, Finset.mem_insert, or_comm, eq_comm]
          refine or_congr_right (and_iff_right_of_imp ?_).symm
          rintro rfl
          exact hlt
        · rw [if_neg hlt]
          refine (or_iff_left ?_).symm
          rintro ⟨hn, rfl⟩
          exact hlt hn

theorem loadItems_some (h : vlans.totElems = 4096) {items : List Int32} (hitems : ∀ item ∈ items, InWords item) :
    ∃ b, loadItems vlans items = some b ∧ ∀ n, n ∈ members b ↔
      n ∈ members vlans ∨ n < 4096 ∧ ∃ item ∈ items, (vlanId item).toNat = n := by
  induction items generalizing vlans with
  | nil => exact ⟨vlans, rfl, fun n => by simp⟩
  | cons item items ih =>
    rw [List.forall_mem_cons] at hitems
    obtain ⟨b, hcons, htot, hone⟩ := loadItems_cons h hitems.1 items
    obtain ⟨c, hload, hall⟩ := ih htot hitems.2
    refine ⟨c, hcons.trans hload, fun n => ?_⟩
    rw [hall, hone, List.exists_mem_cons_iff, and_or_left, or_assoc]

theorem loadItems_none (h : vlans.totElems = 4096) {items : List Int32} (hitems : ∃ item ∈ items, ¬ InWords item) :
    loadItems vlans items = none := by
  induction items generalizing vlans with
  | nil =>
    obtain ⟨item, hmem, -⟩ := hitems
    cases hmem
  | cons item items ih =>
    by_cases hitem : InWords item
    · rw [List.exists_mem_cons_iff, or_iff_right (not_not.mpr hitem)] at hitems
      obtain ⟨b, hcons, htot, -⟩ := loadItems_cons h hitem items
      rw [hcons, ih htot hitems]
    · have hskip : vlanId item ≠ 0xFFFF := by
        intro hskip
        rw [InWords, hskip, not_not] at hitem
        exact absurd hitem (by decide)
      obtain ⟨hin, hnone⟩ := not_safeAt fun hsafe => hitem ((safe_vlan h).mp hsafe)
      rw [loadItems, if_pos hskip, Bitmask.bitmaskIsset, if_neg hin, hnone]
      rfl

theorem vlanId_toNat (item : Int32) : (vlanId item).toNat = (item.toInt % 65536).toNat := by
  have hnat := toNat_toUInt32 item
  rw [vlanId, UInt32.toNat_toUInt16]
  omega

theorem vlanId_of_listed {item : Int32} {n : ℕ} (h : item.toInt = n) (hn : n < 4096) : (vlanId item).toNat = n := by
  rw [vlanId_toNat, h]
  omega

theorem loads_iff (h : vlans.totElems = 4096) (items : Option (List Int32)) :
    LoadsListed vlans items ↔ ∀ item ∈ items.getD [], ItemOk (items.getD []) item := by
  have hclear : vlans.bitmaskClrAll.totElems = 4096 := h
  have hload : loadConfiguration vlans items = loadItems vlans.bitmaskClrAll (items.getD []) := by
    cases items <;> rfl
  rw [LoadsListed, hload]
  generalize items.getD [] = l
  constructor
  · rintro ⟨b, hb, hset⟩ item hitem
    have hall : ∀ item ∈ l, InWords item := by
      intro item hitem
      by_contra hout
      rw [loadItems_none hclear ⟨item, hitem, hout⟩] at hb
      cases hb
    obtain ⟨c, hc, hmem⟩ := loadItems_some hclear hall
    obtain rfl : b = c := Option.some.inj (hb.symm.trans hc)
    refine ⟨hall item hitem, fun hlt => ?_⟩
    exact ((hset _).mp ((hmem _).mpr (.inr ⟨hlt, item, hitem, rfl⟩))).2
  · intro hok
    obtain ⟨b, hb, hmem⟩ := loadItems_some hclear fun item hitem => (hok item hitem).1
    refine ⟨b, hb, fun n => ?_⟩
    rw [hmem, members_clrAll, or_iff_right (Finset.notMem_empty n)]
    refine and_congr_right fun hn => ?_
    constructor
    · rintro ⟨item, hitem, rfl⟩
      exact (hok item hitem).2 hn
    · intro hlisted
      obtain ⟨item, hitem, hv⟩ := List.mem_map.mp hlisted
      exact ⟨item, hitem, vlanId_of_listed hv hn⟩

end

/-! ## The result -/

theorem bitmask_law {size : UInt32} {b : Bitmask} (hnew : Bitmask.new size = some b) (ops : List Op) {vlans : Bitmask}
    (h : vlans.totElems = 4096) (items : Option (List Int32)) :
    (Agrees b ops ↔ ∀ op ∈ ops, Safe size op) ∧
    (LoadsListed vlans items ↔ ∀ item ∈ items.getD [], ItemOk (items.getD []) item) :=
  ⟨(members_new hnew).1 ▸ agrees_iff ops, loads_iff h items⟩

def vlanMask : Bitmask := (Bitmask.new 4096).get (by decide)

theorem bitmask_law_vlans :
    (Agrees vlanMask [.setBit 5, .isSetBit 5] ↔ ∀ op ∈ [Op.setBit 5, .isSetBit 5], Safe 4096 op) ∧
    (LoadsListed vlanMask (some [1, 2]) ↔ ∀ item ∈ [1, 2], ItemOk [1, 2] item) :=
  bitmask_law (Option.some_get _).symm [.setBit 5, .isSetBit 5] rfl (some [1, 2])

/-- Position 4096 of a bitmask of 4096 bits is written behind the 512 bytes, and so is VLAN 5000 of a list. -/
theorem written_outside :
    ¬ Agrees vlanMask [.setBit 4096] ∧ ¬ LoadsListed vlanMask (some [5000]) := by
  constructor
  · rintro ⟨b, rs, hrun, -⟩
    have hout : ¬ Safe vlanMask.totElems (.setBit 4096) := show ¬ SafeAt 4096 4096 by decide
    rw [run, call_none hout] at hrun
    cases hrun
  · rw [loads_iff rfl]
    intro h
    exact absurd (h 5000 (List.mem_singleton_self _)).1 (by decide)

end Ntopng.Flows.VlanBidirectional
