/-
  Ntopng.Protocols.IecTypeIds — the type ids that the check of unexpected IEC 60870-5-104 type ids allows
  (src/flow_checks/IECUnexpectedTypeId.cpp, `Prefs::setIEC104AllowedTypeIDs` in src/Prefs.cpp).

  The ids are what `json_object_get_int` gives of the items of the configuration. They are printed, as unsigned
  numbers, into a buffer of 512 bytes on the stack, and read again. `none` is a write outside the buffer, or
  a shift by a negative amount.

  Proved (`iec_law`): exactly the configured ids from 0 to 127 are allowed, whatever was before, exactly if the
  printed list has at most 511 characters and the numbers in it, the last digit of a list of 511 not
  counted, are below 2^31 and have the same ids below 128.
-/

import Ntopng.Lib.Bits
import Ntopng.Lib.Printed

namespace Ntopng.Protocols.IecTypeIds

open Ntopng.Lib.Bits Ntopng.Lib.CString Ntopng.Lib.CNumber Ntopng.Lib.Printed

/-! ## The allowed ids -/

/-- `iec104_allowed_typeids` -/
structure TypeIds where
  word0 : BitVec 64
  word1 : BitVec 64

/-- `((u_int64_t)1 << n)` -/
def bit (n : ℤ) : Option (BitVec 64) := if 0 ≤ n ∧ n < 64 then some (1#64 <<< n.toNat) else none

def allow (w : TypeIds) (typeId : ℤ) : Option TypeIds :=
  if typeId < 64 then (bit typeId).map fun b => { w with word0 := w.word0 ||| b }
  else if typeId < 128 then (bit (typeId - 64)).map fun b => { w with word1 := w.word1 ||| b }
  else some w

def allowAll (w : TypeIds) : List (List UInt8) → Option TypeIds
  | [] => some w
  | p :: ps => (allow w (atoi p)).bind fun w => allowAll w ps

/-- `strdup` has memory. What was allowed before does not matter. -/
def setIEC104AllowedTypeIDs (typeIds : List UInt8) : Option TypeIds :=
  if typeIds = text "-1" then some ⟨BitVec.allOnes 64, BitVec.allOnes 64⟩
  else allowAll ⟨0, 0⟩ (items (ch ',') typeIds [])

/-! ## The list -/

def snprintf (str : Mem) (p size : ℕ) (s : List UInt8) : Option Mem :=
  if size = 0 then some str else storeAll str p (s.take (size - 1) ++ [0])

/-- `sizeof(str) - idx - 1`, of type `size_t` -/
def room (idx : ℕ) : ℕ := (2 ^ 64 + 511 - idx) % 2 ^ 64

/-- What is printed of an item. -/
def piece (first : Bool) (id : Int32) : List UInt8 := (if first then [] else [ch ',']) ++ digits id.toUInt32.toNat

/-- `snprintf` returns how long the text is; that is never 0. -/
def printItems (str : Mem) (idx : ℕ) (first : Bool) : List Int32 → Option (Mem × ℕ)
  | [] => some (str, idx)
  | id :: items =>
    (snprintf str idx (room idx) (piece first id)).bind fun str =>
      if (piece first id).length > 0 then printItems str (idx + (piece first id).length) false items else some (str, idx)

/-- The configuration has `items`, or it has not. `str` is what is on the stack. -/
def loadConfiguration (w : TypeIds) (str : Mem) (config : Option (List Int32)) : Option TypeIds :=
  match config with
  | some items =>
    (printItems str 0 true items).bind fun r => (store r.1 r.2 0).bind fun str => (cstr str 0).bind setIEC104AllowedTypeIDs
  | none => some w

/-! ## What is to be allowed -/

def isAllowed (w : TypeIds) (t : ℕ) : Bool := if t < 64 then w.word0.getLsbD t else w.word1.getLsbD (t - 64)

/-- The configured ids from 0 to 127 are allowed, and no others. -/
def AllowsListed (w : TypeIds) (str : Mem) (ids : List Int32) : Prop :=
  ∃ w', loadConfiguration w str (some ids) = some w' ∧ ∀ t < 128, isAllowed w' t ↔ (t : ℤ) ∈ ids.map Int32.toInt

/-- The printed list. -/
def listText : (first : Bool) → List Int32 → List UInt8
  | _, [] => []
  | first, id :: ids => piece first id ++ listText false ids

def numbers (ids : List Int32) : List ℕ := ids.map fun id => id.toUInt32.toNat

/-- The numbers without the last digit of the last one. -/
def withoutLastDigit (ns : List ℕ) : List ℕ :=
  match ns.getLast? with
  | some n => ns.dropLast ++ if n < 10 then [] else [n / 10]
  | none => []

/-- The numbers that are in the buffer. -/
def kept (ids : List Int32) : List ℕ :=
  if (listText true ids).length = 511 then withoutLastDigit (numbers ids) else numbers ids

def Kept (ids : List Int32) : Prop :=
  (listText true ids).length ≤ 511 ∧ (∀ n ∈ kept ids, n < 2 ^ 31) ∧
    ∀ t < 128, t ∈ kept ids ↔ (t : ℤ) ∈ ids.map Int32.toInt

/-! ## Reading the list -/

variable {w w' : TypeIds} {t : ℕ}

theorem allow_neg {typeId : ℤ} (h : typeId < 0) : allow w typeId = none := by
  rw [allow, if_pos (by omega), bit, if_neg (by omega)]
  rfl

theorem bit_some {n : ℤ} (h : 0 ≤ n ∧ n < 64) : bit n = some (1#64 <<< n.toNat) := if_pos h

theorem isAllowed_allow {typeId : ℤ} (h : 0 ≤ typeId) :
    ∃ w', allow w typeId = some w' ∧ ∀ t < 128, isAllowed w' t ↔ isAllowed w t ∨ (t : ℤ) = typeId := by
  obtain ⟨n, rfl⟩ := Int.eq_ofNat_of_zero_le h
  rw [allow]
  by_cases h64 : (n : ℤ) < 64
  · rw [if_pos h64, bit_some ⟨h, h64⟩]
    refine ⟨_, rfl, fun t ht => ?_⟩
    rw [isAllowed, isAllowed, Int.toNat_natCast]
    by_cases hlow : t < 64
    · rw [if_pos hlow, if_pos hlow, getLsbD_or_bit hlow, Nat.cast_inj]
    · rw [if_neg hlow, if_neg hlow]
      refine (or_iff_left ?_).symm
      omega
  · rw [if_neg h64]
    by_cases h128 : (n : ℤ) < 128
    · rw [if_pos h128, bit_some (by omega)]
      refine ⟨_, rfl, fun t ht => ?_⟩
      rw [isAllowed, isAllowed]
      by_cases hlow : t < 64
      · rw [if_pos hlow, if_pos hlow]
        refine (or_iff_left ?_).symm
        omega
      · rw [if_neg hlow, if_neg hlow, getLsbD_or_bit (by omega)]
        refine or_congr_right ?_
        omega
    · rw [if_neg h128]
      refine ⟨w, rfl, fun t ht => (or_iff_left ?_).symm⟩
      omega

theorem allowAll_some {ps : List (List UInt8)} (h : ∀ p ∈ ps, 0 ≤ atoi p) : ∃ w', allowAll w ps = some w' ∧
    ∀ t < 128, isAllowed w' t ↔ isAllowed w t ∨ (t : ℤ) ∈ ps.map atoi := by
  induction ps generalizing w with
  | nil => exact ⟨w, rfl, fun t ht => by simp⟩
  | cons p ps ih =>
    rw [List.forall_mem_cons] at h
    obtain ⟨w', hw', hone⟩ := isAllowed_allow (w := w) h.1
    obtain ⟨w'', hw'', hall⟩ := ih (w := w') h.2
    refine ⟨w'', ?_, fun t ht => ?_⟩
    · rw [allowAll, hw', Option.bind_some, hw'']
    · rw [hall t ht, hone t ht, or_assoc, List.map_cons, List.mem_cons]

theorem allowAll_none {ps : List (List UInt8)} (h : ∃ p ∈ ps, atoi p < 0) : allowAll w ps = none := by
  induction ps generalizing w with
  | nil =>
    obtain ⟨p, hp, -⟩ := h
    cases hp
  | cons p ps ih =>
    rw [allowAll]
    rcases lt_or_ge (atoi p) 0 with hneg | hpos
    · rw [allow_neg hneg, Option.bind_none]
    · obtain ⟨w', hw', -⟩ := isAllowed_allow (w := w) hpos
      rw [List.exists_mem_cons_iff, or_iff_right (not_lt.mpr hpos)] at h
      rw [hw', Option.bind_some, ih h]

/-- What the numbers of a list allow. -/
theorem setIEC_iff {typeIds : List UInt8} {ns : List ℕ} (hne : typeIds ≠ text "-1")
    (hitems : items (ch ',') typeIds [] = ns.map digits) (hns : ∀ n ∈ ns, n < 2 ^ 32) (ids : List Int32) :
    (∃ w', setIEC104AllowedTypeIDs typeIds = some w' ∧ ∀ t < 128, isAllowed w' t ↔ (t : ℤ) ∈ ids.map Int32.toInt) ↔
      (∀ n ∈ ns, n < 2 ^ 31) ∧ ∀ t < 128, t ∈ ns ↔ (t : ℤ) ∈ ids.map Int32.toInt := by
  have hatoi : ∀ n ∈ ns, atoi (digits n) = Int.bmod n (2 ^ 32) := fun n hn =>
    atoi_digits ((hns n hn).trans (by decide))
  rw [setIEC104AllowedTypeIDs, if_neg hne, hitems]
  by_cases hsmall : ∀ n ∈ ns, n < 2 ^ 31
  · have hread : (ns.map digits).map atoi = ns.map (Nat.cast : ℕ → ℤ) := by
      rw [List.map_map]
      refine List.map_congr_left fun n hn => ?_
      have hlt := hsmall n hn
      rw [Function.comp_apply, hatoi n hn, Int.bmod_eq_of_le] <;> omega
    have hpos : ∀ p ∈ ns.map digits, 0 ≤ atoi p := by
      intro p hp
      have hmem := List.mem_map_of_mem (f := atoi) hp
      rw [hread] at hmem
      obtain ⟨n, -, hn⟩ := List.mem_map.mp hmem
      omega
    obtain ⟨w', hw', hall⟩ := allowAll_some (w := ⟨0, 0⟩) hpos
    have hmem : ∀ t < 128, isAllowed w' t ↔ t ∈ ns := by
      intro t ht
      have hzero : isAllowed ⟨0, 0⟩ t = false := by simp [isAllowed]
      rw [hall t ht, hzero, hread, or_iff_right Bool.false_ne_true, List.mem_map_of_injective Nat.cast_injective]
    rw [and_iff_right hsmall]
    constructor
    · rintro ⟨w'', hw'', hids⟩ t ht
      obtain rfl := Option.some.inj (hw'.symm.trans hw'')
      rw [← hmem t ht, hids t ht]
    · intro hids
      exact ⟨w', hw', fun t ht => (hmem t ht).trans (hids t ht)⟩
  · refine iff_of_false ?_ fun h => hsmall h.1
    rintro ⟨w', hw', -⟩
    obtain ⟨n, hn⟩ := not_forall.mp hsmall
    rw [Classical.not_imp] at hn
    rw [allowAll_none ⟨digits n, List.mem_map_of_mem hn.1, ?_⟩] at hw'
    · cases hw'
    · have hlt := hns n hn.1
      rw [hatoi n hn.1, Int.bmod]
      omega

/-! ## The text of the list -/

variable {ids : List Int32} {id : Int32} {first : Bool} {str : Mem} {idx : ℕ} {s a r : List UInt8} {c : UInt8}

theorem lt_of_mem_numbers (ids : List Int32) : ∀ n ∈ numbers ids, n < 2 ^ 32 := by
  intro n hn
  obtain ⟨id, -, rfl⟩ := List.mem_map.mp hn
  exact id.toUInt32.toNat_lt

theorem mem_listText (h : c ∈ listText first ids) : c = ch ',' ∨ isDigit c := by
  induction ids generalizing first with
  | nil => cases h
  | cons id ids ih =>
    rw [listText, piece] at h
    rcases List.mem_append.mp h with h | h
    · rcases List.mem_append.mp h with h | h
      · cases first with
        | true => cases h
        | false => exact .inl (List.mem_singleton.mp h)
      · exact .inr (isDigit_digits _ c h)
    · exact ih h

theorem not_mem_listText (hc : c ≠ ch ',') (hd : isDigit c = false) : c ∉ listText first ids := by
  intro h
  rcases mem_listText h with h | h
  · exact hc h
  · rw [h] at hd
    cases hd

theorem comma_not_mem (n : ℕ) : ch ',' ∉ digits n := not_mem_digits (by decide) n

theorem items_tail {item : List UInt8} (h : item ≠ []) (ids : List Int32) :
    items (ch ',') (listText false ids) item = item :: (numbers ids).map digits := by
  induction ids generalizing item with
  | nil => exact if_neg h
  | cons id ids ih =>
    have hpiece : listText false (id :: ids) = ch ',' :: (digits id.toUInt32.toNat ++ listText false ids) := rfl
    rw [hpiece, items, if_pos rfl, if_neg h, items_word (comma_not_mem _), List.nil_append, ih (digits_ne_nil _)]
    rfl

theorem items_listText (ids : List Int32) : items (ch ',') (listText true ids) [] = (numbers ids).map digits := by
  cases ids with
  | nil => rfl
  | cons id ids =>
    have hpiece : listText true (id :: ids) = digits id.toUInt32.toNat ++ listText false ids := rfl
    rw [hpiece, items_word (comma_not_mem _), List.nil_append, items_tail (digits_ne_nil _)]
    rfl

theorem listText_cons (first : Bool) (id : Int32) (ids : List Int32) :
    listText first (id :: ids) = piece first id ++ listText false ids := rfl

theorem listText_ne_nil (first : Bool) (id : Int32) (ids : List Int32) : listText first (id :: ids) ≠ [] := by
  intro h
  rw [listText, piece] at h
  exact digits_ne_nil _ (List.append_eq_nil_iff.mp (List.append_eq_nil_iff.mp h).1).2

theorem withoutLastDigit_cons {n : ℕ} {ns : List ℕ} (h : ns ≠ []) : withoutLastDigit (n :: ns) = n :: withoutLastDigit ns := by
  obtain ⟨m, ms, rfl⟩ := List.exists_cons_of_ne_nil h
  rw [withoutLastDigit, withoutLastDigit, List.getLast?_cons_cons, List.getLast?_eq_some_getLast h]
  rfl

theorem withoutLastDigit_numbers (id id' : Int32) (ids : List Int32) :
    withoutLastDigit (numbers (id :: id' :: ids)) = id.toUInt32.toNat :: withoutLastDigit (numbers (id' :: ids)) :=
  withoutLastDigit_cons (List.cons_ne_nil _ _)

theorem withoutLastDigit_singleton (n : ℕ) : withoutLastDigit [n] = if n < 10 then [] else [n / 10] := rfl

/-- Without its last byte the list has the last digit of its last number not. -/
theorem items_tail_dropLast {item : List UInt8} (h : item ≠ []) (hids : ids ≠ []) :
    items (ch ',') (listText false ids).dropLast item = item :: (withoutLastDigit (numbers ids)).map digits := by
  induction ids generalizing item with
  | nil => exact absurd rfl hids
  | cons id ids ih =>
    have hpiece : listText false (id :: ids) = ch ',' :: (digits id.toUInt32.toNat ++ listText false ids) := rfl
    cases ids with
    | nil =>
      have hone : numbers [id] = [id.toUInt32.toNat] := rfl
      rw [hpiece, listText, List.append_nil, List.dropLast_cons_of_ne_nil (digits_ne_nil _), digits_dropLast, items, if_pos rfl,
        if_neg h, hone, withoutLastDigit_singleton]
      split
      · rfl
      · rw [← List.append_nil (digits _), items_word (comma_not_mem _), List.nil_append, items, if_neg (digits_ne_nil _)]
        rfl
    | cons id' ids =>
      rw [hpiece, List.dropLast_cons_of_ne_nil (by simp [digits_ne_nil]),
        List.dropLast_append_of_ne_nil (listText_ne_nil _ _ _), items, if_pos rfl, if_neg h, items_word (comma_not_mem _),
        List.nil_append, ih (digits_ne_nil _) (List.cons_ne_nil _ _), withoutLastDigit_numbers]
      rfl

theorem length_piece (first : Bool) (id : Int32) : 0 < (piece first id).length ∧ (piece first id).length ≤ 11 := by
  have hlt := id.toUInt32.toNat_lt
  have hlen := length_digits (n := id.toUInt32.toNat) (by omega)
  have hpos := List.length_pos_iff.mpr (digits_ne_nil id.toUInt32.toNat)
  rw [piece, List.length_append]
  cases first
  · rw [if_neg Bool.false_ne_true, List.length_singleton]
    omega
  · rw [if_pos rfl, List.length_nil]
    omega

theorem items_dropLast (h : 12 ≤ (listText true ids).length) :
    items (ch ',') (listText true ids).dropLast [] = (withoutLastDigit (numbers ids)).map digits := by
  rcases ids with _ | ⟨id, _ | ⟨id', ids⟩⟩
  · exact absurd h (by decide)
  · have hpiece := length_piece true id
    rw [listText_cons, List.length_append, listText, List.length_nil] at h
    omega
  · have hpiece : piece true id = digits id.toUInt32.toNat := rfl
    rw [listText_cons, hpiece, List.dropLast_append_of_ne_nil (listText_ne_nil _ _ _), items_word (comma_not_mem _),
      List.nil_append, items_tail_dropLast (digits_ne_nil _) (List.cons_ne_nil _ _), withoutLastDigit_numbers]
    rfl

theorem lt_of_mem_withoutLastDigit {ns : List ℕ} (h : ∀ n ∈ ns, n < 2 ^ 32) : ∀ n ∈ withoutLastDigit ns, n < 2 ^ 32 := by
  intro n hn
  rw [withoutLastDigit] at hn
  split at hn
  next m hm =>
    rcases List.mem_append.mp hn with hn | hn
    · exact h n (List.mem_of_mem_dropLast hn)
    · have hlt := h m (List.mem_of_mem_getLast? hm)
      split at hn
      · cases hn
      · rw [List.mem_singleton.mp hn]
        omega
  · cases hn

/-! ## Printing the list -/

theorem room_eq (h : idx ≤ 511) : room idx = 511 - idx := by
  rw [room]
  omega

theorem room_ne_zero (h : 512 ≤ idx) (h' : idx ≤ 522) : room idx ≠ 0 := by
  rw [room]
  omega

theorem storeAll_out (h : str.length ≤ idx) (hs : s ≠ []) : storeAll str idx s = none := by
  obtain ⟨c, s, rfl⟩ := List.exists_cons_of_ne_nil hs
  rw [storeAll, store_none h, Option.bind_none]

/-- Printing the items from `idx` on, and the 0 behind them. -/
def finish (str : Mem) (idx : ℕ) (first : Bool) (ids : List Int32) : Option Mem :=
  (printItems str idx first ids).bind fun r => store r.1 r.2 0

theorem finish_cons (str : Mem) (idx : ℕ) (first : Bool) (id : Int32) (ids : List Int32) :
    finish str idx first (id :: ids) = (snprintf str idx (room idx) (piece first id)).bind fun str =>
      finish str (idx + (piece first id).length) false ids := by
  rw [finish, printItems]
  cases snprintf str idx (room idx) (piece first id) with
  | none => rfl
  | some str =>
    rw [Option.bind_some, if_pos (length_piece first id).1]
    rfl

/-- Behind the buffer something is always written. -/
theorem finish_out (hstr : str.length = 512) (h : 512 ≤ idx) (h' : idx ≤ 522) : finish str idx first ids = none := by
  cases ids with
  | nil => exact store_none (show str.length ≤ idx by omega) 0
  | cons id ids => rw [finish_cons, snprintf, if_neg (room_ne_zero h h'), storeAll_out (by omega) (by simp), Option.bind_none]

theorem finish_full (hstr : str.length = 512) (hids : ids ≠ []) : finish str 511 first ids = none := by
  obtain ⟨id, ids, rfl⟩ := List.exists_cons_of_ne_nil hids
  have hlen := length_piece first id
  rw [finish_cons, snprintf, if_pos (room_eq (le_refl _)), Option.bind_some, finish_out hstr (by omega) (by omega)]

/-- A text that does not fit is cut. -/
theorem snprintf_at (hlen : (a ++ r).length = 512) (ha : a.length ≤ 510) (s : List UInt8) :
    ∃ r', snprintf (a ++ r) a.length (room a.length) s = some (a ++ s.take (510 - a.length) ++ 0 :: r') ∧
      (a ++ s.take (510 - a.length) ++ 0 :: r').length = 512 := by
  rw [List.length_append] at hlen
  have hroom := room_eq (show a.length ≤ 511 by omega)
  have hfits : (s.take (510 - a.length) ++ [0]).length ≤ r.length := by
    rw [List.length_append, List.length_take, List.length_singleton]
    omega
  refine ⟨r.drop (s.take (510 - a.length) ++ [0]).length, ?_, ?_⟩
  · rw [snprintf, if_neg (by omega), hroom, show 511 - a.length - 1 = 510 - a.length by omega, storeAll_at rfl hfits]
    simp
  · have hdrop := List.length_drop (i := (s.take (510 - a.length) ++ [0]).length) (l := r)
    rw [List.length_append, List.length_append, List.length_cons, hdrop]
    rw [List.length_append, List.length_singleton] at hfits ⊢
    omega

theorem finish_fits (first : Bool) (ids : List Int32) (hlen : (a ++ r).length = 512) (h : a.length + (listText first ids).length ≤ 510) :
    ∃ r', finish (a ++ r) a.length first ids = some (a ++ listText first ids ++ 0 :: r') := by
  induction ids generalizing a r first with
  | nil =>
    rw [List.length_append] at hlen
    rw [listText, List.length_nil] at h
    obtain ⟨x, r, rfl⟩ := List.exists_cons_of_length_pos (l := r) (by omega)
    exact ⟨r, by rw [listText, List.append_nil]; exact store_at rfl 0⟩
  | cons id ids ih =>
    rw [listText, List.length_append] at h
    obtain ⟨r', hprint, hlen'⟩ := snprintf_at hlen (by omega) (piece first id)
    rw [List.take_of_length_le (by omega)] at hprint hlen'
    obtain ⟨r'', hrest⟩ := ih false hlen' (by rw [List.length_append]; omega)
    refine ⟨r'', ?_⟩
    rw [finish_cons, hprint, Option.bind_some, ← List.length_append, hrest, listText, List.append_assoc a]

theorem finish_cut (first : Bool) (ids : List Int32) (hlen : (a ++ r).length = 512)
    (h : a.length + (listText first ids).length = 511) (ha : a.length ≤ 510) :
    ∃ r', finish (a ++ r) a.length first ids = some (a ++ (listText first ids).dropLast ++ 0 :: r') := by
  induction ids generalizing a r first with
  | nil =>
    rw [listText, List.length_nil] at h
    omega
  | cons id ids ih =>
    rw [listText, List.length_append] at h
    obtain ⟨r', hprint, hlen'⟩ := snprintf_at hlen ha (piece first id)
    cases ids with
    | nil =>
      rw [listText, List.length_nil] at h
      have hcut : (piece first id).take (510 - a.length) = (piece first id).dropLast := by
        rw [List.dropLast_eq_take, show 510 - a.length = (piece first id).length - 1 by omega]
      rw [hcut] at hprint hlen'
      rw [List.length_append, List.length_append, List.length_dropLast, List.length_cons] at hlen'
      have hpos := (length_piece first id).1
      obtain ⟨x, rfl⟩ := List.length_eq_one_iff.mp (show r'.length = 1 by omega)
      have hstore : store (a ++ (piece first id).dropLast ++ [0] ++ [x]) (a.length + (piece first id).length) 0 =
          some (a ++ (piece first id).dropLast ++ [0] ++ [0]) := store_at (by simp; omega) 0
      have hlast : listText first [id] = piece first id := List.append_nil _
      rw [List.append_assoc _ [0] [x], List.append_assoc _ [0] [0]] at hstore
      exact ⟨[0], by rw [finish_cons, hprint, hlast]; exact hstore⟩
    | cons id' ids =>
      have hpos := List.length_pos_iff.mpr (listText_ne_nil false id' ids)
      rw [List.take_of_length_le (by omega)] at hprint hlen'
      obtain ⟨r'', hrest⟩ := ih false hlen' (by rw [List.length_append]; omega) (by rw [List.length_append]; omega)
      refine ⟨r'', ?_⟩
      rw [finish_cons, hprint, Option.bind_some, ← List.length_append, hrest, listText_cons first id,
        List.dropLast_append_of_ne_nil (listText_ne_nil _ _ _), List.append_assoc a]

theorem finish_none (first : Bool) (ids : List Int32) (hlen : (a ++ r).length = 512)
    (h : 512 ≤ a.length + (listText first ids).length) (ha : a.length ≤ 510) :
    finish (a ++ r) a.length first ids = none := by
  induction ids generalizing a r first with
  | nil =>
    rw [listText, List.length_nil] at h
    omega
  | cons id ids ih =>
    have hpiece := length_piece first id
    rw [listText, List.length_append] at h
    obtain ⟨r', hprint, hlen'⟩ := snprintf_at hlen ha (piece first id)
    rw [finish_cons, hprint, Option.bind_some]
    by_cases hfits : a.length + (piece first id).length ≤ 510
    · rw [List.take_of_length_le (by omega)] at hlen' ⊢
      rw [← List.length_append, ih false hlen' (by rw [List.length_append]; omega) (by rw [List.length_append]; omega)]
    · by_cases hfull : a.length + (piece first id).length = 511
      · rw [hfull, finish_full hlen']
        rintro rfl
        rw [listText, List.length_nil] at h
        omega
      · exact finish_out hlen' (by omega) (by omega)

/-! ## The result -/

theorem load_eq (w : TypeIds) (str : Mem) (ids : List Int32) : loadConfiguration w str (some ids) =
    (finish str 0 true ids).bind fun str => (cstr str 0).bind setIEC104AllowedTypeIDs := by
  rw [loadConfiguration, finish, Option.bind_assoc]

theorem load_of_finish {str : Mem} {u r : List UInt8} (h : finish str 0 true ids = some (u ++ 0 :: r)) (hu : 0 ∉ u)
    (w : TypeIds) : loadConfiguration w str (some ids) = setIEC104AllowedTypeIDs u := by
  rw [load_eq, h, Option.bind_some, cstr_drop (m := u ++ 0 :: r) (p := 0) rfl hu, Option.bind_some]

theorem zero_not_mem (first : Bool) (ids : List Int32) : 0 ∉ listText first ids := not_mem_listText (by decide) (by decide)

theorem text_ne (hsub : s ⊆ listText first ids) : s ≠ text "-1" := by
  rintro rfl
  exact not_mem_listText (by decide) (by decide) (hsub (show ch '-' ∈ text "-1" by decide))

theorem iec_law (w : TypeIds) (str : Mem) (hstr : str.length = 512) (ids : List Int32) : AllowsListed w str ids ↔ Kept ids := by
  have hmem : ([] ++ str).length = 512 := hstr
  rcases Nat.lt_trichotomy (listText true ids).length 511 with hlen | hlen | hlen
  · obtain ⟨r, hfinish⟩ := finish_fits (a := []) true ids hmem (by rw [List.length_nil]; omega)
    rw [List.nil_append, List.nil_append, List.length_nil] at hfinish
    rw [AllowsListed, load_of_finish hfinish (zero_not_mem _ _), setIEC_iff (text_ne (List.Subset.refl _)) (items_listText ids)
      (lt_of_mem_numbers ids), Kept, kept, if_neg (by omega), and_iff_right (show (listText true ids).length ≤ 511 by omega)]
  · obtain ⟨r, hfinish⟩ := finish_cut (a := []) true ids hmem (by rw [List.length_nil]; omega) (by simp)
    have hzero : 0 ∉ (listText true ids).dropLast := fun h => zero_not_mem _ _ (List.mem_of_mem_dropLast h)
    rw [List.nil_append, List.nil_append, List.length_nil] at hfinish
    rw [AllowsListed, load_of_finish hfinish hzero, setIEC_iff (text_ne (List.dropLast_subset _)) (items_dropLast (by omega))
      (lt_of_mem_withoutLastDigit (lt_of_mem_numbers ids)), Kept, kept, if_pos hlen, and_iff_right hlen.le]
  · have hfinish := finish_none (a := []) true ids hmem (by rw [List.length_nil]; omega) (by simp)
    rw [List.nil_append, List.length_nil] at hfinish
    refine iff_of_false ?_ fun h => absurd h.1 (by omega)
    rintro ⟨w', hload, -⟩
    rw [load_eq, hfinish] at hload
    cases hload

def stack : Mem := List.replicate 512 0

theorem iec_law_stack : stack.length = 512 ∧ (AllowsListed ⟨0, 0⟩ stack [9, 13, 36] ↔ Kept [9, 13, 36]) :=
  ⟨List.length_replicate, iec_law ⟨0, 0⟩ stack List.length_replicate [9, 13, 36]⟩

theorem length_le_listText (first : Bool) (ids : List Int32) : ids.length ≤ (listText first ids).length := by
  induction ids generalizing first with
  | nil => exact Nat.zero_le _
  | cons id ids ih =>
    have hpos := (length_piece first id).1
    have hrest := ih false
    rw [listText_cons, List.length_cons, List.length_append]
    omega

/-- A negative id is a negative shift, and a list of 512 ids is written outside the buffer. -/
theorem negative_or_long : ¬ AllowsListed ⟨0, 0⟩ stack [-1] ∧ ¬ AllowsListed ⟨0, 0⟩ stack (List.replicate 512 100) := by
  have hmem : ([] ++ stack).length = 512 := List.length_replicate
  constructor
  · obtain ⟨r, hfinish⟩ := finish_fits (a := []) true [-1] hmem (by decide)
    have hprint : finish stack 0 true [-1] = some (listText true [-1] ++ 0 :: r) := hfinish
    rw [AllowsListed, load_of_finish hprint (zero_not_mem _ _), setIEC_iff (text_ne (List.Subset.refl _))
      (items_listText [-1]) (lt_of_mem_numbers [-1])]
    intro h
    exact absurd (h.1 4294967295 (show 4294967295 ∈ numbers [-1] by decide)) (by decide)
  · have hlen := length_le_listText true (List.replicate 512 (100 : Int32))
    rw [List.length_replicate] at hlen
    generalize List.replicate 512 (100 : Int32) = ids at hlen ⊢
    have hfinish := finish_none (a := []) true ids hmem (by rw [List.length_nil]; omega) (by decide)
    have hprint : finish stack 0 true ids = none := hfinish
    rintro ⟨w', hload, -⟩
    rw [load_eq, hprint] at hload
    cases hload

end Ntopng.Protocols.IecTypeIds
