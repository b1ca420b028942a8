/-
  Ntopng.Lib.CString — strings that end with a NUL, in a memory of bytes.

  A pointer is an index into the memory, and `none` the NULL of a search or a read past the
  end of the memory, inside and outside of the result. Searches look at the string from the
  pointer to its NUL. Writing a NUL cuts the string it falls into.

  Proved: nothing is read past the end as long as a NUL lies ahead (`Terminated`), which no
  writing of NULs changes; and where a search ends once what lies ahead is known.
-/

import Mathlib

namespace Ntopng.Lib.CString

abbrev Mem := List UInt8

def ch (c : Char) : UInt8 := UInt8.ofNat c.toNat

def text (s : String) : List UInt8 := s.toList.map ch

def isSpace (c : UInt8) : Bool := c = ch ' ' || (9 ≤ c && c ≤ 13)

/-- Of a character of a text: no character above the bytes is a space. -/
def isspace (c : Char) : Bool := c.toNat < 256 && isSpace (ch c)

def toLower (c : UInt8) : UInt8 := if ch 'A' ≤ c ∧ c ≤ ch 'Z' then c + 32 else c

/-- The bytes before the NUL. -/
def scan : List UInt8 → Option (List UInt8)
  | [] => none
  | c :: s => if c = 0 then some [] else (scan s).map (c :: ·)

def cstr (m : Mem) (p : ℕ) : Option (List UInt8) := scan (m.drop p)

def strchr (m : Mem) (p : ℕ) (c : UInt8) : Option (Option ℕ) :=
  (cstr m p).map fun s => if c ∈ s then some (p + s.idxOf c) else none

/-- The last one. -/
def strrchr (m : Mem) (p : ℕ) (c : UInt8) : Option (Option ℕ) :=
  (cstr m p).map fun s => if c ∈ s then some (p + (s.length - 1 - s.reverse.idxOf c)) else none

def strstr (m : Mem) (p : ℕ) (needle : List UInt8) : Option (Option ℕ) :=
  (cstr m p).map fun s => (s.tails.findIdx? fun t => needle.isPrefixOf t).map (p + ·)

def store (m : Mem) (i : ℕ) (v : UInt8) : Option Mem := if i < m.length then some (m.set i v) else none

def storeAll (m : Mem) (i : ℕ) : List UInt8 → Option Mem
  | [] => some m
  | v :: s => (store m i v).bind fun m => storeAll m (i + 1) s

def cut (m : Mem) (p : ℕ) : Mem := m.set p 0

/-- A function on the bytes of a string, in place. -/
def mapString (m : Mem) (p : ℕ) (f : UInt8 → UInt8) : Option Mem :=
  (cstr m p).map fun s => m.take p ++ s.map f ++ m.drop (p + s.length)

/-- The reads succeed, with `P` of what they give. -/
def Reads {α : Type} (x : Option α) (P : α → Prop) : Prop := ∃ a, x = some a ∧ P a

/-- A NUL lies ahead. -/
def Terminated (m : Mem) (p : ℕ) : Prop := ∃ i, p ≤ i ∧ m[i]? = some 0

/-- What holds of the 256 bytes one by one, each given by its two hexadecimal digits. -/
theorem forall_byte {P : UInt8 → Prop} (h : ∀ m < 16, ∀ n < 16, P (UInt8.ofNat (m * 16 + n))) (c : UInt8) : P c := by
  have hc := c.toNat_lt
  have := h (c.toNat / 16) (by omega) (c.toNat % 16) (by omega)
  rw [show c.toNat / 16 * 16 + c.toNat % 16 = c.toNat from by omega, UInt8.ofNat_toNat] at this
  exact this

theorem isspace_le {c : Char} (h : isspace c) : c.toNat ≤ 32 := by
  have all : ∀ b, isSpace b → b.toNat ≤ 32 := forall_byte (by decide)
  rw [isspace, Bool.and_eq_true, decide_eq_true_eq] at h
  have hc := all (ch c) h.2
  rwa [ch, UInt8.toNat_ofNat', Nat.mod_eq_of_lt h.1] at hc

/-! ## Reads -/

section Reads

variable {α β : Type} {P : α → Prop} {Q : β → Prop} {x : Option α}

theorem reads_some {a : α} (h : P a) : Reads (some a) P := ⟨a, rfl, h⟩

theorem Reads.bind {f : α → Option β} (hx : Reads x P) (hf : ∀ a, P a → Reads (f a) Q) : Reads (x.bind f) Q := by
  obtain ⟨a, rfl, ha⟩ := hx
  exact hf a ha

theorem Reads.map {f : α → β} (hx : Reads x P) (hf : ∀ a, P a → Q (f a)) : Reads (x.map f) Q := by
  obtain ⟨a, rfl, ha⟩ := hx
  exact ⟨f a, rfl, hf a ha⟩

theorem Reads.mono {P' : α → Prop} (hx : Reads x P) (h : ∀ a, P a → P' a) : Reads x P' := by
  obtain ⟨a, rfl, ha⟩ := hx
  exact reads_some (h a ha)

end Reads

/-! ## Scanning -/

theorem scan_append {s : List UInt8} (h : 0 ∉ s) (r : List UInt8) : scan (s ++ 0 :: r) = some s := by
  induction s with
  | nil => rfl
  | cons c s ih =>
    rw [List.mem_cons, not_or] at h
    rw [List.cons_append, scan, if_neg (Ne.symm h.1), ih h.2]
    rfl

theorem scan_some {l : List UInt8} (h : 0 ∈ l) : ∃ s, scan l = some s ∧ 0 ∉ s ∧ ∃ r, l = s ++ 0 :: r := by
  induction l with
  | nil => cases h
  | cons c l ih =>
    by_cases hc : c = 0
    · subst hc
      exact ⟨[], by rw [scan, if_pos rfl], List.not_mem_nil, l, rfl⟩
    · obtain ⟨s, hs, hn, r, hr⟩ := ih (List.mem_of_ne_of_mem (Ne.symm hc) h)
      refine ⟨c :: s, ?_, ?_, r, by rw [hr, List.cons_append]⟩
      · rw [scan, if_neg hc, hs]
        rfl
      · rw [List.mem_cons, not_or]
        exact ⟨Ne.symm hc, hn⟩

/-! ## Terminated memory -/

variable {m : Mem} {p q : ℕ}

theorem Terminated.mono (h : Terminated m q) (hpq : p ≤ q) : Terminated m p := by
  obtain ⟨i, hi, h0⟩ := h
  exact ⟨i, Nat.le_trans hpq hi, h0⟩

theorem terminated_iff : Terminated m p ↔ 0 ∈ m.drop p := by
  rw [List.mem_iff_getElem?]
  constructor
  · rintro ⟨i, hi, h0⟩
    refine ⟨i - p, ?_⟩
    rw [List.getElem?_drop, Nat.add_sub_cancel' hi, h0]
  · rintro ⟨i, h0⟩
    rw [List.getElem?_drop] at h0
    exact ⟨p + i, Nat.le_add_right p i, h0⟩

theorem Terminated.cut (h : Terminated m p) (q : ℕ) : Terminated (cut m q) p := by
  obtain ⟨i, hi, h0⟩ := h
  refine ⟨i, hi, ?_⟩
  unfold CString.cut
  rw [List.getElem?_set]
  split
  · have hlt : i < m.length := (List.getElem?_eq_some_iff.mp h0).1
    rename_i hq
    rw [if_pos (hq ▸ hlt)]
  · exact h0

theorem cstr_some (h : Terminated m p) : Reads (cstr m p) fun s => 0 ∉ s ∧ m[p + s.length]? = some 0 := by
  obtain ⟨s, hs, hn, r, hr⟩ := scan_some (terminated_iff.mp h)
  refine ⟨s, hs, hn, ?_⟩
  rw [← List.getElem?_drop, hr, List.getElem?_append_right (Nat.le_refl _), Nat.sub_self]
  rfl

/-- The byte at the pointer can be read, and unless it is the NUL the string goes on. -/
theorem Terminated.get (h : Terminated m p) : Reads m[p]? fun c => c ≠ 0 → Terminated m (p + 1) := by
  obtain ⟨i, hi, h0⟩ := h
  have hlt : i < m.length := (List.getElem?_eq_some_iff.mp h0).1
  refine ⟨m[p], List.getElem?_eq_getElem (by omega), fun hc => ⟨i, ?_, h0⟩⟩
  refine Nat.lt_of_le_of_ne hi ?_
  rintro rfl
  rw [List.getElem?_eq_getElem hlt] at h0
  exact hc (Option.some.inj h0)

/-- What a search finds lies in the string, so the NUL is still ahead, also behind the byte found. -/
theorem strchr_some (h : Terminated m p) (c : UInt8) :
    Reads (strchr m p c) fun r => ∀ i, r = some i → p ≤ i ∧ Terminated m (i + 1) := by
  obtain ⟨s, hs, -, h0⟩ := cstr_some h
  unfold strchr
  rw [hs, Option.map_some]
  refine ⟨_, rfl, fun i hi => ?_⟩
  split at hi
  · rename_i hc
    have := Option.some.inj hi
    have hlt := List.idxOf_lt_length_of_mem hc
    exact ⟨by omega, p + s.length, by omega, h0⟩
  · cases hi

theorem strrchr_some (h : Terminated m p) (c : UInt8) :
    Reads (strrchr m p c) fun r => ∀ i, r = some i → p ≤ i ∧ Terminated m (i + 1) := by
  obtain ⟨s, hs, -, h0⟩ := cstr_some h
  unfold strrchr
  rw [hs, Option.map_some]
  refine ⟨_, rfl, fun i hi => ?_⟩
  split at hi
  · rename_i hc
    have := Option.some.inj hi
    have hlt := List.length_pos_of_mem hc
    exact ⟨by omega, p + s.length, by omega, h0⟩
  · cases hi

theorem strstr_some (h : Terminated m p) (needle : List UInt8) :
    Reads (strstr m p needle) fun r => ∀ i, r = some i → p ≤ i ∧ Terminated m (i + needle.length) := by
  obtain ⟨s, hs, -, h0⟩ := cstr_some h
  unfold strstr
  rw [hs]
  refine ⟨_, rfl, fun i hi => ?_⟩
  obtain ⟨j, hj, rfl⟩ := Option.map_eq_some_iff.mp hi
  refine ⟨Nat.le_add_right p j, p + s.length, ?_, h0⟩
  obtain ⟨hlt, hpre, -⟩ := List.findIdx?_eq_some_iff_getElem.mp hj
  rw [List.getElem_tails, List.isPrefixOf_iff_prefix] at hpre
  have hle := hpre.length_le
  rw [List.length_drop] at hle
  rw [List.length_tails] at hlt
  omega

/-- Only bytes other than NULs change. -/
theorem mapString_some (h : Terminated m p) (f : UInt8 → UInt8) :
    Reads (mapString m p f) fun m' => ∀ q, Terminated m q → Terminated m' q := by
  obtain ⟨s, hs, hn, r, hr⟩ := scan_some (terminated_iff.mp h)
  have hcs : cstr m p = some s := hs
  refine ⟨_, by rw [mapString, hcs, Option.map_some], ?_⟩
  rintro q ⟨i, hi, h0⟩
  refine ⟨i, hi, ?_⟩
  have hm : m = m.take p ++ (s ++ m.drop (p + s.length)) := by
    rw [← List.drop_drop, hr, List.drop_left, ← hr, List.take_append_drop]
  rw [hm] at h0
  rw [List.append_assoc]
  by_cases hp : i < (m.take p).length
  · rw [List.getElem?_append_left hp] at h0 ⊢
    exact h0
  · rw [List.getElem?_append_right (by omega)] at h0 ⊢
    by_cases hs : i - (m.take p).length < s.length
    · rw [List.getElem?_append_left hs] at h0
      exact absurd (List.mem_of_getElem? h0) hn
    · rw [List.getElem?_append_right (by omega)] at h0
      rw [List.getElem?_append_right (by rw [List.length_map]; omega), List.length_map]
      exact h0

/-! ## Writes -/

theorem store_some {i : ℕ} (h : i < m.length) (v : UInt8) : store m i v = some (m.set i v) := if_pos h

theorem store_none {i : ℕ} (h : m.length ≤ i) (v : UInt8) : store m i v = none := if_neg (Nat.not_lt.mpr h)

theorem store_reads {i : ℕ} (h : i < m.length) (v : UInt8) :
    Reads (store m i v) fun m' => m'.length = m.length ∧ v ∈ m' := by
  rw [store_some h]
  exact reads_some ⟨List.length_set, List.mem_set h v⟩

theorem store_at {i : ℕ} {a rest : List UInt8} {x : UInt8} (h : i = a.length) (v : UInt8) :
    store (a ++ x :: rest) i v = some (a ++ v :: rest) := by
  subst h
  rw [store_some (by simp), List.set_append_right _ _ (Nat.le_refl _), Nat.sub_self, List.set_cons_zero]

theorem storeAll_some {i : ℕ} {s : List UInt8} (h : i + s.length ≤ m.length) :
    storeAll m i s = some (m.take i ++ s ++ m.drop (i + s.length)) := by
  induction s generalizing m i with
  | nil => rw [storeAll, List.append_nil, List.length_nil, Nat.add_zero, List.take_append_drop]
  | cons v s ih =>
    rw [List.length_cons] at h ⊢
    rw [storeAll, store_some (by omega), Option.bind_some, ih (by rw [List.length_set]; omega), List.take_set,
      List.take_add_one, List.getElem?_eq_getElem (by omega), Option.toList_some, List.set_append_right _ _ (by simp),
      List.drop_set_of_lt (by omega)]
    simp [Nat.min_eq_left (show i ≤ m.length by omega), Nat.add_assoc, Nat.add_comm 1]

theorem storeAll_at {i : ℕ} {w r s : List UInt8} (hi : i = w.length) (hs : s.length ≤ r.length) :
    storeAll (w ++ r) i s = some (w ++ s ++ r.drop s.length) := by
  subst hi
  rw [storeAll_some (by rw [List.length_append]; omega), List.take_left, ← List.drop_drop, List.drop_left]

theorem storeAll_none {i : ℕ} {s : List UInt8} (h : m.length < i + s.length) (hi : i ≤ m.length) : storeAll m i s = none := by
  induction s generalizing m i with
  | nil =>
    rw [List.length_nil] at h
    omega
  | cons v s ih =>
    rw [List.length_cons] at h
    rw [storeAll]
    by_cases hlt : i < m.length
    · rw [store_some hlt, Option.bind_some]
      exact ih (by rw [List.length_set]; omega) (by rw [List.length_set]; omega)
    · rw [store_none (by omega), Option.bind_none]

/-! ## Memory in parts

What lies ahead of a pointer is `m.drop p`; what is known of it decides the searches. -/

variable {tok rest : List UInt8} {c : UInt8}

theorem drop_next (h : m.drop p = tok ++ c :: rest) : m.drop (p + tok.length + 1) = rest := by
  rw [Nat.add_assoc, ← List.drop_drop, h, ← List.drop_drop, List.drop_left]
  rfl

theorem drop_succ (h : m.drop p = c :: rest) : m.drop (p + 1) = rest := by
  rw [← List.drop_drop, h]
  rfl

theorem drop_cut_of_lt (h : q < p) : (cut m q).drop p = m.drop p := List.drop_set_of_lt h

theorem drop_cut (h : m.drop p = tok ++ c :: rest) : (cut m (p + tok.length)).drop p = tok ++ 0 :: rest := by
  unfold cut
  rw [List.drop_set, if_neg (by omega), h, Nat.add_sub_cancel_left, List.set_append_right _ _ (Nat.le_refl _), Nat.sub_self,
    List.set_cons_zero]

theorem drop_cut_next (h : m.drop p = tok ++ c :: rest) : (cut m (p + tok.length)).drop (p + tok.length + 1) = rest := by
  rw [drop_cut_of_lt (Nat.lt_succ_self _), drop_next h]

/-- A cut behind a byte leaves it and what stands before it. -/
theorem drop_cut_behind (h : m.drop p = tok ++ c :: rest) (hq : p + tok.length < q) :
    ∃ rest', (cut m q).drop p = tok ++ c :: rest' := by
  obtain ⟨k, rfl⟩ := Nat.exists_eq_add_of_lt hq
  refine ⟨rest.set k 0, ?_⟩
  unfold cut
  rw [List.drop_set, if_neg (by omega), h, List.set_append_right _ _ (by omega),
    show p + tok.length + k + 1 - p - tok.length = k + 1 by omega, List.set_cons_succ]

theorem get_drop (h : m.drop p = c :: rest) : m[p]? = some c := by
  rw [← Nat.add_zero p, ← List.getElem?_drop, h]
  rfl

theorem cstr_drop (h : m.drop p = tok ++ 0 :: rest) (htok : 0 ∉ tok) : cstr m p = some tok := by
  unfold cstr
  rw [h]
  exact scan_append htok rest

/-- The first `c` after the pointer. -/
theorem strchr_drop (h : m.drop p = tok ++ c :: rest) (hc : c ∉ tok) (hc0 : c ≠ 0) (htok : 0 ∉ tok) (hrest : 0 ∈ rest) :
    strchr m p c = some (some (p + tok.length)) := by
  obtain ⟨s, -, hn, r, rfl⟩ := scan_some hrest
  have hcs : cstr m p = some (tok ++ c :: s) := by
    refine cstr_drop (by rw [h, List.append_assoc, List.cons_append]) ?_
    rw [List.mem_append, List.mem_cons]
    rintro (h | h | h)
    · exact htok h
    · exact hc0 h.symm
    · exact hn h
  unfold strchr
  rw [hcs, Option.map_some, if_pos (List.mem_append_right tok (List.mem_cons_self ..)), List.idxOf_append_of_notMem hc,
    List.idxOf_cons_self, Nat.add_zero]

theorem strchr_here (h : m.drop p = c :: rest) (hc0 : c ≠ 0) (hrest : 0 ∈ rest) : strchr m p c = some (some p) :=
  @strchr_drop m p [] rest c h List.not_mem_nil hc0 List.not_mem_nil hrest

end Ntopng.Lib.CString
