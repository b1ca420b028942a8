/-
  Ntopng.Lib.Prefixes — trees of bit prefixes.

  A prefix is an address and how many of its leading bits count. A tree keeps a node with a
  number for each prefix it was given, lists its nodes in order, and finds the node whose
  prefix covers an address with the most bits. Any implementation with these laws will do:
  `Patricia` is the interface, `ofList` one that keeps a plain list.
-/

import Mathlib

namespace Ntopng.Lib.Prefixes

universe u

/-! ## Prefixes -/

/-- The family of the address plays no part in the comparison of prefixes. -/
structure Prefix (φ : Type u) where
  family : φ
  add : List Bool
  bitlen : Nat
  fits : bitlen ≤ add.length

namespace Prefix

variable {φ : Type u}

def bits (p : Prefix φ) : List Bool := p.add.take p.bitlen

/-- All addresses of `q` are addresses of `p`. -/
def Covers (p q : Prefix φ) : Prop := p.bitlen ≤ q.bitlen ∧ q.add.take p.bitlen = p.bits

instance decidableCovers (p q : Prefix φ) : Decidable (p.Covers q) := inferInstanceAs (Decidable (_ ∧ _))

theorem length_bits (p : Prefix φ) : p.bits.length = p.bitlen := by
  unfold bits
  rw [List.length_take]
  exact Nat.min_eq_left p.fits

theorem covers_iff {p q : Prefix φ} : p.Covers q ↔ p.bits <+: q.bits := by
  have htake : p.bitlen ≤ q.bitlen → q.bits.take p.bitlen = q.add.take p.bitlen := by
    intro hle
    unfold bits
    rw [List.take_take, Nat.min_eq_left hle]
  constructor
  · rintro ⟨hle, h⟩
    rw [← h, ← htake hle]
    exact List.take_prefix _ _
  · intro h
    have hle : p.bitlen ≤ q.bitlen := by
      rw [← length_bits, ← length_bits]
      exact h.length_le
    refine ⟨hle, ?_⟩
    rw [← htake hle, ← p.length_bits]
    exact (List.prefix_iff_eq_take.mp h).symm

/-- Some full address is covered. -/
theorem exists_covered (p : Prefix φ) {n : Nat} (hn : p.bitlen ≤ n) :
    ∃ a : List Bool, a.length = n ∧ a.take p.bitlen = p.bits := by
  have hlen := p.length_bits
  refine ⟨p.bits ++ List.replicate (n - p.bitlen) false, ?_, ?_⟩
  · rw [List.length_append, List.length_replicate, hlen]
    omega
  · rw [List.take_append_of_le_length (Nat.le_of_eq hlen.symm), List.take_of_length_le (Nat.le_of_eq hlen)]

end Prefix

structure Node (φ : Type u) where
  key : Prefix φ
  data : UInt64

/-! ## Trees -/

structure Patricia (φ : Type u) where
  Tree : Type u
  new : Nat → Tree
  /-- In the order of a walk. -/
  nodes : Tree → List (Node φ)
  /-- The tree with a node for the prefix, unless none could be made. -/
  lookup : Tree → Prefix φ → Option Tree
  /-- Writes the number of the prefix's node. -/
  setU64 : Tree → Prefix φ → UInt64 → Tree
  remove : Tree → Prefix φ → Tree
  searchBest : Tree → Prefix φ → Option (Node φ)
  nodes_new : ∀ n, nodes (new n) = []
  nodes_lookup : ∀ t p t', lookup t p = some t' → ∀ n ∈ nodes t', n ∈ nodes t ∨ n.key = p
  nodes_setU64 : ∀ t p v, ∀ n ∈ nodes (setU64 t p v), ∃ m ∈ nodes t, m.key = n.key
  nodes_remove : ∀ t p, ∀ n ∈ nodes (remove t p), n ∈ nodes t
  searchBest_none : ∀ t p, searchBest t p = none ↔ ∀ n ∈ nodes t, ¬ n.key.Covers p

/-- The words that nodes are for. -/
def keySet {φ : Type u} (l : List (Node φ)) : Finset (List Bool) := (l.map fun n => n.key.bits).toFinset

theorem mem_keySet {φ : Type u} {l : List (Node φ)} {w : List Bool} : w ∈ keySet l ↔ ∃ n ∈ l, n.key.bits = w := by
  unfold keySet
  rw [List.mem_toFinset, List.mem_map]

namespace Patricia

variable {φ : Type u}

def words (P : Patricia φ) (t : P.Tree) : Finset (List Bool) := keySet (P.nodes t)

/-- A node is made for every prefix that has none, and the one that is removed is the prefix's. -/
structure Lawful (P : Patricia φ) : Prop where
  lookup : ∀ t p, ∃ t', P.lookup t p = some t' ∧ P.words t' = insert p.bits (P.words t)
  setU64 : ∀ t p v, P.words (P.setU64 t p v) = P.words t
  remove : ∀ t p, P.words (P.remove t p) = (P.words t).erase p.bits

theorem words_new (P : Patricia φ) (n : Nat) : P.words (P.new n) = ∅ := by
  unfold words
  rw [P.nodes_new]
  rfl

/-! ## A list of nodes -/

def sameKey (p q : Prefix φ) : Bool := decide (p.bitlen = q.bitlen) && p.bits == q.bits

theorem sameKey_iff {p q : Prefix φ} : sameKey p q = true ↔ p.bits = q.bits := by
  unfold sameKey
  rw [Bool.and_eq_true, decide_eq_true_iff, beq_iff_eq, and_iff_right_iff_imp]
  intro h
  rw [← p.length_bits, ← q.length_bits, h]

def better (p : Prefix φ) (best : Option (Node φ)) (n : Node φ) : Option (Node φ) :=
  if n.key.Covers p ∧ ∀ b ∈ best, b.key.bitlen < n.key.bitlen then some n else best

theorem better_none (p : Prefix φ) (best : Option (Node φ)) (n : Node φ) :
    better p best n = none ↔ best = none ∧ ¬ n.key.Covers p := by
  unfold better
  cases best with
  | none => by_cases h : n.key.Covers p <;> simp [h]
  | some b => split <;> simp

theorem foldl_better_none (p : Prefix φ) (l : List (Node φ)) (best : Option (Node φ)) :
    l.foldl (better p) best = none ↔ best = none ∧ ∀ n ∈ l, ¬ n.key.Covers p := by
  induction l generalizing best with
  | nil => simp
  | cons n l ih => rw [List.foldl_cons, ih, better_none, List.forall_mem_cons, and_assoc]

def ofList : Patricia φ where
  Tree := List (Node φ)
  new _ := []
  nodes t := t
  lookup t p := some (if t.any fun n => sameKey n.key p then t else t ++ [⟨p, 0⟩])
  setU64 t p v := t.map fun n => if sameKey n.key p then { n with data := v } else n
  remove t p := t.filter fun n => !sameKey n.key p
  searchBest t p := t.foldl (better p) none
  nodes_new _ := rfl
  nodes_lookup := by
    intro t p t' h n hn
    cases h
    split at hn
    · exact .inl hn
    · rcases List.mem_append.mp hn with h | h
      · exact .inl h
      · rw [List.mem_singleton.mp h]
        exact .inr rfl
  nodes_setU64 := by
    intro t p v n hn
    obtain ⟨m, hm, rfl⟩ := List.mem_map.mp hn
    refine ⟨m, hm, ?_⟩
    split <;> rfl
  nodes_remove := fun t p n hn => (List.mem_filter.mp hn).1
  searchBest_none := by
    intro t p
    rw [foldl_better_none]
    simp

theorem keySet_insert (l : List (Node φ)) (p : Prefix φ) :
    keySet (if l.any fun n => sameKey n.key p then l else l ++ [⟨p, 0⟩]) = insert p.bits (keySet l) := by
  refine Finset.ext fun w => ?_
  rw [Finset.mem_insert, mem_keySet, mem_keySet]
  by_cases h : l.any (fun n => sameKey n.key p) = true
  · rw [if_pos h]
    obtain ⟨n, hn, hkey⟩ := List.any_eq_true.mp h
    refine ⟨.inr, fun hw => hw.elim (fun hw => ?_) id⟩
    exact ⟨n, hn, (sameKey_iff.mp hkey).trans hw.symm⟩
  · rw [if_neg h]
    simp only [List.mem_append, List.mem_singleton, or_and_right, exists_or, exists_eq_left]
    rw [or_comm, eq_comm]

theorem keySet_setU64 (l : List (Node φ)) (p : Prefix φ) (v : UInt64) :
    keySet (l.map fun n => if sameKey n.key p then { n with data := v } else n) = keySet l := by
  unfold keySet
  rw [List.map_map]
  refine congrArg List.toFinset (List.map_congr_left fun n _ => ?_)
  show (if sameKey n.key p then { n with data := v } else n).key.bits = n.key.bits
  split <;> rfl

theorem keySet_remove (l : List (Node φ)) (p : Prefix φ) :
    keySet (l.filter fun n => !sameKey n.key p) = (keySet l).erase p.bits := by
  refine Finset.ext fun w => ?_
  rw [Finset.mem_erase, mem_keySet, mem_keySet]
  constructor
  · rintro ⟨n, hn, rfl⟩
    obtain ⟨hmem, hkey⟩ := List.mem_filter.mp hn
    refine ⟨fun h => ?_, n, hmem, rfl⟩
    rw [sameKey_iff.mpr h] at hkey
    cases hkey
  · rintro ⟨hne, n, hn, rfl⟩
    refine ⟨n, List.mem_filter.mpr ⟨hn, ?_⟩, rfl⟩
    rw [Bool.not_eq_true', ← Bool.not_eq_true]
    exact mt sameKey_iff.mp hne

theorem ofList_lawful : Lawful (ofList : Patricia φ) where
  lookup t p := ⟨_, rfl, keySet_insert t p⟩
  setU64 t p v := keySet_setU64 t p v
  remove t p := keySet_remove t p

/-! ## Numbers -/

/-- How the numbers of nodes are kept, in the trees that are `valid`: a new node leaves the
others as they are, a number is written to the node of its prefix alone, and a search
answers with the longest prefix that covers. -/
structure Numbers (P : Patricia φ) (valid : P.Tree → Prop) : Prop where
  new : ∀ n, valid (P.new n)
  lookup : ∀ t p, valid t → ∃ t', P.lookup t p = some t' ∧ valid t' ∧ (∀ n ∈ P.nodes t, n ∈ P.nodes t') ∧
    ∃ n ∈ P.nodes t', n.key.bits = p.bits
  setU64 : ∀ t p v, valid t → valid (P.setU64 t p v)
  mem_setU64 : ∀ t p v, valid t → ∀ n, n ∈ P.nodes (P.setU64 t p v) ↔
    ∃ m ∈ P.nodes t, n = if m.key.bits = p.bits then { m with data := v } else m
  unique : ∀ t, valid t → ∀ n ∈ P.nodes t, ∀ m ∈ P.nodes t, n.key.bits = m.key.bits → n = m
  searchBest : ∀ t p n, valid t → P.searchBest t p = some n →
    n ∈ P.nodes t ∧ n.key.Covers p ∧ ∀ m ∈ P.nodes t, m.key.Covers p → m.key.bitlen ≤ n.key.bitlen

section Numbers

variable {P : Patricia φ} {valid : P.Tree → Prop} {t t' : P.Tree} {p q : Prefix φ} {w : Nat}

/-- Among prefixes of one length, the one that covers another is that one. -/
theorem covers_same_length {p q : Prefix φ} (h : p.bitlen = q.bitlen) : p.Covers q ↔ p.bits = q.bits := by
  rw [Prefix.covers_iff]
  refine ⟨fun hp => hp.eq_of_length ?_, fun he => he ▸ List.prefix_refl _⟩
  rw [p.length_bits, q.length_bits, h]

/-- In a tree of prefixes of one length a search finds the prefix itself. -/
theorem Numbers.searchBest_iff (hP : Numbers P valid) (ht : valid t) (hw : ∀ n ∈ P.nodes t, n.key.bitlen = w)
    (hp : p.bitlen = w) {n : Node φ} : P.searchBest t p = some n ↔ n ∈ P.nodes t ∧ n.key.bits = p.bits := by
  constructor
  · intro hs
    obtain ⟨hn, hcovers, -⟩ := hP.searchBest t p n ht hs
    exact ⟨hn, (covers_same_length ((hw n hn).trans hp.symm)).mp hcovers⟩
  · rintro ⟨hn, hbits⟩
    cases hs : P.searchBest t p with
    | none =>
      have hcovers := (covers_same_length ((hw n hn).trans hp.symm)).mpr hbits
      exact absurd hcovers ((P.searchBest_none t p).mp hs n hn)
    | some m =>
      obtain ⟨hm, hcovers, -⟩ := hP.searchBest t p m ht hs
      have hbits' := (covers_same_length ((hw m hm).trans hp.symm)).mp hcovers
      rw [hP.unique t ht m hm n hn (hbits'.trans hbits.symm)]

/-- The number of a prefix. -/
def number (P : Patricia φ) (t : P.Tree) (p : Prefix φ) : Option UInt64 := (P.searchBest t p).map Node.data

theorem Numbers.number_iff (hP : Numbers P valid) (ht : valid t) (hw : ∀ n ∈ P.nodes t, n.key.bitlen = w)
    (hp : p.bitlen = w) {v : UInt64} :
    P.number t p = some v ↔ ∃ n ∈ P.nodes t, n.key.bits = p.bits ∧ n.data = v := by
  rw [number, Option.map_eq_some_iff]
  simp only [hP.searchBest_iff ht hw hp, and_assoc]

theorem number_new (p : Prefix φ) (n : Nat) : P.number (P.new n) p = none := by
  have hnone : P.searchBest (P.new n) p = none := by
    rw [P.searchBest_none]
    intro m hm
    rw [P.nodes_new] at hm
    cases hm
  rw [number, hnone, Option.map_none]

/-- A prefix that is looked up and given a number: its number is the new one, the others keep theirs. -/
theorem Numbers.number_set (hP : Numbers P valid) (ht : valid t) (hw : ∀ n ∈ P.nodes t, n.key.bitlen = w)
    (hp : p.bitlen = w) (v : UInt64) :
    ∃ t', P.lookup t p = some t' ∧ valid (P.setU64 t' p v) ∧
      (∀ n ∈ P.nodes (P.setU64 t' p v), n.key.bitlen = w) ∧
      ∀ q : Prefix φ, q.bitlen = w →
        P.number (P.setU64 t' p v) q = if q.bits = p.bits then some v else P.number t q := by
  obtain ⟨t', hlookup, ht', hold, n, hn, hbits⟩ := hP.lookup t p ht
  have hnew : ∀ m ∈ P.nodes t', m ∈ P.nodes t ∨ m.key = p := P.nodes_lookup t p t' hlookup
  have hw' : ∀ m ∈ P.nodes t', m.key.bitlen = w := by
    intro m hm
    rcases hnew m hm with h | h
    · exact hw m h
    · rw [h]; exact hp
  have hset := hP.setU64 t' p v ht'
  have hmem := hP.mem_setU64 t' p v ht'
  have hwset : ∀ m ∈ P.nodes (P.setU64 t' p v), m.key.bitlen = w := by
    intro m hm
    obtain ⟨m', hm', rfl⟩ := (hmem m).mp hm
    split
    · exact hw' m' hm'
    · exact hw' m' hm'
  refine ⟨t', hlookup, hset, hwset, fun q hq => ?_⟩
  by_cases hqp : q.bits = p.bits
  · rw [if_pos hqp, hP.number_iff hset hwset hq]
    refine ⟨{ n with data := v }, (hmem _).mpr ⟨n, hn, by rw [if_pos hbits]⟩, ?_, rfl⟩
    exact hbits.trans hqp.symm
  · rw [if_neg hqp]
    refine Option.ext fun u => ?_
    rw [hP.number_iff hset hwset hq, hP.number_iff ht hw hq]
    constructor
    · rintro ⟨m, hm, hmq, hu⟩
      obtain ⟨m', hm', rfl⟩ := (hmem m).mp hm
      by_cases hmp : m'.key.bits = p.bits
      · rw [if_pos hmp] at hmq
        exact absurd (hmq.symm.trans hmp) hqp
      · rw [if_neg hmp] at hmq hu
        rcases hnew m' hm' with h | h
        · exact ⟨m', h, hmq, hu⟩
        · exact absurd (congrArg Prefix.bits h) hmp
    · rintro ⟨m, hm, hmq, hu⟩
      have hmp : m.key.bits ≠ p.bits := fun h => hqp (hmq.symm.trans h)
      exact ⟨m, (hmem m).mpr ⟨m, hold m hm, by rw [if_neg hmp]⟩, hmq, hu⟩

end Numbers

/-! ### The list of nodes keeps numbers -/

theorem foldl_better (p : Prefix φ) (l : List (Node φ)) (best : Option (Node φ)) {n : Node φ}
    (hbest : ∀ b ∈ best, b.key.Covers p) (h : l.foldl (better p) best = some n) :
    (n ∈ best ∨ n ∈ l) ∧ n.key.Covers p ∧ (∀ b ∈ best, b.key.bitlen ≤ n.key.bitlen) ∧
      ∀ m ∈ l, m.key.Covers p → m.key.bitlen ≤ n.key.bitlen := by
  induction l generalizing best with
  | nil =>
    have hn : best = some n := h
    subst hn
    exact ⟨.inl rfl, hbest n rfl, (fun b hb => by cases hb; exact le_rfl), fun m hm => by cases hm⟩
  | cons a l ih =>
    rw [List.foldl_cons] at h
    by_cases ha : a.key.Covers p ∧ ∀ b ∈ best, b.key.bitlen < a.key.bitlen
    · have hstep : better p best a = some a := if_pos ha
      rw [hstep] at h
      obtain ⟨hmem, hcovers, hle, hall⟩ := ih (some a) (fun b hb => by cases hb; exact ha.1) h
      have han := hle a rfl
      refine ⟨?_, hcovers, fun b hb => (ha.2 b hb).le.trans han, ?_⟩
      · rcases hmem with hmem | hmem
        · cases hmem
          exact .inr (List.mem_cons_self ..)
        · exact .inr (List.mem_cons_of_mem _ hmem)
      · intro m hm hc
        rcases List.mem_cons.mp hm with rfl | hm
        · exact han
        · exact hall m hm hc
    · have hstep : better p best a = best := if_neg ha
      rw [hstep] at h
      obtain ⟨hmem, hcovers, hle, hall⟩ := ih best hbest h
      refine ⟨hmem.imp_right (List.mem_cons_of_mem _), hcovers, hle, ?_⟩
      intro m hm hc
      rcases List.mem_cons.mp hm with rfl | hm
      · by_contra hlt
        exact ha ⟨hc, fun b hb => (hle b hb).trans_lt (by omega)⟩
      · exact hall m hm hc

def Distinct (l : List (Node φ)) : Prop := (l.map fun n => n.key.bits).Nodup

theorem map_setU64_bits (l : List (Node φ)) (p : Prefix φ) (v : UInt64) :
    (l.map fun n => if sameKey n.key p then { n with data := v } else n).map (fun n => n.key.bits) =
      l.map fun n => n.key.bits := by
  rw [List.map_map]
  refine List.map_congr_left fun n _ => ?_
  show (if sameKey n.key p then { n with data := v } else n).key.bits = n.key.bits
  split <;> rfl

theorem distinct_insert {l : List (Node φ)} (hl : Distinct l) (p : Prefix φ) :
    ∃ l', (if l.any fun n => sameKey n.key p then l else l ++ [⟨p, 0⟩]) = l' ∧ Distinct l' ∧ (∀ n ∈ l, n ∈ l') ∧
      ∃ n ∈ l', n.key.bits = p.bits := by
  refine ⟨_, rfl, ?_⟩
  by_cases h : l.any (fun n => sameKey n.key p) = true
  · rw [if_pos h]
    obtain ⟨n, hn, hkey⟩ := List.any_eq_true.mp h
    exact ⟨hl, fun _ => id, n, hn, sameKey_iff.mp hkey⟩
  · rw [if_neg h]
    refine ⟨?_, fun n hn => List.mem_append_left _ hn, ⟨p, 0⟩, List.mem_append_right _ (List.mem_singleton_self _), rfl⟩
    unfold Distinct
    rw [List.map_append, List.map_singleton, List.nodup_append]
    refine ⟨hl, List.nodup_singleton _, ?_⟩
    intro b hb c hc hbc
    obtain ⟨n, hn, rfl⟩ := List.mem_map.mp hb
    rw [List.mem_singleton] at hc
    exact h (List.any_eq_true.mpr ⟨n, hn, sameKey_iff.mpr (hbc.trans hc)⟩)

theorem distinct_setU64 {l : List (Node φ)} (hl : Distinct l) (p : Prefix φ) (v : UInt64) :
    Distinct (l.map fun n => if sameKey n.key p then { n with data := v } else n) := by
  unfold Distinct
  rw [map_setU64_bits]
  exact hl

theorem mem_map_setU64 (l : List (Node φ)) (p : Prefix φ) (v : UInt64) (n : Node φ) :
    (n ∈ l.map fun n => if sameKey n.key p then { n with data := v } else n) ↔
      ∃ m ∈ l, n = if m.key.bits = p.bits then { m with data := v } else m := by
  rw [List.mem_map]
  refine exists_congr fun m => and_congr_right fun _ => ?_
  simp only [sameKey_iff]
  exact eq_comm

theorem ofList_numbers : Numbers (ofList : Patricia φ) Distinct where
  new _ := List.nodup_nil
  lookup t p ht := by
    obtain ⟨l', rfl, h⟩ := distinct_insert ht p
    exact ⟨_, rfl, h⟩
  setU64 t p v ht := distinct_setU64 ht p v
  mem_setU64 t p v _ n := mem_map_setU64 t p v n
  unique t ht n hn m hm h := List.inj_on_of_nodup_map ht hn hm h
  searchBest t p n _ h := by
    obtain ⟨hmem, hcovers, -, hall⟩ := foldl_better p t none (fun b hb => by cases hb) h
    exact ⟨hmem.resolve_left (fun hb => by cases hb), hcovers, hall⟩

end Patricia

end Ntopng.Lib.Prefixes
