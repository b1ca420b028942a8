/-
  Ntopng.Tables.Frequent — the most frequent strings (src/FrequentStringItems.cpp).

  A map of counts. Before a new key goes into a map of more than `maxItemsThreshold` keys, the
  map is sorted by count and the smallest are erased, down to `maxItems` (`prune`). The counts
  and the two sizes have 32 bits.

  `std::sort` is a parameter: what comes out is the same pairs in order of their counts, and
  which of two equal counts comes first is not said. Keys are of any ordered type, as the map
  keeps them in order.

  `Law`: the size stays bounded, a count is at most what was added to its key, and that exactly
  if the key was never erased, and every prune keeps the greatest counts. Proved: it
  holds in every state of a run exactly if no count of such a key passes 32 bits, and no prune
  takes place where `maxItems` is 2^31 or more (`law_iff_narrow`): there `maxItemsThreshold` has
  wrapped, and `prune` erases more than the map has, or nothing.
-/

import Ntopng.Lib.Run

namespace Ntopng.Tables.Frequent

open Ntopng.Lib.Run

variable {K : Type} [LinearOrder K]

abbrev Items (K : Type) := List (K × ℕ)

/-- `std::sort` by the first components. -/
structure StdSort (K : Type) where
  sort : List (ℕ × K) → List (ℕ × K)
  perm : ∀ v, (sort v).Perm v
  sorted : ∀ v, (sort v).Pairwise fun a b => a.1 ≤ b.1

namespace Items

variable (q : Items K) (key : K)

def find : Option ℕ := (q.find? (·.1 = key)).map (·.2)

def update (value : ℕ) : Items K := q.map fun x => if x.1 = key then (x.1, (x.2 + value) % 2 ^ 32) else x

def insert (value : ℕ) : Items K := q.orderedInsert (fun a b => a.1 ≤ b.1) (key, value)

def erase : Items K := q.filter (·.1 ≠ key)

/-- `none` where the loop reads past the end of the vector. -/
def prune (S : StdSort K) (maxItems : ℕ) : Option (Items K) :=
  let vec := S.sort (q.map fun x => (x.2, x.1))
  let num := (q.length % 2 ^ 32 + 2 ^ 32 - maxItems) % 2 ^ 32
  if num ≤ vec.length then some ((vec.take num).foldl (fun q x => Items.erase q x.2) q) else none

end Items

structure Table (K : Type) where
  q : Items K
  fault : Bool
  /-- What was added so far. -/
  added : Items K
  /-- The map before and after each prune. -/
  prunes : List (Items K × Items K)

structure Ev (K : Type) where
  key : K
  value : UInt32

section Model

variable (S : StdSort K) (maxItems : UInt32)

def maxItemsThreshold : ℕ := 2 * maxItems.toNat % 2 ^ 32

def Table.put (t : Table K) (q : Items K) (e : Ev K) : Table K :=
  { t with q := q, added := t.added ++ [(e.key, e.value.toNat)] }

/-- `add`. -/
def step (t : Table K) (e : Ev K) : Table K :=
  if t.fault then t
  else
    match t.q.find e.key with
    | some _ => t.put (t.q.update e.key e.value.toNat) e
    | none =>
      if maxItemsThreshold maxItems < t.q.length then
        match t.q.prune S maxItems.toNat with
        | some q => { t.put (q.insert e.key e.value.toNat) e with prunes := t.prunes ++ [(t.q, q)] }
        | none => { t with fault := true }
      else t.put (t.q.insert e.key e.value.toNat) e

def start : Table K := ⟨[], false, [], []⟩

end Model

/-! ## The law -/

def total (added : Items K) (key : K) : ℕ := ((added.filter (·.1 = key)).map (·.2)).sum

def Erased (prunes : List (Items K × Items K)) (key : K) : Prop :=
  ∃ x ∈ prunes, key ∈ x.1.map (·.1) ∧ key ∉ x.2.map (·.1)

structure KeepsGreatest (maxItems : ℕ) (x : Items K × Items K) : Prop where
  length : x.2.length = maxItems
  kept : x.2.Sublist x.1
  greatest : ∀ a ∈ x.1, a ∉ x.2 → ∀ b ∈ x.2, a.2 ≤ b.2

structure Law (maxItems : UInt32) (t : Table K) : Prop where
  noFault : t.fault = false
  bounded : t.q.length ≤ maxItemsThreshold maxItems + 1
  atMost : ∀ x ∈ t.q, x.2 ≤ total t.added x.1
  exact : ∀ x ∈ t.q, ¬ Erased t.prunes x.1 → x.2 = total t.added x.1
  prunes : ∀ x ∈ t.prunes, KeepsGreatest maxItems.toNat x

/-- Whether the counter of a key that was never erased, or the size of the table, leaves 32 bits. -/
def Narrow (maxItems : UInt32) (t : Table K) (e : Ev K) : Prop :=
  match t.q.find e.key with
  | some c => ¬ Erased t.prunes e.key → c + e.value.toNat < 2 ^ 32
  | none => maxItemsThreshold maxItems < t.q.length → maxItems.toNat < 2 ^ 31

/-! ## The map -/

namespace Items

variable {q : Items K} {key : K} {value : ℕ}

def Distinct (q : Items K) : Prop := (q.map (·.1)).Nodup

theorem find_eq_none : q.find key = none ↔ key ∉ q.map (·.1) := by
  unfold find
  rw [Option.map_eq_none_iff, List.find?_eq_none]
  simp only [decide_eq_true_eq, List.mem_map, not_exists, not_and]

theorem find_some {c : ℕ} (h : q.find key = some c) : (key, c) ∈ q := by
  unfold find at h
  obtain ⟨x, hx, rfl⟩ := Option.map_eq_some_iff.mp h
  have hk : x.1 = key := by simpa using List.find?_some hx
  subst hk
  exact List.mem_of_find?_eq_some hx

omit [LinearOrder K] in
theorem Distinct.eq (hq : q.Distinct) {c d : ℕ} (hc : (key, c) ∈ q) (hd : (key, d) ∈ q) : c = d := by
  have := List.inj_on_of_nodup_map hq hc hd rfl
  exact (Prod.mk.inj this).2

theorem keys_update : (q.update key value).map (·.1) = q.map (·.1) := by
  unfold update
  rw [List.map_map]
  refine List.map_congr_left fun x _ => ?_
  show (if x.1 = key then (x.1, (x.2 + value) % 2 ^ 32) else x).1 = x.1
  split <;> rfl

theorem mem_update {x : K × ℕ} :
    x ∈ q.update key value ↔ (x.1 ≠ key ∧ x ∈ q) ∨ (x.1 = key ∧ ∃ c, (key, c) ∈ q ∧ x.2 = (c + value) % 2 ^ 32) := by
  unfold update
  rw [List.mem_map]
  constructor
  · rintro ⟨y, hy, rfl⟩
    by_cases hk : y.1 = key
    · rw [if_pos hk]
      exact .inr ⟨hk, y.2, by rw [← hk]; exact hy, rfl⟩
    · rw [if_neg hk]
      exact .inl ⟨hk, hy⟩
  · rintro (⟨hk, hx⟩ | ⟨hk, c, hc, hv⟩)
    · exact ⟨x, hx, if_neg hk⟩
    · refine ⟨(key, c), hc, ?_⟩
      rw [if_pos rfl, ← hv, ← hk]

theorem perm_insert : (q.insert key value).Perm ((key, value) :: q) := List.perm_orderedInsert ..

theorem mem_insert {x : K × ℕ} : x ∈ q.insert key value ↔ x = (key, value) ∨ x ∈ q := by
  rw [perm_insert.mem_iff, List.mem_cons]

theorem distinct_insert (hq : q.Distinct) (hk : key ∉ q.map (·.1)) : (q.insert key value).Distinct := by
  have hp := (@perm_insert _ _ q key value).map (·.1)
  exact hp.nodup_iff.mpr (List.nodup_cons.mpr ⟨hk, hq⟩)

/-! ### What a prune leaves -/

theorem foldl_erase (l : List (ℕ × K)) :
    l.foldl (fun q x => Items.erase q x.2) q = q.filter fun x => x.1 ∉ l.map (·.2) := by
  induction l generalizing q with
  | nil => simp
  | cons y l ih =>
    rw [List.foldl_cons, ih, erase, List.filter_filter]
    refine List.filter_congr fun x _ => ?_
    simp only [List.map_cons, List.mem_cons, not_or, ne_eq, Bool.decide_and, Bool.and_comm]

variable (S : StdSort K)

/-- The smallest counts go, whatever the order of equal ones. -/
theorem prune_keeps {maxItems : ℕ} (hq : q.Distinct) (hlen : maxItems ≤ q.length) (hwide : q.length < 2 ^ 32) :
    ∃ q', q.prune S maxItems = some q' ∧ KeepsGreatest maxItems (q, q') ∧ q'.Distinct := by
  set vec := S.sort (q.map fun x => (x.2, x.1)) with hvec
  have hperm : vec.Perm (q.map fun x => (x.2, x.1)) := S.perm _
  have hvlen : vec.length = q.length := by rw [hperm.length_eq, List.length_map]
  have hnum : (q.length % 2 ^ 32 + 2 ^ 32 - maxItems) % 2 ^ 32 = q.length - maxItems := by
    rw [Nat.mod_eq_of_lt hwide]
    omega
  set num := q.length - maxItems with hn
  have hback : (vec.map fun x => (x.2, x.1)).Perm q := by
    have := hperm.map fun x : ℕ × K => (x.2, x.1)
    rwa [List.map_map, show (fun x : ℕ × K => (x.2, x.1)) ∘ (fun x : K × ℕ => (x.2, x.1)) = id from rfl,
      List.map_id] at this
  have hkeys : (vec.map (·.2)).Nodup := by
    have := (hback.map fun x : K × ℕ => x.1).nodup_iff.mpr hq
    rwa [List.map_map] at this
  rw [← List.take_append_drop num vec, List.map_append] at hkeys
  have hdisj := (List.nodup_append.mp hkeys).2.2
  set q' := q.filter fun x => x.1 ∉ (vec.take num).map (·.2) with hq'
  have hrest : q'.Perm ((vec.drop num).map fun x => (x.2, x.1)) := by
    have h1 := (hback.filter fun x => decide (x.1 ∉ (vec.take num).map (·.2))).symm
    rw [← hq'] at h1
    refine h1.trans ?_
    rw [← List.take_append_drop num vec, List.map_append, List.filter_append, List.take_append_drop]
    have h2 : ((vec.take num).map fun x => (x.2, x.1)).filter
        (fun x => decide (x.1 ∉ (vec.take num).map (·.2))) = [] := by
      refine List.filter_eq_nil_iff.mpr fun x hx => ?_
      obtain ⟨y, hy, rfl⟩ := List.mem_map.mp hx
      simp only [decide_eq_true_eq, not_not]
      exact List.mem_map_of_mem hy
    have h3 : ((vec.drop num).map fun x => (x.2, x.1)).filter
        (fun x => decide (x.1 ∉ (vec.take num).map (·.2))) = (vec.drop num).map fun x => (x.2, x.1) := by
      refine List.filter_eq_self.mpr fun x hx => ?_
      obtain ⟨y, hy, rfl⟩ := List.mem_map.mp hx
      rw [decide_eq_true_eq]
      exact fun hmem => hdisj _ hmem _ (List.mem_map_of_mem hy) rfl
    rw [h2, h3, List.nil_append]
  refine ⟨q', ?_, ⟨?_, List.filter_sublist, fun a ha hna b hb => ?_⟩, ?_⟩
  · unfold prune
    rw [hnum, ← hvec, if_pos (by omega), foldl_erase]
  · rw [hrest.length_eq, List.length_map, List.length_drop]
    omega
  · have hatake : (a.2, a.1) ∈ vec.take num := by
      have : a.1 ∈ (vec.take num).map (·.2) := by
        by_contra hno
        exact hna (List.mem_filter.mpr ⟨ha, by simpa using hno⟩)
      obtain ⟨y, hy, hya⟩ := List.mem_map.mp this
      have hyq : (y.2, y.1) ∈ q := hback.mem_iff.mp (List.mem_map_of_mem (List.mem_of_mem_take hy))
      rw [hya] at hyq
      have hc : y.1 = a.2 := Distinct.eq hq hyq ha
      rw [← hc, ← hya]
      exact hy
    have hbdrop : (b.2, b.1) ∈ vec.drop num := by
      obtain ⟨y, hy, rfl⟩ := List.mem_map.mp (hrest.mem_iff.mp hb)
      exact hy
    have hsorted := S.sorted (q.map fun x => (x.2, x.1))
    rw [← hvec, ← List.take_append_drop num vec] at hsorted
    exact (List.pairwise_append.mp hsorted).2.2 _ hatake _ hbdrop
  · exact hq.sublist (List.filter_sublist.map _)

end Items

/-! ## A step -/

variable {S : StdSort K} {maxItems : UInt32} {t : Table K}

structure Inv (maxItems : UInt32) (t : Table K) : Prop where
  law : Law maxItems t
  distinct : t.q.Distinct
  /-- What is not in the map was erased, or never added. -/
  absent : ∀ key, key ∉ t.q.map (·.1) → ¬ Erased t.prunes key → total t.added key = 0

theorem total_snoc (added : Items K) (e : Ev K) (key : K) :
    total (added ++ [(e.key, e.value.toNat)]) key = total added key + if e.key = key then e.value.toNat else 0 := by
  unfold total
  by_cases h : e.key = key <;> simp [h]

theorem threshold_of_small (h : maxItems.toNat < 2 ^ 31) : maxItemsThreshold maxItems = 2 * maxItems.toNat :=
  Nat.mod_eq_of_lt (by omega)

theorem step_found {c : ℕ} {e : Ev K} (h : t.fault = false) (hf : t.q.find e.key = some c) :
    step S maxItems t e = t.put (t.q.update e.key e.value.toNat) e := by
  unfold step
  rw [h, if_neg Bool.false_ne_true, hf]

theorem step_small {e : Ev K} (h : t.fault = false) (hf : t.q.find e.key = none)
    (hbig : ¬ maxItemsThreshold maxItems < t.q.length) :
    step S maxItems t e = t.put (t.q.insert e.key e.value.toNat) e := by
  unfold step
  rw [h, if_neg Bool.false_ne_true, hf]
  exact if_neg hbig

theorem step_pruned {e : Ev K} {q : Items K} (h : t.fault = false) (hf : t.q.find e.key = none)
    (hbig : maxItemsThreshold maxItems < t.q.length) (hq : t.q.prune S maxItems.toNat = some q) :
    step S maxItems t e = { t.put (q.insert e.key e.value.toNat) e with prunes := t.prunes ++ [(t.q, q)] } := by
  unfold step
  rw [h, if_neg Bool.false_ne_true, hf]
  refine (if_pos hbig).trans ?_
  rw [hq]

theorem step_faults {e : Ev K} (h : t.fault = false) (hf : t.q.find e.key = none)
    (hbig : maxItemsThreshold maxItems < t.q.length) (hq : t.q.prune S maxItems.toNat = none) :
    (step S maxItems t e).fault = true := by
  unfold step
  rw [h, if_neg Bool.false_ne_true, hf]
  refine (congrArg Table.fault (if_pos hbig)).trans ?_
  rw [hq]

theorem inv_update (hi : Inv maxItems t) (e : Ev K) {c : ℕ} (hc : t.q.find e.key = some c)
    (hok : ¬ Erased t.prunes e.key → c + e.value.toNat < 2 ^ 32) :
    Inv maxItems (t.put (t.q.update e.key e.value.toNat) e) := by
  have hmem := Items.find_some hc
  have hkeys := @Items.keys_update K _ t.q e.key e.value.toNat
  refine ⟨⟨hi.law.noFault, ?_, fun x hx => ?_, fun x hx hn => ?_, hi.law.prunes⟩, ?_, fun key hk hn => ?_⟩
  · show (t.q.update e.key e.value.toNat).length ≤ _
    rw [Items.update, List.length_map]
    exact hi.law.bounded
  · show x.2 ≤ total (t.added ++ _) x.1
    rw [total_snoc]
    rcases Items.mem_update.mp hx with ⟨hk, hx⟩ | ⟨hk, d, hd, hv⟩
    · rw [if_neg (Ne.symm hk)]
      exact hi.law.atMost x hx
    · have := hi.law.atMost _ hd
      have hmod := Nat.mod_le (d + e.value.toNat) (2 ^ 32)
      rw [if_pos hk.symm, hv, hk]
      dsimp only at this
      omega
  · show x.2 = total (t.added ++ _) x.1
    rw [total_snoc]
    rcases Items.mem_update.mp hx with ⟨hk, hx⟩ | ⟨hk, d, hd, hv⟩
    · rw [if_neg (Ne.symm hk)]
      exact hi.law.exact x hx hn
    · rw [hk] at hn
      have hdc := Items.Distinct.eq hi.distinct hd hmem
      have hlt := hok hn
      have := hi.law.exact _ hd hn
      dsimp only at this
      rw [if_pos hk.symm, hv, hk, Nat.mod_eq_of_lt (by omega)]
      omega
  · show ((t.q.update e.key e.value.toNat).map _).Nodup
    rw [hkeys]
    exact hi.distinct
  · have hk' : key ∉ t.q.map (·.1) := by
      rw [← hkeys]
      exact hk
    have hne : e.key ≠ key := by
      rintro rfl
      exact hk' (List.mem_map_of_mem hmem)
    show total (t.added ++ _) key = 0
    rw [total_snoc, if_neg hne, hi.absent key hk' hn]

/-- A new key, after a prune or without: what is left of the map is a part of it. -/
theorem inv_insert (hi : Inv maxItems t) (e : Ev K) (hnew : t.q.find e.key = none) {q : Items K}
    {prunes : List (Items K × Items K)} (hsub : q.Sublist t.q) (hlen : q.length ≤ maxItemsThreshold maxItems)
    (hprunes : ∀ x ∈ prunes, KeepsGreatest maxItems.toNat x)
    (herased : ∀ key, Erased prunes key ↔ Erased t.prunes key ∨ (key ∈ t.q.map (·.1) ∧ key ∉ q.map (·.1))) :
    Inv maxItems { t.put (q.insert e.key e.value.toNat) e with prunes := prunes } := by
  have hnot := Items.find_eq_none.mp hnew
  have hnotq : e.key ∉ q.map (·.1) := fun h => hnot ((hsub.map _).subset h)
  have hdist : q.Distinct := hi.distinct.sublist (hsub.map _)
  have hold : ∀ key, key ∉ t.q.map (·.1) → ¬ Erased prunes key → total t.added key = 0 := fun key hk hn =>
    hi.absent key hk fun h => hn ((herased key).mpr (.inl h))
  refine ⟨⟨hi.law.noFault, ?_, fun x hx => ?_, fun x hx hn => ?_, hprunes⟩, Items.distinct_insert hdist hnotq,
    fun key hk hn => ?_⟩
  · show (q.insert e.key e.value.toNat).length ≤ _
    rw [Items.perm_insert.length_eq, List.length_cons]
    omega
  · show x.2 ≤ total (t.added ++ _) x.1
    rw [total_snoc]
    rcases Items.mem_insert.mp hx with rfl | hx
    · rw [if_pos rfl]
      exact Nat.le_add_left ..
    · have := hi.law.atMost x (hsub.subset hx)
      omega
  · show x.2 = total (t.added ++ _) x.1
    rw [total_snoc]
    rcases Items.mem_insert.mp hx with rfl | hx
    · rw [if_pos rfl, hold e.key hnot hn, Nat.zero_add]
    · have hne : e.key ≠ x.1 := fun h => hnotq (h ▸ List.mem_map_of_mem hx)
      rw [if_neg hne, Nat.add_zero]
      exact hi.law.exact x (hsub.subset hx) fun h => hn ((herased x.1).mpr (.inl h))
  · have hk' : key ≠ e.key ∧ key ∉ q.map (·.1) := by
      have hp := (@Items.perm_insert K _ q e.key e.value.toNat).map (·.1)
      have : key ∉ (q.insert e.key e.value.toNat).map (·.1) := hk
      rw [hp.mem_iff, List.map_cons, List.mem_cons, not_or] at this
      exact this
    have hgone : key ∉ t.q.map (·.1) := fun h => hn ((herased key).mpr (.inr ⟨h, hk'.2⟩))
    show total (t.added ++ _) key = 0
    rw [total_snoc, if_neg (Ne.symm hk'.1), hold key hgone hn]

theorem inv_step (e : Ev K) (hi : Inv maxItems t) (hok : Narrow maxItems t e) : Inv maxItems (step S maxItems t e) := by
  unfold Narrow at hok
  rcases hf : t.q.find e.key with _ | c
  · rw [hf] at hok
    by_cases hbig : maxItemsThreshold maxItems < t.q.length
    · have hthr := threshold_of_small (hok hbig)
      have hb := hi.law.bounded
      obtain ⟨q, hq, hkeeps, -⟩ := @Items.prune_keeps K _ t.q S maxItems.toNat hi.distinct (by omega) (by omega)
      have hqlen : q.length = maxItems.toNat := hkeeps.length
      rw [step_pruned hi.law.noFault hf hbig hq]
      refine inv_insert hi e hf hkeeps.kept (by omega) (fun x hx => ?_) fun key => ?_
      · rcases List.mem_append.mp hx with hx | hx
        · exact hi.law.prunes x hx
        · rw [List.mem_singleton.mp hx]
          exact hkeeps
      · unfold Erased
        constructor
        · rintro ⟨x, hx, h⟩
          rcases List.mem_append.mp hx with hx | hx
          · exact .inl ⟨x, hx, h⟩
          · rw [List.mem_singleton.mp hx] at h
            exact .inr h
        · rintro (⟨x, hx, h⟩ | h)
          · exact ⟨x, List.mem_append_left _ hx, h⟩
          · exact ⟨_, List.mem_append_right _ (List.mem_singleton_self _), h⟩
    · rw [step_small hi.law.noFault hf hbig]
      exact @inv_insert K _ maxItems t hi e hf t.q t.prunes (List.Sublist.refl _) (by omega) hi.law.prunes
        fun key => by simp
  · rw [hf] at hok
    rw [step_found hi.law.noFault hf]
    exact inv_update hi e hf hok

theorem not_law_of_prune {e : Ev K} (hi : Inv maxItems t) (hf : t.q.find e.key = none)
    (hbig : maxItemsThreshold maxItems < t.q.length) (hwide : 2 ^ 31 ≤ maxItems.toNat) :
    ¬ Law maxItems (step S maxItems t e) := by
  intro hlaw
  have hb := hi.law.bounded
  have hlt := maxItems.toNat_lt
  have hthr : maxItemsThreshold maxItems = 2 * maxItems.toNat - 2 ^ 32 := by
    unfold maxItemsThreshold
    omega
  rcases hp : t.q.prune S maxItems.toNat with _ | q
  · exact absurd (hlaw.noFault.symm.trans (step_faults hi.law.noFault hf hbig hp)) Bool.noConfusion
  · rw [step_pruned hi.law.noFault hf hbig hp] at hlaw
    have hgrown := hlaw.bounded
    have hkept := hlaw.prunes (t.q, q) (List.mem_append_right _ (List.mem_singleton_self _))
    have hql : q.length = maxItems.toNat := hkept.length
    have hsub : q.length ≤ t.q.length := hkept.kept.length_le
    change (q.insert e.key e.value.toNat).length ≤ _ at hgrown
    rw [Items.perm_insert.length_eq, List.length_cons] at hgrown
    omega

theorem not_law_of_overflow {e : Ev K} {c : ℕ} (hi : Inv maxItems t) (hf : t.q.find e.key = some c)
    (hn : ¬ Erased t.prunes e.key) (hwide : 2 ^ 32 ≤ c + e.value.toNat) : ¬ Law maxItems (step S maxItems t e) := by
  intro hlaw
  rw [step_found hi.law.noFault hf] at hlaw
  have hmem := Items.find_some hf
  have hexact : c = total t.added e.key := hi.law.exact _ hmem hn
  have hx : (e.key, (c + e.value.toNat) % 2 ^ 32) ∈ t.q.update e.key e.value.toNat :=
    Items.mem_update.mpr (.inr ⟨rfl, c, hmem, rfl⟩)
  have hnext : (c + e.value.toNat) % 2 ^ 32 = total (t.added ++ [(e.key, e.value.toNat)]) e.key := hlaw.exact _ hx hn
  rw [total_snoc, if_pos rfl] at hnext
  omega

theorem not_law_of_wide (e : Ev K) (hi : Inv maxItems t) (hbad : ¬ Narrow maxItems t e) :
    ¬ Law maxItems (step S maxItems t e) := by
  unfold Narrow at hbad
  rcases hf : t.q.find e.key with _ | c
  · rw [hf] at hbad
    simp only [Classical.not_imp, not_lt] at hbad
    exact not_law_of_prune hi hf hbad.1 hbad.2
  · rw [hf] at hbad
    simp only [Classical.not_imp, not_lt] at hbad
    exact not_law_of_overflow hi hf hbad.1 hbad.2

/-! ## Runs -/

theorem inv_start : Inv maxItems (start : Table K) where
  law := ⟨rfl, Nat.zero_le _, fun _ h => absurd h List.not_mem_nil, fun _ h => absurd h List.not_mem_nil,
    fun _ h => absurd h List.not_mem_nil⟩
  distinct := List.nodup_nil
  absent _ _ _ := rfl

/-- The law holds in every state of a run exactly if nothing leaves 32 bits. -/
theorem law_iff_narrow (S : StdSort K) (maxItems : UInt32) (es : List (Ev K)) :
    Always (step S maxItems) (Law maxItems) start es ↔ Along (step S maxItems) (Narrow maxItems) start es :=
  always_iff_along _ (fun _ e hi hok => inv_step e hi hok) (fun _ hi => hi.law)
    (fun _ e hi hbad => not_law_of_wide e hi hbad) inv_start

def stableSort : StdSort String where
  sort v := v.mergeSort fun a b => decide (a.1 ≤ b.1)
  perm v := List.mergeSort_perm v _
  sorted v := by
    have h := @List.pairwise_mergeSort _ (fun a b : ℕ × String => decide (a.1 ≤ b.1))
      (fun a b c hab hbc => by
        simp only [decide_eq_true_eq] at hab hbc ⊢
        exact le_trans hab hbc)
      (fun a b => by
        simp only [Bool.or_eq_true, decide_eq_true_eq]
        exact le_total a.1 b.1) v
    exact h.imp fun h => by simpa using h

/-- A key added with 2^32 - 1 and then with 1 has the count 0. -/
theorem not_frequent_law :
    ¬ Always (step stableSort 8) (Law 8) start [⟨"a", 4294967295⟩, ⟨"a", 1⟩] := by
  intro h
  have hlast := always_last _ h
  have hzero : (0 : ℕ) = 4294967296 := hlast.exact ("a", 0) (by decide) (by rintro ⟨x, hx, -⟩; cases hx)
  exact absurd hzero (by decide)

end Ntopng.Tables.Frequent
