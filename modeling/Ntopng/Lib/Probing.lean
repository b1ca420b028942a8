/-
  Ntopng.Lib.Probing — open addressing with linear probing, without removals.

  A table of `n` slots is a function that is only read below `n`. A probe starts at the home
  slot of its key and walks, around the end, until it meets the key or an empty slot, or has seen
  `n` slots.

  `Chained`: every entry is where the probe of its key arrives. It makes an entry unique and
  is kept by writing an entry of the same key, and by a new one where its probe ended.
-/

import Mathlib

namespace Ntopng.Lib.Probing

universe u v

variable {S : Type u} {K : Type v} [DecidableEq K] (key : S → K) (n : ℕ)

inductive Probe where
  | found (slot : ℕ)
  | empty (slot : ℕ)
  | full
  deriving DecidableEq, Repr

/-- With `left` slots still to be seen. -/
def probe (b : ℕ → Option S) (k : K) : (left slot : ℕ) → Probe
  | 0, _ => .full
  | left + 1, slot =>
    match b slot with
    | none => .empty slot
    | some s => if key s = k then .found slot else probe b k left ((slot + 1) % n)

def put (b : ℕ → Option S) (slot : ℕ) (s : S) : ℕ → Option S := fun j => if j = slot then some s else b j

@[simp] theorem put_same (b : ℕ → Option S) (slot : ℕ) (s : S) : put b slot s slot = some s := if_pos rfl

theorem put_ne {slot j : ℕ} (h : j ≠ slot) (b : ℕ → Option S) (s : S) : put b slot s j = b j := if_neg h

variable {key n} {b c : ℕ → Option S} {k : K} {left slot j : ℕ}

/-! ## One probe -/

theorem probe_empty_slot (h : b slot = none) : probe key n b k (left + 1) slot = .empty slot := by
  rw [probe, h]

theorem probe_own {s : S} (h : b slot = some s) (hk : key s = k) : probe key n b k (left + 1) slot = .found slot := by
  rw [probe, h]
  exact if_pos hk

theorem probe_other {s : S} (h : b slot = some s) (hk : key s ≠ k) :
    probe key n b k (left + 1) slot = probe key n b k left ((slot + 1) % n) := by
  rw [probe, h]
  exact if_neg hk

theorem found_entry (h : probe key n b k left slot = .found j) : ∃ s, b j = some s ∧ key s = k := by
  induction left generalizing slot with
  | zero => cases h
  | succ left ih =>
    rcases hb : b slot with _ | s
    · rw [probe_empty_slot hb] at h
      cases h
    · by_cases hk : key s = k
      · rw [probe_own hb hk] at h
        cases h
        exact ⟨s, hb, hk⟩
      · rw [probe_other hb hk] at h
        exact ih h

theorem empty_slot (h : probe key n b k left slot = .empty j) : b j = none := by
  induction left generalizing slot with
  | zero => cases h
  | succ left ih =>
    rcases hb : b slot with _ | s
    · rw [probe_empty_slot hb] at h
      cases h
      exact hb
    · by_cases hk : key s = k
      · rw [probe_own hb hk] at h
        cases h
      · rw [probe_other hb hk] at h
        exact ih h

theorem empty_lt (hslot : slot < n) (h : probe key n b k left slot = .empty j) : j < n := by
  induction left generalizing slot with
  | zero => cases h
  | succ left ih =>
    rcases hb : b slot with _ | s
    · rw [probe_empty_slot hb] at h
      cases h
      exact hslot
    · by_cases hk : key s = k
      · rw [probe_own hb hk] at h
        cases h
      · rw [probe_other hb hk] at h
        exact ih (Nat.mod_lt _ (by omega)) h

/-- A probe that fails has seen other keys only. -/
theorem full_seen (h : probe key n b k left slot = .full) (hslot : slot < n) :
    ∀ i < left, ∃ s, b ((slot + i) % n) = some s ∧ key s ≠ k := by
  induction left generalizing slot with
  | zero => exact fun i hi => absurd hi (Nat.not_lt_zero i)
  | succ left ih =>
    rcases hb : b slot with _ | s
    · rw [probe_empty_slot hb] at h
      cases h
    by_cases hk : key s = k
    · rw [probe_own hb hk] at h
      cases h
    rw [probe_other hb hk] at h
    rintro (_ | i) hi
    · rw [Nat.add_zero, Nat.mod_eq_of_lt hslot]
      exact ⟨s, hb, hk⟩
    · obtain ⟨s', hs', hk'⟩ := ih h (Nat.mod_lt _ (by omega)) i (by omega)
      refine ⟨s', ?_, hk'⟩
      rw [Nat.mod_add_mod] at hs'
      rwa [show slot + (i + 1) = slot + 1 + i by omega]

/-- The walk goes around the whole table. -/
theorem full_all (h : probe key n b k n slot = .full) (hslot : slot < n) : ∀ j < n, ∃ s, b j = some s ∧ key s ≠ k := by
  intro j hj
  have hi : (slot + (j + n - slot) % n) % n = j := by
    rw [Nat.add_mod_mod, show slot + (j + n - slot) = j + n by omega, Nat.add_mod_right, Nat.mod_eq_of_lt hj]
  have := full_seen h hslot ((j + n - slot) % n) (Nat.mod_lt _ (by omega))
  rwa [hi] at this

theorem full_of_all (h : ∀ j < n, ∃ s, b j = some s ∧ key s ≠ k) (hslot : slot < n) :
    probe key n b k left slot = .full := by
  induction left generalizing slot with
  | zero => rfl
  | succ left ih =>
    obtain ⟨s, hs, hk⟩ := h slot hslot
    rw [probe_other hs hk]
    exact ih (Nat.mod_lt _ (by omega))

/-! ## A table that changes -/

/-- A probe sees the keys only. -/
theorem probe_congr (h : ∀ j, (b j).map key = (c j).map key) : probe key n b k left slot = probe key n c k left slot := by
  induction left generalizing slot with
  | zero => rfl
  | succ left ih =>
    have hs := h slot
    rcases hb : b slot with _ | s <;> rcases hc : c slot with _ | t <;> rw [hb, hc] at hs
    · rw [probe_empty_slot hb, probe_empty_slot hc]
    · cases hs
    · cases hs
    · have hst : key s = key t := Option.some.inj hs
      by_cases hk : key s = k
      · rw [probe_own hb hk, probe_own hc (hst ▸ hk)]
      · rw [probe_other hb hk, probe_other hc (hst ▸ hk), ih]

/-- A new entry does not hide another: the walk to it has no empty slot. -/
theorem found_put {new : ℕ} {x : S} (hnew : b new = none) (h : probe key n b k left slot = .found j) :
    probe key n (put b new x) k left slot = .found j := by
  induction left generalizing slot with
  | zero => cases h
  | succ left ih =>
    rcases hb : b slot with _ | s
    · rw [probe_empty_slot hb] at h
      cases h
    have hne : slot ≠ new := by
      rintro rfl
      rw [hnew] at hb
      cases hb
    have hb' : put b new x slot = some s := (put_ne hne b x).trans hb
    by_cases hk : key s = k
    · rw [probe_own hb hk] at h
      rw [probe_own hb' hk, h]
    · rw [probe_other hb hk] at h
      rw [probe_other hb' hk]
      exact ih h

theorem found_new {x : S} (hx : key x = k) (h : probe key n b k left slot = .empty j) :
    probe key n (put b j x) k left slot = .found j := by
  have hj := empty_slot h
  induction left generalizing slot with
  | zero => cases h
  | succ left ih =>
    rcases hb : b slot with _ | s
    · rw [probe_empty_slot hb] at h
      cases h
      exact probe_own (put_same ..) hx
    have hne : slot ≠ j := by
      rintro rfl
      rw [hj] at hb
      cases hb
    have hb' : put b j x slot = some s := (put_ne hne b x).trans hb
    by_cases hk : key s = k
    · rw [probe_own hb hk] at h
      cases h
    · rw [probe_other hb hk] at h
      rw [probe_other hb' hk]
      exact ih h

/-! ## Every entry is found -/

variable (key n) (home : K → ℕ)

def Chained (b : ℕ → Option S) : Prop :=
  ∀ j s, b j = some s → j < n ∧ probe key n b (key s) n (home (key s)) = .found j

variable {key n home}

theorem chained_empty : Chained key n home fun _ => none := fun _ _ h => by cases h

theorem Chained.unique (h : Chained key n home b) {i j : ℕ} {s t : S} (hs : b i = some s) (ht : b j = some t)
    (hk : key s = key t) : i = j := by
  have hi := (h i s hs).2
  rw [hk, (h j t ht).2] at hi
  exact (Probe.found.inj hi).symm

/-- The entry is rewritten, its key stays. -/
theorem Chained.rewrite (h : Chained key n home b) {s x : S} (hs : b slot = some s) (hk : key x = key s) :
    Chained key n home (put b slot x) := by
  have hkeys : ∀ j, (put b slot x j).map key = (b j).map key := by
    intro j
    by_cases hj : j = slot
    · rw [hj, put_same, hs, Option.map_some, Option.map_some, hk]
    · rw [put_ne hj]
  intro j t ht
  rw [probe_congr hkeys]
  by_cases hj : j = slot
  · rw [hj, put_same] at ht
    cases ht
    rw [hj, hk]
    exact h slot s hs
  · rw [put_ne hj] at ht
    exact h j t ht

theorem Chained.insert (h : Chained key n home b) {x : S} (hhome : home (key x) < n)
    (hp : probe key n b (key x) n (home (key x)) = .empty slot) : Chained key n home (put b slot x) := by
  intro j t ht
  by_cases hj : j = slot
  · rw [hj, put_same] at ht
    cases ht
    rw [hj]
    exact ⟨empty_lt hhome hp, found_new rfl hp⟩
  · rw [put_ne hj] at ht
    exact ⟨(h j t ht).1, found_put (empty_slot hp) (h j t ht).2⟩

end Ntopng.Lib.Probing
