/-
  Ntopng.Lib.Words — finite sets of words and the words they are prefixes of.

  A set covers the words that have one of its words as a prefix. In an antichain no word is
  a prefix of another one, so every covered word is covered once. `compact` puts a word in
  and takes out those it makes redundant.

  Proved: what insertion, compaction and removal leave covered, and that compaction and
  removal keep an antichain.
-/

import Mathlib

namespace Ntopng.Lib.Words

universe u

variable {α : Type u}

/-- Of the words with some word of the set as a prefix. -/
def Covers (s : Finset (List α)) (a : List α) : Prop := ∃ k ∈ s, k <+: a

def Antichain (s : Finset (List α)) : Prop := IsAntichain (· <+: ·) (s : Set (List α))

theorem covers_empty (a : List α) : ¬ Covers ∅ a := by
  rintro ⟨k, hk, -⟩
  exact absurd hk (Finset.notMem_empty k)

theorem antichain_empty : Antichain (∅ : Finset (List α)) := by
  unfold Antichain
  rw [Finset.coe_empty]
  exact Set.subsingleton_empty.isAntichain _

/-- In an antichain the word that covers another one is the only one. -/
theorem Antichain.eq_of_prefix {s : Finset (List α)} (h : Antichain s) {k l a : List α} (hk : k ∈ s) (hl : l ∈ s)
    (hka : k <+: a) (hla : l <+: a) : k = l := by
  rcases List.prefix_or_prefix_of_prefix hka hla with hkl | hlk
  · exact IsAntichain.eq h hk hl hkl
  · exact (IsAntichain.eq h hl hk hlk).symm

variable [DecidableEq α]

theorem covers_insert {s : Finset (List α)} {p a : List α} : Covers (insert p s) a ↔ p <+: a ∨ Covers s a := by
  unfold Covers
  rw [Finset.exists_mem_insert]

/-- The word, and what it does not cover of the others. -/
def compact (p : List α) (s : Finset (List α)) : Finset (List α) := insert p (s.filter fun k => ¬ p <+: k)

theorem covers_compact {s : Finset (List α)} {p a : List α} : Covers (compact p s) a ↔ p <+: a ∨ Covers s a := by
  unfold compact
  rw [covers_insert]
  constructor
  · rintro (h | ⟨k, hk, hka⟩)
    · exact .inl h
    · exact .inr ⟨k, (Finset.mem_filter.mp hk).1, hka⟩
  · rintro (h | ⟨k, hk, hka⟩)
    · exact .inl h
    · by_cases hpk : p <+: k
      · exact .inl (hpk.trans hka)
      · exact .inr ⟨k, Finset.mem_filter.mpr ⟨hk, hpk⟩, hka⟩

theorem antichain_compact {s : Finset (List α)} {p : List α} (h : Antichain s) (hp : ¬ Covers s p) :
    Antichain (compact p s) := by
  intro k hk l hl hne hkl
  rcases Finset.mem_insert.mp (Finset.mem_coe.mp hk) with rfl | hk
  · rcases Finset.mem_insert.mp (Finset.mem_coe.mp hl) with rfl | hl
    · exact hne rfl
    · exact (Finset.mem_filter.mp hl).2 hkl
  · have hks := (Finset.mem_filter.mp hk).1
    rcases Finset.mem_insert.mp (Finset.mem_coe.mp hl) with rfl | hl
    · exact hp ⟨k, hks, hkl⟩
    · exact h hks (Finset.mem_filter.mp hl).1 hne hkl

theorem antichain_erase {s : Finset (List α)} (h : Antichain s) (p : List α) : Antichain (s.erase p) :=
  IsAntichain.subset h (Finset.coe_subset.mpr (Finset.erase_subset p s))

/-- Removing a word of an antichain uncovers all words it covered. -/
theorem covers_erase {s : Finset (List α)} (h : Antichain s) {p a : List α} (hp : p ∈ s) :
    Covers (s.erase p) a ↔ Covers s a ∧ ¬ p <+: a := by
  constructor
  · rintro ⟨k, hk, hka⟩
    obtain ⟨hne, hks⟩ := Finset.mem_erase.mp hk
    exact ⟨⟨k, hks, hka⟩, fun hpa => hne (h.eq_of_prefix hks hp hka hpa)⟩
  · rintro ⟨⟨k, hk, hka⟩, hpa⟩
    refine ⟨k, Finset.mem_erase.mpr ⟨?_, hk⟩, hka⟩
    rintro rfl
    exact hpa hka

end Ntopng.Lib.Words
