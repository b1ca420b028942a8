/-
  Ntopng.Queue.Contents — what an `SPSCQueue` holds when every item is flushed.

  `items` reads the ring from the consumer's index to the producer's. `Holds q l` says that
  `q` is a queue that behaves as the list `l`, the oldest item first.

  Proved: a new queue holds nothing, `enqueue` appends or refuses, `isNotEmpty` and `dequeue`
  see the head, and what a queue holds is what `items` reads.
-/

import Ntopng.Queue.SpscProofs

namespace Ntopng.Queue.Spsc

open Ntopng.Lib.Ring

variable {α : Type}

/-- The stored items, the oldest first. -/
def SPSCQueue.items (q : SPSCQueue α) : List α :=
  let n := q.queueSize.toNat
  let first := q.next q.shadowTail
  (List.range ((q.shadowHead + n - first) % n)).filterMap fun i => q.queue[(first + i) % n]?

/-- `q` behaves as the list `l`. -/
def Holds (q : SPSCQueue α) (l : List α) : Prop :=
  ∃ (k : Nat) (s : Sys α) (c : Counts),
    s.q = q ∧ Sim (2 ^ k) s c ∧ c.Ok (2 ^ k) True ∧ l = s.accepted.drop c.taken

theorem filterMap_getElem?_range (l : List α) : (List.range l.length).filterMap (fun i => l[i]?) = l := by
  induction l using List.reverseRecOn with
  | nil => rfl
  | append_singleton l a ih =>
    have hold : ∀ i ∈ List.range l.length, (l ++ [a])[i]? = l[i]? := fun i hi =>
      List.getElem?_append_left (List.mem_range.mp hi)
    rw [List.length_append, List.length_singleton, List.range_succ, List.filterMap_append, List.filterMap_congr hold, ih]
    simp

section

variable {q : SPSCQueue α} {l : List α} {x : α}

theorem holds_new [Inhabited α] {size : UInt32} (h0 : size.toNat ≠ 0) (h : size.toNat ≤ 2 ^ 31) :
    Holds (SPSCQueue.new size : SPSCQueue α) [] := by
  obtain ⟨k, -, hk, -⟩ := pow2_spec h0 h
  exact ⟨k, start size, ⟨0, 0, 0, 0⟩, rfl, sim_start hk (Nat.two_pow_pos k), ok_start, rfl⟩

theorem items_eq (h : Holds q l) : q.items = l := by
  obtain ⟨k, s, c, rfl, hs, hc, rfl⟩ := h
  have hpos := Nat.two_pow_pos k
  have hlen := hs.accepted
  have hft := hc.freedTaken
  have htp := hc.takenPublished
  have hpa := hc.publishedAccepted
  have hroom := hc.room
  have hcount : (s.q.shadowHead + 2 ^ k - s.q.next s.q.shadowTail) % 2 ^ k = c.accepted - c.taken := by
    rw [hs.shadowHead, next_shadowTail hs rfl]
    have hlt : c.accepted - c.taken < 2 ^ k := by
      rcases Nat.lt_or_ge (2 ^ k) 2 with h1 | h1 <;> omega
    have ht := Nat.mod_lt c.taken hpos
    have hd : c.accepted = c.taken + (c.accepted - c.taken) := by omega
    have hmod : c.accepted % 2 ^ k = (c.taken % 2 ^ k + (c.accepted - c.taken)) % 2 ^ k := by
      rw [Nat.mod_add_mod, ← hd]
    rcases Nat.lt_or_ge (c.taken % 2 ^ k + (c.accepted - c.taken)) (2 ^ k) with hw | hw
    · rw [hmod, Nat.mod_eq_of_lt hw, show c.taken % 2 ^ k + (c.accepted - c.taken) + 2 ^ k - c.taken % 2 ^ k =
        c.accepted - c.taken + 2 ^ k by omega, Nat.add_mod_right, Nat.mod_eq_of_lt hlt]
    · rw [hmod, Nat.mod_eq_sub_mod hw, Nat.mod_eq_of_lt (a := _ - 2 ^ k) (by omega),
        show c.taken % 2 ^ k + (c.accepted - c.taken) - 2 ^ k + 2 ^ k - c.taken % 2 ^ k = c.accepted - c.taken by omega,
        Nat.mod_eq_of_lt hlt]
  have hread : ∀ i ∈ List.range (c.accepted - c.taken),
      s.q.queue[(c.taken % 2 ^ k + i) % 2 ^ k]? = (s.accepted.drop c.taken)[i]? := by
    intro i hi
    have hi' : i < c.accepted - c.taken := List.mem_range.mp hi
    rw [Nat.mod_add_mod, List.getElem?_drop]
    exact hs.contents (c.taken + i) (by omega) (by omega)
  unfold SPSCQueue.items
  simp only [hs.size, hcount]
  rw [next_shadowTail hs rfl, List.filterMap_congr hread]
  rw [show c.accepted - c.taken = (s.accepted.drop c.taken).length by rw [List.length_drop, hlen]]
  generalize s.accepted.drop c.taken = l
  exact filterMap_getElem?_range l

theorem holds_enqueue (h : Holds q l) (x : α) :
    Holds (q.enqueue x true).2 (if (q.enqueue x true).1 then l ++ [x] else l) := by
  obtain ⟨k, s, c, rfl, hs, hc, rfl⟩ := h
  have hs' := sim_enqueue hs hc rfl x true
  have hc' := Counts.ok_enqueue hc true fun _ => rfl
  refine ⟨k, _, _, rfl, hs', hc', ?_⟩
  have ht : (c.step (2 ^ k) (.enqueue () true)).taken = c.taken := by
    simp only [Counts.step]
    split <;> rfl
  have hle : c.taken ≤ s.accepted.length := by
    rw [hs.accepted]
    exact Nat.le_trans hc.takenPublished hc.publishedAccepted
  rw [ht]
  simp only [step]
  split
  · rw [List.drop_append_of_le_length hle]
  · rfl

theorem isNotEmpty_iff (h : Holds q l) : q.isNotEmpty = true ↔ l ≠ [] := by
  obtain ⟨k, s, c, rfl, hs, hc, rfl⟩ := h
  have he := isEmpty_eq hs hc rfl
  have hpub := hc.flushed trivial
  have htp := hc.takenPublished
  have hlen := hs.accepted
  have hem : c.empty = true ↔ s.accepted.drop c.taken = [] := by
    rw [Counts.empty, beq_iff_eq, List.drop_eq_nil_iff]
    omega
  rw [Ne, ← hem, ← he, SPSCQueue.isEmpty]
  simp

theorem dequeue_nil (h : Holds q []) : q.dequeue = .error "Empty queue" := by
  have hne : ¬ q.isNotEmpty = true := fun hn => (isNotEmpty_iff h).mp hn rfl
  have heq : q.next q.shadowTail = q.head := by simpa [SPSCQueue.isNotEmpty] using hne
  simp only [SPSCQueue.dequeue, if_pos heq]

theorem holds_dequeue (h : Holds q (x :: l)) : ∃ q', q.dequeue = .ok (some x, q') ∧ Holds q' l := by
  obtain ⟨k, s, c, rfl, hs, hc, hl⟩ := h
  have hne : s.q.isNotEmpty = true := (isNotEmpty_iff ⟨k, s, c, rfl, hs, hc, hl⟩).mpr (by simp)
  have hs' := sim_dequeue hs hc rfl
  have hc' := Counts.ok_dequeue hc
  have hlt : c.taken < s.accepted.length := by
    rcases Nat.lt_or_ge c.taken s.accepted.length with h | h
    · exact h
    · rw [List.drop_eq_nil_of_le h] at hl
      cases hl
  rw [List.drop_eq_getElem_cons hlt] at hl
  obtain ⟨hx, hrest⟩ := List.cons.inj hl
  have hempty : ¬ s.q.next s.q.shadowTail = s.q.head := by simpa [SPSCQueue.isNotEmpty] using hne
  have hcempty : ¬ c.empty = true := fun he => hempty ((next_eq_head_iff hs hc rfl).mpr he)
  have hread : s.q.queue[s.q.next s.q.shadowTail]? = some x := by
    rw [next_shadowTail hs rfl, hs.contents c.taken (Nat.le_refl _) (by rw [← hs.accepted]; exact hlt),
      List.getElem?_eq_getElem hlt, hx]
  refine ⟨(step s .dequeue).q, ?_, k, _, _, rfl, hs', hc', ?_⟩
  · simp only [step, SPSCQueue.dequeue, if_neg hempty, hread]
  · have ht : (c.step (2 ^ k) .dequeue).taken = c.taken + 1 := by simp only [Counts.step, if_neg hcempty]
    have ha : (step s .dequeue).accepted = s.accepted := by
      simp only [step, SPSCQueue.dequeue, if_neg hempty]
    rw [ht, ha, hrest]

end

end Ntopng.Queue.Spsc
