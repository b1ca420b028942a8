/-
  Ntopng.Queue.SpscProofs — the queue's properties (see `Ntopng.Queue.Spsc`).

  `pow2_spec` gives the ring size. `Counts` is the queue without its ring: how many items
  were accepted, published by the producer, taken, and given back by the consumer. The
  queue simulates it (`sim_step`): each index is a count modulo the ring size. The two
  published counts lag the real ones by at most seven (by nothing when every item is
  flushed), so a ring with room for both lags never wedges (`not_wedged`), and a smaller
  one can be driven into the wedge (`wedges`).
-/

import Ntopng.Lib.Ring
import Ntopng.Lib.RoundUp
import Ntopng.Queue.Spsc

namespace Ntopng.Queue.Spsc

open Ntopng.Lib.Run Ntopng.Lib.Ring Ntopng.Lib.RoundUp

variable {α : Type}

/-! ## The ring size -/

/-- The five smears of `pow2`, before the final increment. -/
theorem pow2_covers (size : UInt32) :
    ∃ y : UInt32, pow2 size = y + 1 ∧ Covers 32 (size - 1).toNat y.toNat := by
  refine ⟨_, rfl, ?_⟩
  have h1 := covers_smear (covers_self (size - 1).toNat)
  have h2 := covers_smear h1
  have h4 := covers_smear h2
  have h8 := covers_smear h4
  have h16 := covers_smear h8
  simpa [UInt32.toNat_or, UInt32.toNat_shiftRight] using h16

theorem pred_toNat {size : UInt32} (h : size.toNat ≠ 0) : (size - 1).toNat = size.toNat - 1 := by
  have := size.toNat_lt
  rw [UInt32.toNat_sub]
  simp
  omega

theorem pow2_zero {size : UInt32} (h : size.toNat = 0 ∨ 2 ^ 31 < size.toNat) : (pow2 size).toNat = 0 := by
  obtain ⟨y, hy, hc⟩ := pow2_covers size
  have hx : 2 ^ 31 ≤ (size - 1).toNat ∧ (size - 1).toNat < 2 ^ 32 := by
    refine ⟨?_, (size - 1).toNat_lt⟩
    rcases h with h | h
    · have : size = 0 := UInt32.toNat_inj.mp (by simpa using h)
      subst this; decide
    · rw [pred_toNat (by omega)]; omega
  have := covers_full hc hx.1 hx.2 (by omega)
  rw [hy, UInt32.toNat_add, this]
  rfl

/-- Up to `2 ^ 31` the ring size is the least power of two that `size` does not exceed. -/
theorem pow2_spec {size : UInt32} (h0 : size.toNat ≠ 0) (h : size.toNat ≤ 2 ^ 31) :
    ∃ k, k ≤ 31 ∧ (pow2 size).toNat = 2 ^ k ∧ size.toNat ≤ 2 ^ k ∧ 2 ^ k < 2 * size.toNat := by
  obtain ⟨y, hy, hc⟩ := pow2_covers size
  rw [pred_toNat h0] at hc
  by_cases h1 : size.toNat = 1
  · have hz : y.toNat = 0 := by rw [h1] at hc; exact covers_zero hc
    exact ⟨0, by omega, by rw [hy, UInt32.toNat_add, hz]; rfl, by omega, by omega⟩
  · obtain ⟨n, hlo, hhi⟩ := exists_log (x := size.toNat - 1) (by omega)
    have hn : n < 31 := (Nat.pow_lt_pow_iff_right (by omega : 1 < 2)).mp (by omega)
    have hv := covers_full hc hlo hhi (by omega)
    have hle : (2 : Nat) ^ (n + 1) ≤ 2 ^ 31 := Nat.pow_le_pow_right (by omega) (by omega)
    have hpos := Nat.two_pow_pos (n + 1)
    refine ⟨n + 1, by omega, ?_, by omega, by rw [Nat.pow_succ]; omega⟩
    rw [hy, UInt32.toNat_add, hv]
    simp
    omega

/-! ## The abstract queue: four counts -/

structure Counts where
  accepted : Nat
  /-- Accepted items the producer has published in `head`. -/
  published : Nat
  taken : Nat
  /-- Takes the consumer has published in `tail`. -/
  freed : Nat
  deriving DecidableEq, Repr

namespace Counts

/-- One slot holds the last taken item and one stays free. -/
def full (n : Nat) (c : Counts) : Bool := c.accepted + 2 == c.freed + max n 2

def empty (c : Counts) : Bool := c.taken == c.published

def step (n : Nat) (c : Counts) : Ev Unit → Counts
  | .isFull => c
  | .enqueue _ flush =>
    if c.full n then c
    else
      { c with
        accepted := c.accepted + 1
        published := if flush || (c.accepted + 1) % n % 8 == 0 then c.accepted + 1 else c.published }
  | .isNotEmpty => c
  | .dequeue =>
    if c.empty then c
    else { c with taken := c.taken + 1, freed := if c.taken % n % 8 == 0 then c.taken + 1 else c.freed }

/-- `allFlush`: every enqueue flushes. -/
structure Ok (n : Nat) (allFlush : Prop) (c : Counts) : Prop where
  freedTaken : c.freed ≤ c.taken
  takenPublished : c.taken ≤ c.published
  publishedAccepted : c.published ≤ c.accepted
  room : c.accepted + 2 ≤ c.freed + max n 2
  headLag : 8 ∣ n → c.accepted / 8 * 8 ≤ c.published
  tailLag : 8 ∣ n → (c.taken + 7) / 8 * 8 ≤ c.freed + 7
  flushed : allFlush → c.published = c.accepted

theorem ok_enqueue {n : Nat} {allFlush : Prop} {c : Counts} (h : c.Ok n allFlush) (flush : Bool)
    (hf : allFlush → flush = true) : (c.step n (.enqueue () flush)).Ok n allFlush := by
  have ⟨h1, h2, h3, hr, hh, ht, hfl⟩ := h
  simp only [step]
  by_cases hfull : c.full n = true
  · rw [if_pos hfull]; exact h
  rw [if_neg hfull]
  have hlt : c.accepted + 2 < c.freed + max n 2 := by
    have : c.accepted + 2 ≠ c.freed + max n 2 := by simpa [full] using hfull
    omega
  by_cases hp : (flush || (c.accepted + 1) % n % 8 == 0) = true
  · simp only [hp, if_true]
    exact ⟨h1, by simp only; omega, Nat.le_refl _, hlt, fun _ => by simp only; omega, ht, fun _ => rfl⟩
  · simp only [hp, Bool.false_eq_true, if_false]
    simp only [Bool.or_eq_true, beq_iff_eq, not_or] at hp
    refine ⟨h1, h2, by simp only; omega, hlt, fun h8 => ?_, ht, fun ha => absurd (hf ha) hp.1⟩
    -- Short of a multiple of the watermark the last published one is still within reach.
    have hm := hp.2
    rw [slot_mod_of_dvd h8] at hm
    have := hh h8
    simp only
    omega

theorem ok_dequeue {n : Nat} {allFlush : Prop} {c : Counts} (h : c.Ok n allFlush) :
    (c.step n .dequeue).Ok n allFlush := by
  have ⟨h1, h2, h3, hr, hh, ht, hfl⟩ := h
  simp only [step]
  by_cases hempty : c.empty = true
  · rw [if_pos hempty]; exact h
  rw [if_neg hempty]
  have hlt : c.taken < c.published := by
    have : c.taken ≠ c.published := by simpa [empty] using hempty
    omega
  by_cases hp : (c.taken % n % 8 == 0) = true
  · simp only [hp, if_true]
    exact ⟨Nat.le_refl _, hlt, h3, by simp only; omega, hh, fun _ => by simp only; omega, hfl⟩
  · simp only [hp, Bool.false_eq_true, if_false]
    refine ⟨by simp only; omega, hlt, h3, hr, hh, fun h8 => ?_, hfl⟩
    simp only [beq_iff_eq, slot_mod_of_dvd h8] at hp
    have := ht h8
    simp only
    omega

end Counts

/-! ## The queue simulates the counts -/

structure Sim (n : Nat) (s : Sys α) (c : Counts) : Prop where
  size : s.q.queueSize.toNat = n
  slots : s.q.queue.length = n
  shadowHead : s.q.shadowHead = c.accepted % n
  head : s.q.head = c.published % n
  shadowTail : s.q.shadowTail = (c.taken + (n - 1)) % n
  tail : s.q.tail = (c.freed + (n - 1)) % n
  accepted : s.accepted.length = c.accepted
  fifo : s.taken = (s.accepted.take c.taken).map some
  contents : ∀ i, c.taken ≤ i → i < c.accepted → s.q.queue[i % n]? = s.accepted[i]?

def Ev.erase : Ev α → Ev Unit
  | .isFull => .isFull
  | .enqueue _ flush => .enqueue () flush
  | .isNotEmpty => .isNotEmpty
  | .dequeue => .dequeue

section Simulation

variable {n k : Nat} {allFlush : Prop} {s : Sys α} {c : Counts}

theorem next_eq (h : Sim n s c) (hn : n = 2 ^ k) (i : Nat) : s.q.next i = (i + 1) % n := by
  have hpos := Nat.two_pow_pos k
  have hs := h.size
  unfold SPSCQueue.next
  rw [pred_toNat (by omega), hs, mask_eq_mod hn]

theorem next_shadowTail (h : Sim n s c) (hn : n = 2 ^ k) : s.q.next s.q.shadowTail = c.taken % n := by
  have hpos := Nat.two_pow_pos k
  rw [next_eq h hn, h.shadowTail, succ_slot, succ_pred_slot _ (by omega)]

theorem next_shadowHead (h : Sim n s c) (hn : n = 2 ^ k) : s.q.next (c.accepted % n) = (c.accepted + 1) % n := by
  rw [next_eq h hn, succ_slot]

theorem tail_eq_iff (h : Sim n s c) (hc : c.Ok n allFlush) (hn : n = 2 ^ k) :
    s.q.tail = s.q.next s.q.shadowHead ↔ c.full n = true := by
  have hpos := Nat.two_pow_pos k
  have ⟨h1, h2, h3, hr, _, _, _⟩ := hc
  rw [h.tail, h.shadowHead, next_shadowHead h hn, Counts.full, beq_iff_eq]
  by_cases h1n : n = 1
  · rw [h1n, Nat.mod_one, Nat.mod_one]
    constructor
    · intro _; omega
    · intro _; rfl
  · rw [eq_comm, slot_eq_iff (by omega) (by omega)]
    omega

theorem next_eq_head_iff (h : Sim n s c) (hc : c.Ok n allFlush) (hn : n = 2 ^ k) :
    s.q.next s.q.shadowTail = s.q.head ↔ c.empty = true := by
  have hpos := Nat.two_pow_pos k
  have ⟨h1, h2, h3, hr, _, _, _⟩ := hc
  rw [next_shadowTail h hn, h.head, Counts.empty, beq_iff_eq]
  exact slot_eq_iff h2 (by omega)

theorem isFull_eq (h : Sim n s c) (hc : c.Ok n allFlush) (hn : n = 2 ^ k) : s.q.isFull = c.full n := by
  rw [Bool.eq_iff_iff, ← tail_eq_iff h hc hn]
  exact beq_iff_eq

theorem isEmpty_eq (h : Sim n s c) (hc : c.Ok n allFlush) (hn : n = 2 ^ k) : s.q.isEmpty = c.empty := by
  rw [Bool.eq_iff_iff, ← next_eq_head_iff h hc hn]
  unfold SPSCQueue.isEmpty SPSCQueue.isNotEmpty
  simp

theorem and_watermark (i : Nat) : i &&& queueWatermarkMask = i % 8 := mask_eq_mod (n := 8) (k := 3) rfl i

theorem sim_enqueue (h : Sim n s c) (hc : c.Ok n allFlush) (hn : n = 2 ^ k) (x : α) (flush : Bool) :
    Sim n (step s (.enqueue x flush)) (c.step n (.enqueue () flush)) := by
  have hpos := Nat.two_pow_pos k
  have ⟨h1, h2, h3, hr, _, _, _⟩ := hc
  have hiff := tail_eq_iff h hc hn
  by_cases hfull : c.full n = true
  · have he : step s (.enqueue x flush) =
        { s with q := { s.q with numFailedEnqueues := s.q.numFailedEnqueues + 1 } } := by
      simp [step, SPSCQueue.enqueue, hiff.mpr hfull]
    rw [he, Counts.step, if_pos hfull]
    exact ⟨h.size, h.slots, h.shadowHead, h.head, h.shadowTail, h.tail, h.accepted, h.fifo, h.contents⟩
  have hlt : c.accepted + 2 < c.freed + max n 2 := by
    have : c.accepted + 2 ≠ c.freed + max n 2 := by simpa [Counts.full] using hfull
    omega
  have hne := mt hiff.mp hfull
  rw [h.shadowHead, next_shadowHead h hn] at hne
  have he : step s (.enqueue x flush) =
      { s with
        q := { s.q with
          queue := s.q.queue.set (c.accepted % n) x
          shadowHead := (c.accepted + 1) % n
          head := if flush || (c.accepted + 1) % n % 8 == 0 then (c.accepted + 1) % n else s.q.head }
        accepted := s.accepted ++ [x] } := by
    simp [step, SPSCQueue.enqueue, next_shadowHead h hn, hne, and_watermark, h.shadowHead]
  rw [he, Counts.step, if_neg hfull]
  refine ⟨h.size, by simpa using h.slots, rfl, ?_, h.shadowTail, h.tail, by simp [h.accepted], ?_, ?_⟩
  · simp only []
    split
    · rfl
    · exact h.head
  · show s.taken = ((s.accepted ++ [x]).take c.taken).map some
    rw [List.take_append_of_le_length (by rw [h.accepted]; omega)]; exact h.fifo
  · intro i (hi : c.taken ≤ i) (hlt' : i < c.accepted + 1)
    show (s.q.queue.set (c.accepted % n) x)[i % n]? = (s.accepted ++ [x])[i]?
    by_cases hi' : i < c.accepted
    · -- An older item sits in another slot than the new one.
      have hslot : c.accepted % n ≠ i % n := by
        intro e
        have := (slot_eq_iff (n := n) (Nat.le_of_lt hi') (by omega)).mp e.symm
        omega
      rw [List.getElem?_set_ne hslot, List.getElem?_append_left (by rw [h.accepted]; exact hi')]
      exact h.contents i hi hi'
    · have hie : i = c.accepted := by omega
      subst hie
      have hb : c.accepted % n < s.q.queue.length := by rw [h.slots]; exact Nat.mod_lt _ (by omega)
      rw [List.getElem?_set_self hb, ← h.accepted]
      simp

/-- The consumer's half: the item read is the oldest one not yet taken. -/
theorem sim_dequeue (h : Sim n s c) (hc : c.Ok n allFlush) (hn : n = 2 ^ k) :
    Sim n (step s .dequeue) (c.step n .dequeue) := by
  have hpos := Nat.two_pow_pos k
  have ⟨h1, h2, h3, hr, _, _, _⟩ := hc
  have hiff := next_eq_head_iff h hc hn
  by_cases hempty : c.empty = true
  · have he : step s .dequeue = s := by simp [step, SPSCQueue.dequeue, hiff.mpr hempty]
    rw [he, Counts.step, if_pos hempty]; exact h
  have hlt : c.taken < c.accepted := by
    have : c.taken ≠ c.published := by simpa [Counts.empty] using hempty
    omega
  have hne := mt hiff.mp hempty
  rw [next_shadowTail h hn] at hne
  have he : step s .dequeue =
      { s with
        q := { s.q with
          shadowTail := c.taken % n
          tail := if c.taken % n % 8 == 0 then c.taken % n else s.q.tail }
        taken := s.taken ++ [s.accepted[c.taken]?] } := by
    simp [step, SPSCQueue.dequeue, next_shadowTail h hn, hne, and_watermark, h.contents _ (Nat.le_refl _) hlt]
  have hshift : c.taken % n = (c.taken + 1 + (n - 1)) % n := by
    rw [show c.taken + 1 + (n - 1) = c.taken + (n - 1) + 1 by omega, succ_pred_slot _ (by omega)]
  rw [he, Counts.step, if_neg hempty]
  refine ⟨h.size, h.slots, h.shadowHead, h.head, hshift, ?_, h.accepted, ?_, ?_⟩
  · simp only []
    split
    · exact hshift
    · exact h.tail
  · have hx : c.taken < s.accepted.length := by rw [h.accepted]; exact hlt
    show s.taken ++ [s.accepted[c.taken]?] = (s.accepted.take (c.taken + 1)).map some
    rw [List.take_succ_eq_append_getElem hx, List.map_append, ← h.fifo, List.getElem?_eq_getElem hx]
    rfl
  · intro i (hi : c.taken + 1 ≤ i) hlt'
    exact h.contents i (by omega) hlt'

end Simulation

/-! ## Runs -/

/-- The counts after a run of the queue. -/
def countsOf (n : Nat) (es : List (Ev α)) : Counts := run (Counts.step n) ⟨0, 0, 0, 0⟩ (es.map Ev.erase)

theorem sim_start [Inhabited α] {size : UInt32} {n : Nat} (hs : (pow2 size).toNat = n) (hpos : 0 < n) :
    Sim n (start size : Sys α) ⟨0, 0, 0, 0⟩ := by
  have hm : (pow2 size - 1).toNat = n - 1 := by rw [pred_toNat (by omega), hs]
  have hmod : n - 1 = (n - 1) % n := (Nat.mod_eq_of_lt (by omega)).symm
  refine ⟨hs, by simp [start, SPSCQueue.new, hs], by simp [start, SPSCQueue.new], by simp [start, SPSCQueue.new],
    by simp [start, SPSCQueue.new, hm, ← hmod], by simp [start, SPSCQueue.new, hm, ← hmod], rfl, rfl, ?_⟩
  intro i _ hi; exact absurd hi (Nat.not_lt_zero i)

theorem ok_start {n : Nat} {allFlush : Prop} : Counts.Ok n allFlush ⟨0, 0, 0, 0⟩ :=
  ⟨Nat.le_refl _, Nat.le_refl _, Nat.le_refl _, by simp only; omega, fun _ => Nat.le_refl _,
    fun _ => by simp, fun _ => rfl⟩

/-- In a run that follows the discipline the queue stays with its counts. -/
theorem sim_run {n k : Nat} (hn : n = 2 ^ k) (d : Discipline) : ∀ (es : List (Ev α)) (s : Sys α) (c : Counts),
    (∀ e ∈ es, Follows d e) → Sim n s c → c.Ok n (d = .always) →
      Sim n (run step s es) (run (Counts.step n) c (es.map Ev.erase)) ∧
        (run (Counts.step n) c (es.map Ev.erase)).Ok n (d = .always) := by
  intro es
  induction es with
  | nil => intro s c _ h hc; exact ⟨h, hc⟩
  | cons e es ih =>
    intro s c hd h hc
    have hd' : ∀ x ∈ es, Follows d x := fun x hx => hd x (List.mem_cons_of_mem _ hx)
    cases e with
    | isFull => exact ih s c hd' h hc
    | enqueue x flush =>
      have hfl : d = .always → flush = true := fun ha => by
        have := hd _ (List.mem_cons_self ..)
        subst ha; exact this
      exact ih _ _ hd' (sim_enqueue h hc hn x flush) (Counts.ok_enqueue hc flush hfl)
    | isNotEmpty => exact ih s c hd' h hc
    | dequeue => exact ih _ _ hd' (sim_dequeue h hc hn) (Counts.ok_dequeue hc)

theorem sim_of_run [Inhabited α] {size : UInt32} {k : Nat} (hs : (pow2 size).toNat = 2 ^ k) (d : Discipline)
    {es : List (Ev α)} (hd : ∀ e ∈ es, Follows d e) :
    Sim (2 ^ k) (run step (start size) es) (countsOf (2 ^ k) es) ∧ (countsOf (2 ^ k) es).Ok (2 ^ k) (d = .always) :=
  sim_run rfl d es _ _ hd (sim_start hs (Nat.two_pow_pos k)) ok_start

theorem fifo_of_sim {n : Nat} {s : Sys α} {c : Counts} (h : Sim n s c) : Fifo s := by
  unfold Fifo
  rw [h.fifo]
  exact List.IsPrefix.map some (List.take_prefix _ _)

theorem wedged_iff {n k : Nat} {allFlush : Prop} {s : Sys α} {c : Counts} (h : Sim n s c) (hc : c.Ok n allFlush)
    (hn : n = 2 ^ k) : Wedged s ↔ c.full n = true ∧ c.empty = true := by
  unfold Wedged
  rw [isFull_eq h hc hn, ← isEmpty_eq h hc hn, SPSCQueue.isEmpty]
  simp

/-- Seven unpublished items and seven unpublished takes leave a ring of 32 neither full
    nor empty at once; without unpublished items 16 slots are enough. -/
theorem not_wedged {k : Nat} {allFlush : Prop} {c : Counts} (hc : c.Ok (2 ^ k) allFlush)
    (hroom : 4 ≤ k ∧ (allFlush ∨ 5 ≤ k)) : ¬ (c.full (2 ^ k) = true ∧ c.empty = true) := by
  rintro ⟨hfull, hempty⟩
  simp only [Counts.full, Counts.empty, beq_iff_eq] at hfull hempty
  have h8 : 8 ∣ 2 ^ k := Nat.pow_dvd_pow 2 (show 3 ≤ k by omega)
  have hhead := hc.headLag h8
  have htail := hc.tailLag h8
  have h16 : 2 ^ 4 ≤ 2 ^ k := Nat.pow_le_pow_right (by omega) hroom.1
  rcases hroom.2 with ha | h5
  · have := hc.flushed ha; omega
  · have : 2 ^ 5 ≤ 2 ^ k := Nat.pow_le_pow_right (by omega) h5
    omega

/-! ## Driving a small ring into the wedge -/

/-- Fill the ring, drain it, put one more item and take it. -/
def fillAndDrain (n : Nat) (x : α) (flush : Bool) : List (Ev α) :=
  List.replicate (n - 2) (.enqueue x flush) ++ List.replicate (n - 2) .dequeue ++ [.enqueue x flush, .dequeue]

theorem fillAndDrain_follows {d : Discipline} {flush : Bool} (hf : d.allows flush = true) (n : Nat) (x : α) :
    ∀ e ∈ fillAndDrain n x flush, Follows d e := by
  intro e he
  simp only [fillAndDrain, List.mem_append, List.mem_replicate, List.mem_cons, List.not_mem_nil, or_false] at he
  rcases he with (⟨-, rfl⟩ | ⟨-, rfl⟩) | rfl | rfl
  · exact hf
  · trivial
  · exact hf
  · trivial

theorem fillAndDrain_erase (n : Nat) (x : α) (flush : Bool) :
    (fillAndDrain n x flush).map Ev.erase = fillAndDrain n () flush := by
  simp [fillAndDrain, Ev.erase]

/-- Up to 8 slots the wedge is reached whatever `flush` is, with 16 as soon as nothing is
    flushed. -/
theorem wedges [Inhabited α] {size : UInt32} {k : Nat} (hs : (pow2 size).toNat = 2 ^ k) (x : α) {flush : Bool}
    {d : Discipline} (hf : d.allows flush = true) (hk : k ≤ 3 ∨ (k = 4 ∧ flush = false)) :
    Wedged (run step (start size) (fillAndDrain (2 ^ k) x flush)) := by
  obtain ⟨h, hc⟩ := sim_of_run hs d (fillAndDrain_follows hf (2 ^ k) x)
  rw [wedged_iff h hc rfl, countsOf, fillAndDrain_erase]
  rcases hk with hk | ⟨rfl, rfl⟩
  · have hcases : k = 0 ∨ k = 1 ∨ k = 2 ∨ k = 3 := by omega
    rcases hcases with rfl | rfl | rfl | rfl <;> cases flush <;> decide
  · decide +kernel

/-- A queue built with no slots, after `m` items: the mask of an empty ring lets the
    indices run to `2 ^ 32`, every item is accepted and none is stored. -/
structure NoSlots (m : Nat) (s : Sys α) : Prop where
  size : s.q.queueSize = 0
  queue : s.q.queue = []
  shadowHead : s.q.shadowHead = m
  head : m / 8 * 8 ≤ s.q.head
  shadowTail : s.q.shadowTail = 2 ^ 32 - 1
  tail : s.q.tail = 2 ^ 32 - 1
  taken : s.taken = []

theorem noSlots_next {m : Nat} {s : Sys α} (h : NoSlots m s) (i : Nat) : s.q.next i = (i + 1) % 2 ^ 32 := by
  unfold SPSCQueue.next
  rw [h.size]
  exact mask_eq_mod (k := 32) rfl _

theorem noSlots_enqueue {m : Nat} {s : Sys α} (h : NoSlots m s) (hm : m + 2 < 2 ^ 32) (x : α) (flush : Bool) :
    NoSlots (m + 1) (step s (.enqueue x flush)) := by
  have hn : s.q.next s.q.shadowHead = m + 1 := by
    rw [noSlots_next h, h.shadowHead, Nat.mod_eq_of_lt (by omega)]
  have hroom : s.q.tail ≠ m + 1 := by rw [h.tail]; omega
  have he : step s (.enqueue x flush) =
      { s with
        q := { s.q with
          queue := s.q.queue.set s.q.shadowHead x
          shadowHead := m + 1
          head := if flush || (m + 1) % 8 == 0 then m + 1 else s.q.head }
        accepted := s.accepted ++ [x] } := by
    simp [step, SPSCQueue.enqueue, hn, hroom, and_watermark]
  rw [he]
  refine ⟨h.size, by simp [h.queue], rfl, ?_, h.shadowTail, h.tail, h.taken⟩
  have hh := h.head
  show (m + 1) / 8 * 8 ≤ if flush || (m + 1) % 8 == 0 then m + 1 else s.q.head
  by_cases hp : (flush || (m + 1) % 8 == 0) = true
  · rw [if_pos hp]; omega
  · rw [if_neg hp]
    simp only [Bool.or_eq_true, beq_iff_eq, not_or] at hp
    omega

theorem noSlots_run (x : α) (flush : Bool) (j : Nat) : ∀ (m : Nat) (s : Sys α), NoSlots m s →
    m + j + 2 < 2 ^ 32 → NoSlots (m + j) (run step s (List.replicate j (.enqueue x flush))) := by
  induction j with
  | zero => intro m s h _; exact h
  | succ j ih =>
    intro m s h hb
    have := ih (m + 1) _ (noSlots_enqueue h (by omega) x flush) (by omega)
    rwa [show m + (j + 1) = m + 1 + j by omega]

/-- After a published item the consumer reads a slot that is not there. -/
theorem noSlots_dequeue {s : Sys α} (h : NoSlots 8 s) : ¬ Fifo (step s .dequeue) := by
  have hn : s.q.next s.q.shadowTail = 0 := by rw [h.shadowTail, noSlots_next h, Nat.sub_add_cancel (by omega), Nat.mod_self]
  have hne : ¬ 0 = s.q.head := by have := h.head; omega
  have he : (step s .dequeue).taken = [none] := by
    simp [step, SPSCQueue.dequeue, hn, hne, h.queue, h.taken]
  intro hf
  unfold Fifo at hf
  rw [he] at hf
  have := hf.subset (List.mem_singleton_self none)
  simp at this

theorem not_fifo_of_no_slots [Inhabited α] {size : UInt32} (hs : (pow2 size).toNat = 0) (x : α) (flush : Bool) :
    ¬ Fifo (run step (start size) (List.replicate 8 (.enqueue x flush) ++ [.dequeue])) := by
  have hz : pow2 size = 0 := UInt32.toNat_inj.mp hs
  have h0 : NoSlots 0 (start size : Sys α) := by
    constructor <;> simp [start, SPSCQueue.new, hz]
  rw [run_snoc]
  exact noSlots_dequeue (noSlots_run x flush 8 0 _ h0 (by omega))

/-! ## The queue's contract -/

/-- Every run delivers in order and never wedges exactly when the ring has room for what
    the two threads leave unpublished. -/
theorem fifo_never_wedged_iff [Inhabited α] (size : UInt32) (d : Discipline) :
    (∀ es : List (Ev α), (∀ e ∈ es, Follows d e) →
      Fifo (run step (start size) es) ∧ ¬ Wedged (run step (start size) es)) ↔
    9 ≤ size.toNat ∧ size.toNat ≤ 2 ^ 31 ∧ (d = .always ∨ 17 ≤ size.toNat) := by
  -- A flag the discipline allows, not flushing when it may.
  obtain ⟨flush, hf, hflush⟩ : ∃ flush, d.allows flush = true ∧ (d = .always ∨ flush = false) := by
    cases d
    · exact ⟨true, rfl, Or.inl rfl⟩
    · exact ⟨false, rfl, Or.inr rfl⟩
    · exact ⟨false, rfl, Or.inr rfl⟩
  constructor
  · intro h
    by_cases hz : size.toNat = 0 ∨ 2 ^ 31 < size.toNat
    · have hd : ∀ e ∈ List.replicate 8 (Ev.enqueue (default : α) flush) ++ [.dequeue], Follows d e := by
        intro e he
        simp only [List.mem_append, List.mem_replicate, List.mem_singleton] at he
        rcases he with ⟨-, rfl⟩ | rfl
        · exact hf
        · trivial
      exact absurd (h _ hd).1 (not_fifo_of_no_slots (pow2_zero hz) default flush)
    · obtain ⟨k, -, hk, hle, hlt⟩ := pow2_spec (mt Or.inl hz) (Nat.le_of_not_lt (mt Or.inr hz))
      have hsmall : ¬ (k ≤ 3 ∨ (k = 4 ∧ flush = false)) := fun hw =>
        (h _ (fillAndDrain_follows hf (2 ^ k) default)).2 (wedges hk default hf hw)
      have h3 : 3 < k := by omega
      have h4 : 2 ^ 4 ≤ 2 ^ k := Nat.pow_le_pow_right (by omega) h3
      refine ⟨by omega, by omega, ?_⟩
      rcases hflush with hd | hnf
      · exact Or.inl hd
      · have h5 : 2 ^ 5 ≤ 2 ^ k := Nat.pow_le_pow_right (by omega) (Nat.lt_of_le_of_ne h3 fun e =>
          hsmall (Or.inr ⟨e.symm, hnf⟩))
        exact Or.inr (by omega)
  · rintro ⟨hlo, hhi, hd⟩ es hes
    have h0 : size.toNat ≠ 0 := by omega
    obtain ⟨k, -, hk, hle, hlt⟩ := pow2_spec h0 hhi
    obtain ⟨h, hc⟩ := sim_of_run hk d hes
    have h3 : 3 < k := (Nat.pow_lt_pow_iff_right (a := 2) (by omega)).mp (by omega)
    refine ⟨fifo_of_sim h, fun hw => not_wedged hc ⟨h3, ?_⟩ ((wedged_iff h hc rfl).mp hw)⟩
    rcases hd with hd | h17
    · exact Or.inl hd
    · exact Or.inr ((Nat.pow_lt_pow_iff_right (a := 2) (by omega)).mp (by omega : 2 ^ 4 < 2 ^ k))

/-- The queue of contacted server ports (8 slots, every item flushed): after seven ports
    went through, the producer finds it full and the consumer finds it empty. -/
theorem contacted_server_ports_wedges :
    (∀ e ∈ fillAndDrain 8 (443, 91) true, Follows .always e) ∧
      Wedged (run step (start 8 : Sys (Nat × Nat)) (fillAndDrain 8 (443, 91) true)) :=
  ⟨fillAndDrain_follows rfl 8 _, wedges (k := 3) rfl _ (d := .always) rfl (by omega)⟩

end Ntopng.Queue.Spsc
