/-
  Ntopng.Tables.InterfaceStats — the counters of the interfaces of the sFlow devices
  (`InterfaceStatsHash::set`, src/InterfaceStatsHash.cpp; `Utils::hashString`, src/Utils.cpp).

  A table of a fixed number of buckets, keyed by device, interface index and interface name,
  with linear probing. A sample of a known interface overwrites its counters, or is added to
  them if it has the sequence number of the sample before (devices that send the two
  directions apart). The table has no removals.

  An event is a sample and whether there was memory for a new bucket. `accepted` are the samples
  that `set` took.

  Proved: the table refines a map of at most as many keys as it has buckets
  (`set_refines`). A lookup finds what earlier calls stored, around the end of the array too; the
  entry of a key is the fold of its samples; `set` fails exactly if the key is not there and the
  table is full or the memory is out, and then changes nothing.
-/

import Ntopng.Lib.Run
import Ntopng.Lib.Probing

namespace Ntopng.Tables.InterfaceStats

open Ntopng.Lib.Run
open Ntopng.Lib.Probing

/-! ## Samples -/

structure Counters where
  ifInOctets : UInt64
  ifInPackets : UInt64
  ifInErrors : UInt64
  ifOutOctets : UInt64
  ifOutPackets : UInt64
  ifOutErrors : UInt64
  deriving DecidableEq, Repr

def Counters.add (a b : Counters) : Counters :=
  ⟨a.ifInOctets + b.ifInOctets, a.ifInPackets + b.ifInPackets, a.ifInErrors + b.ifInErrors,
    a.ifOutOctets + b.ifOutOctets, a.ifOutPackets + b.ifOutPackets, a.ifOutErrors + b.ifOutErrors⟩

structure Status where
  ifType : UInt32
  ifSpeed : UInt32
  ifFullDuplex : Bool
  ifAdminStatus : Bool
  ifOperStatus : Bool
  ifPromiscuousMode : Bool
  deriving DecidableEq, Repr

structure Key where
  deviceIP : UInt32
  ifIndex : UInt32
  ifName : Option (List UInt8)
  deriving DecidableEq, Repr

/-- `sFlowInterfaceStats`; `C` is the description of a container. -/
structure Stats (C : Type) where
  samplesGenerated : UInt32
  key : Key
  status : Status
  counters : Counters
  containerInfo : Option C
  deriving DecidableEq, Repr

/-- The characters are signed. -/
def hashString : Option (List UInt8) → UInt32
  | none => 0
  | some name =>
    (name.zipIdx.map fun x =>
      (if x.1 < 128 then x.1.toUInt32 else x.1.toUInt32 + 0xffffff00) * UInt32.ofNat x.2).sum

def hash (size : ℕ) (k : Key) : ℕ := (k.deviceIP + k.ifIndex + hashString k.ifName).toNat % size

variable {C : Type}

def Stats.update (head stats : Stats C) : Stats C :=
  { head with
    status := stats.status
    counters :=
      if 0 < stats.samplesGenerated ∧ stats.samplesGenerated = head.samplesGenerated then head.counters.add stats.counters
      else stats.counters
    samplesGenerated := stats.samplesGenerated }

/-! ## The table -/

structure Ev (C : Type) where
  stats : Stats C
  /-- Whether `malloc` returns memory. -/
  memory : Bool

abbrev Buckets (C : Type) := ℕ → Option (Stats C)

def find (size : ℕ) (b : Buckets C) (k : Key) : Probe := probe Stats.key size b k size (hash size k)

def set (size : ℕ) (b : Buckets C) (e : Ev C) : Buckets C × Bool :=
  match find size b e.stats.key with
  | .found slot =>
    match b slot with
    | some head => (put b slot (head.update e.stats), true)
    | none => (b, false)
  | .empty slot => if e.memory then (put b slot e.stats, true) else (b, false)
  | .full => (b, false)

structure Table (C : Type) where
  buckets : Buckets C
  accepted : List (Stats C)

def start : Table C := ⟨fun _ => none, []⟩

def step (size : ℕ) (t : Table C) (e : Ev C) : Table C :=
  let r := set size t.buckets e
  ⟨r.1, if r.2 then t.accepted ++ [e.stats] else t.accepted⟩

/-! ## The map -/

/-- The samples of one key, one after the other. -/
def fold : List (Stats C) → Option (Stats C) := fun l => l.foldl (fun s x => some (s.elim x fun s => s.update x)) none

def samples (accepted : List (Stats C)) (k : Key) : List (Stats C) := accepted.filter fun x => x.key = k

def Absent (size : ℕ) (b : Buckets C) (k : Key) : Prop := ∀ j < size, ∀ s, b j = some s → s.key ≠ k

def Full (size : ℕ) (b : Buckets C) : Prop := ∀ j < size, ∃ s, b j = some s

structure Refines (size : ℕ) (t : Table C) : Prop where
  once : ∀ i j s s', t.buckets i = some s → t.buckets j = some s' → s.key = s'.key → i = j
  found : ∀ j s, t.buckets j = some s → j < size ∧ find size t.buckets s.key = .found j
  folded : ∀ j s, t.buckets j = some s → fold (samples t.accepted s.key) = some s
  absent : ∀ k, Absent size t.buckets k → samples t.accepted k = []
  others : ∀ e j s, s.key ≠ e.stats.key → ((set size t.buckets e).1 j = some s ↔ t.buckets j = some s)
  returns : ∀ e, (set size t.buckets e).2 = false ↔
    Absent size t.buckets e.stats.key ∧ (Full size t.buckets ∨ e.memory = false)
  refused : ∀ e, (set size t.buckets e).2 = false → (set size t.buckets e).1 = t.buckets

/-! ## One call -/

variable {size : ℕ} {b : Buckets C} {e : Ev C}

@[simp] theorem update_key (head stats : Stats C) : (head.update stats).key = head.key := rfl

theorem hash_lt (hsize : 0 < size) (k : Key) : hash size k < size := Nat.mod_lt _ hsize

/-- What a call can do. -/
theorem set_cases (hsize : 0 < size) (b : Buckets C) (e : Ev C) :
    (∃ slot head, b slot = some head ∧ head.key = e.stats.key ∧ find size b e.stats.key = .found slot ∧
      set size b e = (put b slot (head.update e.stats), true)) ∨
    (∃ slot, b slot = none ∧ slot < size ∧ find size b e.stats.key = .empty slot ∧ e.memory = true ∧
      set size b e = (put b slot e.stats, true)) ∨
    (∃ slot, b slot = none ∧ slot < size ∧ find size b e.stats.key = .empty slot ∧ e.memory = false ∧
      set size b e = (b, false)) ∨
    (find size b e.stats.key = .full ∧ set size b e = (b, false)) := by
  unfold set
  rcases hf : find size b e.stats.key with slot | slot | _
  · obtain ⟨head, hb, hk⟩ := found_entry hf
    refine .inl ⟨slot, head, hb, hk, rfl, ?_⟩
    simp only [hb]
  · have hb := empty_slot hf
    have hlt := empty_lt (hash_lt hsize _) hf
    cases hm : e.memory
    · exact .inr (.inr (.inl ⟨slot, hb, hlt, rfl, rfl, rfl⟩))
    · exact .inr (.inl ⟨slot, hb, hlt, rfl, rfl, rfl⟩)
  · exact .inr (.inr (.inr ⟨rfl, rfl⟩))

/-- Without an entry of the key, its probe ends in an empty slot or not at all. -/
theorem absent_of_empty {slot : ℕ} (hc : Chained Stats.key size (hash size) b) {k : Key}
    (hf : find size b k = .empty slot) : Absent size b k := by
  rintro j - s hs rfl
  have := (hc j s hs).2
  unfold find at hf
  rw [hf] at this
  cases this

theorem absent_of_full (hsize : 0 < size) {k : Key} (hf : find size b k = .full) : Absent size b k := by
  intro j hj s hs
  obtain ⟨s', hs', hk⟩ := full_all hf (hash_lt hsize k) j hj
  rw [hs] at hs'
  cases hs'
  exact hk

theorem full_of_find (hsize : 0 < size) {k : Key} (hf : find size b k = .full) : Full size b := fun j hj => by
  obtain ⟨s, hs, -⟩ := full_all hf (hash_lt hsize k) j hj
  exact ⟨s, hs⟩

/-- What is stored for other keys stays, and nothing comes in. -/
theorem set_others (hsize : 0 < size) {j : ℕ} {s : Stats C} (hk : s.key ≠ e.stats.key) :
    (set size b e).1 j = some s ↔ b j = some s := by
  rcases set_cases hsize b e with ⟨slot, head, hb, hk', -, hset⟩ | ⟨slot, hb, -, -, -, hset⟩ |
    ⟨slot, -, -, -, -, hset⟩ | ⟨-, hset⟩ <;> simp only [hset]
  · by_cases hj : j = slot
    · rw [hj, put_same, hb]
      constructor
      · rintro ⟨⟩
        exact absurd hk' hk
      · rintro ⟨⟩
        exact absurd hk' hk
    · rw [put_ne hj]
  · by_cases hj : j = slot
    · rw [hj, put_same, hb]
      constructor
      · rintro ⟨⟩
        exact absurd rfl hk
      · intro h
        cases h
    · rw [put_ne hj]

/-! ## Runs -/

structure Inv (size : ℕ) (t : Table C) : Prop where
  chained : Chained Stats.key size (hash size) t.buckets
  folded : ∀ j s, t.buckets j = some s → fold (samples t.accepted s.key) = some s
  absent : ∀ k, Absent size t.buckets k → samples t.accepted k = []

theorem samples_snoc (accepted : List (Stats C)) (x : Stats C) (k : Key) :
    samples (accepted ++ [x]) k = samples accepted k ++ if x.key = k then [x] else [] := by
  unfold samples
  rw [List.filter_append, List.filter_singleton]
  by_cases h : x.key = k <;> simp [h]

theorem fold_snoc (l : List (Stats C)) (x : Stats C) : fold (l ++ [x]) = some ((fold l).elim x fun s => s.update x) := by
  unfold fold
  rw [List.foldl_append]
  rfl

theorem inv_start : Inv size (start : Table C) where
  chained := chained_empty
  folded _ _ h := by cases h
  absent _ _ := rfl

theorem step_accepted {t : Table C} {b : Buckets C} (h : set size t.buckets e = (b, true)) :
    step size t e = ⟨b, t.accepted ++ [e.stats]⟩ := by
  unfold step
  rw [h]
  rfl

theorem step_refused {t : Table C} (h : set size t.buckets e = (t.buckets, false)) : step size t e = t := by
  unfold step
  rw [h]
  rfl

theorem inv_step (hsize : 0 < size) (t : Table C) (e : Ev C) (hi : Inv size t) : Inv size (step size t e) := by
  obtain ⟨hc, hfold, habs⟩ := hi
  rcases set_cases hsize t.buckets e with ⟨slot, head, hb, hk, hf, hset⟩ | ⟨slot, hb, hlt, hf, -, hset⟩ |
    ⟨slot, -, -, -, -, hset⟩ | ⟨-, hset⟩
  · rw [step_accepted hset]
    have hslot := (hc slot head hb).1
    refine ⟨hc.rewrite hb (update_key ..), fun j s hs => ?_, fun k hk' => ?_⟩
    · dsimp only at hs ⊢
      rw [samples_snoc]
      by_cases hj : j = slot
      · rw [hj, put_same] at hs
        cases hs
        rw [update_key, if_pos hk.symm, fold_snoc, hfold slot head hb]
        rfl
      · rw [put_ne hj] at hs
        have hne : e.stats.key ≠ s.key := fun h => hj (hc.unique hs hb (h.symm.trans hk.symm))
        rw [if_neg hne, List.append_nil]
        exact hfold j s hs
    · have hne : e.stats.key ≠ k := by
        rintro rfl
        exact hk' slot hslot _ (put_same ..) hk
      dsimp only
      rw [samples_snoc, if_neg hne, List.append_nil]
      refine habs k fun j hj s hs => ?_
      by_cases h : j = slot
      · rw [h, hb] at hs
        cases hs
        rw [hk]
        exact hne
      · exact hk' j hj s ((put_ne h _ _).trans hs)
  · rw [step_accepted hset]
    have hnone := habs _ (absent_of_empty hc hf)
    refine ⟨hc.insert (hash_lt hsize _) hf, fun j s hs => ?_, fun k hk' => ?_⟩
    · dsimp only at hs ⊢
      rw [samples_snoc]
      by_cases hj : j = slot
      · rw [hj, put_same] at hs
        cases hs
        rw [hnone, if_pos rfl]
        rfl
      · rw [put_ne hj] at hs
        have hne : e.stats.key ≠ s.key := fun h => absent_of_empty hc hf j (hc j s hs).1 s hs h.symm
        rw [if_neg hne, List.append_nil]
        exact hfold j s hs
    · have hne : e.stats.key ≠ k := by
        rintro rfl
        exact hk' slot hlt _ (put_same ..) rfl
      dsimp only
      rw [samples_snoc, if_neg hne, List.append_nil]
      refine habs k fun j hj s hs => hk' j hj s ?_
      have h : j ≠ slot := by
        rintro rfl
        rw [hb] at hs
        cases hs
      exact (put_ne h _ _).trans hs
  · rw [step_refused hset]
    exact ⟨hc, hfold, habs⟩
  · rw [step_refused hset]
    exact ⟨hc, hfold, habs⟩

theorem refines_of_inv (hsize : 0 < size) {t : Table C} (hi : Inv size t) : Refines size t := by
  obtain ⟨hc, hfold, habs⟩ := hi
  refine ⟨fun i j s s' hs hs' hk => hc.unique hs hs' hk, hc, hfold, habs, fun e j s hk => set_others hsize hk,
    fun e => ?_, fun e => ?_⟩
  · rcases set_cases hsize t.buckets e with ⟨slot, head, hb, hk, -, hset⟩ | ⟨slot, hb, hlt, hf, hm, hset⟩ |
      ⟨slot, -, -, hf, hm, hset⟩ | ⟨hf, hset⟩ <;> rw [hset]
    · constructor
      · intro h
        cases h
      · rintro ⟨h, -⟩
        exact absurd hk (h slot (hc slot head hb).1 head hb)
    · constructor
      · intro h
        cases h
      · rintro ⟨-, h | h⟩
        · obtain ⟨s, hs⟩ := h slot hlt
          rw [hb] at hs
          cases hs
        · rw [hm] at h
          cases h
    · exact ⟨fun _ => ⟨absent_of_empty hc hf, .inr hm⟩, fun _ => rfl⟩
    · exact ⟨fun _ => ⟨absent_of_full hsize hf, .inl (full_of_find hsize hf)⟩, fun _ => rfl⟩
  · rcases set_cases hsize t.buckets e with ⟨slot, head, -, -, -, hset⟩ | ⟨slot, -, -, -, -, hset⟩ |
      ⟨slot, -, -, -, -, hset⟩ | ⟨-, hset⟩ <;> rw [hset]
    · intro h
      cases h
    · intro h
      cases h
    · exact fun _ => rfl
    · exact fun _ => rfl

/-- Every table that calls of `set` reach refines the map of its keys. -/
theorem set_refines (size : ℕ) (hsize : 0 < size) (es : List (Ev C)) : Refines size (run (step size) start es) :=
  refines_of_inv hsize (inv_run_all (step size) (inv_step hsize) inv_start es)

/-! ### One sample -/

def demoStats : Stats Unit :=
  ⟨1, ⟨0x0a000001, 2, some [101, 116, 104]⟩, ⟨6, 1000, true, true, true, false⟩, ⟨10, 1, 0, 20, 2, 0⟩, none⟩

theorem set_refines_demo :
    Refines 4096 (run (step 4096) start [⟨demoStats, true⟩, ⟨{ demoStats with samplesGenerated := 2 }, true⟩]) :=
  set_refines 4096 (by decide) _

/-- Without memory for a bucket, `set` fails on an empty table. -/
theorem not_false_iff_full :
    ¬ ((set 4096 (start : Table Unit).buckets ⟨demoStats, false⟩).2 = false ↔
      Absent 4096 (start : Table Unit).buckets demoStats.key ∧ Full 4096 (start : Table Unit).buckets) := by
  intro h
  obtain ⟨-, hfull⟩ := h.mp rfl
  obtain ⟨s, hs⟩ := hfull 0 (by decide)
  cases hs

end Ntopng.Tables.InterfaceStats
