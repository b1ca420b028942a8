/-
  Ntopng.Tables.NdpiObjects — the counters of protocols as objects, and their sums
  (`nDPIStats::sum`, src/nDPIStats.cpp; `ProtoCounter::sum`, src/ProtoCounter.cpp).

  A protocol has a pointer to its counter; the counters of categories are in the map itself. `sum`
  adds the counters of its object to those of the argument. A protocol that the argument does not
  have gets a new counter there.

  Proved for a family of objects that own their counters:
  - the sum of all has under each key the sums of its counters, as far as they fit (`sumAll_proto`,
    `sumAll_category`),
  - the counters of the family stay as they are, and none of them is one of the sum's (`sumAll_apart`).
-/

import Ntopng.Lib.Pointers
import Ntopng.Tables.Ndpi

namespace Ntopng.Tables.NdpiObjects

open Ntopng.Lib Ntopng.Lib.EntryLoop Ntopng.Lib.Objects Ntopng.Lib.Pointers
open Ntopng.Tables.Ndpi

/-! ## The code -/

/-- `nDPIStats` -/
structure Stats where
  counters : Map UInt16 ℕ
  catCounters : Map UInt16 CategoryCounter

def Stats.new : Stats := ⟨∅, ∅⟩

/-- The protocol counters on the heap. -/
abbrev Counters := Objects ProtoCounter

def sumCounter (st : Counters × Map UInt16 ℕ) (e : Σ _ : UInt16, ℕ) : Counters × Map UInt16 ℕ :=
  match st.1.read e.2 with
  | none => st
  | some c =>
    match st.2.lookup e.1 with
    | some i => (st.1.modify i fun pc => pc.sum c, st.2)
    | none => (st.1.new (ProtoCounter.new.sum c), st.2.insert e.1 st.1.size)

def sumCategory (m : Map UInt16 CategoryCounter) (e : Σ _ : UInt16, CategoryCounter) : Map UInt16 CategoryCounter :=
  match m.lookup e.1 with
  | none => m.insert e.1 e.2
  | some c => m.insert e.1 (c.sum e.2)

/-- `this->sum(stats)` -/
def Stats.sum (this : Stats) (st : Counters × Stats) : Counters × Stats :=
  let counters := this.counters.entries.foldl sumCounter (st.1, st.2.counters)
  (counters.1, ⟨counters.2, this.catCounters.entries.foldl sumCategory st.2.catCounters⟩)

/-- The members summed up, one after the other, into empty statistics. -/
def sumAll (os : Counters) (members : List Stats) : Counters × Stats :=
  members.foldl (fun st m => m.sum st) (os, .new)

/-! ## Values -/

inductive ProtoField where
  | packetsSent
  | packetsRcvd
  | bytesSent
  | bytesRcvd
  | duration
  | totalFlows
  deriving DecidableEq, Repr

inductive CategoryField where
  | bytesSent
  | bytesRcvd
  | duration
  deriving DecidableEq, Repr

def ProtoField.modulus : ProtoField → ℕ
  | packetsSent | packetsRcvd | bytesSent | bytesRcvd => 2 ^ 64
  | duration | totalFlows => 2 ^ 32

def CategoryField.modulus : CategoryField → ℕ
  | bytesSent | bytesRcvd => 2 ^ 64
  | duration => 2 ^ 32

def ProtoField.value (c : ProtoCounter) : ProtoField → ℕ
  | packetsSent => c.packets.sent.toNat
  | packetsRcvd => c.packets.rcvd.toNat
  | bytesSent => c.bytes.sent.toNat
  | bytesRcvd => c.bytes.rcvd.toNat
  | duration => c.duration.toNat
  | totalFlows => c.totalFlows.toNat

def CategoryField.value (c : CategoryCounter) : CategoryField → ℕ
  | bytesSent => c.bytes.sent.toNat
  | bytesRcvd => c.bytes.rcvd.toNat
  | duration => c.duration.toNat

/-- The field of a counter, or 0 if there is none. -/
def ProtoField.at (c : Option ProtoCounter) (f : ProtoField) : ℕ := c.elim 0 f.value

def CategoryField.at (c : Option CategoryCounter) (f : CategoryField) : ℕ := c.elim 0 f.value

theorem ProtoField.value_sum (c d : ProtoCounter) (f : ProtoField) :
    f.value (c.sum d) = (f.value c + f.value d) % f.modulus := by
  cases f with
  | packetsSent => exact UInt64.toNat_add _ _
  | packetsRcvd => exact UInt64.toNat_add _ _
  | bytesSent => exact UInt64.toNat_add _ _
  | bytesRcvd => exact UInt64.toNat_add _ _
  | duration => exact UInt32.toNat_add _ _
  | totalFlows => exact UInt32.toNat_add _ _

theorem CategoryField.value_sum (c d : CategoryCounter) (f : CategoryField) :
    f.value (c.sum d) = (f.value c + f.value d) % f.modulus := by
  cases f with
  | bytesSent => exact UInt64.toNat_add _ _
  | bytesRcvd => exact UInt64.toNat_add _ _
  | duration => exact UInt32.toNat_add _ _

theorem ProtoField.value_lt (c : ProtoCounter) (f : ProtoField) : f.value c < f.modulus := by
  cases f with
  | packetsSent => exact UInt64.toNat_lt _
  | packetsRcvd => exact UInt64.toNat_lt _
  | bytesSent => exact UInt64.toNat_lt _
  | bytesRcvd => exact UInt64.toNat_lt _
  | duration => exact UInt32.toNat_lt _
  | totalFlows => exact UInt32.toNat_lt _

theorem CategoryField.value_lt (c : CategoryCounter) (f : CategoryField) : f.value c < f.modulus := by
  cases f with
  | bytesSent => exact UInt64.toNat_lt _
  | bytesRcvd => exact UInt64.toNat_lt _
  | duration => exact UInt32.toNat_lt _

theorem ProtoField.modulus_pos (f : ProtoField) : 0 < f.modulus := by
  cases f <;> decide

theorem CategoryField.modulus_pos (f : CategoryField) : 0 < f.modulus := by
  cases f <;> decide

theorem ProtoField.value_new (f : ProtoField) : f.value ProtoCounter.new = 0 := by
  cases f <;> rfl

@[simp] theorem ProtoField.at_none (f : ProtoField) : f.at none = 0 := rfl

@[simp] theorem ProtoField.at_some (c : ProtoCounter) (f : ProtoField) : f.at (some c) = f.value c := rfl

theorem ProtoField.at_mod (c : Option ProtoCounter) (f : ProtoField) : f.at c % f.modulus = f.at c := by
  cases c with
  | none => exact Nat.zero_mod _
  | some c => exact Nat.mod_eq_of_lt (f.value_lt c)

theorem CategoryField.at_mod (c : Option CategoryCounter) (f : CategoryField) : f.at c % f.modulus = f.at c := by
  cases c with
  | none => exact Nat.zero_mod _
  | some c => exact Nat.mod_eq_of_lt (f.value_lt c)

/-! ## One sum -/

section

variable {os : Counters} {this : Stats} {st : Counters × Stats} {frame : List ℕ}

/-- `st` owns its counters beside those of the frame, which hold what they hold in `os`. -/
structure Apart (os : Counters) (frame : List ℕ) (st : Counters × Map UInt16 ℕ) : Prop where
  owns : Owns st.1 (pointers st.2 ++ frame)
  same : ∀ i ∈ frame, st.1.read i = os.read i

theorem Apart.owns_own {st : Counters × Map UInt16 ℕ} (h : Apart os frame st) : Owns st.1 (pointers st.2) :=
  h.owns.sublist (List.sublist_append_left ..)

theorem Apart.sumCounter {st : Counters × Map UInt16 ℕ} (h : Apart os frame st) (e : Σ _ : UInt16, ℕ) :
    Apart os frame (sumCounter st e) := by
  rw [NdpiObjects.sumCounter]
  cases st.1.read e.2 with
  | none => exact h
  | some c =>
    cases hk : st.2.lookup e.1 with
    | some i =>
      refine ⟨h.owns.modify i _, ?_⟩
      intro j hj
      have hne : i ≠ j := by
        intro hij
        subst hij
        exact (List.nodup_append.mp h.owns.nodup).2.2 i (lookup_mem hk) i hj rfl
      simp only
      rw [read_modify_ne _ hne, h.same j hj]
    | none =>
      refine ⟨?_, ?_⟩
      · simp only
        rw [pointers_insert_new hk]
        exact h.owns.new _
      · intro j hj
        simp only
        rw [read_new_of_lt (h.owns.lt j (List.mem_append_right _ hj)), h.same j hj]

/-- What the loop makes of a counter. -/
def added (os : Counters) (_ : UInt16) (i : ℕ) (old : Option ProtoCounter) : Option ProtoCounter :=
  match os.read i with
  | none => old
  | some c => some ((old.getD .new).sum c)

theorem see_sumCounter {st : Counters × Map UInt16 ℕ} (h : Apart os frame st) {e : Σ _ : UInt16, ℕ} (he : e.2 ∈ frame)
    (k : UInt16) : see (sumCounter st e).1 (sumCounter st e).2 k =
      if k = e.1 then added os e.1 e.2 (see st.1 st.2 k) else see st.1 st.2 k := by
  rw [sumCounter, added, h.same e.2 he]
  cases os.read e.2 with
  | none => simp
  | some c =>
    cases hk : st.2.lookup e.1 with
    | some i =>
      rcases Option.isSome_iff_exists.mp ((see_isSome h.owns_own (k := e.1)).mpr (by rw [hk]; rfl)) with ⟨old, hold⟩
      simp only
      rw [see_modify h.owns_own hk]
      by_cases heq : k = e.1
      · rw [if_pos heq, if_pos heq, heq, hold]
        rfl
      · rw [if_neg heq, if_neg heq]
    | none =>
      have hold : see st.1 st.2 e.1 = none := by
        rw [see, hk]
        rfl
      simp only
      rw [see_insert_new h.owns_own]
      by_cases heq : k = e.1
      · rw [if_pos heq, if_pos heq, heq, hold]
        rfl
      · rw [if_neg heq, if_neg heq]

variable (hthis : ∀ i ∈ pointers this.counters, i ∈ frame) (h : Apart os frame (st.1, st.2.counters))

include hthis h in
theorem sum_see (k : UInt16) : see (this.sum st).1 (this.sum st).2.counters k =
    visited (added os) k (this.counters.lookup k) (see st.1 st.2.counters k) :=
  view_foldl (I := Apart os frame) (v := fun s k => see s.1 s.2 k) this.counters.nodupKeys
    (fun _ e _ hs => hs.sumCounter e)
    (fun s e he hs => by
      rw [see_sumCounter hs (hthis _ (List.mem_map_of_mem he)), if_pos rfl])
    (fun s e he hs k hk => by
      rw [see_sumCounter hs (hthis _ (List.mem_map_of_mem he)), if_neg hk])
    h k

include h in
theorem sum_apart : Apart os frame ((this.sum st).1, (this.sum st).2.counters) :=
  inv_foldl (I := Apart os frame) (fun _ e _ hs => hs.sumCounter e) h

include hthis h in
/-- The field of a key is added, in its width. -/
theorem sum_proto (f : ProtoField) (k : UInt16) :
    f.at (see (this.sum st).1 (this.sum st).2.counters k) =
      (f.at (see st.1 st.2.counters k) + f.at (see os this.counters k)) % f.modulus := by
  rw [sum_see hthis h]
  cases hk : this.counters.lookup k with
  | none =>
    have hnone : see os this.counters k = none := by
      rw [see, hk]
      rfl
    rw [visited, hnone, f.at_none, add_zero, f.at_mod]
  | some i =>
    have hsee : see os this.counters k = os.read i := by
      rw [see, hk]
      rfl
    rw [visited, added, hsee]
    cases os.read i with
    | none =>
      simp only
      rw [f.at_none, add_zero, f.at_mod]
    | some c =>
      simp only
      rw [f.at_some, f.value_sum, f.at_some]
      cases see st.1 st.2.counters k with
      | none => rw [Option.getD_none, f.value_new, f.at_none]
      | some d => rfl

omit hthis h

theorem sum_lookup (this : Stats) (st : Counters × Stats) (k : UInt16) :
    (this.sum st).2.catCounters.lookup k = visited (fun _ c old => match old with
      | none => some c
      | some d => some (d.sum c)) k (this.catCounters.lookup k) (st.2.catCounters.lookup k) := by
  apply lookup_foldl
  · intro m e
    rw [sumCategory]
    cases hold : m.lookup e.1 with
    | none => simp
    | some d => simp
  · intro m e k hk
    rw [sumCategory]
    cases m.lookup e.1 with
    | none => simp [hk]
    | some d => simp [hk]

theorem sum_category (this : Stats) (st : Counters × Stats) (f : CategoryField) (k : UInt16) :
    f.at ((this.sum st).2.catCounters.lookup k) =
      (f.at (st.2.catCounters.lookup k) + f.at (this.catCounters.lookup k)) % f.modulus := by
  rw [sum_lookup]
  cases this.catCounters.lookup k with
  | none =>
    cases st.2.catCounters.lookup k with
    | none => exact (Nat.zero_mod _).symm
    | some d => exact (Nat.mod_eq_of_lt (f.value_lt d)).symm
  | some c =>
    cases st.2.catCounters.lookup k with
    | none => exact ((congrArg (· % f.modulus) (Nat.zero_add _)).trans (Nat.mod_eq_of_lt (f.value_lt c))).symm
    | some d => exact f.value_sum d c

end

/-! ## All sums -/

section

variable {os : Counters} {members : List Stats}

/-- The counters that the members own. -/
def owned (members : List Stats) : List ℕ := members.flatMap fun m => pointers m.counters

theorem foldl_apart {frame : List ℕ} {st : Counters × Stats} (h : Apart os frame (st.1, st.2.counters)) :
    Apart os frame ((members.foldl (fun st m => m.sum st) st).1, (members.foldl (fun st m => m.sum st) st).2.counters) := by
  induction members generalizing st with
  | nil => exact h
  | cons m members ih =>
    rw [List.foldl_cons]
    exact ih (sum_apart h)

theorem sumAll_apart (h : Owns os (owned members)) :
    Apart os (owned members) ((sumAll os members).1, (sumAll os members).2.counters) :=
  foldl_apart ⟨h, fun _ _ => rfl⟩

theorem foldl_proto {frame : List ℕ} (st : Counters × Stats) (h : Apart os frame (st.1, st.2.counters))
    (hmembers : ∀ m ∈ members, ∀ i ∈ pointers m.counters, i ∈ frame) (f : ProtoField) (k : UInt16) :
    f.at (see (members.foldl (fun st m => m.sum st) st).1 (members.foldl (fun st m => m.sum st) st).2.counters k) %
        f.modulus =
      (f.at (see st.1 st.2.counters k) + (members.map fun m => f.at (see os m.counters k)).sum) % f.modulus := by
  induction members generalizing st with
  | nil => rfl
  | cons m members ih =>
    rw [List.foldl_cons, ih _ (sum_apart h) (fun x hx => hmembers x (List.mem_cons_of_mem m hx)),
      sum_proto (hmembers m (List.mem_cons_self ..)) h, Nat.mod_add_mod, List.map_cons, List.sum_cons, add_assoc]

theorem sumAll_proto (h : Owns os (owned members)) (f : ProtoField) (k : UInt16) :
    f.at (see (sumAll os members).1 (sumAll os members).2.counters k) =
      (members.map fun m => f.at (see os m.counters k)).sum % f.modulus := by
  have hapart : Apart os (owned members) (os, Stats.new.counters) := ⟨h, fun _ _ => rfl⟩
  have hfold := foldl_proto (os, Stats.new) hapart (fun m hm i hi => List.mem_flatMap.mpr ⟨m, hm, hi⟩) f k
  rw [f.at_mod] at hfold
  rw [sumAll, hfold]
  exact congrArg (· % f.modulus) (Nat.zero_add _)

theorem foldl_category (members : List Stats) (st : Counters × Stats) (f : CategoryField) (k : UInt16) :
    f.at ((members.foldl (fun st m => m.sum st) st).2.catCounters.lookup k) % f.modulus =
      (f.at (st.2.catCounters.lookup k) + (members.map fun m => f.at (m.catCounters.lookup k)).sum) % f.modulus := by
  induction members generalizing st with
  | nil => rfl
  | cons m members ih =>
    rw [List.foldl_cons, ih, sum_category, Nat.mod_add_mod, List.map_cons, List.sum_cons, add_assoc]

theorem sumAll_category (os : Counters) (members : List Stats) (f : CategoryField) (k : UInt16) :
    f.at ((sumAll os members).2.catCounters.lookup k) =
      (members.map fun m => f.at (m.catCounters.lookup k)).sum % f.modulus := by
  have hfold := foldl_category members (os, Stats.new) f k
  rw [f.at_mod] at hfold
  rw [sumAll, hfold]
  exact congrArg (· % f.modulus) (Nat.zero_add _)

end

end Ntopng.Tables.NdpiObjects
