/-
  Ntopng.Tables.IcmpStats — the ICMP counters of a host, and statistics summed up over a family
  (`ICMPstats::sum`, src/ICMPstats.cpp; with `nDPIStats::sum`, Ntopng.Tables.NdpiObjects).

  `ICMPstats::sum` adds the counters of its argument to those of its object, but for each type and code it
  sets the packets to those of the argument. It does not add up the destinations unreachable. A
  peer is a string on the heap, and copied where the object has none.

  Proved for a family of objects that own their counters and strings (`sums_law`): whatever the order,
  the sums are the sums of all the members, the members stay as they are and share nothing with them,
  exactly if
  - all sums of the nDPI counters fit,
  - members with a type and code in common have not counted any packets of it,
  - no member has counted a destination unreachable.
-/

import Ntopng.Lib.LastWrite
import Ntopng.Tables.NdpiObjects

namespace Ntopng.Tables.IcmpStats

open Ntopng.Lib Ntopng.Lib.EntryLoop Ntopng.Lib.LastWrite Ntopng.Lib.Objects Ntopng.Lib.Pointers
open Ntopng.Tables.Ndpi
open Ntopng.Tables.NdpiObjects (ProtoField CategoryField Counters sumAll owned)

/-! ## The code -/

/-- `ICMPstats_t` -/
structure Entry where
  pktSent : UInt16
  pktRcvd : UInt16
  lastHostSentPeer : Option ℕ
  lastHostRcvdPeer : Option ℕ
  deriving DecidableEq, Repr

/-- `ICMPstats`; a key is a type and a code. -/
structure Stats where
  stats : Map UInt16 Entry
  numDestinationUnreachable : UInt32

def Stats.new : Stats := ⟨∅, 0⟩

/-- The peers on the heap. -/
abbrev Peers := Objects String

/-- `if (curr && !s) s = strdup(curr)` -/
def dupPeer (os : Peers) (curr s : Option ℕ) : Peers × Option ℕ :=
  match s with
  | some p => (os, some p)
  | none =>
    match curr.bind os.read with
    | none => (os, none)
    | some peer => (os.new peer, some os.size)

def sumEntry (st : Peers × Map UInt16 Entry) (orig : Σ _ : UInt16, Entry) : Peers × Map UInt16 Entry :=
  let curr := orig.2
  let s := (st.2.lookup orig.1).getD ⟨0, 0, none, none⟩
  let sent := dupPeer st.1 curr.lastHostSentPeer s.lastHostSentPeer
  let rcvd := dupPeer sent.1 curr.lastHostRcvdPeer s.lastHostRcvdPeer
  (rcvd.1, st.2.insert orig.1 ⟨curr.pktSent, curr.pktRcvd, sent.2, rcvd.2⟩)

/-- `this->sum(e)` -/
def Stats.sum (st : Peers × Stats) (e : Stats) : Peers × Stats :=
  let stats := e.stats.entries.foldl sumEntry (st.1, st.2.stats)
  (stats.1, { st.2 with stats := stats.2 })

/-- The members summed up, one after the other, into empty statistics. -/
def sumUp (os : Peers) (members : List Stats) : Peers × Stats := members.foldl Stats.sum (os, .new)

/-! ## What is expected -/

/-- The packets of one direction. -/
def Entry.packets (e : Entry) (sent : Bool) : ℕ := if sent then e.pktSent.toNat else e.pktRcvd.toNat

/-- Of a key that may have no entry. -/
def packets (sent : Bool) (e : Option Entry) : ℕ := e.elim 0 fun e => e.packets sent

def peersOf (m : Map UInt16 Entry) : List ℕ :=
  m.entries.flatMap fun e => e.2.lastHostSentPeer.toList ++ e.2.lastHostRcvdPeer.toList

def ownedPeers (members : List Stats) : List ℕ := members.flatMap fun m => peersOf m.stats

/-- `r` are the sums of the nDPI members, which are as they were, and apart from them. -/
structure NdpiSums (os : Counters) (members : List NdpiObjects.Stats) (r : Counters × NdpiObjects.Stats) : Prop where
  proto : ∀ (f : ProtoField) p, f.at (see r.1 r.2.counters p) = (members.map fun m => f.at (see os m.counters p)).sum
  category : ∀ (f : CategoryField) c,
    f.at (r.2.catCounters.lookup c) = (members.map fun m => f.at (m.catCounters.lookup c)).sum
  unchanged : ∀ i ∈ owned members, r.1.read i = os.read i
  apart : (pointers r.2.counters).Disjoint (owned members)

/-- The same for the ICMP members. -/
structure IcmpSums (os : Peers) (members : List Stats) (r : Peers × Stats) : Prop where
  packets : ∀ sent k, packets sent (r.2.stats.lookup k) = (members.map fun m => packets sent (m.stats.lookup k)).sum
  unreachable : r.2.numDestinationUnreachable.toNat = (members.map fun m => m.numDestinationUnreachable.toNat).sum
  unchanged : ∀ i ∈ ownedPeers members, r.1.read i = os.read i
  apart : (peersOf r.2.stats).Disjoint (ownedPeers members)

/-- No sum is too large for its counter. -/
structure Fit (os : Counters) (members : List NdpiObjects.Stats) : Prop where
  proto : ∀ (f : ProtoField) p, (members.map fun m => f.at (see os m.counters p)).sum < f.modulus
  category : ∀ (f : CategoryField) c, (members.map fun m => f.at (m.catCounters.lookup c)).sum < f.modulus

/-- Of a key that both have, neither has counted any packets. -/
def Idle (m m' : Stats) : Prop :=
  ∀ k e e', m.stats.lookup k = some e → m'.stats.lookup k = some e' →
    (e.pktSent = 0 ∧ e.pktRcvd = 0) ∧ e'.pktSent = 0 ∧ e'.pktRcvd = 0

structure Ok (members : List Stats) : Prop where
  idle : members.Pairwise Idle
  unreachable : ∀ m ∈ members, m.numDestinationUnreachable = 0

/-! ## One sum -/

section

variable {os : Peers} {frame : List ℕ} {st : Peers × Map UInt16 Entry}

/-- `st` owns its peers beside those of the frame, which are what they are in `os`. -/
structure Apart (os : Peers) (frame : List ℕ) (st : Peers × Map UInt16 Entry) : Prop where
  own : ∀ i ∈ peersOf st.2, i < st.1.size ∧ i ∉ frame
  lt : ∀ i ∈ frame, i < st.1.size
  same : ∀ i ∈ frame, st.1.read i = os.read i

theorem mem_peersOf {m : Map UInt16 Entry} {i : ℕ} :
    i ∈ peersOf m ↔ ∃ k e, m.lookup k = some e ∧ (e.lastHostSentPeer = some i ∨ e.lastHostRcvdPeer = some i) := by
  simp only [peersOf, List.mem_flatMap, List.mem_append, Option.mem_toList]
  constructor
  · intro h
    rcases h with ⟨⟨k, e⟩, hmem, hpeer⟩
    exact ⟨k, e, AList.mem_lookup_iff.mpr hmem, hpeer⟩
  · intro h
    rcases h with ⟨k, e, hk, hpeer⟩
    exact ⟨⟨k, e⟩, AList.mem_lookup_iff.mp hk, hpeer⟩

/-- A peer that is set, or a new one. -/
theorem dupPeer_spec (os : Peers) (curr s : Option ℕ) : os.size ≤ (dupPeer os curr s).1.size ∧
    (∀ i < os.size, (dupPeer os curr s).1.read i = os.read i) ∧
    ∀ i, (dupPeer os curr s).2 = some i → s = some i ∨ i = os.size ∧ i < (dupPeer os curr s).1.size := by
  cases s with
  | some p => exact ⟨le_refl _, fun _ _ => rfl, fun _ hi => Or.inl hi⟩
  | none =>
    simp only [dupPeer]
    cases curr.bind os.read with
    | none => exact ⟨le_refl _, fun _ _ => rfl, fun _ hi => Or.inl hi⟩
    | some peer =>
      refine ⟨?_, fun i hi => read_new_of_lt hi, ?_⟩
      · simp
      · intro i hi
        cases hi
        exact Or.inr ⟨rfl, by simp⟩

theorem Apart.sumEntry (h : Apart os frame st) (orig : Σ _ : UInt16, Entry) : Apart os frame (sumEntry st orig) := by
  rcases dupPeer_spec st.1 orig.2.lastHostSentPeer ((st.2.lookup orig.1).getD ⟨0, 0, none, none⟩).lastHostSentPeer
    with ⟨hsize, hread, hsent⟩
  rcases dupPeer_spec (dupPeer st.1 orig.2.lastHostSentPeer
    ((st.2.lookup orig.1).getD ⟨0, 0, none, none⟩).lastHostSentPeer).1 orig.2.lastHostRcvdPeer
    ((st.2.lookup orig.1).getD ⟨0, 0, none, none⟩).lastHostRcvdPeer with ⟨hsize', hread', hrcvd⟩
  have hold : ∀ i, ((st.2.lookup orig.1).getD ⟨0, 0, none, none⟩).lastHostSentPeer = some i ∨
      ((st.2.lookup orig.1).getD ⟨0, 0, none, none⟩).lastHostRcvdPeer = some i → i ∈ peersOf st.2 := by
    intro i hi
    cases hk : st.2.lookup orig.1 with
    | none =>
      rw [hk] at hi
      rcases hi with hi | hi
      · cases hi
      · cases hi
    | some e =>
      rw [hk] at hi
      exact mem_peersOf.mpr ⟨orig.1, e, hk, hi⟩
  have hfresh : ∀ i, st.1.size ≤ i → i ∉ frame := by
    intro i hi hmem
    exact absurd (h.lt i hmem) (not_lt.mpr hi)
  refine ⟨?_, ?_, ?_⟩
  · intro i hi
    rcases mem_peersOf.mp hi with ⟨k, e, hk, hpeer⟩
    rw [IcmpStats.sumEntry] at hk ⊢
    simp only [lookup_insert_eq] at hk ⊢
    split at hk
    · cases hk
      rcases hpeer with hpeer | hpeer
      · rcases hsent i hpeer with hi | ⟨hi, hlt⟩
        · have hown := h.own i (hold i (Or.inl hi))
          exact ⟨by omega, hown.2⟩
        · exact ⟨by omega, hfresh i (by omega)⟩
      · rcases hrcvd i hpeer with hi | ⟨hi, hlt⟩
        · have hown := h.own i (hold i (Or.inr hi))
          exact ⟨by omega, hown.2⟩
        · exact ⟨by omega, hfresh i (by omega)⟩
    · have hown := h.own i (mem_peersOf.mpr ⟨k, e, hk, hpeer⟩)
      exact ⟨by omega, hown.2⟩
  · intro i hi
    have hlt := h.lt i hi
    rw [IcmpStats.sumEntry]
    simp only
    omega
  · intro i hi
    have hlt := h.lt i hi
    rw [IcmpStats.sumEntry]
    simp only
    rw [hread' i (by omega), hread i hlt, h.same i hi]

/-- The packets of a key become those of the argument, if it has the key. -/
theorem sumEntry_packets (sent : Bool) (st : Peers × Map UInt16 Entry) (orig : Σ _ : UInt16, Entry) (k : UInt16) :
    packets sent ((sumEntry st orig).2.lookup k) =
      if k = orig.1 then packets sent (some orig.2) else packets sent (st.2.lookup k) := by
  rw [sumEntry]
  simp only [lookup_insert_eq]
  split
  · rfl
  · rfl

theorem sum_packets (sent : Bool) (st : Peers × Stats) (e : Stats) (k : UInt16) :
    packets sent ((Stats.sum st e).2.stats.lookup k) =
      if (e.stats.lookup k).isSome then packets sent (e.stats.lookup k) else packets sent (st.2.stats.lookup k) := by
  have hloop := view_foldl (f := sumEntry) (I := fun _ => True) (v := fun s k => packets sent (s.2.lookup k))
    (g := fun _ c _ => packets sent (some c)) e.stats.nodupKeys (fun _ _ _ _ => trivial)
    (fun s x _ _ => by rw [sumEntry_packets, if_pos rfl]) (fun s x _ _ k hk => by rw [sumEntry_packets, if_neg hk])
    (s := (st.1, st.2.stats)) trivial k
  rw [Stats.sum]
  simp only at hloop ⊢
  rw [hloop]
  cases hk : e.stats.lookup k with
  | none =>
    rw [show e.stats.entries.dlookup k = none from hk]
    rfl
  | some c =>
    rw [show e.stats.entries.dlookup k = some c from hk]
    rfl

end

/-! ## All sums -/

section

variable {os : Peers} {members : List Stats}

theorem foldl_icmp {frame : List ℕ} {st : Peers × Stats} (h : Apart os frame (st.1, st.2.stats)) :
    Apart os frame ((members.foldl Stats.sum st).1, (members.foldl Stats.sum st).2.stats) ∧
      (members.foldl Stats.sum st).2.numDestinationUnreachable = st.2.numDestinationUnreachable := by
  induction members generalizing st with
  | nil => exact ⟨h, rfl⟩
  | cons m members ih =>
    rw [List.foldl_cons]
    exact ih (inv_foldl (I := Apart os frame) (fun _ e _ hs => hs.sumEntry e) h)

theorem sumUp_apart (h : Owns os (ownedPeers members)) :
    Apart os (ownedPeers members) ((sumUp os members).1, (sumUp os members).2.stats) ∧
      (sumUp os members).2.numDestinationUnreachable = 0 := by
  refine foldl_icmp ⟨?_, h.lt, fun _ _ => rfl⟩
  intro i hi
  cases hi

/-- Of a key that a later member has, an earlier one has not counted any packets. -/
def IdleBefore (m m' : Stats) : Prop :=
  ∀ k e e', m.stats.lookup k = some e → m'.stats.lookup k = some e' → e.pktSent = 0 ∧ e.pktRcvd = 0

theorem sumUp_packets (os : Peers) (members : List Stats) (sent : Bool) (k : UInt16) :
    packets sent ((sumUp os members).2.stats.lookup k) =
      overwrite 0 (members.map fun m => (m.stats.lookup k).map fun e => e.packets sent) := by
  have hfold : ∀ st : Peers × Stats, packets sent ((members.foldl Stats.sum st).2.stats.lookup k) =
      overwrite (packets sent (st.2.stats.lookup k)) (members.map fun m => (m.stats.lookup k).map fun e => e.packets sent) := by
    induction members with
    | nil => exact fun _ => rfl
    | cons m members ih =>
      intro st
      rw [List.foldl_cons, ih, sum_packets, List.map_cons]
      cases m.stats.lookup k with
      | none => rfl
      | some e => rfl
  exact hfold (os, .new)

theorem idle_iff (e : Entry) : (∀ sent, e.packets sent = 0) ↔ e.pktSent = 0 ∧ e.pktRcvd = 0 := by
  constructor
  · intro h
    exact ⟨UInt16.toNat_inj.mp (h true), UInt16.toNat_inj.mp (h false)⟩
  · intro h sent
    cases sent with
    | true => exact congrArg UInt16.toNat h.1
    | false => exact congrArg UInt16.toNat h.2

/-- The packets are the sums in one order. -/
theorem sumUp_packets_iff (os : Peers) (members : List Stats) :
    (∀ sent k, packets sent ((sumUp os members).2.stats.lookup k) =
      (members.map fun m => packets sent (m.stats.lookup k)).sum) ↔ members.Pairwise IdleBefore := by
  have hone : ∀ sent k, (packets sent ((sumUp os members).2.stats.lookup k) =
      (members.map fun m => packets sent (m.stats.lookup k)).sum) ↔
      members.Pairwise fun m m' => (m'.stats.lookup k).isSome → packets sent (m.stats.lookup k) = 0 := by
    intro sent k
    have hgetD : ∀ o : Option Entry, (o.map fun e => e.packets sent).getD 0 = packets sent o := by
      intro o
      cases o with
      | none => rfl
      | some e => rfl
    have h := overwrite_eq_iff 0 (members.map fun m => (m.stats.lookup k).map fun e => e.packets sent)
    simp only [List.map_map, Function.comp_def, hgetD, List.pairwise_map, Option.isSome_map, zero_add, implies_true,
      true_and] at h
    rw [sumUp_packets]
    exact h
  simp only [hone, List.pairwise_iff_forall_sublist]
  constructor
  · intro h m m' hsub k e e' he he'
    refine (idle_iff e).mp fun sent => ?_
    have hzero := h sent k hsub (by rw [he']; rfl)
    rw [he] at hzero
    exact hzero
  · intro h sent k m m' hsub hsome
    rcases Option.isSome_iff_exists.mp hsome with ⟨e', he'⟩
    cases he : m.stats.lookup k with
    | none => rfl
    | some e => exact (idle_iff e).mpr (h hsub k e e' he he') sent

/-- And in every order. -/
theorem pairwise_idle_iff : (∀ order : List Stats, order.Perm members → order.Pairwise IdleBefore) ↔ members.Pairwise Idle := by
  constructor
  · intro h
    have hbefore := h members (List.Perm.refl _)
    have hafter := List.pairwise_reverse.mp (h members.reverse (List.reverse_perm _))
    refine (hbefore.and hafter).imp ?_
    intro m m' hboth k e e' he he'
    exact ⟨hboth.1 k e e' he he', hboth.2 k e' e he' he⟩
  · intro h order hperm
    have hsymm : ∀ m m', Idle m m' → Idle m' m := fun m m' hidle k e e' he he' =>
      ⟨(hidle k e' e he' he).2, (hidle k e' e he' he).1⟩
    refine (hperm.symm.pairwise h fun {m m'} => hsymm m m').imp ?_
    intro m m' hidle k e e' he he'
    exact (hidle k e e' he he').1

theorem sum_perm {α : Type*} {l l' : List α} (h : l.Perm l') (f : α → ℕ) : (l.map f).sum = (l'.map f).sum :=
  (h.map f).sum_eq

theorem icmpSums_iff (h : Owns os (ownedPeers members)) :
    (∀ order, order.Perm members → IcmpSums os order (sumUp os order)) ↔ Ok members := by
  have howns : ∀ order, order.Perm members → Owns os (ownedPeers order) := fun order hperm =>
    h.of_perm (hperm.flatMap_right _)
  have hzero : (∀ m ∈ members, m.numDestinationUnreachable = 0) ↔
      0 = (members.map fun m => m.numDestinationUnreachable.toNat).sum := by
    rw [eq_comm, List.sum_eq_zero_iff]
    simp [← UInt32.toNat_inj]
  constructor
  · intro hsums
    refine ⟨pairwise_idle_iff.mp fun order hperm => (sumUp_packets_iff os order).mp (hsums order hperm).packets, ?_⟩
    have hunreachable := (hsums members (List.Perm.refl _)).unreachable
    rw [(sumUp_apart h).2] at hunreachable
    exact hzero.mpr hunreachable
  · intro hok order hperm
    rcases sumUp_apart (howns order hperm) with ⟨hapart, hunreachable⟩
    refine ⟨(sumUp_packets_iff os order).mpr (pairwise_idle_iff.mpr hok.idle order hperm), ?_, hapart.same, ?_⟩
    · rw [hunreachable, sum_perm hperm]
      exact hzero.mp hok.unreachable
    · intro i hown hframe
      exact (hapart.own i hown).2 hframe

end

/-! ## Both -/

theorem ndpiSums_iff {os : Counters} {members : List NdpiObjects.Stats} (h : Owns os (owned members)) :
    (∀ order, order.Perm members → NdpiSums os order (sumAll os order)) ↔ Fit os members := by
  have howns : ∀ order, order.Perm members → Owns os (owned order) := fun order hperm =>
    h.of_perm (hperm.flatMap_right _)
  constructor
  · intro hsums
    rcases hsums members (List.Perm.refl _) with ⟨hproto, hcategory, -, -⟩
    refine ⟨?_, ?_⟩
    · intro f p
      rw [← hproto, NdpiObjects.sumAll_proto h]
      exact Nat.mod_lt _ f.modulus_pos
    · intro f c
      rw [← hcategory, NdpiObjects.sumAll_category]
      exact Nat.mod_lt _ f.modulus_pos
  · intro hfit order hperm
    have hapart := NdpiObjects.sumAll_apart (howns order hperm)
    refine ⟨?_, ?_, hapart.same, ?_⟩
    · intro f p
      rw [NdpiObjects.sumAll_proto (howns order hperm), Nat.mod_eq_of_lt]
      rw [sum_perm hperm]
      exact hfit.proto f p
    · intro f c
      rw [NdpiObjects.sumAll_category, Nat.mod_eq_of_lt]
      rw [sum_perm hperm]
      exact hfit.category f c
    · exact List.disjoint_of_nodup_append hapart.owns.nodup

/-- In every order of the members. -/
theorem sums_law (os : Counters) (ndpi : List NdpiObjects.Stats) (hndpi : Owns os (owned ndpi))
    (peers : Peers) (icmp : List Stats) (hicmp : Owns peers (ownedPeers icmp)) :
    ((∀ order, order.Perm ndpi → NdpiSums os order (sumAll os order)) ∧
      ∀ order, order.Perm icmp → IcmpSums peers order (sumUp peers order)) ↔ Fit os ndpi ∧ Ok icmp := by
  rw [ndpiSums_iff hndpi, icmpSums_iff hicmp]

/-- Three counters, two of them for protocol 7, and a category. -/
def twoTables : Counters × List NdpiObjects.Stats :=
  (((Objects.empty.new ⟨⟨1, 2⟩, ⟨60, 120⟩, 5, 100, 1⟩).new ⟨⟨3, 0⟩, ⟨180, 0⟩, 10, 100, 2⟩).new ⟨⟨1, 1⟩, ⟨80, 90⟩, 5, 90, 1⟩,
    [⟨(∅ : Map UInt16 ℕ).insert 7 0, (∅ : Map UInt16 CategoryCounter).insert 5 ⟨⟨60, 120⟩, 5, 100⟩⟩,
      ⟨((∅ : Map UInt16 ℕ).insert 7 1).insert 5 2, ∅⟩])

/-- Echo requests with a peer, and their replies with both peers. -/
def pings : Peers × List Stats :=
  (((Objects.empty.new "10.0.0.1").new "10.0.0.2").new "10.0.0.1",
    [⟨(∅ : Map UInt16 Entry).insert 0x800 ⟨2, 0, some 0, none⟩, 0⟩,
      ⟨(∅ : Map UInt16 Entry).insert 0 ⟨1, 2, some 1, some 2⟩, 0⟩])

theorem fit_twoTables : Fit twoTables.1 twoTables.2 := by
  refine ⟨fun f p => ?_, fun f c => ?_⟩
  · by_cases h5 : p = 5
    · subst h5
      cases f <;> decide
    · by_cases h7 : p = 7
      · subst h7
        cases f <;> decide
      · have hnone : ∀ m ∈ twoTables.2, see twoTables.1 m.counters p = none := by
          intro m hm
          rcases List.mem_pair.mp hm with rfl | rfl
          · rw [see, AList.lookup_insert_ne h7]
            rfl
          · rw [see, AList.lookup_insert_ne h5, AList.lookup_insert_ne h7]
            rfl
        rw [List.map_congr_left fun m hm => congrArg f.at (hnone m hm)]
        cases f <;> decide
  · by_cases h5 : c = 5
    · subst h5
      cases f <;> decide
    · have hnone : ∀ m ∈ twoTables.2, m.catCounters.lookup c = none := by
        intro m hm
        rcases List.mem_pair.mp hm with rfl | rfl
        · rw [AList.lookup_insert_ne h5]
          rfl
        · rfl
      rw [List.map_congr_left fun m hm => congrArg f.at (hnone m hm)]
      cases f <;> decide

theorem ok_pings : Ok pings.2 := by
  refine ⟨?_, by decide⟩
  rw [pings, List.pairwise_pair]
  intro k e e' he he'
  by_cases hk : k = 0
  · subst hk
    cases he
  · rw [AList.lookup_insert_ne hk] at he'
    cases he'

theorem sums_law_pings :
    (∀ order, order.Perm twoTables.2 → NdpiSums twoTables.1 order (sumAll twoTables.1 order)) ∧
      ∀ order, order.Perm pings.2 → IcmpSums pings.1 order (sumUp pings.1 order) :=
  (sums_law twoTables.1 twoTables.2 ⟨by decide, by decide, by decide, by decide⟩ pings.1 pings.2
    ⟨by decide, by decide, by decide, by decide⟩).mpr ⟨fit_twoTables, ok_pings⟩

/-- Echo requests: type 8, code 0. -/
def echoes (sent : UInt16) : Stats := ⟨(∅ : Map UInt16 Entry).insert 0x800 ⟨sent, 0, none, none⟩, 0⟩

/-- Two members of 2 and 3 packets: 3 are left. -/
theorem packets_overwritten : ¬ ∀ (peers : Peers) (icmp : List Stats), Owns peers (ownedPeers icmp) →
    IcmpSums peers icmp (sumUp peers icmp) := by
  intro h
  have hsent := (h .empty [echoes 2, echoes 3] owns_empty).packets true 0x800
  revert hsent
  decide

end Ntopng.Tables.IcmpStats
