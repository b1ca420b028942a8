/-
  Ntopng.Hosts.HostPools — the statistics of the host pools, and a reload of the pools between
  their updates (src/HostPools.cpp; src/HostPoolStats.cpp, src/include/HostPoolStats.h).

  `reloadPools` builds new statistics for the pools that Redis lists: copies of those there are, or
  empty ones. `ProtoCounter::set`, which copies a protocol's counter, leaves its last update at 0,
  where that of a category is copied. The next update then counts another five seconds, also
  right after it has counted some.

  An event is a call of `incPoolStats` or of `reloadPools`, with what Redis answers. The interface has an
  id, allocations succeed, and the statistics that packets do not move are left out.

  Proved (`reload_law`), for a pool that all reloads configure, whatever pools they add or delete:
  - what is shown of the pool is at all times what it would be without the reloads, exactly if no
    update comes to a counter that a reload has copied within five seconds of the last time it would
    have counted its duration,
  - one reload changes nothing that is shown of it.
-/

import Ntopng.Lib.CNumber
import Ntopng.Lib.Run
import Ntopng.Tables.Ndpi

namespace Ntopng.Hosts.HostPools

open Ntopng.Lib Ntopng.Lib.Run
open Ntopng.Tables.Ndpi

/-! ## The code -/

structure TrafficStats where
  numPkts : UInt64
  numBytes : UInt64
  deriving DecidableEq, Repr

def TrafficStats.incStats (s : TrafficStats) (numPkts numBytes : UInt64) : TrafficStats :=
  ⟨s.numPkts + numPkts, s.numBytes + numBytes⟩

/-- The arguments of `incPoolStats`. -/
structure Inc where
  when : UInt32
  hostPoolId : UInt16
  ndpiProto : UInt16
  categoryId : UInt16
  sentPackets : UInt64
  sentBytes : UInt64
  rcvdPackets : UInt64
  rcvdBytes : UInt64
  deriving DecidableEq, Repr

/-- There are packets. -/
def Inc.Counts (e : Inc) : Prop := e.sentPackets ≠ 0 ∨ e.rcvdPackets ≠ 0

instance (e : Inc) : Decidable e.Counts := inferInstanceAs (Decidable (_ ∨ _))

/-- What a call of `reloadPools` meets. -/
structure Reload where
  /-- The answer of Redis: the pool ids, if there is one. -/
  pools : Option (List (List UInt8))
  /-- The name that is read for a pool. -/
  name : UInt16 → String
  /-- The time that new statistics start with. -/
  now : ℤ

structure HostPoolStats where
  poolName : String
  sent : TrafficStats
  rcvd : TrafficStats
  ndpiStats : NdpiStats
  totalStats : NdpiStats
  firstSeen : ℤ
  lastSeen : ℤ
  mustReset : Bool

/-- `NDPI_PROTOCOL_UNKNOWN` -/
def ndpiProtocolUnknown : UInt16 := 0

namespace HostPoolStats

def new (now : ℤ) : HostPoolStats := ⟨"", ⟨0, 0⟩, ⟨0, 0⟩, .new, .new, now, now, false⟩

def copy (hps : HostPoolStats) : HostPoolStats :=
  { hps with ndpiStats := hps.ndpiStats.copy, totalStats := hps.totalStats.copy }

def updateName (hps : HostPoolStats) (name : String) : HostPoolStats := { hps with poolName := name }

def updateSeen (hps : HostPoolStats) (when : ℤ) : HostPoolStats :=
  { hps with lastSeen := when, firstSeen := if hps.firstSeen = 0 ∨ hps.firstSeen > when then when else hps.firstSeen }

def incStats (hps : HostPoolStats) (e : Inc) : HostPoolStats :=
  let hps := if e.Counts then
      { hps with
        sent := hps.sent.incStats e.sentPackets e.sentBytes
        rcvd := hps.rcvd.incStats e.rcvdPackets e.rcvdBytes
        ndpiStats := hps.ndpiStats.incStats e.when e.ndpiProto e.sentPackets e.sentBytes e.rcvdPackets e.rcvdBytes
        totalStats :=
          hps.totalStats.incStats e.when ndpiProtocolUnknown e.sentPackets e.sentBytes e.rcvdPackets e.rcvdBytes }
    else hps
  hps.updateSeen e.when.toNat

def incCategoryStats (hps : HostPoolStats) (e : Inc) : HostPoolStats :=
  { hps with ndpiStats := hps.ndpiStats.incCategoryStats e.when e.categoryId e.sentBytes e.rcvdBytes }

/-- Both calls of `incPoolStats`. -/
def inc (hps : HostPoolStats) (e : Inc) : HostPoolStats := (hps.incStats e).incCategoryStats e

end HostPoolStats

/-- `stats`; there are none before the first reload. -/
abbrev Pools := UInt16 → Option HostPoolStats

inductive Event where
  | inc (e : Inc)
  | reload (r : Reload)

section

-- `MAX_NUM_HOST_POOLS` depends on the edition.
variable (maxNumHostPools : ℕ)

def getPoolStats (stats : Pools) (hostPoolId : UInt16) : Option HostPoolStats :=
  if hostPoolId.toNat ≥ maxNumHostPools then none else stats hostPoolId

def incPoolStats (stats : Pools) (e : Inc) : Pools :=
  match getPoolStats maxNumHostPools stats e.hostPoolId with
  | none => stats
  | some hps => Function.update stats e.hostPoolId (some (hps.inc e))

/-- `(u_int16_t)atoi(pools[i])` -/
def poolId (s : List UInt8) : UInt16 := UInt16.ofInt (CNumber.atoi s)

/-- A copy of the statistics that a pool has, or brand new ones. -/
def duplicate (stats : Pools) (r : Reload) (id : UInt16) : HostPoolStats :=
  match stats id with
  | some hps => hps.copy
  | none => .new r.now

/-- The name; the members are not of the statistics. -/
def reloadPool (r : Reload) (newStats : Pools) (id : UInt16) : Pools :=
  match newStats id with
  | some hps => Function.update newStats id (some (hps.updateName (r.name id)))
  | none => newStats

/-- A turn of the loop over the pool ids. -/
def reloadId (stats : Pools) (r : Reload) (newStats : Pools) (s : List UInt8) : Pools :=
  let id := poolId s
  if id.toNat ≥ maxNumHostPools then newStats
  else
    let newStats := if id ≠ 0 then Function.update newStats id (some (duplicate stats r id)) else newStats
    reloadPool r newStats id

/-- `DEFAULT_POOL_NAME` -/
def defaultPoolName : String := "Default"

def reloadPools (stats : Pools) (r : Reload) : Pools :=
  let newStats : Pools := Function.update (fun _ => none) 0 (some ((duplicate stats r 0).updateName defaultPoolName))
  match r.pools with
  | none => stats
  | some ids => ids.foldl (reloadId maxNumHostPools stats r) newStats

def step (stats : Pools) : Event → Pools
  | .inc e => incPoolStats maxNumHostPools stats e
  | .reload r => reloadPools maxNumHostPools stats r

/-- The pools after the constructor. -/
def start (r : Reload) : Pools := reloadPools maxNumHostPools (fun _ => none) r

end

/-! ## What is shown -/

/-- Packets, bytes and duration. -/
def protoShown (c : ProtoCounter) : TrafficCounter × TrafficCounter × UInt32 := (c.packets, c.bytes, c.duration)

def categoryShown (c : CategoryCounter) : TrafficCounter × UInt32 := (c.bytes, c.duration)

structure Shown where
  sent : TrafficStats
  rcvd : TrafficStats
  protocol : UInt16 → Option (TrafficCounter × TrafficCounter × UInt32)
  category : UInt16 → Option (TrafficCounter × UInt32)
  crossApplication : Option (TrafficCounter × TrafficCounter × UInt32)

def HostPoolStats.shown (hps : HostPoolStats) : Shown where
  sent := hps.sent
  rcvd := hps.rcvd
  protocol p := (hps.ndpiStats.counters.lookup p).map protoShown
  category c := (hps.ndpiStats.catCounters.lookup c).map categoryShown
  crossApplication := (hps.totalStats.counters.lookup ndpiProtocolUnknown).map protoShown

/-- The pool is among those that Redis lists; the default pool always is. -/
def Configured (max : ℕ) (r : Reload) (q : UInt16) : Prop :=
  q.toNat < max ∧ ∃ ids, r.pools = some ids ∧ (q = 0 ∨ ∃ s ∈ ids, poolId s = q)

/-- Redis has no answer, or the pool is configured. -/
def Keeps (max : ℕ) (q : UInt16) (r : Reload) : Prop := r.pools = none ∨ Configured max r q

def Event.when : Event → Option UInt32
  | .inc e => some e.when
  | .reload _ => none

def Event.isInc : Event → Bool
  | .inc _ => true
  | .reload _ => false

/-- `c` is a counter that a reload has copied since the one of the run without the reloads, `d`, last
    counted its duration, and that is less than five seconds ago. -/
def Early (c d : Option ProtoCounter) (when : UInt32) : Prop :=
  ∃ c' d', c = some c' ∧ d = some d' ∧ c'.lastEpochUpdate = 0 ∧ d'.lastEpochUpdate ≠ 0 ∧
    housekeepingFrequency ≤ when ∧ when - d'.lastEpochUpdate < housekeepingFrequency

/-- The update finds the counters of the protocol and of the pool in time; `a` is what there is of
    the pool, `b` what there is in the run without the reloads. -/
structure InTime (a b : HostPoolStats) (e : Inc) : Prop where
  protocol : ¬ Early (a.ndpiStats.counters.lookup e.ndpiProto) (b.ndpiStats.counters.lookup e.ndpiProto) e.when
  total : ¬ Early (a.totalStats.counters.lookup ndpiProtocolUnknown) (b.totalStats.counters.lookup ndpiProtocolUnknown)
    e.when

/-! ## A reload -/

section

variable {max : ℕ} {stats newStats : Pools} {r : Reload} {q : UInt16}

/-- The new statistics of `q` are there, under some name. -/
def Made (stats : Pools) (r : Reload) (q : UInt16) (newStats : Pools) : Prop :=
  ∃ name, newStats q = some ((duplicate stats r q).updateName name)

theorem reloadPool_made (h : Made stats r q newStats) (id : UInt16) : Made stats r q (reloadPool r newStats id) := by
  rcases h with ⟨name, h⟩
  rw [reloadPool]
  by_cases hid : id = q
  · subst hid
    rw [h]
    exact ⟨r.name id, Function.update_self ..⟩
  · cases newStats id with
    | none => exact ⟨name, h⟩
    | some hps => exact ⟨name, by simp [Function.update_of_ne (Ne.symm hid), h]⟩

theorem reloadId_made (h : Made stats r q newStats) (s : List UInt8) :
    Made stats r q (reloadId max stats r newStats s) := by
  rw [reloadId]
  by_cases hmax : (poolId s).toNat ≥ max
  · simp [hmax, h]
  · simp only [hmax, if_false]
    apply reloadPool_made
    by_cases hzero : poolId s ≠ 0
    · rw [if_pos hzero]
      by_cases hid : poolId s = q
      · subst hid
        exact ⟨(duplicate stats r (poolId s)).poolName, Function.update_self ..⟩
      · rcases h with ⟨name, h⟩
        exact ⟨name, by rw [Function.update_of_ne (Ne.symm hid), h]⟩
    · rw [if_neg hzero]
      exact h

theorem reloadId_own {s : List UInt8} (hmax : q.toNat < max) (hzero : q ≠ 0) (hs : poolId s = q) :
    Made stats r q (reloadId max stats r newStats s) := by
  subst hs
  rw [reloadId]
  simp only [not_le.mpr hmax, if_false, if_pos hzero]
  apply reloadPool_made
  exact ⟨(duplicate stats r (poolId s)).poolName, Function.update_self ..⟩

theorem foldl_made (ids : List (List UInt8)) (h : Made stats r q newStats) :
    Made stats r q (ids.foldl (reloadId max stats r) newStats) := by
  induction ids generalizing newStats with
  | nil => exact h
  | cons s ids ih =>
    rw [List.foldl_cons]
    exact ih (reloadId_made h s)

/-- A configured pool has the statistics it had, copied, or new ones. -/
theorem reloadPools_made (stats : Pools) (h : Configured max r q) : Made stats r q (reloadPools max stats r) := by
  rcases h with ⟨hmax, ids, hids, hq⟩
  rw [reloadPools, hids]
  simp only
  by_cases hzero : q = 0
  · subst hzero
    apply foldl_made
    exact ⟨defaultPoolName, Function.update_self ..⟩
  · rcases hq.resolve_left hzero with ⟨s, hs, hid⟩
    rcases List.append_of_mem hs with ⟨l, l', rfl⟩
    rw [List.foldl_append, List.foldl_cons]
    apply foldl_made
    exact reloadId_own hmax hzero hid

theorem copy_shown (hps : HostPoolStats) (name : String) : (hps.copy.updateName name).shown = hps.shown := by
  simp only [HostPoolStats.shown, HostPoolStats.updateName, HostPoolStats.copy, NdpiStats.copy_counters,
    NdpiStats.copy_catCounters, Option.map_map]
  rfl

/-- Nothing that is shown of a configured pool changes. -/
theorem reloadPools_shown (h : Configured max r q) (hstats : (stats q).isSome) :
    (reloadPools max stats r q).map HostPoolStats.shown = (stats q).map HostPoolStats.shown := by
  rcases reloadPools_made stats h with ⟨name, hmade⟩
  rcases Option.isSome_iff_exists.mp hstats with ⟨hps, hq⟩
  rw [hmade, duplicate, hq]
  simp [copy_shown]

theorem start_made (h : Configured max r q) : ∃ name, start max r q = some ((HostPoolStats.new r.now).updateName name) :=
  reloadPools_made _ h

end

/-! ## An update of a counter in both runs -/

/-- The same packets, bytes and duration, and the same last update or none. -/
structure CloseCounter (c d : ProtoCounter) : Prop where
  shown : protoShown c = protoShown d
  last : c.lastEpochUpdate = d.lastEpochUpdate ∨ c.lastEpochUpdate = 0

def CloseEntry : Option ProtoCounter → Option ProtoCounter → Prop
  | none, none => True
  | some c, some d => CloseCounter c d
  | _, _ => False

theorem CloseEntry.shown {c d : Option ProtoCounter} (h : CloseEntry c d) : c.map protoShown = d.map protoShown := by
  cases c with
  | none =>
    cases d with
    | none => rfl
    | some d => cases h
  | some c =>
    cases d with
    | none => cases h
    | some d => exact congrArg some (CloseCounter.shown h)

theorem CloseEntry.getD {c d : Option ProtoCounter} (h : CloseEntry c d) :
    CloseCounter (c.getD .new) (d.getD .new) := by
  cases c with
  | none =>
    cases d with
    | none => exact ⟨rfl, Or.inl rfl⟩
    | some d => cases h
  | some c =>
    cases d with
    | none => cases h
    | some d => exact h

theorem CloseEntry.copied {c d : Option ProtoCounter} (h : CloseEntry c d) :
    CloseEntry (c.map ProtoCounter.new.set) d := by
  cases c with
  | none => exact h
  | some c =>
    cases d with
    | none => cases h
    | some d =>
      have hclose : CloseCounter c d := h
      exact ⟨hclose.shown, Or.inr rfl⟩

theorem incStats_shown (c : ProtoCounter) (when : UInt32) (sp sb rp rb : UInt64) :
    protoShown (c.incStats when sp sb rp rb) = (c.packets.incStats sp rp, c.bytes.incStats sb rb,
      if ticks c.lastEpochUpdate when then c.duration + housekeepingFrequency else c.duration) := by
  rw [ProtoCounter.incStats]
  split <;> rfl

theorem incStats_last (c : ProtoCounter) (when : UInt32) (sp sb rp rb : UInt64) :
    (c.incStats when sp sb rp rb).lastEpochUpdate = if ticks c.lastEpochUpdate when then when else c.lastEpochUpdate := by
  rw [ProtoCounter.incStats]
  split <;> rfl

theorem add_housekeeping_ne (d : UInt32) : d + housekeepingFrequency ≠ d := by
  rw [housekeepingFrequency]
  intro h
  simp at h

/-- Counters that count their duration together stay close. -/
theorem CloseCounter.incStats {c d : ProtoCounter} (h : CloseCounter c d) {when : UInt32}
    (hticks : ticks c.lastEpochUpdate when = ticks d.lastEpochUpdate when) (sp sb rp rb : UInt64) :
    CloseCounter (c.incStats when sp sb rp rb) (d.incStats when sp sb rp rb) := by
  rcases h with ⟨hshown, hlast⟩
  simp only [protoShown, Prod.mk.injEq] at hshown
  refine ⟨?_, ?_⟩
  · simp only [incStats_shown, hticks, hshown]
  · rw [incStats_last, incStats_last, hticks]
    split
    · exact Or.inl rfl
    · exact hlast

/-- And the others do not show the same then. -/
theorem CloseCounter.apart {c d : ProtoCounter} (h : CloseCounter c d) {when : UInt32}
    (hticks : ticks c.lastEpochUpdate when ≠ ticks d.lastEpochUpdate when) (sp sb rp rb : UInt64) :
    protoShown (c.incStats when sp sb rp rb) ≠ protoShown (d.incStats when sp sb rp rb) := by
  have hduration : c.duration = d.duration := congrArg (fun s => s.2.2) h.shown
  rw [incStats_shown, incStats_shown]
  intro heq
  have h2 := congrArg (fun s => s.2.2) heq
  simp only at h2
  rw [hduration] at h2
  cases hc : ticks c.lastEpochUpdate when with
  | false =>
    cases hd : ticks d.lastEpochUpdate when with
    | false => exact hticks (hc.trans hd.symm)
    | true =>
      rw [hc, hd] at h2
      exact add_housekeeping_ne d.duration h2.symm
  | true =>
    cases hd : ticks d.lastEpochUpdate when with
    | false =>
      rw [hc, hd] at h2
      exact add_housekeeping_ne d.duration h2
    | true => exact hticks (hc.trans hd.symm)

/-- With times that do not go back, an update counts the duration in one run only exactly if it is early. -/
theorem ticks_eq_iff {last when : UInt32} (hle : last ≤ when) : (ticks 0 when = ticks last when) ↔
    ¬ (last ≠ 0 ∧ housekeepingFrequency ≤ when ∧ when - last < housekeepingFrequency) := by
  have hsub : (when - last).toNat = when.toNat - last.toNat := UInt32.toNat_sub_of_le _ _ hle
  have hlast : last.toNat ≤ when.toNat := UInt32.le_iff_toNat_le.mp hle
  rw [Bool.eq_iff_iff, ticks, ticks, housekeepingFrequency]
  simp only [ne_eq, Bool.and_eq_true, decide_eq_true_eq, ge_iff_le, UInt32.le_iff_toNat_le, UInt32.lt_iff_toNat_lt,
    ← UInt32.toNat_inj, hsub, UInt32.sub_zero, UInt32.reduceToNat]
  omega

theorem CloseEntry.ticks_iff {c d : Option ProtoCounter} (h : CloseEntry c d) {when : UInt32}
    (hle : ∀ d', d = some d' → d'.lastEpochUpdate ≤ when) :
    (ticks (c.getD .new).lastEpochUpdate when = ticks (d.getD .new).lastEpochUpdate when) ↔ ¬ Early c d when := by
  cases c with
  | none =>
    cases d with
    | none =>
      refine iff_of_true rfl ?_
      intro hearly
      rcases hearly with ⟨c', d', hc, -⟩
      cases hc
    | some d => cases h
  | some c =>
    cases d with
    | none => cases h
    | some d =>
      rcases h with ⟨-, hlast⟩
      simp only [Option.getD_some]
      by_cases hzero : c.lastEpochUpdate = 0
      · rw [hzero, ticks_eq_iff (hle d rfl), not_iff_not]
        constructor
        · intro hd
          exact ⟨c, d, rfl, rfl, hzero, hd⟩
        · intro hearly
          rcases hearly with ⟨c', d', hc, hd, -, hearly⟩
          cases hd
          exact hearly
      · rw [hlast.resolve_right hzero]
        refine iff_of_true rfl ?_
        intro hearly
        rcases hearly with ⟨c', d', hc, -, hzero', -⟩
        cases hc
        exact hzero hzero'

/-! ## An update of a pool in both runs -/

section

variable {a b : HostPoolStats} {e : Inc} {t : UInt32}

/-- `a` is what there is of a pool with the reloads, `b` without. -/
structure Close (a b : HostPoolStats) : Prop where
  sent : a.sent = b.sent
  rcvd : a.rcvd = b.rcvd
  protocol : ∀ p, CloseEntry (a.ndpiStats.counters.lookup p) (b.ndpiStats.counters.lookup p)
  category : ∀ c, a.ndpiStats.catCounters.lookup c = b.ndpiStats.catCounters.lookup c
  total : ∀ p, CloseEntry (a.totalStats.counters.lookup p) (b.totalStats.counters.lookup p)

/-- No counter was last updated after `t`. -/
structure LastLe (b : HostPoolStats) (t : UInt32) : Prop where
  protocol : ∀ p c, b.ndpiStats.counters.lookup p = some c → c.lastEpochUpdate ≤ t
  total : ∀ p c, b.totalStats.counters.lookup p = some c → c.lastEpochUpdate ≤ t

theorem Close.shown (h : Close a b) : a.shown = b.shown := by
  simp only [HostPoolStats.shown, h.sent, h.rcvd, h.category, (h.protocol _).shown, (h.total _).shown]

theorem Close.copied (h : Close a b) (name : String) : Close (a.copy.updateName name) b := by
  refine ⟨h.sent, h.rcvd, ?_, ?_, ?_⟩
  · intro p
    simpa [HostPoolStats.updateName, HostPoolStats.copy, NdpiStats.copy_counters] using (h.protocol p).copied
  · intro c
    simpa [HostPoolStats.updateName, HostPoolStats.copy, NdpiStats.copy_catCounters] using h.category c
  · intro p
    simpa [HostPoolStats.updateName, HostPoolStats.copy, NdpiStats.copy_counters] using (h.total p).copied

/-- The counters of an update without packets. -/
theorem inc_still (h : ¬ e.Counts) (hps : HostPoolStats) : (hps.inc e).sent = hps.sent ∧
    (hps.inc e).rcvd = hps.rcvd ∧ (hps.inc e).ndpiStats.counters = hps.ndpiStats.counters ∧
    (hps.inc e).totalStats = hps.totalStats := by
  simp [HostPoolStats.inc, HostPoolStats.incStats, h, HostPoolStats.updateSeen, HostPoolStats.incCategoryStats,
    NdpiStats.incCategoryStats]

theorem inc_protocol (h : e.Counts) (hps : HostPoolStats) (p : UInt16) :
    (hps.inc e).ndpiStats.counters.lookup p = if p = e.ndpiProto then
      some (((hps.ndpiStats.counters.lookup e.ndpiProto).getD .new).incStats e.when e.sentPackets e.sentBytes
        e.rcvdPackets e.rcvdBytes)
      else hps.ndpiStats.counters.lookup p := by
  rw [← NdpiStats.incStats_counters]
  simp [HostPoolStats.inc, HostPoolStats.incStats, h, HostPoolStats.updateSeen, HostPoolStats.incCategoryStats,
    NdpiStats.incCategoryStats]

theorem inc_total (h : e.Counts) (hps : HostPoolStats) (p : UInt16) :
    (hps.inc e).totalStats.counters.lookup p = if p = ndpiProtocolUnknown then
      some (((hps.totalStats.counters.lookup ndpiProtocolUnknown).getD .new).incStats e.when e.sentPackets e.sentBytes
        e.rcvdPackets e.rcvdBytes)
      else hps.totalStats.counters.lookup p := by
  rw [← NdpiStats.incStats_counters]
  simp [HostPoolStats.inc, HostPoolStats.incStats, h, HostPoolStats.updateSeen, HostPoolStats.incCategoryStats]

theorem inc_traffic (h : e.Counts) (hps : HostPoolStats) :
    (hps.inc e).sent = hps.sent.incStats e.sentPackets e.sentBytes ∧
    (hps.inc e).rcvd = hps.rcvd.incStats e.rcvdPackets e.rcvdBytes := by
  simp [HostPoolStats.inc, HostPoolStats.incStats, h, HostPoolStats.updateSeen, HostPoolStats.incCategoryStats]

theorem inc_category (e : Inc) (hps : HostPoolStats) (c : UInt16) :
    (hps.inc e).ndpiStats.catCounters.lookup c = if c = e.categoryId then
      some (((hps.ndpiStats.catCounters.lookup e.categoryId).getD .new).incStats e.when e.sentBytes e.rcvdBytes)
      else hps.ndpiStats.catCounters.lookup c := by
  have hcat : (hps.incStats e).ndpiStats.catCounters = hps.ndpiStats.catCounters := by
    rw [HostPoolStats.incStats]
    by_cases h : e.Counts
    · simp [h, HostPoolStats.updateSeen, NdpiStats.incStats]
    · simp [h, HostPoolStats.updateSeen]
  rw [HostPoolStats.inc, HostPoolStats.incCategoryStats, NdpiStats.incCategoryStats_catCounters, hcat]

theorem LastLe.inc (h : LastLe b t) (hle : e.when ≤ t) : LastLe (b.inc e) t := by
  have hcounter : ∀ c : ProtoCounter, c.lastEpochUpdate ≤ t →
      (c.incStats e.when e.sentPackets e.sentBytes e.rcvdPackets e.rcvdBytes).lastEpochUpdate ≤ t := by
    intro c hc
    rw [incStats_last]
    split
    · exact hle
    · exact hc
  have hgetD : ∀ c : Option ProtoCounter, (∀ c', c = some c' → c'.lastEpochUpdate ≤ t) →
      (c.getD .new).lastEpochUpdate ≤ t := by
    intro c hc
    cases c with
    | none => exact UInt32.zero_le
    | some c => exact hc c rfl
  by_cases hcounts : e.Counts
  · refine ⟨?_, ?_⟩
    · intro p c hc
      rw [inc_protocol hcounts] at hc
      split at hc
      · cases hc
        exact hcounter _ (hgetD _ fun c' => h.protocol _ c')
      · exact h.protocol p c hc
    · intro p c hc
      rw [inc_total hcounts] at hc
      split at hc
      · cases hc
        exact hcounter _ (hgetD _ fun c' => h.total _ c')
      · exact h.total p c hc
  · rcases inc_still hcounts b with ⟨-, -, hprotocol, htotal⟩
    refine ⟨?_, ?_⟩
    · rw [hprotocol]
      exact h.protocol
    · rw [htotal]
      exact h.total

/-- An update that comes in time for both counters. -/
theorem Close.inc (h : Close a b) (hle : LastLe b e.when) (hok : e.Counts → InTime a b e) :
    Close (a.inc e) (b.inc e) := by
  have hcategory : ∀ c, (a.inc e).ndpiStats.catCounters.lookup c = (b.inc e).ndpiStats.catCounters.lookup c := by
    intro c
    rw [inc_category, inc_category, h.category, h.category]
  by_cases hcounts : e.Counts
  · have hprotocol := ((h.protocol e.ndpiProto).ticks_iff fun d => hle.protocol _ d).mpr (hok hcounts).protocol
    have htotal := ((h.total ndpiProtocolUnknown).ticks_iff fun d => hle.total _ d).mpr (hok hcounts).total
    refine ⟨?_, ?_, ?_, hcategory, ?_⟩
    · rw [(inc_traffic hcounts a).1, (inc_traffic hcounts b).1, h.sent]
    · rw [(inc_traffic hcounts a).2, (inc_traffic hcounts b).2, h.rcvd]
    · intro p
      rw [inc_protocol hcounts, inc_protocol hcounts]
      split
      · exact (h.protocol e.ndpiProto).getD.incStats hprotocol ..
      · exact h.protocol p
    · intro p
      rw [inc_total hcounts, inc_total hcounts]
      split
      · exact (h.total ndpiProtocolUnknown).getD.incStats htotal ..
      · exact h.total p
  · rcases inc_still hcounts a with ⟨hsent, hrcvd, hprotocol, htotal⟩
    rcases inc_still hcounts b with ⟨hsent', hrcvd', hprotocol', htotal'⟩
    refine ⟨?_, ?_, ?_, hcategory, ?_⟩
    · rw [hsent, hsent', h.sent]
    · rw [hrcvd, hrcvd', h.rcvd]
    · rw [hprotocol, hprotocol']
      exact h.protocol
    · rw [htotal, htotal']
      exact h.total

/-- One that does not come in time for one of them. -/
theorem Close.apart (h : Close a b) (hle : LastLe b e.when) (hcounts : e.Counts) (hnot : ¬ InTime a b e) :
    (a.inc e).shown ≠ (b.inc e).shown := by
  intro heq
  refine hnot ⟨?_, ?_⟩
  · rw [← (h.protocol e.ndpiProto).ticks_iff fun d => hle.protocol _ d]
    refine Classical.byContradiction fun hticks => ?_
    have hshown := congrFun (congrArg Shown.protocol heq) e.ndpiProto
    simp only [HostPoolStats.shown, inc_protocol hcounts, if_true, Option.map_some, Option.some.injEq] at hshown
    exact (h.protocol e.ndpiProto).getD.apart hticks _ _ _ _ hshown
  · rw [← (h.total ndpiProtocolUnknown).ticks_iff fun d => hle.total _ d]
    refine Classical.byContradiction fun hticks => ?_
    have hshown := congrArg Shown.crossApplication heq
    simp only [HostPoolStats.shown, inc_total hcounts, if_true, Option.map_some, Option.some.injEq] at hshown
    exact (h.total ndpiProtocolUnknown).getD.apart hticks _ _ _ _ hshown

end

/-! ## Both runs -/

section

variable {max : ℕ} {q : UInt16} {s : Pools × Pools} {es : List Event}

/-- The run with the reloads and the one without. -/
def both (max : ℕ) (s : Pools × Pools) (ev : Event) : Pools × Pools :=
  (step max s.1 ev, if ev.isInc then step max s.2 ev else s.2)

theorem run_both (s : Pools × Pools) (es : List Event) :
    run (both max) s es = (run (step max) s.1 es, run (step max) s.2 (es.filter Event.isInc)) := by
  induction es generalizing s with
  | nil => rfl
  | cons ev es ih =>
    rw [run_cons, run_cons, ih]
    cases ev with
    | inc e => rfl
    | reload r => rfl

theorem incPoolStats_own {stats : Pools} {e : Inc} {hps : HostPoolStats} (hq : q.toNat < max) (he : e.hostPoolId = q)
    (h : stats q = some hps) : incPoolStats max stats e q = some (hps.inc e) := by
  subst he
  simp [incPoolStats, getPoolStats, not_le.mpr hq, h]

theorem incPoolStats_other {stats : Pools} {e : Inc} (he : e.hostPoolId ≠ q) : incPoolStats max stats e q = stats q := by
  rw [incPoolStats]
  cases getPoolStats max stats e.hostPoolId with
  | none => rfl
  | some hps => exact Function.update_of_ne (Ne.symm he) ..

def BothClose (q : UInt16) (s : Pools × Pools) : Prop := ∃ a b, s.1 q = some a ∧ s.2 q = some b ∧ Close a b

def SameShown (q : UInt16) (s : Pools × Pools) : Prop :=
  (s.1 q).map HostPoolStats.shown = (s.2 q).map HostPoolStats.shown

/-- What is known of the events: the times do not go back, and the pool stays. -/
def Known (max : ℕ) (q : UInt16) (s : Pools × Pools) : Event → Prop
  | .inc e => e.hostPoolId = q → ∀ b, s.2 q = some b → LastLe b e.when
  | .reload r => Keeps max q r

def Fine (q : UInt16) (s : Pools × Pools) : Event → Prop
  | .inc e => e.hostPoolId = q → e.Counts → ∀ a b, s.1 q = some a → s.2 q = some b → InTime a b e
  | .reload _ => True

theorem BothClose.same (h : BothClose q s) : SameShown q s := by
  rcases h with ⟨a, b, ha, hb, hclose⟩
  rw [SameShown, ha, hb, Option.map_some, Option.map_some, hclose.shown]

theorem reloadPools_kept {stats : Pools} {r : Reload} {a : HostPoolStats} (h : Keeps max q r) (ha : stats q = some a) :
    reloadPools max stats r q = some a ∨ ∃ name, reloadPools max stats r q = some (a.copy.updateName name) := by
  rcases h with hnone | hconfigured
  · rw [reloadPools, hnone]
    exact Or.inl ha
  · rcases reloadPools_made stats hconfigured with ⟨name, hmade⟩
    rw [duplicate, ha] at hmade
    exact Or.inr ⟨name, hmade⟩

theorem BothClose.step (hq : q.toNat < max) (h : BothClose q s) {ev : Event} (hknown : Known max q s ev)
    (hfine : Fine q s ev) : BothClose q (both max s ev) := by
  rcases h with ⟨a, b, ha, hb, hclose⟩
  cases ev with
  | inc e =>
    by_cases he : e.hostPoolId = q
    · exact ⟨a.inc e, b.inc e, incPoolStats_own hq he ha, incPoolStats_own hq he hb,
        hclose.inc (hknown he b hb) fun hcounts => hfine he hcounts a b ha hb⟩
    · exact ⟨a, b, (incPoolStats_other he).trans ha, (incPoolStats_other he).trans hb, hclose⟩
  | reload r =>
    rcases reloadPools_kept hknown ha with hsame | ⟨name, hcopied⟩
    · exact ⟨a, b, hsame, hb, hclose⟩
    · exact ⟨_, b, hcopied, hb, hclose.copied name⟩

theorem BothClose.apart (hq : q.toNat < max) (h : BothClose q s) {ev : Event} (hknown : Known max q s ev)
    (hnot : ¬ Fine q s ev) : ¬ SameShown q (both max s ev) := by
  rcases h with ⟨a, b, ha, hb, hclose⟩
  cases ev with
  | inc e =>
    simp only [Fine, ha, hb, Option.some.injEq] at hnot
    push Not at hnot
    rcases hnot with ⟨he, hcounts, a', b', ha', hb', hearly⟩
    subst ha'
    subst hb'
    have hpair : SameShown q (both max s (.inc e)) ↔ some (a.inc e).shown = some (b.inc e).shown := by
      show (incPoolStats max s.1 e q).map _ = (incPoolStats max s.2 e q).map _ ↔ _
      rw [incPoolStats_own hq he ha, incPoolStats_own hq he hb, Option.map_some, Option.map_some]
    rw [hpair, Option.some.injEq]
    exact hclose.apart (hknown he b hb) hcounts hearly
  | reload r => exact absurd trivial hnot

/-- The counters of a pool that only updates move. -/
theorem run_lastLe {t : UInt32} {stats : Pools} (h : ∀ b, stats q = some b → LastLe b t)
    (hle : ∀ ev ∈ es, ∃ e, ev = .inc e ∧ e.when ≤ t) :
    ∀ b, run (step max) stats es q = some b → LastLe b t := by
  have hstep : ∀ stats ev, (∀ b, stats q = some b → LastLe b t) → (∃ e, ev = .inc e ∧ e.when ≤ t) →
      ∀ b, step max stats ev q = some b → LastLe b t := by
    intro stats ev hstats hev b hb
    rcases hev with ⟨e, rfl, hwhen⟩
    rw [step, incPoolStats] at hb
    cases hps : getPoolStats max stats e.hostPoolId with
    | none =>
      rw [hps] at hb
      exact hstats b hb
    | some c =>
      rw [hps] at hb
      simp only at hb
      by_cases he : q = e.hostPoolId
      · subst he
        rw [Function.update_self] at hb
        cases hb
        rw [getPoolStats] at hps
        split at hps
        · cases hps
        · exact (hstats c hps).inc hwhen
      · rw [Function.update_of_ne he] at hb
        exact hstats b hb
  exact inv_run (step max) hstep h (along_of_forall (step max) hle)

/-- A pool that is kept has statistics. -/
theorem run_present {stats : Pools} (h : (stats q).isSome) (hkeep : ∀ r, .reload r ∈ es → Keeps max q r) :
    (run (step max) stats es q).isSome := by
  have hstep : ∀ stats ev, (stats q).isSome → (∀ r, ev = .reload r → Keeps max q r) → (step max stats ev q).isSome := by
    intro stats ev hstats hev
    rcases Option.isSome_iff_exists.mp hstats with ⟨a, ha⟩
    cases ev with
    | inc e =>
      rw [step, incPoolStats]
      cases getPoolStats max stats e.hostPoolId with
      | none => exact hstats
      | some c =>
        by_cases he : q = e.hostPoolId
        · simp [he]
        · simp [Function.update_of_ne he, hstats]
    | reload r =>
      rcases reloadPools_kept (hev r rfl) ha with hsame | ⟨name, hcopied⟩
      · rw [step, hsame]
        rfl
      · rw [step, hcopied]
        rfl
  have hall : ∀ ev ∈ es, ∀ r, ev = .reload r → Keeps max q r := by
    intro ev hev r hr
    exact hkeep r (hr ▸ hev)
  exact inv_run (step max) hstep h (along_of_forall (step max) hall)

theorem start_close {r : Reload} (h : Configured max r q) : BothClose q (start max r, start max r) := by
  rcases start_made h with ⟨name, hmade⟩
  refine ⟨_, _, hmade, hmade, rfl, rfl, ?_, fun _ => rfl, ?_⟩
  · intro p
    exact trivial
  · intro p
    exact trivial

theorem start_lastLe {r : Reload} (h : Configured max r q) (t : UInt32) :
    ∀ b, start max r q = some b → LastLe b t := by
  intro b hb
  rcases start_made h with ⟨name, hmade⟩
  rw [hmade] at hb
  cases hb
  refine ⟨?_, ?_⟩
  · intro p c hc
    cases hc
  · intro p c hc
    cases hc

theorem along_known {r : Reload} (h : Configured max r q) (hkeep : ∀ r, .reload r ∈ es → Keeps max q r)
    (htimes : (es.filterMap Event.when).Pairwise (· ≤ ·)) :
    Along (both max) (Known max q) (start max r, start max r) es := by
  rw [along_iff]
  intro pre ev post hes
  subst hes
  rw [run_both]
  cases ev with
  | inc e =>
    intro he
    apply run_lastLe (start_lastLe h e.when)
    intro ev hev
    rcases List.mem_filter.mp hev with ⟨hpre, hinc⟩
    cases ev with
    | inc e' =>
      rw [List.filterMap_append, List.pairwise_append] at htimes
      refine ⟨e', rfl, htimes.2.2 e'.when ?_ e.when ?_⟩
      · exact List.mem_filterMap.mpr ⟨_, hpre, rfl⟩
      · exact List.mem_filterMap.mpr ⟨_, List.mem_cons_self .., rfl⟩
    | reload r => cases hinc
  | reload r => exact hkeep r (by simp)

end

/-! ## The law -/

/-- `r₀` is the first reload, of the constructor. -/
theorem reload_law (max : ℕ) (r₀ : Reload) (q : UInt16) (hq : Configured max r₀ q) (es : List Event)
    (hkeep : ∀ r, .reload r ∈ es → Keeps max q r) (htimes : (es.filterMap Event.when).Pairwise (· ≤ ·)) :
    ((∀ as, as <+: es → (run (step max) (start max r₀) as q).map HostPoolStats.shown =
        (run (step max) (start max r₀) (as.filter Event.isInc) q).map HostPoolStats.shown) ↔
      ∀ pre e post, es = pre ++ .inc e :: post → e.hostPoolId = q → e.Counts →
        ∀ a b, run (step max) (start max r₀) pre q = some a →
          run (step max) (start max r₀) (pre.filter Event.isInc) q = some b → InTime a b e) ∧
    ∀ r, Configured max r q → (run (step max) (start max r₀) (es ++ [.reload r]) q).map HostPoolStats.shown =
      (run (step max) (start max r₀) es q).map HostPoolStats.shown := by
  refine ⟨?_, ?_⟩
  · calc (∀ as, as <+: es → (run (step max) (start max r₀) as q).map HostPoolStats.shown =
            (run (step max) (start max r₀) (as.filter Event.isInc) q).map HostPoolStats.shown)
        ↔ Always (both max) (SameShown q) (start max r₀, start max r₀) es := by
          rw [always_iff]
          simp only [run_both, SameShown]
      _ ↔ Along (both max) (Fine q) (start max r₀, start max r₀) es :=
          always_iff_along_within (both max) (fun _ _ h => h.step hq.1) (fun _ => BothClose.same)
            (fun _ _ h => h.apart hq.1) (start_close hq) (along_known hq hkeep htimes)
      _ ↔ ∀ pre ev post, es = pre ++ ev :: post → Fine q (run (both max) (start max r₀, start max r₀) pre) ev :=
          along_iff (both max)
      _ ↔ _ := by
          simp only [run_both]
          constructor
          · intro h pre e post hes
            exact h pre (.inc e) post hes
          · intro h pre ev post hes
            cases ev with
            | inc e => exact h pre e post hes
            | reload r => exact trivial
  · intro r hr
    rw [run_snoc, step]
    refine reloadPools_shown hr (run_present ?_ hkeep)
    rcases start_made hq with ⟨name, hmade⟩
    rw [hmade]
    rfl

/-- Redis lists no pool, so that there is the default one. -/
def noPools : Reload := ⟨some [], fun _ => "", 0⟩

def onePacket (when : UInt32) : Inc := ⟨when, 0, 7, 5, 1, 60, 0, 0⟩

theorem reload_law_slow :
    (run (step 5) (start 5 noPools) ([.inc (onePacket 100), .reload noPools, .inc (onePacket 105)] ++ [.reload noPools])
      0).map HostPoolStats.shown =
    (run (step 5) (start 5 noPools) [.inc (onePacket 100), .reload noPools, .inc (onePacket 105)] 0).map
      HostPoolStats.shown :=
  (reload_law 5 noPools 0 ⟨by decide, [], rfl, Or.inl rfl⟩ [.inc (onePacket 100), .reload noPools, .inc (onePacket 105)]
    (fun r hr => by
      simp only [List.mem_cons, reduceCtorEq, Event.reload.injEq, List.not_mem_nil, or_false, false_or] at hr
      exact Or.inr (hr ▸ ⟨by decide, [], rfl, Or.inl rfl⟩))
    (by decide)).2 noPools ⟨by decide, [], rfl, Or.inl rfl⟩

/-- Two packets in two seconds, with a reload between them: ten seconds. -/
theorem seconds_twice : ¬ ∀ (max : ℕ) (r₀ : Reload) (q : UInt16) (es : List Event), Configured max r₀ q →
    (∀ r, .reload r ∈ es → r = r₀) → (es.filterMap Event.when).Pairwise (· ≤ ·) →
    (run (step max) (start max r₀) es q).map HostPoolStats.shown =
      (run (step max) (start max r₀) (es.filter Event.isInc) q).map HostPoolStats.shown := by
  intro h
  have hshown := h 5 noPools 0 [.inc (onePacket 100), .reload noPools, .inc (onePacket 101)]
    ⟨by decide, [], rfl, Or.inl rfl⟩ (fun r hr => by simpa using hr) (by decide)
  have hduration := congrArg (fun s => s.map Shown.crossApplication) hshown
  revert hduration
  rw [Option.map_map, Option.map_map]
  decide

end Ntopng.Hosts.HostPools
