/-
  Ntopng.Tables.Ndpi — the counters of protocols and categories (src/nDPIStats.cpp,
  src/ProtoCounter.cpp, src/CategoryCounter.cpp, src/include/TrafficCounter.h).

  Here a counter stands in the map by value; the objects behind the pointers are in
  Ntopng.Tables.NdpiObjects. The id of a protocol counter is its key. Throughputs and behaviours are
  left out: no operation reads them for the counters.

  What each operation does to the counter of a key is one lemma, whatever the order of the entries.
-/

import Ntopng.Lib.EntryLoop

namespace Ntopng.Tables.Ndpi

open Ntopng.Lib.EntryLoop

/-! ## Counters -/

structure TrafficCounter where
  sent : UInt64
  rcvd : UInt64
  deriving DecidableEq, Repr

namespace TrafficCounter

def new : TrafficCounter := ⟨0, 0⟩

def incStats (c : TrafficCounter) (s r : UInt64) : TrafficCounter := ⟨c.sent + s, c.rcvd + r⟩

def sum (c d : TrafficCounter) : TrafficCounter := ⟨c.sent + d.sent, c.rcvd + d.rcvd⟩

def getTotal (c : TrafficCounter) : UInt64 := c.sent + c.rcvd

end TrafficCounter

/-- `HOUSEKEEPING_FREQUENCY`, in seconds. -/
def housekeepingFrequency : UInt32 := 5

/-- It is time to count the seconds since the last time they were counted. -/
def ticks (last when : UInt32) : Bool := when ≠ 0 && when - last ≥ housekeepingFrequency

structure ProtoCounter where
  packets : TrafficCounter
  bytes : TrafficCounter
  /-- Seconds. -/
  duration : UInt32
  lastEpochUpdate : UInt32
  totalFlows : UInt32
  deriving DecidableEq, Repr

namespace ProtoCounter

def new : ProtoCounter := ⟨.new, .new, 0, 0, 0⟩

/-- All but the time of the last update. -/
def set (c p : ProtoCounter) : ProtoCounter :=
  { c with packets := p.packets, bytes := p.bytes, duration := p.duration, totalFlows := p.totalFlows }

def sum (c p : ProtoCounter) : ProtoCounter :=
  { c with
    packets := c.packets.incStats p.packets.sent p.packets.rcvd
    bytes := c.bytes.incStats p.bytes.sent p.bytes.rcvd
    duration := c.duration + p.duration
    totalFlows := c.totalFlows + p.totalFlows }

def incStats (c : ProtoCounter) (when : UInt32) (sentPackets sentBytes rcvdPackets rcvdBytes : UInt64) : ProtoCounter :=
  let c := { c with packets := c.packets.incStats sentPackets rcvdPackets, bytes := c.bytes.incStats sentBytes rcvdBytes }
  if ticks c.lastEpochUpdate when then
    { c with duration := c.duration + housekeepingFrequency, lastEpochUpdate := when }
  else c

end ProtoCounter

structure CategoryCounter where
  bytes : TrafficCounter
  duration : UInt32
  lastEpochUpdate : UInt32
  deriving DecidableEq, Repr

namespace CategoryCounter

def new : CategoryCounter := ⟨.new, 0, 0⟩

/-- The copy constructor. -/
def copy (c : CategoryCounter) : CategoryCounter := ⟨c.bytes, c.duration, c.lastEpochUpdate⟩

def sum (c d : CategoryCounter) : CategoryCounter :=
  { c with bytes := c.bytes.sum d.bytes, duration := c.duration + d.duration }

def incStats (c : CategoryCounter) (when : UInt32) (sentBytes rcvdBytes : UInt64) : CategoryCounter :=
  let c := { c with bytes := c.bytes.incStats sentBytes rcvdBytes }
  if ticks c.lastEpochUpdate when then
    { c with duration := c.duration + housekeepingFrequency, lastEpochUpdate := when }
  else c

end CategoryCounter

/-! ## nDPIStats -/

structure NdpiStats where
  counters : Map UInt16 ProtoCounter
  catCounters : Map UInt16 CategoryCounter

namespace NdpiStats

def new : NdpiStats := ⟨∅, ∅⟩

/-- A counter of the copy; a key that is there already would be one the source has twice. -/
def copyCounter (m : Map UInt16 ProtoCounter) (e : Σ _ : UInt16, ProtoCounter) : Map UInt16 ProtoCounter :=
  match m.lookup e.1 with
  | none => m.insert e.1 (ProtoCounter.new.set e.2)
  | some _ => m

def copyCategory (m : Map UInt16 CategoryCounter) (e : Σ _ : UInt16, CategoryCounter) : Map UInt16 CategoryCounter :=
  m.insert e.1 e.2

/-- The copy constructor. -/
def copy (stats : NdpiStats) : NdpiStats :=
  ⟨stats.counters.entries.foldl copyCounter ∅, stats.catCounters.entries.foldl copyCategory ∅⟩

def incStats (stats : NdpiStats) (when : UInt32) (protoId : UInt16)
    (sentPackets sentBytes rcvdPackets rcvdBytes : UInt64) : NdpiStats :=
  let pc := (stats.counters.lookup protoId).getD .new
  { stats with
    counters := stats.counters.insert protoId (pc.incStats when sentPackets sentBytes rcvdPackets rcvdBytes) }

def incCategoryStats (stats : NdpiStats) (when : UInt32) (categoryId : UInt16) (sentBytes rcvdBytes : UInt64) :
    NdpiStats :=
  let c := (stats.catCounters.lookup categoryId).getD .new
  { stats with catCounters := stats.catCounters.insert categoryId (c.incStats when sentBytes rcvdBytes) }

/-! ## The counter of a key -/

theorem copy_counters (stats : NdpiStats) (k : UInt16) :
    stats.copy.counters.lookup k = (stats.counters.lookup k).map ProtoCounter.new.set := by
  have hloop := lookup_foldl (f := copyCounter) (m := stats.counters)
    (g := fun _ c old => match old with
      | none => some (ProtoCounter.new.set c)
      | some d => some d) ?_ ?_ ∅ k
  · rw [copy, hloop, AList.lookup_empty]
    cases stats.counters.lookup k with
    | none => rfl
    | some c => rfl
  · intro s e
    rw [copyCounter]
    cases hold : s.lookup e.1 with
    | none => simp
    | some d => simp [hold]
  · intro s e k hk
    rw [copyCounter]
    cases s.lookup e.1 with
    | none => simp [hk]
    | some d => rfl

theorem copy_catCounters (stats : NdpiStats) (k : UInt16) :
    stats.copy.catCounters.lookup k = stats.catCounters.lookup k := by
  have hloop := lookup_foldl (f := copyCategory) (m := stats.catCounters) (g := fun _ c _ => some c) ?_ ?_ ∅ k
  · rw [copy, hloop, AList.lookup_empty]
    cases stats.catCounters.lookup k with
    | none => rfl
    | some c => rfl
  · intro s e
    simp [copyCategory]
  · intro s e k hk
    simp [copyCategory, hk]

theorem incStats_counters (stats : NdpiStats) (when : UInt32) (p : UInt16) (sp sb rp rb : UInt64) (k : UInt16) :
    (stats.incStats when p sp sb rp rb).counters.lookup k =
      if k = p then some (((stats.counters.lookup p).getD .new).incStats when sp sb rp rb)
      else stats.counters.lookup k :=
  lookup_insert_eq ..

theorem incCategoryStats_catCounters (stats : NdpiStats) (when : UInt32) (c : UInt16) (sb rb : UInt64) (k : UInt16) :
    (stats.incCategoryStats when c sb rb).catCounters.lookup k =
      if k = c then some (((stats.catCounters.lookup c).getD .new).incStats when sb rb)
      else stats.catCounters.lookup k :=
  lookup_insert_eq ..

end NdpiStats

end Ntopng.Tables.Ndpi
