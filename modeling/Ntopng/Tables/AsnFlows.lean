/-
  Ntopng.Tables.AsnFlows — flows added up by autonomous systems (src/NetworkInterface.cpp,
  AggregatedASNFlowKey, AggregatedASNFlowValue, aggregate_asn_flows).

  A map keeps a row for each key, and is walked in the order of the keys; only which rows
  there are is told here. Keys are ordered by a 32-bit sum of their fields, `keyVal`, and
  keys with one sum share a row: the key of its first flow. Every later flow is added
  straight where `equal` holds, else exchanged; `equal` also holds of keys exchanged but
  for the sites. The key and the amounts are what the getters of the flow give.

  An exchange is told with the sites or without them (`sites`). Proved, for all flows in any
  order and both readings (`aggregation_law`): the rows are right exactly if
  - keys with one sum are the same or exchanged (`apart`),
  - keys that are exchanged have one sum, and are not `equal` (`together`),
  - no flow's first time is below the earliest once cut to 32 bits (`first`),
  - the flows of a row have one last time (`last`): the update takes the minimum,
  - no sum overflows (`fits`).
-/

import Ntopng.Lib.Groups

namespace Ntopng.Tables.AsnFlows

open Ntopng.Lib.OrdMap Ntopng.Lib.Groups

/-! ## Flows and keys -/

/-- An address as its two words. -/
abbrev In6Addr := UInt64 × UInt64

structure Exporter where
  mappedExporterIp : In6Addr
  inIndex : UInt32
  outIndex : UInt32
  deriving DecidableEq, Repr

structure Flow where
  /-- The version of the client's address. -/
  cliVersion : UInt8
  srcAS : UInt32
  dstAS : UInt32
  srcPeerAS : UInt32
  dstPeerAS : UInt32
  primaryExporter : Option Exporter
  srcNetworkSiteId : UInt16
  dstNetworkSiteId : UInt16
  firstSeen : ℕ
  lastSeen : ℕ
  bytesCli2srv : UInt64
  bytesSrv2cli : UInt64
  packetsCli2srv : UInt32
  packetsSrv2cli : UInt32
  deriving DecidableEq, Repr

/-- `AggregatedASNFlowKey`, but for `key_val`. -/
structure Key where
  ipProtocolVersion : UInt8
  srcAsn : UInt32
  dstAsn : UInt32
  srcPeerAsn : UInt32
  dstPeerAsn : UInt32
  probeIp : In6Addr
  inputSnmp : UInt32
  outputSnmp : UInt32
  srcSiteId : UInt16
  dstSiteId : UInt16
  deriving DecidableEq, Repr

def Flow.getExporterIP (f : Flow) : In6Addr := f.primaryExporter.elim (0, 0) Exporter.mappedExporterIp

def Flow.getInIndex (f : Flow) : UInt32 := f.primaryExporter.elim 0 Exporter.inIndex

def Flow.getOutIndex (f : Flow) : UInt32 := f.primaryExporter.elim 0 Exporter.outIndex

def Flow.key (f : Flow) : Key where
  ipProtocolVersion := f.cliVersion
  srcAsn := f.srcAS
  dstAsn := f.dstAS
  srcPeerAsn := f.srcPeerAS
  dstPeerAsn := f.dstPeerAS
  probeIp := f.getExporterIP
  inputSnmp := f.getInIndex
  outputSnmp := f.getOutIndex
  srcSiteId := f.srcNetworkSiteId
  dstSiteId := f.dstNetworkSiteId

/-- `key_val`. The sum has 64 bits, its products 32. -/
def Key.keyVal (k : Key) : UInt32 :=
  (k.ipProtocolVersion.toUInt64 + (k.probeIp.1 + k.probeIp.2) + (k.srcAsn * 2).toUInt64 + (k.dstAsn * 3).toUInt64 +
    (k.srcPeerAsn * 4).toUInt64 + (k.dstPeerAsn * 5).toUInt64 + (k.inputSnmp * 6).toUInt64 +
    (k.outputSnmp * 7).toUInt64 + k.srcSiteId.toUInt64 * 8 + k.dstSiteId.toUInt64 * 9).toUInt32

def Key.equal (k j : Key) : Bool :=
  if (k.ipProtocolVersion = j.ipProtocolVersion ∧ k.probeIp = j.probeIp) ∧
      ((k.srcAsn = j.srcAsn ∧ k.dstAsn = j.dstAsn ∧ k.srcPeerAsn = j.srcPeerAsn ∧ k.dstPeerAsn = j.dstPeerAsn ∧
          k.inputSnmp = j.inputSnmp ∧ k.outputSnmp = j.outputSnmp ∧ k.srcSiteId = j.srcSiteId ∧
          k.dstSiteId = j.dstSiteId) ∨
        (k.srcAsn = j.dstAsn ∧ k.dstAsn = j.srcAsn ∧ k.srcPeerAsn = j.dstPeerAsn ∧ k.dstPeerAsn = j.srcPeerAsn ∧
          k.inputSnmp = j.outputSnmp ∧ k.outputSnmp = j.inputSnmp ∧ k.srcSiteId = j.srcSiteId ∧
          k.dstSiteId = j.dstSiteId)) then
    true
  else false

/-! ## Rows -/

/-- `AggregatedASNFlowValue` -/
structure Value where
  firstSeen : UInt32
  lastSeen : UInt32
  src2dstBytes : UInt64
  dst2srcBytes : UInt64
  src2dstPackets : UInt32
  dst2srcPackets : UInt32
  deriving DecidableEq, Repr

def ndpiMin (a b : UInt32) : UInt32 := if a < b then a else b

def Value.ofFlow (f : Flow) : Value where
  firstSeen := UInt32.ofNat f.firstSeen
  lastSeen := UInt32.ofNat f.lastSeen
  src2dstBytes := f.bytesCli2srv
  dst2srcBytes := f.bytesSrv2cli
  src2dstPackets := f.packetsCli2srv
  dst2srcPackets := f.packetsSrv2cli

def Value.update (v : Value) (f : Flow) (swapDirection : Bool) : Value where
  firstSeen := ndpiMin v.firstSeen (UInt32.ofNat f.firstSeen)
  lastSeen := ndpiMin v.lastSeen (UInt32.ofNat f.lastSeen)
  src2dstBytes := v.src2dstBytes + if !swapDirection then f.bytesCli2srv else f.bytesSrv2cli
  dst2srcBytes := v.dst2srcBytes + if !swapDirection then f.bytesSrv2cli else f.bytesCli2srv
  src2dstPackets := v.src2dstPackets + if !swapDirection then f.packetsCli2srv else f.packetsSrv2cli
  dst2srcPackets := v.dst2srcPackets + if !swapDirection then f.packetsSrv2cli else f.packetsCli2srv

/-- A flow, and whether it is added exchanged. -/
abbrev Added := Flow × Bool

/-- An entry of the map, with a record of what it was made of that the source does not keep. -/
structure Row where
  key : Key
  value : Value
  accounted : List Added
  deriving DecidableEq, Repr

def Row.ofFlow (f : Flow) : Row := ⟨f.key, Value.ofFlow f, [(f, false)]⟩

def Row.update (r : Row) (f : Flow) : Row :=
  let swapDirection := if r.key.equal f.key then false else true
  ⟨r.key, r.value.update f swapDirection, r.accounted ++ [(f, swapDirection)]⟩

/-- The map after `aggregate_asn_flows` has seen the flows. -/
def aggregateASNModeFlows (flows : List Flow) : List (UInt32 × Row) :=
  group (fun f => f.key.keyVal) Row.ofFlow Row.update flows

/-! ## What the rows should be -/

/-- Source and destination exchanged. -/
def Key.exchange (sites : Bool) (k : Key) : Key where
  ipProtocolVersion := k.ipProtocolVersion
  srcAsn := k.dstAsn
  dstAsn := k.srcAsn
  srcPeerAsn := k.dstPeerAsn
  dstPeerAsn := k.srcPeerAsn
  probeIp := k.probeIp
  inputSnmp := k.outputSnmp
  outputSnmp := k.inputSnmp
  srcSiteId := if sites then k.dstSiteId else k.srcSiteId
  dstSiteId := if sites then k.srcSiteId else k.dstSiteId

/-- The same key, or exchanged. -/
def Related (sites : Bool) (k j : Key) : Prop := j = k ∨ j = k.exchange sites

instance (sites : Bool) (k j : Key) : Decidable (Related sites k j) := inferInstanceAs (Decidable (_ ∨ _))

/-- How a flow is to be added to the row of a key, where it belongs there. -/
def oriented (sites : Bool) (k : Key) (f : Flow) : Option Added :=
  if f.key = k then some (f, false) else if f.key = k.exchange sites then some (f, true) else none

def itsFlows (sites : Bool) (k : Key) (flows : List Flow) : List Added := flows.filterMap (oriented sites k)

def Added.src2dstBytes (a : Added) : UInt64 := if a.2 then a.1.bytesSrv2cli else a.1.bytesCli2srv

def Added.dst2srcBytes (a : Added) : UInt64 := if a.2 then a.1.bytesCli2srv else a.1.bytesSrv2cli

def Added.src2dstPackets (a : Added) : UInt32 := if a.2 then a.1.packetsSrv2cli else a.1.packetsCli2srv

def Added.dst2srcPackets (a : Added) : UInt32 := if a.2 then a.1.packetsCli2srv else a.1.packetsSrv2cli

/-- The row has these flows, no others, and says what they add up to. -/
structure Row.Holds (r : Row) (its : List Added) : Prop where
  accounted : r.accounted = its
  src2dstBytes : r.value.src2dstBytes.toNat = (its.map fun a => a.src2dstBytes.toNat).sum
  dst2srcBytes : r.value.dst2srcBytes.toNat = (its.map fun a => a.dst2srcBytes.toNat).sum
  src2dstPackets : r.value.src2dstPackets.toNat = (its.map fun a => a.src2dstPackets.toNat).sum
  dst2srcPackets : r.value.dst2srcPackets.toNat = (its.map fun a => a.dst2srcPackets.toNat).sum
  firstSeen : IsLeast {t | ∃ a ∈ its, a.1.firstSeen = t} r.value.firstSeen.toNat
  lastSeen : IsGreatest {t | ∃ a ∈ its, a.1.lastSeen = t} r.value.lastSeen.toNat

structure Right (sites : Bool) (flows : List Flow) (rows : List Row) : Prop where
  /-- One row a key. -/
  keys : rows.Pairwise fun r t => ¬ Related sites r.key t.key
  every : ∀ f ∈ flows, ∃ r ∈ rows, Related sites r.key f.key
  holds : ∀ r ∈ rows, r.Holds (itsFlows sites r.key flows)

/-- No sum overflows. -/
structure Fits (its : List Added) : Prop where
  src2dstBytes : (its.map fun a => a.src2dstBytes.toNat).sum < 2 ^ 64
  dst2srcBytes : (its.map fun a => a.dst2srcBytes.toNat).sum < 2 ^ 64
  src2dstPackets : (its.map fun a => a.src2dstPackets.toNat).sum < 2 ^ 32
  dst2srcPackets : (its.map fun a => a.dst2srcPackets.toNat).sum < 2 ^ 32

structure Ok (sites : Bool) (flows : List Flow) : Prop where
  apart : ∀ f ∈ flows, ∀ g ∈ flows, f.key.keyVal = g.key.keyVal → Related sites f.key g.key
  together : ∀ f ∈ flows, ∀ g ∈ flows, g.key = f.key.exchange sites →
    g.key = f.key ∨ f.key.keyVal = g.key.keyVal ∧ f.key.equal g.key = false
  first : ∀ f ∈ flows, ∃ g ∈ flows, Related sites f.key g.key ∧ g.firstSeen ≤ f.firstSeen % 2 ^ 32
  last : ∀ f ∈ flows, f.lastSeen < 2 ^ 32 ∧ ∀ g ∈ flows, Related sites f.key g.key → g.lastSeen = f.lastSeen
  fits : ∀ f ∈ flows, Fits (itsFlows sites f.key flows)

/-! ## Keys -/

variable {sites : Bool} {k j i : Key} {flows : List Flow} {f g : Flow} {v : UInt32} {r : Row}

@[simp] theorem exchange_exchange (sites : Bool) (k : Key) : (k.exchange sites).exchange sites = k := by
  cases sites
  · rfl
  · rfl

theorem related_refl (sites : Bool) (k : Key) : Related sites k k := Or.inl rfl

theorem related_symm (h : Related sites k j) : Related sites j k := by
  rcases h with rfl | rfl
  · exact related_refl sites j
  · exact Or.inr (exchange_exchange sites k).symm

theorem related_trans (h : Related sites k j) (h' : Related sites j i) : Related sites k i := by
  rcases h with rfl | rfl
  · exact h'
  · rcases h' with rfl | rfl
    · exact Or.inr rfl
    · exact Or.inl (exchange_exchange sites k)

/-- The keys `equal` takes for one are those exchanged without the sites. -/
theorem equal_iff : k.equal j = true ↔ Related false k j := by
  rw [Key.equal, Related]
  obtain ⟨v, s, d, sp, dp, ip, i, o, ss, ds⟩ := k
  obtain ⟨v', s', d', sp', dp', ip', i', o', ss', ds'⟩ := j
  simp only [Key.exchange, Key.mk.injEq]
  grind

theorem equal_self (k : Key) : k.equal k = true := equal_iff.mpr (related_refl false k)

theorem equal_comm (k j : Key) : k.equal j = j.equal k := by
  rw [Bool.eq_iff_iff, equal_iff, equal_iff]
  exact ⟨related_symm, related_symm⟩

/-! ## Rows -/

theorem mem_rows {e : UInt32 × Row} : e ∈ aggregateASNModeFlows flows ↔
    row Row.ofFlow Row.update (flows.filter fun f => f.key.keyVal = e.1) = some e.2 := mem_group

/-- A row is made of all its flows, under the key of one of them. -/
theorem row_accounted {xs : List Flow} (h : row Row.ofFlow Row.update xs = some r) :
    (∃ f ∈ xs, r.key = f.key) ∧ r.accounted = xs.map fun f => (f, !r.key.equal f.key) := by
  refine row_inv (P := fun xs r => (∃ f ∈ xs, r.key = f.key) ∧
    r.accounted = xs.map fun f => (f, !r.key.equal f.key)) (fun f => ?_) (fun xs r f hr => ?_) h
  · refine ⟨⟨f, List.mem_singleton_self f, rfl⟩, ?_⟩
    rw [List.map_singleton, Row.ofFlow, equal_self]
    rfl
  · obtain ⟨⟨g, hg, hkey⟩, hacc⟩ := hr
    refine ⟨⟨g, List.mem_append_left _ hg, hkey⟩, ?_⟩
    have hswap : (if r.key.equal f.key then false else true) = !r.key.equal f.key := by
      cases r.key.equal f.key <;> rfl
    rw [List.map_append, Row.update, hacc, hswap]
    rfl

theorem row_sums {γ : Type} [AddCommMonoid γ] {get : Value → γ} {amount : Added → γ} {xs : List Flow}
    (hnew : ∀ f, get (Value.ofFlow f) = amount (f, false))
    (hupd : ∀ v f b, get (v.update f b) = get v + amount (f, b)) (h : row Row.ofFlow Row.update xs = some r) :
    get r.value = (r.accounted.map amount).sum := by
  refine row_inv (P := fun _ r => get r.value = (r.accounted.map amount).sum) (fun f => ?_) (fun xs r f hr => ?_) h
  · rw [Row.ofFlow, hnew, List.map_singleton, List.sum_singleton]
  · rw [Row.update, hupd, hr, List.map_append, List.sum_append, List.map_singleton, List.sum_singleton]

theorem ndpiMin_toNat (a b : UInt32) : (ndpiMin a b).toNat = min a.toNat b.toNat := by
  rw [ndpiMin]
  split
  next h => exact (min_eq_left (UInt32.lt_iff_toNat_lt.mp h).le).symm
  next h => exact (min_eq_right (not_lt.mp fun hlt => h (UInt32.lt_iff_toNat_lt.mpr hlt))).symm

theorem update_src2dstBytes (v : Value) (f : Flow) (b : Bool) :
    (v.update f b).src2dstBytes = v.src2dstBytes + Added.src2dstBytes (f, b) := by
  cases b <;> rfl

theorem update_dst2srcBytes (v : Value) (f : Flow) (b : Bool) :
    (v.update f b).dst2srcBytes = v.dst2srcBytes + Added.dst2srcBytes (f, b) := by
  cases b <;> rfl

theorem update_src2dstPackets (v : Value) (f : Flow) (b : Bool) :
    (v.update f b).src2dstPackets = v.src2dstPackets + Added.src2dstPackets (f, b) := by
  cases b <;> rfl

theorem update_dst2srcPackets (v : Value) (f : Flow) (b : Bool) :
    (v.update f b).dst2srcPackets = v.dst2srcPackets + Added.dst2srcPackets (f, b) := by
  cases b <;> rfl

theorem bytes_toNat {amount : Added → UInt64} {its : List Added}
    (h : (its.map fun a => (amount a).toNat).sum < 2 ^ 64) :
    (its.map amount).sum.toNat = (its.map fun a => (amount a).toNat).sum := by
  rw [sum_wraps UInt64.toNat_zero UInt64.toNat_add, List.map_map]
  exact Nat.mod_eq_of_lt h

theorem packets_toNat {amount : Added → UInt32} {its : List Added}
    (h : (its.map fun a => (amount a).toNat).sum < 2 ^ 32) :
    (its.map amount).sum.toNat = (its.map fun a => (amount a).toNat).sum := by
  rw [sum_wraps UInt32.toNat_zero UInt32.toNat_add, List.map_map]
  exact Nat.mod_eq_of_lt h

/-- Both times of a row are the least, cut to 32 bits. -/
theorem row_times {get : Value → UInt32} {time : Flow → ℕ} {xs : List Flow}
    (hnew : ∀ f, get (Value.ofFlow f) = UInt32.ofNat (time f))
    (hupd : ∀ v f b, get (v.update f b) = ndpiMin (get v) (UInt32.ofNat (time f)))
    (h : row Row.ofFlow Row.update xs = some r) :
    IsLeast {t | ∃ a ∈ r.accounted, time a.1 % 2 ^ 32 = t} (get r.value).toNat := by
  refine row_inv (P := fun _ r => IsLeast {t | ∃ a ∈ r.accounted, time a.1 % 2 ^ 32 = t} (get r.value).toNat)
    (fun f => ?_) (fun xs r f hr => ?_) h
  · rw [Row.ofFlow, hnew, UInt32.toNat_ofNat']
    refine ⟨⟨(f, false), List.mem_singleton_self _, rfl⟩, fun t ht => ?_⟩
    obtain ⟨a, ha, rfl⟩ := ht
    rw [List.mem_singleton.mp ha]
  · rw [Row.update, hupd, ndpiMin_toNat, UInt32.toNat_ofNat']
    have hset : {t | ∃ a ∈ r.accounted ++ [(f, if r.key.equal f.key then false else true)], time a.1 % 2 ^ 32 = t} =
        insert (time f % 2 ^ 32) {t | ∃ a ∈ r.accounted, time a.1 % 2 ^ 32 = t} := by
      ext t
      simp only [List.mem_append, List.mem_singleton, Set.mem_ofPred_eq, Set.mem_insert_iff]
      constructor
      · rintro ⟨a, ha | rfl, rfl⟩
        · exact Or.inr ⟨a, ha, rfl⟩
        · exact Or.inl rfl
      · rintro (rfl | ⟨a, ha, rfl⟩)
        · exact ⟨_, Or.inr rfl, rfl⟩
        · exact ⟨a, Or.inl ha, rfl⟩
    rw [hset, min_comm]
    exact hr.insert _

/-! ## The law -/

/-- What a row of the map tells. -/
theorem of_mem {e : UInt32 × Row} (h : e ∈ aggregateASNModeFlows flows) :
    (∃ f ∈ flows, e.2.key = f.key ∧ f.key.keyVal = e.1) ∧
      ∀ a : Added, a ∈ e.2.accounted ↔
        a.1 ∈ flows ∧ a.1.key.keyVal = e.1 ∧ a.2 = !e.2.key.equal a.1.key := by
  obtain ⟨⟨f, hf, hkey⟩, hacc⟩ := row_accounted (mem_rows.mp h)
  have hf := List.mem_filter.mp hf
  refine ⟨⟨f, hf.1, hkey, of_decide_eq_true hf.2⟩, fun a => ?_⟩
  rw [hacc, List.mem_map]
  constructor
  · rintro ⟨g, hg, rfl⟩
    have hg := List.mem_filter.mp hg
    exact ⟨hg.1, of_decide_eq_true hg.2, rfl⟩
  · rintro ⟨ha, hval, hswap⟩
    exact ⟨a.1, List.mem_filter.mpr ⟨ha, decide_eq_true hval⟩, Prod.ext rfl hswap.symm⟩

theorem exists_row (hf : f ∈ flows) : ∃ e ∈ aggregateASNModeFlows flows, e.1 = f.key.keyVal := by
  have hkey : f.key.keyVal ∈ keys (aggregateASNModeFlows flows) := mem_keys_group.mpr ⟨f, hf, rfl⟩
  obtain ⟨e, he, heq⟩ := List.mem_map.mp hkey
  exact ⟨e, he, heq⟩

theorem mem_itsFlows {a : Added} : a ∈ itsFlows sites k flows ↔ a.1 ∈ flows ∧ oriented sites k a.1 = some a := by
  rw [itsFlows, List.mem_filterMap]
  constructor
  · rintro ⟨f, hf, h⟩
    have hfirst : a.1 = f := by
      rw [oriented] at h
      split at h
      · rw [← Option.some.inj h]
      · split at h
        · rw [← Option.some.inj h]
        · cases h
    rw [hfirst]
    exact ⟨hf, h⟩
  · exact fun h => ⟨a.1, h.1, h.2⟩

theorem oriented_isSome : (∃ b, oriented sites k f = some (f, b)) ↔ Related sites k f.key := by
  rw [oriented, Related]
  by_cases hsame : f.key = k
  · rw [if_pos hsame]
    exact ⟨fun _ => Or.inl hsame, fun _ => ⟨false, rfl⟩⟩
  · by_cases hexch : f.key = k.exchange sites
    · rw [if_neg hsame, if_pos hexch]
      exact ⟨fun _ => Or.inr hexch, fun _ => ⟨true, rfl⟩⟩
    · rw [if_neg hsame, if_neg hexch]
      constructor
      · rintro ⟨b, hb⟩
        cases hb
      · rintro (h | h)
        · exact absurd h hsame
        · exact absurd h hexch

/-- A row that holds has all flows related to its key. -/
theorem holds_related {e : UInt32 × Row} (he : e ∈ aggregateASNModeFlows flows)
    (h : e.2.Holds (itsFlows sites e.2.key flows)) (hf : f ∈ flows) :
    f.key.keyVal = e.1 ↔ Related sites e.2.key f.key := by
  rw [← oriented_isSome]
  constructor
  · intro hval
    have ha : (f, !e.2.key.equal f.key) ∈ e.2.accounted := ((of_mem he).2 _).mpr ⟨hf, hval, rfl⟩
    rw [h.accounted, mem_itsFlows] at ha
    exact ⟨_, ha.2⟩
  · rintro ⟨b, hb⟩
    have ha : (f, b) ∈ itsFlows sites e.2.key flows := mem_itsFlows.mpr ⟨hf, hb⟩
    rw [← h.accounted] at ha
    exact (((of_mem he).2 _).mp ha).2.1

theorem swapped {e : UInt32 × Row} (he : e ∈ aggregateASNModeFlows flows)
    (h : e.2.Holds (itsFlows sites e.2.key flows)) (hf : f ∈ flows) (hexch : f.key = e.2.key.exchange sites)
    (hne : f.key ≠ e.2.key) : e.2.key.equal f.key = false := by
  have horient : oriented sites e.2.key f = some (f, true) := by
    rw [oriented, if_neg hne, if_pos hexch]
  have ha : (f, true) ∈ itsFlows sites e.2.key flows := mem_itsFlows.mpr ⟨hf, horient⟩
  rw [← h.accounted] at ha
  have hswap := (((of_mem he).2 _).mp ha).2.2
  rwa [eq_comm, Bool.not_eq_true'] at hswap

def Added.exchange (a : Added) : Added := (a.1, !a.2)

theorem src2dstBytes_exchange (a : Added) : a.exchange.src2dstBytes = a.dst2srcBytes := by
  obtain ⟨f, b⟩ := a
  cases b <;> rfl

theorem dst2srcBytes_exchange (a : Added) : a.exchange.dst2srcBytes = a.src2dstBytes := by
  obtain ⟨f, b⟩ := a
  cases b <;> rfl

theorem src2dstPackets_exchange (a : Added) : a.exchange.src2dstPackets = a.dst2srcPackets := by
  obtain ⟨f, b⟩ := a
  cases b <;> rfl

theorem dst2srcPackets_exchange (a : Added) : a.exchange.dst2srcPackets = a.src2dstPackets := by
  obtain ⟨f, b⟩ := a
  cases b <;> rfl

/-- Of the exchanged key, the flows are exchanged. -/
theorem itsFlows_exchange (hne : k.exchange sites ≠ k) :
    itsFlows sites (k.exchange sites) flows = (itsFlows sites k flows).map Added.exchange := by
  rw [itsFlows, itsFlows, List.map_filterMap]
  refine List.filterMap_congr fun f _ => ?_
  rw [oriented, oriented, exchange_exchange]
  by_cases hsame : f.key = k
  · rw [if_pos hsame, if_neg (hsame ▸ hne.symm), if_pos hsame]
    rfl
  · by_cases hexch : f.key = k.exchange sites
    · rw [if_pos hexch, if_neg hsame, if_pos hexch]
      rfl
    · rw [if_neg hexch, if_neg hsame, if_neg hsame, if_neg hexch]
      rfl

theorem related_of_mem {a : Added} (h : a ∈ itsFlows sites k flows) : a.1 ∈ flows ∧ Related sites k a.1.key := by
  obtain ⟨hmem, horient⟩ := mem_itsFlows.mp h
  exact ⟨hmem, oriented_isSome.mp ⟨a.2, horient⟩⟩

theorem time_mem {e : UInt32 × Row} {time : Flow → ℕ} (he : e ∈ aggregateASNModeFlows flows) (hf : f ∈ flows)
    (hval : e.1 = f.key.keyVal) : time f % 2 ^ 32 ∈ {t | ∃ a ∈ e.2.accounted, time a.1 % 2 ^ 32 = t} :=
  ⟨(f, !e.2.key.equal f.key), ((of_mem he).2 _).mpr ⟨hf, hval.symm, rfl⟩, rfl⟩

theorem Row.Holds.fits {its : List Added} (h : r.Holds its) : Fits its where
  src2dstBytes := h.src2dstBytes ▸ UInt64.toNat_lt _
  dst2srcBytes := h.dst2srcBytes ▸ UInt64.toNat_lt _
  src2dstPackets := h.src2dstPackets ▸ UInt32.toNat_lt _
  dst2srcPackets := h.dst2srcPackets ▸ UInt32.toNat_lt _

theorem Fits.exchange {its : List Added} (h : Fits its) : Fits (its.map Added.exchange) where
  src2dstBytes := by simpa only [List.map_map, Function.comp_def, src2dstBytes_exchange] using h.dst2srcBytes
  dst2srcBytes := by simpa only [List.map_map, Function.comp_def, dst2srcBytes_exchange] using h.src2dstBytes
  src2dstPackets := by simpa only [List.map_map, Function.comp_def, src2dstPackets_exchange] using h.dst2srcPackets
  dst2srcPackets := by simpa only [List.map_map, Function.comp_def, dst2srcPackets_exchange] using h.src2dstPackets

theorem ok_of_right (h : Right sites flows ((aggregateASNModeFlows flows).map Prod.snd)) : Ok sites flows := by
  have hrow : ∀ f ∈ flows, ∃ e ∈ aggregateASNModeFlows flows, e.1 = f.key.keyVal ∧
      e.2.Holds (itsFlows sites e.2.key flows) ∧ Related sites e.2.key f.key := fun f hf => by
    obtain ⟨e, he, hval⟩ := exists_row hf
    have hholds := h.holds e.2 (List.mem_map_of_mem he)
    exact ⟨e, he, hval, hholds, (holds_related he hholds hf).mp hval.symm⟩
  refine ⟨fun f hf g hg hval => ?_, fun f hf g hg hexch => ?_, fun f hf => ?_, fun f hf => ?_, fun f hf => ?_⟩
  · obtain ⟨e, he, hkey, hholds, hrel⟩ := hrow f hf
    have hrelg := (holds_related he hholds hg).mp (hval.symm.trans hkey.symm)
    exact related_trans (related_symm hrel) hrelg
  · by_cases hne : g.key = f.key
    · exact Or.inl hne
    · obtain ⟨e, he, hkey, hholds, hrel⟩ := hrow f hf
      have hval := (holds_related he hholds hg).mpr (related_trans hrel (Or.inr hexch))
      refine Or.inr ⟨hkey.symm.trans hval.symm, ?_⟩
      rcases hrel with hsame | hother
      · rw [hsame] at hexch hne ⊢
        exact swapped he hholds hg hexch hne
      · have hgkey : g.key = e.2.key := by rw [hexch, hother, exchange_exchange]
        rw [hgkey] at hne ⊢
        rw [equal_comm]
        exact swapped he hholds hf hother (Ne.symm hne)
  · obtain ⟨e, he, hkey, hholds, hrel⟩ := hrow f hf
    obtain ⟨a, ha, hfirst⟩ := hholds.firstSeen.1
    obtain ⟨hg, hrelg⟩ := related_of_mem ha
    refine ⟨a.1, hg, related_trans (related_symm hrel) hrelg, ?_⟩
    rw [hfirst]
    exact (row_times (fun _ => rfl) (fun _ _ _ => rfl) (mem_rows.mp he)).2 (time_mem he hf hkey)
  · obtain ⟨e, he, hkey, hholds, hrel⟩ := hrow f hf
    have hall : ∀ g ∈ flows, Related sites e.2.key g.key →
        g.lastSeen = e.2.value.lastSeen.toNat ∧ g.lastSeen < 2 ^ 32 := fun g hg hrelg => by
      obtain ⟨b, hb⟩ := oriented_isSome.mpr hrelg
      have hmost : g.lastSeen ≤ e.2.value.lastSeen.toNat :=
        hholds.lastSeen.2 ⟨(g, b), mem_itsFlows.mpr ⟨hg, hb⟩, rfl⟩
      have hleast : e.2.value.lastSeen.toNat ≤ g.lastSeen % 2 ^ 32 :=
        (row_times (fun _ => rfl) (fun _ _ _ => rfl) (mem_rows.mp he)).2
          (time_mem he hg ((holds_related he hholds hg).mpr hrelg).symm)
      omega
    obtain ⟨hlast, hlt⟩ := hall f hf hrel
    exact ⟨hlt, fun g hg hfg => (hall g hg (related_trans hrel hfg)).1.trans hlast.symm⟩
  · obtain ⟨e, he, hkey, hholds, hrel⟩ := hrow f hf
    have hfits := hholds.fits
    rcases hrel with hsame | hother
    · rwa [hsame]
    · by_cases hne : e.2.key.exchange sites = e.2.key
      · rwa [hother, hne]
      · rw [hother, itsFlows_exchange hne]
        exact hfits.exchange

theorem keyVal_of_related (h : Ok sites flows) (hf : f ∈ flows) (hg : g ∈ flows)
    (hrel : Related sites f.key g.key) : f.key.keyVal = g.key.keyVal := by
  rcases hrel with hsame | hexch
  · rw [hsame]
  · rcases h.together f hf g hg hexch with hsame | ⟨hval, -⟩
    · rw [hsame]
    · exact hval

/-- Under `Ok`, a row is made of the flows of its key, each added as it should. -/
theorem accounted_of_ok (h : Ok sites flows) {e : UInt32 × Row} (he : e ∈ aggregateASNModeFlows flows) :
    e.2.accounted = itsFlows sites e.2.key flows := by
  obtain ⟨⟨f, hf, hkey, hval⟩, -⟩ := of_mem he
  rw [(row_accounted (mem_rows.mp he)).2, itsFlows, ← List.filterMap_eq_map, List.filterMap_filter]
  refine List.filterMap_congr fun g hg => ?_
  rw [Function.comp_apply, oriented, hkey]
  by_cases hin : g.key.keyVal = e.1
  · rw [if_pos (decide_eq_true hin)]
    by_cases hsame : g.key = f.key
    · rw [if_pos hsame, hsame, equal_self]
      rfl
    · have hexch := (h.apart f hf g hg (hval.trans hin.symm)).resolve_left hsame
      obtain ⟨-, hequal⟩ := (h.together f hf g hg hexch).resolve_left hsame
      rw [if_neg hsame, if_pos hexch, hequal]
      rfl
  · have hno : ¬ Related sites f.key g.key := fun hrel => hin ((keyVal_of_related h hf hg hrel).symm.trans hval)
    obtain ⟨hsame, hexch⟩ := not_or.mp hno
    rw [if_neg (by simpa using hin), if_neg hsame, if_neg hexch]

theorem holds_of_ok (h : Ok sites flows) {e : UInt32 × Row} (he : e ∈ aggregateASNModeFlows flows) :
    e.2.Holds (itsFlows sites e.2.key flows) := by
  have hrow := mem_rows.mp he
  have hacc := accounted_of_ok h he
  obtain ⟨⟨f, hf, hkey, -⟩, -⟩ := of_mem he
  have hfits := h.fits f hf
  rw [← hkey] at hfits
  have hrel : ∀ a ∈ itsFlows sites e.2.key flows, a.1 ∈ flows ∧ Related sites f.key a.1.key := fun a ha => by
    rw [hkey] at ha
    exact related_of_mem ha
  refine ⟨hacc, ?_, ?_, ?_, ?_, ?_, ?_⟩
  · rw [row_sums (fun _ => rfl) (update_src2dstBytes · · ·) hrow, hacc, bytes_toNat hfits.src2dstBytes]
  · rw [row_sums (fun _ => rfl) (update_dst2srcBytes · · ·) hrow, hacc, bytes_toNat hfits.dst2srcBytes]
  · rw [row_sums (fun _ => rfl) (update_src2dstPackets · · ·) hrow, hacc, packets_toNat hfits.src2dstPackets]
  · rw [row_sums (fun _ => rfl) (update_dst2srcPackets · · ·) hrow, hacc, packets_toNat hfits.dst2srcPackets]
  · have htime : IsLeast {t | ∃ a ∈ e.2.accounted, a.1.firstSeen % 2 ^ 32 = t} e.2.value.firstSeen.toNat :=
      row_times (fun _ => rfl) (fun _ _ _ => rfl) hrow
    rw [hacc] at htime
    obtain ⟨⟨a, ha, hfirst⟩, hleast⟩ := htime
    have hbelow : ∀ b ∈ itsFlows sites e.2.key flows, e.2.value.firstSeen.toNat ≤ b.1.firstSeen := fun b hb =>
      (hleast ⟨b, hb, rfl⟩).trans (Nat.mod_le _ _)
    obtain ⟨g, hg, hag, hle⟩ := h.first a.1 (hrel a ha).1
    have hrelg : Related sites e.2.key g.key := by
      rw [hkey]
      exact related_trans (hrel a ha).2 hag
    obtain ⟨c, hc⟩ := oriented_isSome.mpr hrelg
    have hmem : (g, c) ∈ itsFlows sites e.2.key flows := mem_itsFlows.mpr ⟨hg, hc⟩
    refine ⟨⟨(g, c), hmem, le_antisymm (hle.trans hfirst.le) (hbelow _ hmem)⟩, fun t ht => ?_⟩
    obtain ⟨b, hb, rfl⟩ := ht
    exact hbelow b hb
  · have htime : IsLeast {t | ∃ a ∈ e.2.accounted, a.1.lastSeen % 2 ^ 32 = t} e.2.value.lastSeen.toNat :=
      row_times (fun _ => rfl) (fun _ _ _ => rfl) hrow
    rw [hacc] at htime
    obtain ⟨⟨a, ha, hlast⟩, -⟩ := htime
    obtain ⟨hmem, hrela⟩ := hrel a ha
    obtain ⟨hlt, hall⟩ := h.last a.1 hmem
    rw [Nat.mod_eq_of_lt hlt] at hlast
    refine ⟨⟨a, ha, hlast⟩, fun t ht => ?_⟩
    obtain ⟨b, hb, rfl⟩ := ht
    obtain ⟨hmemb, hrelb⟩ := hrel b hb
    exact ((hall b.1 hmemb (related_trans (related_symm hrela) hrelb)).trans hlast).le

theorem right_of_ok (h : Ok sites flows) : Right sites flows ((aggregateASNModeFlows flows).map Prod.snd) := by
  refine ⟨?_, fun f hf => ?_, fun r hr => ?_⟩
  · rw [List.pairwise_map]
    have hkeys : (keys (aggregateASNModeFlows flows)).Nodup := keys_group_nodup flows
    refine (List.pairwise_map.mp hkeys).imp_of_mem fun {e e'} he he' hne hrel => ?_
    obtain ⟨⟨f, hf, hkey, hval⟩, -⟩ := of_mem he
    obtain ⟨⟨g, hg, hkey', hval'⟩, -⟩ := of_mem he'
    rw [hkey, hkey'] at hrel
    exact hne (hval.symm.trans ((keyVal_of_related h hf hg hrel).trans hval'))
  · obtain ⟨e, he, hkey⟩ := exists_row hf
    obtain ⟨⟨g, hg, hgkey, hval⟩, -⟩ := of_mem he
    refine ⟨e.2, List.mem_map_of_mem he, ?_⟩
    rw [hgkey]
    exact h.apart g hg f hf (hval.trans hkey)
  · obtain ⟨e, he, rfl⟩ := List.mem_map.mp hr
    exact holds_of_ok h he

/-- The rows are as they should exactly under `Ok`. -/
theorem aggregation_law (sites : Bool) (flows : List Flow) :
    Right sites flows ((aggregateASNModeFlows flows).map Prod.snd) ↔ Ok sites flows :=
  ⟨ok_of_right, right_of_ok⟩

/-- A flow of two autonomous systems. -/
def flowAt (lastSeen : ℕ) : Flow := ⟨4, 100, 200, 0, 0, none, 0, 0, 10, lastSeen, 1000, 2000, 10, 20⟩

/-- Two flows of one key: the row keeps the earlier of their last times. -/
theorem earlier_last_seen : ¬ ∃ sites, ∀ flows, Right sites flows ((aggregateASNModeFlows flows).map Prod.snd) := by
  rintro ⟨sites, hall⟩
  have hright := hall [flowAt 20, flowAt 30]
  have hlast := (ok_of_right hright).last (flowAt 20) (by simp)
  have heq := hlast.2 (flowAt 30) (by simp) (related_refl sites _)
  cases heq

end Ntopng.Tables.AsnFlows
