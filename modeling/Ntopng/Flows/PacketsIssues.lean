/-
  Ntopng.Flows.PacketsIssues — the alert on a flow with many retransmissions, packets out of
  order or lost packets (src/flow_checks/TCPPacketsIssues.cpp).

  A percentage is computed for each kind of issue, and compared to the threshold of its kind.
  The cast to 8 bits in `(u_int8_t)retransmission * 100 / f->get_packets()` is one of the count,
  not of the percentage. In `loadConfiguration` the three blocks share one `enabled`: a block
  that does not have the field goes by the last one that had it.

  Proved, for all configurations and all counts that are not above the packets (`issues_law`):
  the alert is triggered as it is due, except that
  - what is due is missed where no kind is over its threshold with the low 8 bits of its count,
  - a kind that goes by the block of another one triggers it where none that is enabled does.
  A threshold below zero becomes one that no percentage is over.
-/

import Ntopng.Flows.TrafficStats
import Ntopng.Lib.Json

namespace Ntopng.Flows.PacketsIssues

open Ntopng.Lib Ntopng.Lib.OrdMap

/-! ## The code -/

inductive Kind where
  | retransmission
  | outOfOrder
  | lost
  deriving DecidableEq, Repr

/-- What the check reads of a flow. -/
structure Counters where
  packets : UInt64
  retransmission : UInt64
  outOfOrder : UInt64
  lost : UInt64
  deriving DecidableEq, Repr

def Counters.issues (c : Counters) : Kind → UInt64
  | .retransmission => c.retransmission
  | .outOfOrder => c.outOfOrder
  | .lost => c.lost

/-- The counters of both directions are added in 32 bits. -/
def Counters.of (stats : PartializableFlowTrafficStats) : Counters where
  packets := (stats.cli2srvPackets + stats.srv2cliPackets).toUInt64
  retransmission := (stats.cli2srvTcpStats.pktRetr + stats.srv2cliTcpStats.pktRetr).toUInt64
  outOfOrder := (stats.cli2srvTcpStats.pktOOO + stats.srv2cliTcpStats.pktOOO).toUInt64
  lost := (stats.cli2srvTcpStats.pktLost + stats.srv2cliTcpStats.pktLost).toUInt64

structure Thresholds where
  retransmission : UInt64
  outOfOrder : UInt64
  lost : UInt64
  deriving DecidableEq, Repr

def Thresholds.of (t : Thresholds) : Kind → UInt64
  | .retransmission => t.retransmission
  | .outOfOrder => t.outOfOrder
  | .lost => t.lost

/-- `(u_int64_t)-1` -/
def noThreshold : UInt64 := 0xFFFFFFFFFFFFFFFF

/-- The constructor. -/
def new : Thresholds := ⟨noThreshold, noThreshold, noThreshold⟩

def Kind.block : Kind → String
  | .retransmission => "retransmissions"
  | .outOfOrder => "out_of_orders"
  | .lost => "packet_loss"

/-- The block of one kind: its threshold, and `enabled`, as they were and as they are then. -/
def loadBlock (config : Json) (k : Kind) (threshold : UInt64) (enabled : Bool) : UInt64 × Bool :=
  match config.get k.block with
  | none => (threshold, enabled)
  | some table =>
    let threshold := ((table.get "threshold").map fun v => v.getInt64.toUInt64).getD threshold
    let enabled := ((table.get "enabled").map fun v => decide (v.getInt64 ≠ 0)).getD enabled
    (if enabled then threshold else noThreshold, enabled)

def loadConfiguration (t : Thresholds) (config : Json) : Thresholds :=
  let retransmission := loadBlock config .retransmission t.retransmission false
  let outOfOrder := loadBlock config .outOfOrder t.outOfOrder retransmission.2
  let lost := loadBlock config .lost t.lost outOfOrder.2
  ⟨retransmission.1, outOfOrder.1, lost.1⟩

def percentage (issues packets : UInt64) : UInt8 := (issues.toUInt8.toUInt64 * 100 / packets).toUInt8

/-- `checkTCPPacketsIssues`: the alert is triggered. -/
def triggers (t : Thresholds) (c : Counters) : Bool :=
  if c.packets = 0 then false
  else !((percentage c.retransmission c.packets).toUInt64 ≤ t.retransmission &&
    (percentage c.outOfOrder c.packets).toUInt64 ≤ t.outOfOrder &&
    (percentage c.lost c.packets).toUInt64 ≤ t.lost)

/-! ## What is due -/

/-- The `enabled` of the kind's own block. -/
def ownFlag (config : Json) (k : Kind) : Option Bool :=
  (config.get k.block).bind fun table => (table.get "enabled").map fun v => decide (v.getInt64 ≠ 0)

def limit (config : Json) (k : Kind) : Option Int64 :=
  (config.get k.block).bind fun table => (table.get "threshold").map Json.getInt64

def Enabled (config : Json) (k : Kind) : Prop := ownFlag config k = some true

/-- Of `count`, the percentage is over the threshold. -/
def Over (config : Json) (packets : UInt64) (k : Kind) (count : ℕ) : Prop :=
  ∃ t, limit config k = some t ∧ t.toInt < (100 * count / packets.toNat : ℕ)

/-- Some enabled kind is over its threshold. -/
def Due (config : Json) (c : Counters) : Prop :=
  ∃ k, Enabled config k ∧ Over config c.packets k (c.issues k).toNat

structure Bounded (c : Counters) : Prop where
  packets : c.packets ≠ 0
  issues : ∀ k, c.issues k ≤ c.packets

/-- The last `enabled` of the blocks before. -/
def carried (config : Json) : Kind → Bool
  | .retransmission => false
  | .outOfOrder => (ownFlag config .retransmission).getD false
  | .lost => (ownFlag config .outOfOrder).getD ((ownFlag config .retransmission).getD false)

/-- The kind has a block without `enabled`, and goes by one before. -/
def Inherits (config : Json) (k : Kind) : Prop :=
  (config.get k.block).isSome ∧ ownFlag config k = none ∧ carried config k = true

/-- Over the threshold with the low 8 bits of the count, where it is not below zero. -/
def LowOver (config : Json) (c : Counters) (k : Kind) : Prop :=
  Over config c.packets k ((c.issues k).toNat % 256) ∧ ∀ t, limit config k = some t → 0 ≤ t.toInt

structure Ok (config : Json) (c : Counters) : Prop where
  counted : Due config c → ∃ k, (Enabled config k ∨ Inherits config k) ∧ LowOver config c k
  own : ∀ k, Inherits config k → LowOver config c k → Due config c

/-- The packets are the same, and no issue is counted less. -/
structure Raised (c c' : Counters) : Prop where
  packets : c'.packets = c.packets
  issues : ∀ k, c.issues k ≤ c'.issues k

/-- What the block of a kind says of its threshold, and nothing else does. -/
def ownThreshold (config : Json) (k : Kind) : UInt64 :=
  if ownFlag config k = some true then ((limit config k).map Int64.toUInt64).getD noThreshold else noThreshold

/-! ## Loading -/

theorem loadBlock_enabled (config : Json) (k : Kind) (threshold : UInt64) (enabled : Bool) :
    (loadBlock config k threshold enabled).2 = (ownFlag config k).getD enabled := by
  rw [loadBlock, ownFlag]
  cases config.get k.block with
  | none => rfl
  | some table => rfl

/-- The threshold of a kind that had none. -/
theorem loadBlock_threshold (config : Json) (k : Kind) (enabled : Bool) :
    (loadBlock config k noThreshold enabled).1 =
      if (config.get k.block).isSome ∧ (ownFlag config k).getD enabled = true
      then ((limit config k).map Int64.toUInt64).getD noThreshold else noThreshold := by
  rw [loadBlock, ownFlag, limit]
  cases config.get k.block with
  | none => simp
  | some table =>
    simp only [Option.isSome_some, true_and, Option.bind_some]
    cases table.get "threshold" with
    | none => rfl
    | some v => rfl

theorem loaded (config : Json) (k : Kind) : (loadConfiguration new config).of k =
    if (config.get k.block).isSome ∧ (ownFlag config k).getD (carried config k) = true
    then ((limit config k).map Int64.toUInt64).getD noThreshold else noThreshold := by
  cases k with
  | retransmission => exact loadBlock_threshold ..
  | outOfOrder =>
    rw [carried, ← loadBlock_enabled config .retransmission noThreshold]
    exact loadBlock_threshold ..
  | lost =>
    rw [carried, ← loadBlock_enabled config .retransmission noThreshold,
      ← loadBlock_enabled config .outOfOrder noThreshold]
    exact loadBlock_threshold ..

theorem block_of_flag {config : Json} {k : Kind} {b : Bool} (h : ownFlag config k = some b) :
    (config.get k.block).isSome := by
  rw [ownFlag] at h
  cases hblock : config.get k.block with
  | none => rw [hblock] at h; cases h
  | some table => rfl

/-- A kind has its threshold where it is enabled, or goes by another. -/
theorem active_iff (config : Json) (k : Kind) :
    ((config.get k.block).isSome ∧ (ownFlag config k).getD (carried config k) = true) ↔
      Enabled config k ∨ Inherits config k := by
  rw [Enabled, Inherits]
  cases hflag : ownFlag config k with
  | none => simp
  | some b =>
    have hblock := block_of_flag hflag
    simp [hblock]

/-! ## Percentages -/

theorem percentage_toNat {issues packets : UInt64} (hp : packets ≠ 0) (h : issues ≤ packets) :
    (percentage issues packets).toNat = 100 * (issues.toNat % 256) / packets.toNat := by
  have hpos : 0 < packets.toNat := by
    rw [Nat.pos_iff_ne_zero]
    exact fun hz => hp (UInt64.toNat_inj.mp hz)
  have hle : 100 * (issues.toNat % 256) / packets.toNat ≤ 100 := by
    rw [Nat.div_le_iff_le_mul_add_pred hpos]
    have : issues.toNat ≤ packets.toNat := h
    have := Nat.mod_le issues.toNat 256
    omega
  have hmod : issues.toNat % 256 < 256 := Nat.mod_lt _ (by norm_num)
  rw [percentage, UInt64.toNat_toUInt8, UInt64.toNat_div, UInt64.toNat_mul, UInt8.toNat_toUInt64, UInt64.toNat_toUInt8,
    Nat.mul_comm 100]
  have hprod : issues.toNat % 2 ^ 8 * UInt64.toNat 100 % 2 ^ 64 = issues.toNat % 256 * 100 :=
    Nat.mod_eq_of_lt (by rw [show UInt64.toNat 100 = 100 from rfl]; omega)
  rw [hprod]
  exact Nat.mod_eq_of_lt (by rw [Nat.mul_comm]; omega)

/-- A signed threshold as it is compared. -/
theorem over_signed {p : UInt8} (hp : p.toNat ≤ 100) (t : Int64) :
    ¬ p.toUInt64 ≤ t.toUInt64 ↔ 0 ≤ t.toInt ∧ t.toInt < (p.toNat : ℤ) := by
  have hint : t.toInt = if 2 * t.toUInt64.toNat < 2 ^ 64 then (t.toUInt64.toNat : ℤ) else t.toUInt64.toNat - 2 ^ 64 :=
    BitVec.toInt_eq_toNat_cond t.toBitVec
  have hlt := t.toUInt64.toNat_lt
  rw [UInt64.le_iff_toNat_le, UInt8.toNat_toUInt64, hint]
  split <;> omega

theorem percentage_le {c : Counters} (h : Bounded c) (k : Kind) : (percentage (c.issues k) c.packets).toNat ≤ 100 := by
  rw [percentage_toNat h.packets (h.issues k)]
  have hpos : 0 < c.packets.toNat := by
    rw [Nat.pos_iff_ne_zero]
    exact fun hz => h.packets (UInt64.toNat_inj.mp hz)
  have : (c.issues k).toNat ≤ c.packets.toNat := h.issues k
  have := Nat.mod_le (c.issues k).toNat 256
  rw [Nat.div_le_iff_le_mul_add_pred hpos]
  omega

/-- No percentage is over the threshold of a kind that has none. -/
theorem not_over_none (p : UInt8) : p.toUInt64 ≤ noThreshold := by
  rw [UInt64.le_iff_toNat_le]
  have := p.toUInt64.toNat_lt
  rw [show noThreshold.toNat = 2 ^ 64 - 1 from rfl]
  omega

/-- One kind exceeds the threshold it was loaded with. -/
theorem exceeds_iff {config : Json} {c : Counters} (h : Bounded c) (k : Kind) :
    ¬ (percentage (c.issues k) c.packets).toUInt64 ≤ (loadConfiguration new config).of k ↔
      (Enabled config k ∨ Inherits config k) ∧ LowOver config c k := by
  rw [loaded, ← active_iff, LowOver, Over]
  by_cases hactive : (config.get k.block).isSome ∧ (ownFlag config k).getD (carried config k) = true
  · rw [if_pos hactive]
    cases hlimit : limit config k with
    | none => simp [not_over_none]
    | some t =>
      rw [Option.map_some, Option.getD_some, over_signed (percentage_le h k),
        percentage_toNat h.packets (h.issues k)]
      simp [hactive, and_comm]
  · rw [if_neg hactive]
    simp [hactive, not_over_none]

theorem triggers_iff {config : Json} {c : Counters} (h : Bounded c) :
    triggers (loadConfiguration new config) c = true ↔
      ∃ k, (Enabled config k ∨ Inherits config k) ∧ LowOver config c k := by
  have hex : (∃ k, (Enabled config k ∨ Inherits config k) ∧ LowOver config c k) ↔
      ∃ k, ¬ (percentage (c.issues k) c.packets).toUInt64 ≤ (loadConfiguration new config).of k :=
    exists_congr fun k => (exceeds_iff h k).symm
  rw [hex, triggers, if_neg h.packets]
  constructor
  · intro ht
    rw [Bool.not_eq_true', Bool.and_eq_false_iff, Bool.and_eq_false_iff] at ht
    rcases ht with (ht | ht) | ht
    · exact ⟨.retransmission, of_decide_eq_false ht⟩
    · exact ⟨.outOfOrder, of_decide_eq_false ht⟩
    · exact ⟨.lost, of_decide_eq_false ht⟩
  · rintro ⟨k, hk⟩
    cases k with
    | retransmission => simp [Counters.issues, Thresholds.of] at hk; simp [hk]
    | outOfOrder => simp [Counters.issues, Thresholds.of] at hk; simp [hk]
    | lost => simp [Counters.issues, Thresholds.of] at hk; simp [hk]

/-! ## The law -/

/-- The low 8 bits of a count are not more than the count. -/
theorem LowOver.over {config : Json} {c : Counters} {k : Kind} (h : LowOver config c k) :
    Over config c.packets k (c.issues k).toNat := by
  obtain ⟨⟨t, ht, hlt⟩, -⟩ := h
  refine ⟨t, ht, lt_of_lt_of_le hlt ?_⟩
  exact_mod_cast Nat.div_le_div_right (Nat.mul_le_mul_left 100 (Nat.mod_le _ _))

theorem triggers_iff_due {config : Json} {c : Counters} (h : Bounded c) :
    (triggers (loadConfiguration new config) c = true ↔ Due config c) ↔ Ok config c := by
  rw [triggers_iff h]
  constructor
  · intro hright
    exact ⟨hright.mpr, fun k hk hlow => hright.mp ⟨k, Or.inr hk, hlow⟩⟩
  · intro hok
    refine ⟨?_, hok.counted⟩
    rintro ⟨k, hk | hk, hlow⟩
    · exact ⟨k, hk, hlow.over⟩
    · exact hok.own k hk hlow

theorem Due.raised {config : Json} {c c' : Counters} (h : Due config c) (hr : Raised c c') : Due config c' := by
  obtain ⟨k, hk, t, ht, hlt⟩ := h
  refine ⟨k, hk, t, ht, lt_of_lt_of_le hlt ?_⟩
  rw [hr.packets]
  have hle : (c.issues k).toNat ≤ (c'.issues k).toNat := hr.issues k
  exact_mod_cast Nat.div_le_div_right (Nat.mul_le_mul_left 100 hle)

theorem threshold_own {config : Json} {k : Kind} (h : ¬ Inherits config k) :
    (loadConfiguration new config).of k = ownThreshold config k := by
  have hiff := (active_iff config k).trans (or_iff_left h)
  rw [loaded, ownThreshold]
  exact if_congr hiff rfl rfl

/-- The alert is triggered as it is due exactly under `Ok`. Where that holds before and after,
    raising a count never withdraws it; and the threshold of a kind that does not go by the block of
    another is that of its own block. -/
theorem issues_law (config : Json) (c : Counters) (h : Bounded c) :
    ((triggers (loadConfiguration new config) c = true ↔ Due config c) ↔ Ok config c) ∧
      (∀ c', Bounded c' → Raised c c' → Ok config c → Ok config c' →
        triggers (loadConfiguration new config) c = true → triggers (loadConfiguration new config) c' = true) ∧
      ∀ k, ¬ Inherits config k → (loadConfiguration new config).of k = ownThreshold config k := by
  refine ⟨triggers_iff_due h, ?_, fun k => threshold_own⟩
  intro c' h' hr hok hok' ht
  have hdue := ((triggers_iff_due h).mpr hok).mp ht
  exact ((triggers_iff_due h').mpr hok').mpr (hdue.raised hr)

/-- Retransmissions over 15%, where the other two kinds have no block. -/
def onlyRetransmissions : Json :=
  .object [("retransmissions", .object [("threshold", .int 15), ("enabled", .boolean true)])]

theorem flag_retransmissions : ownFlag onlyRetransmissions .retransmission = some true := by decide
theorem limit_retransmissions : limit onlyRetransmissions .retransmission = some 15 := by decide

theorem bounded_retransmissions (n : UInt64) (h : n ≤ 1000) : Bounded ⟨1000, n, 0, 0⟩ := by
  refine ⟨(by decide : (1000 : UInt64) ≠ 0), fun k => ?_⟩
  cases k with
  | retransmission => exact h
  | outOfOrder => exact UInt64.zero_le
  | lost => exact UInt64.zero_le

/-- A fifth of the packets are retransmissions, 200 of them. -/
theorem issues_law_fifth : triggers (loadConfiguration new onlyRetransmissions) ⟨1000, 200, 0, 0⟩ = true ↔
    Due onlyRetransmissions ⟨1000, 200, 0, 0⟩ := by
  refine (issues_law _ _ (bounded_retransmissions 200 (by decide))).1.mpr ⟨fun _ => ?_, fun k hk => ?_⟩
  · refine ⟨.retransmission, Or.inl flag_retransmissions, ⟨15, limit_retransmissions, by decide⟩, fun t ht => ?_⟩
    rw [limit_retransmissions, Option.some.injEq] at ht
    rw [← ht]
    decide
  · cases k with
    | retransmission => exact absurd hk.2.2 (by decide)
    | outOfOrder => exact absurd hk.1 (by decide)
    | lost => exact absurd hk.1 (by decide)

/-- A quarter of the packets are retransmissions, 256 of them, and there is no alert. -/
theorem quarter_retransmitted : ¬ ∀ (config : Json) (c : Counters), Bounded c →
    (triggers (loadConfiguration new config) c = true ↔ Due config c) := by
  intro hall
  have hdue : Due onlyRetransmissions ⟨1000, 256, 0, 0⟩ :=
    ⟨.retransmission, flag_retransmissions, 15, limit_retransmissions, by decide⟩
  have h := (hall onlyRetransmissions _ (bounded_retransmissions 256 (by decide))).mpr hdue
  revert h
  decide

end Ntopng.Flows.PacketsIssues
