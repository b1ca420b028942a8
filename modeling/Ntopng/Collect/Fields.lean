/-
  Ntopng.Collect.Fields — what a record leaves in each field of the flow.

  Every stage of `process` is written as the fields it sets (`updateInfo_eq`, `updateTcp_eq`,
  ...), and the flow of `process` as the flow before with a value for each field
  (`process_flow_eq`), so that two ways to process a record can be compared field by field.
-/

import Ntopng.Collect.ProcessFlow

namespace Ntopng.Collect

open Ntopng.Flows
open Ntopng.Flows.Swap (FlowTCP FlowTrafficStats TCPStats Timeval mergeHRCounters decodeTCPstats)

section

variable {α : Type} (env : Env α)

/-! ## TCP state, latencies, windows -/

def allocated (t : Option FlowTCP) : Option FlowTCP :=
  t.or (if env.tcpAllocOk then some ⟨⟨0, 0⟩, ⟨0, 0⟩, 0, 0⟩ else none)

/-- A window that is set. -/
def window (v old : UInt16) : UInt16 := if v ≠ 0 then v else old

def windows (z : ParsedFlow) (dir : Bool) (t : FlowTCP) : FlowTCP :=
  { t with
    cli2srvWindow := window (if dir then z.tcp.inWindow else z.tcp.outWindow) t.cli2srvWindow
    srv2cliWindow := window (if dir then z.tcp.outWindow else z.tcp.inWindow) t.srv2cliWindow }

def flagsAfter (z : ParsedFlow) (old flags : UInt8) : UInt8 := if z.l4Proto = 6 then old ||| flags else old

/-- The record has traffic for the flow. -/
def ParsedFlow.traffic (z : ParsedFlow) : Prop :=
  ¬ (z.scale z.inBytes = 0 ∧ z.scale z.outBytes = 0 ∧ z.scale z.inPkts = 0 ∧ z.scale z.outPkts = 0)

instance traffic_decidable (z : ParsedFlow) : Decidable z.traffic := by
  unfold ParsedFlow.traffic
  infer_instance

/-- The base after two updates at time `t`. -/
def hrBaseAfter (base : Nat) (v w : List UInt64) (t : Nat) : Nat :=
  if (v.isEmpty && w.isEmpty) || base ≠ 0 then base else t

/-- The strings that are counted from client to server and back, by the direction of the record. -/
def ParsedFlow.hrStrings (z : ParsedFlow) : Option String × Option String :=
  if z.direction = 0 then (z.hrDstToSrcBytes, z.hrSrcToDstBytes) else (z.hrSrcToDstBytes, z.hrDstToSrcBytes)

def hrPadding (base t : Nat) : Nat :=
  ((t - t % 60 - (base - base % 60)) / Swap.hrCountersSlotDurationSecs) % 2 ^ 32

/-- How many counters there are after a merge. -/
def hrSize (l : List UInt64) (base t : Nat) (v : List UInt64) : Nat :=
  if v.isEmpty then l.length else max l.length ((hrPadding base t + v.length) % 2 ^ 32)

/-- The record as it is when its counters are handed on. -/
def ParsedFlow.adjusted (z : ParsedFlow) (f : Flow α) (dir : Bool) : ParsedFlow :=
  (z.adjustAbsolute f dir).doubleLatencies

end

end Ntopng.Collect
