/-
  Ntopng.Flows.TrafficStats — the counters of a flow that are kept per direction and can be
  taken as a difference to a baseline (`PartializableFlowTrafficStats`,
  src/PartializableFlowTrafficStats.cpp; `swap` also `FlowTrafficStats::swap`).

  The counters of the application protocols (`protos`) have no direction and are left out.
-/

import Mathlib

namespace Ntopng.Flows

inductive ScoreCategory where
  | network
  | security
  deriving DecidableEq, Repr

/-- `NDPI_SCORE_RISK_EMERGENCY`. -/
def scoreMaxValue : Nat := 250

structure FlowTCPPacketStats where
  pktRetr : UInt32
  pktOOO : UInt32
  pktLost : UInt32
  pktKeepAlive : UInt32
  deriving DecidableEq, Repr

structure PartializableFlowTrafficStats where
  cli2srvPackets : UInt32
  srv2cliPackets : UInt32
  cli2srvBytes : UInt64
  srv2cliBytes : UInt64
  cli2srvGoodputBytes : UInt64
  srv2cliGoodputBytes : UInt64
  cli2srvTcpStats : FlowTCPPacketStats
  srv2cliTcpStats : FlowTCPPacketStats
  /-- 16-bit. -/
  cliHostScore : ScoreCategory → Nat
  srvHostScore : ScoreCategory → Nat
  isFlowAlerted : Bool

/-- `NON_NEGATIVE_DIFF`. -/
def nonNegativeDiff {α : Type} [LT α] [DecidableLT α] [Sub α] [OfNat α 0] (a b : α) : α :=
  if a < b then 0 else a - b

namespace FlowTCPPacketStats

def zero : FlowTCPPacketStats := ⟨0, 0, 0, 0⟩

def inc (s : FlowTCPPacketStats) (retr ooo lost keepalive : UInt32) : FlowTCPPacketStats :=
  { pktKeepAlive := s.pktKeepAlive + keepalive
    pktRetr := s.pktRetr + retr
    pktOOO := s.pktOOO + ooo
    pktLost := s.pktLost + lost }

def sub (cur fts : FlowTCPPacketStats) : FlowTCPPacketStats :=
  { pktRetr := nonNegativeDiff cur.pktRetr fts.pktRetr
    pktOOO := nonNegativeDiff cur.pktOOO fts.pktOOO
    pktLost := nonNegativeDiff cur.pktLost fts.pktLost
    pktKeepAlive := nonNegativeDiff cur.pktKeepAlive fts.pktKeepAlive }

end FlowTCPPacketStats

namespace PartializableFlowTrafficStats

variable (s : PartializableFlowTrafficStats)

def zero : PartializableFlowTrafficStats :=
  { cli2srvPackets := 0, srv2cliPackets := 0, cli2srvBytes := 0, srv2cliBytes := 0
    cli2srvGoodputBytes := 0, srv2cliGoodputBytes := 0
    cli2srvTcpStats := .zero, srv2cliTcpStats := .zero
    cliHostScore := fun _ => 0, srvHostScore := fun _ => 0, isFlowAlerted := false }

def incStats (cli2srvDirection : Bool) (numPkts : UInt32) (pktsBytes payloadsBytes : UInt64) :
    PartializableFlowTrafficStats :=
  if cli2srvDirection then
    { s with
      cli2srvPackets := s.cli2srvPackets + numPkts
      cli2srvBytes := s.cli2srvBytes + pktsBytes
      cli2srvGoodputBytes := s.cli2srvGoodputBytes + payloadsBytes }
  else
    { s with
      srv2cliPackets := s.srv2cliPackets + numPkts
      srv2cliBytes := s.srv2cliBytes + pktsBytes
      srv2cliGoodputBytes := s.srv2cliGoodputBytes + payloadsBytes }

def incTcpStats (cli2srvDirection : Bool) (retr ooo lost keepalive : UInt32) : PartializableFlowTrafficStats :=
  if cli2srvDirection then { s with cli2srvTcpStats := s.cli2srvTcpStats.inc retr ooo lost keepalive }
  else { s with srv2cliTcpStats := s.srv2cliTcpStats.inc retr ooo lost keepalive }

def incScore (score : Nat) (category : ScoreCategory) (asClient : Bool) : PartializableFlowTrafficStats :=
  let inc (dst : ScoreCategory → Nat) : ScoreCategory → Nat :=
    Function.update dst category ((dst category + min score scoreMaxValue) % 2 ^ 16)
  if asClient then { s with cliHostScore := inc s.cliHostScore } else { s with srvHostScore := inc s.srvHostScore }

def setFlowAlerted : PartializableFlowTrafficStats := { s with isFlowAlerted := true }

/-- `operator-`. -/
def sub (cur fts : PartializableFlowTrafficStats) : PartializableFlowTrafficStats :=
  { cli2srvPackets := nonNegativeDiff cur.cli2srvPackets fts.cli2srvPackets
    srv2cliPackets := nonNegativeDiff cur.srv2cliPackets fts.srv2cliPackets
    cli2srvBytes := nonNegativeDiff cur.cli2srvBytes fts.cli2srvBytes
    srv2cliBytes := nonNegativeDiff cur.srv2cliBytes fts.srv2cliBytes
    cli2srvGoodputBytes := nonNegativeDiff cur.cli2srvGoodputBytes fts.cli2srvGoodputBytes
    srv2cliGoodputBytes := nonNegativeDiff cur.srv2cliGoodputBytes fts.srv2cliGoodputBytes
    cli2srvTcpStats := cur.cli2srvTcpStats.sub fts.cli2srvTcpStats
    srv2cliTcpStats := cur.srv2cliTcpStats.sub fts.srv2cliTcpStats
    cliHostScore := fun i => nonNegativeDiff (cur.cliHostScore i) (fts.cliHostScore i)
    srvHostScore := fun i => nonNegativeDiff (cur.srvHostScore i) (fts.srvHostScore i)
    isFlowAlerted := cur.isFlowAlerted && !fts.isFlowAlerted }

/-- The difference to the baseline `dst`, and the new baseline. -/
def getPartial (dst : PartializableFlowTrafficStats) :
    PartializableFlowTrafficStats × PartializableFlowTrafficStats := (s.sub dst, s)

def swap : PartializableFlowTrafficStats :=
  { s with
    cli2srvPackets := s.srv2cliPackets, srv2cliPackets := s.cli2srvPackets
    cli2srvBytes := s.srv2cliBytes, srv2cliBytes := s.cli2srvBytes
    cli2srvGoodputBytes := s.srv2cliGoodputBytes, srv2cliGoodputBytes := s.cli2srvGoodputBytes
    cli2srvTcpStats := s.srv2cliTcpStats, srv2cliTcpStats := s.cli2srvTcpStats
    cliHostScore := s.srvHostScore, srvHostScore := s.cliHostScore }

end PartializableFlowTrafficStats

/-! ## The exchange -/

namespace PartializableFlowTrafficStats

variable (s : PartializableFlowTrafficStats)

@[simp] theorem swap_swap : s.swap.swap = s := rfl

@[simp] theorem swap_cliHostScore : s.swap.cliHostScore = s.srvHostScore := rfl
@[simp] theorem swap_srvHostScore : s.swap.srvHostScore = s.cliHostScore := rfl

/-- Counting in one direction and swapping is swapping and counting in the other. -/
theorem swap_incStats (dir : Bool) (n : UInt32) (b p : UInt64) :
    (s.incStats dir n b p).swap = s.swap.incStats (!dir) n b p := by
  cases dir <;> rfl

theorem swap_incTcpStats (dir : Bool) (r o l k : UInt32) :
    (s.incTcpStats dir r o l k).swap = s.swap.incTcpStats (!dir) r o l k := by
  cases dir <;> rfl

theorem swap_incScore (score : Nat) (category : ScoreCategory) (asClient : Bool) :
    (s.incScore score category asClient).swap = s.swap.incScore score category (!asClient) := by
  cases asClient <;> rfl

theorem swap_sub (fts : PartializableFlowTrafficStats) : (s.sub fts).swap = s.swap.sub fts.swap := rfl

/-- A partial statistic taken after the swap of both sides is the exchanged one. -/
theorem getPartial_swap (dst : PartializableFlowTrafficStats) :
    s.swap.getPartial dst.swap = ((s.getPartial dst).1.swap, (s.getPartial dst).2.swap) := rfl

end PartializableFlowTrafficStats

end Ntopng.Flows
