/-
  Ntopng.Flows.Swap — what a flow accounts per direction, and `Flow::swap` (src/Flow.cpp).

  The state is the directional accounting of a flow: peers, AS numbers and names, TOS, TCP
  flags and windows, fragments, high-resolution bytes, statistics with their baselines, and
  the roles of its alerts. An event is a call of a function that updates it; its exchange is
  the same call with client and server the other way round. Proved: the updates do not know
  which side is the client (`step_exchange`), `swap` undoes itself and exchanges every
  partial statistic, and it yields the exchanged accounting exactly when the pairs that it
  leaves alone are equal (`swap_exchanges_iff`).

  Left out are L7 information and latencies, which `swap` leaves on purpose, and what the
  updates pass on to hosts and interface.
-/

import Ntopng.Lib.Run
import Ntopng.Lib.Bytes
import Ntopng.Flows.Alerts

namespace Ntopng.Flows.Swap

open Ntopng.Lib.Run Ntopng.Lib.Bytes Ntopng.Flows.Alerts

/-! ## The parts of a flow -/

abbrev IpAddress := Nat

structure Host where
  ip : IpAddress
  asn : UInt32
  asname : Option String
  deriving DecidableEq, Repr

/-- `cMac` and `sMac` point to one of these. -/
abbrev Mac := Nat

structure Timeval where
  tvSec : Nat
  tvUsec : Nat
  deriving DecidableEq, Repr

structure TCPSeqNum where
  last : UInt64
  next : UInt64
  deriving DecidableEq, Repr

structure TCPStats where
  numSyn : UInt8
  numRst : UInt8
  numFin : UInt8
  numZeroWindow : UInt8
  deriving DecidableEq, Repr

structure FlowTCP where
  tcpSeqS2D : TCPSeqNum
  tcpSeqD2S : TCPSeqNum
  cli2srvWindow : UInt16
  srv2cliWindow : UInt16
  deriving DecidableEq, Repr

/-- What is called outside of the source: the data analysis of nDPI (`α` is its state), time
    differences in milliseconds (if positive), and the geolocation of an address. -/
structure Env (α : Type) where
  initDataAnalysis : α
  dataAddValue : α → UInt64 → α
  msTimevalDiff : Timeval → Timeval → Option UInt64
  getAS : Option IpAddress → UInt32 × Option String

structure InterarrivalStats (α : Type) where
  lastTime : Timeval
  deltaMs : α

structure FlowTrafficStats (α : Type) extends PartializableFlowTrafficStats where
  cli2srvBytesStats : α
  srv2cliBytesStats : α

@[ext] structure Flow (α : Type) where
  cliHost : Option Host
  srvHost : Option Host
  cliIpAddr : Option IpAddress
  srvIpAddr : Option IpAddress
  src2dstTcpFlags : UInt8
  dst2srcTcpFlags : UInt8
  tcp : Option FlowTCP
  hrSrc2DstBytes : List UInt64
  hrDst2SrcBytes : List UInt64
  hrBaseFirstSeen : Nat
  cli2srvTos : UInt8
  srv2cliTos : UInt8
  cliPort : UInt16
  srvPort : UInt16
  srcAS : UInt32
  dstAS : UInt32
  srcASName : Option String
  dstASName : Option String
  srcPeerAS : UInt32
  dstPeerAS : UInt32
  cliMac : List UInt8
  srvMac : List UInt8
  cMac : Option Mac
  sMac : Option Mac
  src2dstTcpZeroWindow : Bool
  dst2srcTcpZeroWindow : Bool
  alertInfo : AlertInfo
  tcpStatsCli2Srv : TCPStats
  tcpStatsSrv2Cli : TCPStats
  stats : FlowTrafficStats α
  ipStatsS2DPktFrag : UInt32
  ipStatsD2SPktFrag : UInt32
  cli2srvPktTime : Option (InterarrivalStats α)
  srv2cliPktTime : Option (InterarrivalStats α)
  lastDbDumpPartial : Option PartializableFlowTrafficStats
  lastDbDumpDelta : PartializableFlowTrafficStats
  periodicStatsBase : Option PartializableFlowTrafficStats

/-! ## The updates -/

def inc8bitNoOverflow (v : UInt8) : UInt8 := if v < 0xFF then v + 1 else v

def thFin : UInt8 := 0x01
def thSyn : UInt8 := 0x02
def thRst : UInt8 := 0x04

section updates

variable {α : Type} (env : Env α)

def FlowTrafficStats.incStats (s : FlowTrafficStats α) (cli2srvDirection : Bool) (numPkts : UInt32)
    (pktsBytes payloadsBytes : UInt64) : FlowTrafficStats α :=
  let base := s.toPartializableFlowTrafficStats.incStats cli2srvDirection numPkts pktsBytes payloadsBytes
  if cli2srvDirection then
    { base with
      cli2srvBytesStats := env.dataAddValue s.cli2srvBytesStats pktsBytes
      srv2cliBytesStats := s.srv2cliBytesStats }
  else
    { base with
      cli2srvBytesStats := s.cli2srvBytesStats
      srv2cliBytesStats := env.dataAddValue s.srv2cliBytesStats pktsBytes }

/-- Apply an update of the inherited counters. -/
def FlowTrafficStats.update (s : FlowTrafficStats α)
    (u : PartializableFlowTrafficStats → PartializableFlowTrafficStats) : FlowTrafficStats α :=
  { u s.toPartializableFlowTrafficStats with
    cli2srvBytesStats := s.cli2srvBytesStats, srv2cliBytesStats := s.srv2cliBytesStats }

def FlowTrafficStats.swap (s : FlowTrafficStats α) : FlowTrafficStats α :=
  { s.toPartializableFlowTrafficStats.swap with
    cli2srvBytesStats := s.srv2cliBytesStats, srv2cliBytesStats := s.cli2srvBytesStats }

def InterarrivalStats.updatePacketStats (s : InterarrivalStats α) (when_ : Timeval) (updateIat : Bool) :
    InterarrivalStats α :=
  { lastTime := when_
    deltaMs :=
      if updateIat && s.lastTime.tvSec != 0 then
        match env.msTimevalDiff when_ s.lastTime with
        | none => s.deltaMs
        | some deltaMS => env.dataAddValue s.deltaMs deltaMS
      else s.deltaMs }

namespace Flow

variable (f : Flow α)

/-- `payload_len` after the scaling, and the time stamp of the packet. -/
def incStats (cli2srvDirection : Bool) (pktLen payloadLen scalingFactor : UInt32) (isTcp : Bool) (tcpFlags : UInt8)
    (isFragment : Bool) (when_ : Timeval) (fragmentExtraOverhead : UInt16) : Flow α :=
  let payloadLen := payloadLen * scalingFactor
  let stats :=
    if fragmentExtraOverhead ≠ 0 then
      f.stats.incStats env cli2srvDirection 1 fragmentExtraOverhead.toUInt64 fragmentExtraOverhead.toUInt64
    else f.stats
  let updateIat := !(isTcp && tcpFlags &&& (thSyn ||| thFin ||| thRst) != 0)
  let stats := stats.incStats env cli2srvDirection 1 pktLen.toUInt64 payloadLen.toUInt64
  if cli2srvDirection then
    { f with
      stats := stats
      cli2srvPktTime := f.cli2srvPktTime.map (·.updatePacketStats env when_ updateIat)
      ipStatsS2DPktFrag := f.ipStatsS2DPktFrag + isFragment.toUInt32 }
  else
    { f with
      stats := stats
      srv2cliPktTime := f.srv2cliPktTime.map (·.updatePacketStats env when_ updateIat)
      ipStatsD2SPktFrag := f.ipStatsD2SPktFrag + isFragment.toUInt32 }

def addFlowStats (cli2srvDirection : Bool) (inPkts inBytes inGoodputBytes outPkts outBytes outGoodputBytes
    inFragments outFragments : UInt32) : Flow α :=
  let inc (stats : FlowTrafficStats α) (dir : Bool) (pkts bytes goodput : UInt32) : FlowTrafficStats α :=
    if pkts ≠ 0 then stats.incStats env dir pkts bytes.toUInt64 goodput.toUInt64 else stats
  if inBytes = 0 ∧ outBytes = 0 ∧ inPkts = 0 ∧ outPkts = 0 then f
  else if cli2srvDirection then
    { f with
      stats := inc (inc f.stats true inPkts inBytes inGoodputBytes) false outPkts outBytes outGoodputBytes
      ipStatsS2DPktFrag := f.ipStatsS2DPktFrag + inFragments
      ipStatsD2SPktFrag := f.ipStatsD2SPktFrag + outFragments }
  else
    { f with
      stats := inc (inc f.stats true outPkts outBytes outGoodputBytes) false inPkts inBytes inGoodputBytes
      ipStatsS2DPktFrag := f.ipStatsS2DPktFrag + outFragments
      ipStatsD2SPktFrag := f.ipStatsD2SPktFrag + inFragments }

end Flow

end updates

/-- What a segment says about the packets before it. -/
structure SeqIssues where
  keepAlive : UInt32
  lost : UInt32
  ooo : UInt32
  retx : UInt32
  deriving DecidableEq, Repr

/-- The sequence numbers of one direction after a segment; the source has this code once per direction. -/
def TCPSeqNum.segment (seq : TCPSeqNum) (seqNum nextSeqNum : UInt32) (flags : UInt8) (payloadLen : UInt16) :
    TCPSeqNum × SeqIssues :=
  let num := seqNum.toUInt64
  let next := nextSeqNum.toUInt64
  if seq.next > 0 ∧ seq.next ≠ num ∧ seq.next ≠ (seqNum - 1).toUInt64 then
    if num = seq.next - 1 ∧ (payloadLen = 0 ∨ payloadLen = 1) ∧ flags &&& (thSyn ||| thFin ||| thRst) = 0 then
      (⟨num, next⟩, ⟨1, 0, 0, 0⟩)
    else if num = seq.last ∨ num < seq.last then
      if seq.next ≠ seq.last then (⟨seq.last, if num = seq.last then next else seq.next⟩, ⟨0, 0, 0, 1⟩)
      else (⟨num, next⟩, ⟨0, 0, 0, 0⟩)
    else if num > seq.next then (⟨num, next⟩, ⟨0, 1, 0, 0⟩)
    else (⟨if (seqNum - 1).toUInt64 > seq.last then num else seq.last, next⟩, ⟨0, 0, 1, 0⟩)
  else (⟨num, next⟩, ⟨0, 0, 0, 0⟩)

def getNextTcpSeq (tcpFlags : UInt8) (tcpSeqNum payloadLen : UInt32) : UInt32 :=
  tcpSeqNum + (if tcpFlags &&& thSyn ≠ 0 then 1 else 0) + payloadLen

def decodeTCPstats (v : UInt32) : TCPStats :=
  let v := ntohl v
  { numSyn := (v >>> 24).toUInt8, numRst := (v >>> 16).toUInt8, numFin := (v >>> 8).toUInt8, numZeroWindow := v.toUInt8 }

def TCPStats.count (s : TCPStats) (flags : UInt8) : TCPStats :=
  { s with
    numSyn := if flags &&& thSyn = thSyn then inc8bitNoOverflow s.numSyn else s.numSyn
    numFin := if flags &&& thFin = thFin then inc8bitNoOverflow s.numFin else s.numFin
    numRst := if flags &&& thRst = thRst then inc8bitNoOverflow s.numRst else s.numRst }

def TCPStats.countZeroWindow (s : TCPStats) : TCPStats := { s with numZeroWindow := inc8bitNoOverflow s.numZeroWindow }

def hrCountersSlotDurationSecs : Nat := 15

/-- The counters of one direction; `base` is `hr_base_first_seen`, already set. -/
def mergeHRCounters (flowCounters updateCounters : List UInt64) (base updateFirstSeen : Nat) : List UInt64 :=
  let baseMinute := base - base % 60
  let updateMinute := updateFirstSeen - updateFirstSeen % 60
  if updateCounters.isEmpty || updateMinute < baseMinute then flowCounters
  else
    let padding := ((updateMinute - baseMinute) / hrCountersSlotDurationSecs) % 2 ^ 32
    let size := (padding + updateCounters.length) % 2 ^ 32
    let flowCounters := flowCounters ++ List.replicate (size - flowCounters.length) 0
    flowCounters.mapIdx fun j v => if padding ≤ j then max v (updateCounters.getD (j - padding) 0) else v

namespace Flow

variable {α : Type} (f : Flow α)

def updateTcpSeqIssues (retrIn oooIn lostIn retrOut oooOut lostOut : UInt32) : Flow α :=
  { f with stats := f.stats.update fun s => (s.incTcpStats true retrIn oooIn lostIn 0).incTcpStats false retrOut oooOut lostOut 0 }

/-- `isPacketInterface` is false for collected flows, which come with flags but no packets to count. -/
def updateTcpFlags (flags : UInt8) (src2dstDirection isPacketInterface : Bool) : Flow α :=
  if src2dstDirection then
    { f with
      src2dstTcpFlags := f.src2dstTcpFlags ||| flags
      tcpStatsCli2Srv := if isPacketInterface then f.tcpStatsCli2Srv.count flags else f.tcpStatsCli2Srv }
  else
    { f with
      dst2srcTcpFlags := f.dst2srcTcpFlags ||| flags
      tcpStatsSrv2Cli := if isPacketInterface then f.tcpStatsSrv2Cli.count flags else f.tcpStatsSrv2Cli }

def updateTcpWindow (window : UInt16) (src2dstDirection : Bool) : Flow α :=
  if window ≠ 0 then f
  else if src2dstDirection then
    { f with src2dstTcpZeroWindow := true, tcpStatsCli2Srv := f.tcpStatsCli2Srv.countZeroWindow }
  else { f with dst2srcTcpZeroWindow := true, tcpStatsSrv2Cli := f.tcpStatsSrv2Cli.countZeroWindow }

def updateTcpSeqNum (seqNum : UInt32) (window : UInt16) (flags : UInt8) (payloadLen : UInt16)
    (src2dstDirection : Bool) : Flow α :=
  match f.tcp with
  | none => f
  | some tcp =>
    let nextSeqNum := getNextTcpSeq flags seqNum payloadLen.toUInt32
    let (tcp, issues) :=
      if src2dstDirection then
        let (seq, issues) := tcp.tcpSeqS2D.segment seqNum nextSeqNum flags payloadLen
        -- the window is reverted
        ({ tcp with tcpSeqS2D := seq, srv2cliWindow := if window > 0 then window else tcp.srv2cliWindow }, issues)
      else
        let (seq, issues) := tcp.tcpSeqD2S.segment seqNum nextSeqNum flags payloadLen
        ({ tcp with tcpSeqD2S := seq, cli2srvWindow := if window > 0 then window else tcp.cli2srvWindow }, issues)
    { f with
      tcp := some tcp
      stats := f.stats.update fun s =>
        s.incTcpStats src2dstDirection issues.retx issues.ooo issues.lost issues.keepAlive }

/-- Nothing happens when the allocation fails. -/
def allocTCPStats (allocOk : Bool) : Flow α :=
  match f.tcp with
  | some _ => f
  | none => if allocOk then { f with tcp := some ⟨⟨0, 0⟩, ⟨0, 0⟩, 0, 0⟩ } else f

def setFlowTcpWindow (windowVal : UInt16) (client allocOk : Bool) : Flow α :=
  let f := f.allocTCPStats allocOk
  { f with tcp := f.tcp.map fun tcp =>
      if client then { tcp with cli2srvWindow := windowVal } else { tcp with srv2cliWindow := windowVal } }

def updateTCPStats (cliStats srvStats : UInt32) : Flow α :=
  { f with
    tcpStatsCli2Srv := if cliStats ≠ 0 then decodeTCPstats cliStats else f.tcpStatsCli2Srv
    tcpStatsSrv2Cli := if srvStats ≠ 0 then decodeTCPstats srvStats else f.tcpStatsSrv2Cli }

def setTOS (tos : UInt8) (isCliTos : Bool) : Flow α :=
  if isCliTos then { f with cli2srvTos := tos } else { f with srv2cliTos := tos }

/-- The AS is looked up on the first request. -/
def getSrcAS (env : Env α) : (UInt32 × String) × Flow α :=
  let f :=
    if f.srcAS ≠ 0 then f
    else
      match f.cliHost with
      | some h => { f with srcAS := h.asn, srcASName := h.asname }
      | none => { f with srcAS := (env.getAS f.cliIpAddr).1, srcASName := (env.getAS f.cliIpAddr).2 }
  ((f.srcAS, f.srcASName.getD ""), f)

def getDstAS (env : Env α) : (UInt32 × String) × Flow α :=
  let f :=
    if f.dstAS ≠ 0 then f
    else
      match f.srvHost with
      | some h => { f with dstAS := h.asn, dstASName := h.asname }
      | none => { f with dstAS := (env.getAS f.srvIpAddr).1, dstASName := (env.getAS f.srvIpAddr).2 }
  ((f.dstAS, f.dstASName.getD ""), f)

def setSrcPeerAS (v : UInt32) : Flow α := if v ≠ f.srcAS then { f with srcPeerAS := v } else f
def setDstPeerAS (v : UInt32) : Flow α := if v ≠ f.dstAS then { f with dstPeerAS := v } else f

/-- `macs` is the table of MACs at the time of the call. -/
def updateMac (macs : List UInt8 → Option Mac) : Flow α := { f with cMac := macs f.cliMac, sMac := macs f.srvMac }

def setCliMacRaw (m : List UInt8) (macs : List UInt8 → Option Mac) : Flow α := { f with cliMac := m }.updateMac macs
def setSrvMacRaw (m : List UInt8) (macs : List UInt8 → Option Mac) : Flow α := { f with srvMac := m }.updateMac macs

def hrBase (v : List UInt64) (updateFirstSeen : Nat) : Nat :=
  if v.isEmpty || f.hrBaseFirstSeen ≠ 0 then f.hrBaseFirstSeen else updateFirstSeen

def updateHRSrc2DstBytes (v : List UInt64) (updateFirstSeen : Nat) : Flow α :=
  { f with
    hrBaseFirstSeen := f.hrBase v updateFirstSeen
    hrSrc2DstBytes := mergeHRCounters f.hrSrc2DstBytes v (f.hrBase v updateFirstSeen) updateFirstSeen }

def updateHRDst2SrcBytes (v : List UInt64) (updateFirstSeen : Nat) : Flow α :=
  { f with
    hrBaseFirstSeen := f.hrBase v updateFirstSeen
    hrDst2SrcBytes := mergeHRCounters f.hrDst2SrcBytes v (f.hrBase v updateFirstSeen) updateFirstSeen }

def resetHRCounters : Flow α := { f with hrSrc2DstBytes := [], hrDst2SrcBytes := [], hrBaseFirstSeen := 0 }

/-- The part of `setAlertsMap` that the flow keeps per direction. -/
def setAlertInfo (a : FlowAlert) : Flow α :=
  let category := mapAlertToScoreCategory a.category
  { f with
    alertInfo :=
      { isCliAttacker := f.alertInfo.isCliAttacker || a.isCliAttacker
        isCliVictim := f.alertInfo.isCliVictim || a.isCliVictim
        isSrvAttacker := f.alertInfo.isSrvAttacker || a.isSrvAttacker
        isSrvVictim := f.alertInfo.isSrvVictim || a.isSrvVictim
        autoAcknowledge := f.alertInfo.autoAcknowledge && a.autoAck }
    stats := f.stats.update fun s =>
      (s.setFlowAlerted.incScore a.cliScore category true).incScore a.srvScore category false }

/-- The partial statistics since `base`, and the new base; nothing when there is none and it cannot be allocated. -/
def getPartialTrafficStats (base : Option PartializableFlowTrafficStats) (allocOk : Bool) :
    Option (PartializableFlowTrafficStats × PartializableFlowTrafficStats) :=
  match base with
  | none => if allocOk then some (f.stats.getPartial .zero) else none
  | some base => some (f.stats.getPartial base)

def updatePartialTrafficStatsDbDump (allocOk : Bool) : Flow α :=
  match f.getPartialTrafficStats f.lastDbDumpPartial allocOk with
  | none => f
  | some (delta, base) => { f with lastDbDumpPartial := some base, lastDbDumpDelta := delta }

def periodicStatsUpdate (allocOk : Bool) : Flow α :=
  match f.getPartialTrafficStats f.periodicStatsBase allocOk with
  | none => f
  | some (_, base) => { f with periodicStatsBase := some base }

/-- `Flow::swap`. -/
def swap (flowSwapHeuristic : Bool) : Flow α :=
  if !flowSwapHeuristic then f
  else
    let hosts := f.cliHost.isSome && f.srvHost.isSome
    let view := f.cliIpAddr.isSome && f.cliHost.isNone && f.srvIpAddr.isSome && f.srvHost.isNone
    { f with
      cliHost := if hosts then f.srvHost else f.cliHost
      srvHost := if hosts then f.cliHost else f.srvHost
      cliIpAddr := if hosts || view then f.srvIpAddr else f.cliIpAddr
      srvIpAddr := if hosts || view then f.cliIpAddr else f.srvIpAddr
      cliPort := f.srvPort, srvPort := f.cliPort
      srcAS := f.dstAS, dstAS := f.srcAS
      srcPeerAS := f.dstPeerAS, dstPeerAS := f.srcPeerAS
      src2dstTcpFlags := f.dst2srcTcpFlags, dst2srcTcpFlags := f.src2dstTcpFlags
      cliMac := f.srvMac, srvMac := f.cliMac
      stats := f.stats.swap
      alertInfo := { f.alertInfo with
        isCliAttacker := f.alertInfo.isSrvAttacker, isCliVictim := f.alertInfo.isSrvVictim
        isSrvAttacker := f.alertInfo.isCliAttacker, isSrvVictim := f.alertInfo.isCliVictim }
      cli2srvTos := f.srv2cliTos, srv2cliTos := f.cli2srvTos
      tcp := f.tcp.map fun tcp =>
        { tcpSeqS2D := tcp.tcpSeqD2S, tcpSeqD2S := tcp.tcpSeqS2D
          cli2srvWindow := tcp.srv2cliWindow, srv2cliWindow := tcp.cli2srvWindow }
      tcpStatsCli2Srv := if f.tcp.isSome then f.tcpStatsSrv2Cli else f.tcpStatsCli2Srv
      tcpStatsSrv2Cli := if f.tcp.isSome then f.tcpStatsCli2Srv else f.tcpStatsSrv2Cli
      cli2srvPktTime := f.srv2cliPktTime, srv2cliPktTime := f.cli2srvPktTime
      lastDbDumpPartial := f.lastDbDumpPartial.map (·.swap)
      lastDbDumpDelta := f.lastDbDumpDelta.swap
      periodicStatsBase := f.periodicStatsBase.map (·.swap) }

end Flow

/-! ## Runs -/

inductive Ev where
  | incStats (cli2srvDirection : Bool) (pktLen payloadLen scalingFactor : UInt32) (isTcp : Bool) (tcpFlags : UInt8)
      (isFragment : Bool) (when_ : Timeval) (fragmentExtraOverhead : UInt16)
  | addFlowStats (cli2srvDirection : Bool) (inPkts inBytes inGoodputBytes outPkts outBytes outGoodputBytes
      inFragments outFragments : UInt32)
  | updateTcpSeqIssues (retrIn oooIn lostIn retrOut oooOut lostOut : UInt32)
  | updateTcpFlags (flags : UInt8) (src2dstDirection isPacketInterface : Bool)
  | updateTcpWindow (window : UInt16) (src2dstDirection : Bool)
  | updateTcpSeqNum (seqNum : UInt32) (window : UInt16) (flags : UInt8) (payloadLen : UInt16) (src2dstDirection : Bool)
  | allocTCPStats (allocOk : Bool)
  | setFlowTcpWindow (windowVal : UInt16) (client allocOk : Bool)
  | updateTCPStats (cliStats srvStats : UInt32)
  | setTOS (tos : UInt8) (isCliTos : Bool)
  | getAS (src : Bool)
  | setPeerAS (v : UInt32) (src : Bool)
  | setMacRaw (m : List UInt8) (macs : List UInt8 → Option Mac) (cli : Bool)
  | updateHRBytes (v : List UInt64) (updateFirstSeen : Nat) (src2dst : Bool)
  | resetHRCounters
  | setAlertInfo (a : FlowAlert)
  | updatePartialTrafficStatsDbDump (allocOk : Bool)
  | periodicStatsUpdate (allocOk : Bool)
  | swap (flowSwapHeuristic : Bool)

section

variable {α : Type} (env : Env α)

def step (f : Flow α) : Ev → Flow α
  | .incStats dir pktLen payloadLen scalingFactor isTcp flags frag when_ overhead =>
    f.incStats env dir pktLen payloadLen scalingFactor isTcp flags frag when_ overhead
  | .addFlowStats dir ip ib ig op ob og ifr ofr => f.addFlowStats env dir ip ib ig op ob og ifr ofr
  | .updateTcpSeqIssues ri oi li ro oo lo => f.updateTcpSeqIssues ri oi li ro oo lo
  | .updateTcpFlags flags dir isPacketInterface => f.updateTcpFlags flags dir isPacketInterface
  | .updateTcpWindow window dir => f.updateTcpWindow window dir
  | .updateTcpSeqNum seqNum window flags payloadLen dir => f.updateTcpSeqNum seqNum window flags payloadLen dir
  | .allocTCPStats allocOk => f.allocTCPStats allocOk
  | .setFlowTcpWindow windowVal client allocOk => f.setFlowTcpWindow windowVal client allocOk
  | .updateTCPStats cliStats srvStats => f.updateTCPStats cliStats srvStats
  | .setTOS tos isCliTos => f.setTOS tos isCliTos
  | .getAS src => if src then (f.getSrcAS env).2 else (f.getDstAS env).2
  | .setPeerAS v src => if src then f.setSrcPeerAS v else f.setDstPeerAS v
  | .setMacRaw m macs cli => if cli then f.setCliMacRaw m macs else f.setSrvMacRaw m macs
  | .updateHRBytes v firstSeen src2dst =>
    if src2dst then f.updateHRSrc2DstBytes v firstSeen else f.updateHRDst2SrcBytes v firstSeen
  | .resetHRCounters => f.resetHRCounters
  | .setAlertInfo a => f.setAlertInfo a
  | .updatePartialTrafficStatsDbDump allocOk => f.updatePartialTrafficStatsDbDump allocOk
  | .periodicStatsUpdate allocOk => f.periodicStatsUpdate allocOk
  | .swap flowSwapHeuristic => f.swap flowSwapHeuristic

end

/-! ## The exchange -/

def exchangeAlertInfo (i : AlertInfo) : AlertInfo :=
  { isCliAttacker := i.isSrvAttacker, isCliVictim := i.isSrvVictim
    isSrvAttacker := i.isCliAttacker, isSrvVictim := i.isCliVictim, autoAcknowledge := i.autoAcknowledge }

def exchangeAlert (a : FlowAlert) : FlowAlert :=
  { a with
    cliScore := a.srvScore, srvScore := a.cliScore
    isCliAttacker := a.isSrvAttacker, isCliVictim := a.isSrvVictim
    isSrvAttacker := a.isCliAttacker, isSrvVictim := a.isCliVictim
    score_le := Nat.add_comm a.cliScore a.srvScore ▸ a.score_le }

def FlowTCP.exchange (t : FlowTCP) : FlowTCP :=
  { tcpSeqS2D := t.tcpSeqD2S, tcpSeqD2S := t.tcpSeqS2D
    cli2srvWindow := t.srv2cliWindow, srv2cliWindow := t.cli2srvWindow }

/-- The flow with client and server exchanged in every directional field. -/
def Flow.exchange {α : Type} (f : Flow α) : Flow α :=
  { cliHost := f.srvHost, srvHost := f.cliHost
    cliIpAddr := f.srvIpAddr, srvIpAddr := f.cliIpAddr
    src2dstTcpFlags := f.dst2srcTcpFlags, dst2srcTcpFlags := f.src2dstTcpFlags
    tcp := f.tcp.map FlowTCP.exchange
    hrSrc2DstBytes := f.hrDst2SrcBytes, hrDst2SrcBytes := f.hrSrc2DstBytes
    hrBaseFirstSeen := f.hrBaseFirstSeen
    cli2srvTos := f.srv2cliTos, srv2cliTos := f.cli2srvTos
    cliPort := f.srvPort, srvPort := f.cliPort
    srcAS := f.dstAS, dstAS := f.srcAS
    srcASName := f.dstASName, dstASName := f.srcASName
    srcPeerAS := f.dstPeerAS, dstPeerAS := f.srcPeerAS
    cliMac := f.srvMac, srvMac := f.cliMac
    cMac := f.sMac, sMac := f.cMac
    src2dstTcpZeroWindow := f.dst2srcTcpZeroWindow, dst2srcTcpZeroWindow := f.src2dstTcpZeroWindow
    alertInfo := exchangeAlertInfo f.alertInfo
    tcpStatsCli2Srv := f.tcpStatsSrv2Cli, tcpStatsSrv2Cli := f.tcpStatsCli2Srv
    stats := f.stats.swap
    ipStatsS2DPktFrag := f.ipStatsD2SPktFrag, ipStatsD2SPktFrag := f.ipStatsS2DPktFrag
    cli2srvPktTime := f.srv2cliPktTime, srv2cliPktTime := f.cli2srvPktTime
    lastDbDumpPartial := f.lastDbDumpPartial.map (·.swap)
    lastDbDumpDelta := f.lastDbDumpDelta.swap
    periodicStatsBase := f.periodicStatsBase.map (·.swap) }

/-- The same packet or request, with client and server the other way round. -/
def Ev.exchange : Ev → Ev
  | .incStats dir pktLen payloadLen scalingFactor isTcp flags frag when_ overhead =>
    .incStats (!dir) pktLen payloadLen scalingFactor isTcp flags frag when_ overhead
  | .addFlowStats dir ip ib ig op ob og ifr ofr => .addFlowStats (!dir) ip ib ig op ob og ifr ofr
  | .updateTcpSeqIssues ri oi li ro oo lo => .updateTcpSeqIssues ro oo lo ri oi li
  | .updateTcpFlags flags dir isPacketInterface => .updateTcpFlags flags (!dir) isPacketInterface
  | .updateTcpWindow window dir => .updateTcpWindow window (!dir)
  | .updateTcpSeqNum seqNum window flags payloadLen dir => .updateTcpSeqNum seqNum window flags payloadLen (!dir)
  | .allocTCPStats allocOk => .allocTCPStats allocOk
  | .setFlowTcpWindow windowVal client allocOk => .setFlowTcpWindow windowVal (!client) allocOk
  | .updateTCPStats cliStats srvStats => .updateTCPStats srvStats cliStats
  | .setTOS tos isCliTos => .setTOS tos (!isCliTos)
  | .getAS src => .getAS (!src)
  | .setPeerAS v src => .setPeerAS v (!src)
  | .setMacRaw m macs cli => .setMacRaw m macs (!cli)
  | .updateHRBytes v firstSeen src2dst => .updateHRBytes v firstSeen (!src2dst)
  | .resetHRCounters => .resetHRCounters
  | .setAlertInfo a => .setAlertInfo (exchangeAlert a)
  | .updatePartialTrafficStatsDbDump allocOk => .updatePartialTrafficStatsDbDump allocOk
  | .periodicStatsUpdate allocOk => .periodicStatsUpdate allocOk
  | .swap flowSwapHeuristic => .swap flowSwapHeuristic

section

variable {α : Type} (env : Env α)

theorem stats_swap_incStats (s : FlowTrafficStats α) (dir : Bool) (n : UInt32) (b p : UInt64) :
    (s.incStats env dir n b p).swap = s.swap.incStats env (!dir) n b p := by
  cases dir <;> rfl

theorem stats_incStats_comm (s : FlowTrafficStats α) (n n' : UInt32) (b p b' p' : UInt64) :
    (s.incStats env false n b p).incStats env true n' b' p' = (s.incStats env true n' b' p').incStats env false n b p :=
  rfl

theorem stats_swap_update (s : FlowTrafficStats α) (u u' : PartializableFlowTrafficStats → PartializableFlowTrafficStats)
    (h : ∀ t, (u t).swap = u' t.swap) : (s.update u).swap = s.swap.update u' := by
  simp only [FlowTrafficStats.swap, FlowTrafficStats.update, h]

theorem incStats_exchange (f : Flow α) (dir : Bool) (pktLen payloadLen scalingFactor : UInt32) (isTcp : Bool)
    (flags : UInt8) (frag : Bool) (when_ : Timeval) (overhead : UInt16) :
    (f.incStats env dir pktLen payloadLen scalingFactor isTcp flags frag when_ overhead).exchange =
      f.exchange.incStats env (!dir) pktLen payloadLen scalingFactor isTcp flags frag when_ overhead := by
  by_cases h : overhead = 0
  · subst h
    cases dir <;> simp [Flow.incStats, Flow.exchange, stats_swap_incStats]
  · cases dir <;> simp [Flow.incStats, Flow.exchange, stats_swap_incStats, h]

theorem addFlowStats_exchange (f : Flow α) (dir : Bool) (ip ib ig op ob og ifr ofr : UInt32) :
    (f.addFlowStats env dir ip ib ig op ob og ifr ofr).exchange =
      f.exchange.addFlowStats env (!dir) ip ib ig op ob og ifr ofr := by
  by_cases h0 : ib = 0 ∧ ob = 0 ∧ ip = 0 ∧ op = 0
  · simp only [Flow.addFlowStats, if_pos h0]
  · simp only [Flow.addFlowStats, if_neg h0]
    -- the exchanged call counts the two directions in the other order
    by_cases hi : ip = 0 <;> by_cases ho : op = 0 <;> cases dir <;>
      simp [Flow.exchange, stats_swap_incStats, stats_incStats_comm, hi, ho]

theorem updateTcpSeqIssues_exchange (f : Flow α) (ri oi li ro oo lo : UInt32) :
    (f.updateTcpSeqIssues ri oi li ro oo lo).exchange = f.exchange.updateTcpSeqIssues ro oo lo ri oi li := rfl

theorem updateTcpFlags_exchange (f : Flow α) (flags : UInt8) (dir isPacketInterface : Bool) :
    (f.updateTcpFlags flags dir isPacketInterface).exchange = f.exchange.updateTcpFlags flags (!dir) isPacketInterface := by
  cases dir <;> rfl

theorem updateTcpWindow_exchange (f : Flow α) (window : UInt16) (dir : Bool) :
    (f.updateTcpWindow window dir).exchange = f.exchange.updateTcpWindow window (!dir) := by
  unfold Flow.updateTcpWindow
  split
  · rfl
  · cases dir <;> rfl

theorem updateTcpSeqNum_exchange (f : Flow α) (seqNum : UInt32) (window : UInt16) (flags : UInt8)
    (payloadLen : UInt16) (dir : Bool) :
    (f.updateTcpSeqNum seqNum window flags payloadLen dir).exchange =
      f.exchange.updateTcpSeqNum seqNum window flags payloadLen (!dir) := by
  cases ht : f.tcp with
  | none =>
    have ht' : f.exchange.tcp = none := by simp [Flow.exchange, ht]
    simp only [Flow.updateTcpSeqNum, ht, ht']
  | some tcp =>
    have ht' : f.exchange.tcp = some tcp.exchange := by simp [Flow.exchange, ht]
    simp only [Flow.updateTcpSeqNum, ht, ht']
    cases dir <;> rfl

theorem allocTCPStats_exchange (f : Flow α) (allocOk : Bool) :
    (f.allocTCPStats allocOk).exchange = f.exchange.allocTCPStats allocOk := by
  cases ht : f.tcp with
  | none =>
    have ht' : f.exchange.tcp = none := by simp [Flow.exchange, ht]
    simp only [Flow.allocTCPStats, ht, ht']
    split <;> rfl
  | some tcp =>
    have ht' : f.exchange.tcp = some tcp.exchange := by simp [Flow.exchange, ht]
    simp only [Flow.allocTCPStats, ht, ht']

theorem setFlowTcpWindow_exchange (f : Flow α) (windowVal : UInt16) (client allocOk : Bool) :
    (f.setFlowTcpWindow windowVal client allocOk).exchange = f.exchange.setFlowTcpWindow windowVal (!client) allocOk := by
  unfold Flow.setFlowTcpWindow
  rw [← allocTCPStats_exchange]
  generalize f.allocTCPStats allocOk = g
  simp only [Flow.exchange, Option.map_map]
  cases client <;> rfl

theorem updateTCPStats_exchange (f : Flow α) (cliStats srvStats : UInt32) :
    (f.updateTCPStats cliStats srvStats).exchange = f.exchange.updateTCPStats srvStats cliStats := rfl

theorem setTOS_exchange (f : Flow α) (tos : UInt8) (isCliTos : Bool) :
    (f.setTOS tos isCliTos).exchange = f.exchange.setTOS tos (!isCliTos) := by
  cases isCliTos <;> rfl

theorem getSrcAS_exchange (f : Flow α) : (f.getSrcAS env).2.exchange = (f.exchange.getDstAS env).2 := by
  have has : f.exchange.dstAS = f.srcAS := rfl
  have hhost : f.exchange.srvHost = f.cliHost := rfl
  simp only [Flow.getSrcAS, Flow.getDstAS, has, hhost]
  split
  · rfl
  · cases f.cliHost <;> rfl

theorem getDstAS_exchange (f : Flow α) : (f.getDstAS env).2.exchange = (f.exchange.getSrcAS env).2 := by
  have has : f.exchange.srcAS = f.dstAS := rfl
  have hhost : f.exchange.cliHost = f.srvHost := rfl
  simp only [Flow.getSrcAS, Flow.getDstAS, has, hhost]
  split
  · rfl
  · cases f.srvHost <;> rfl

theorem setPeerAS_exchange (f : Flow α) (v : UInt32) :
    (f.setSrcPeerAS v).exchange = f.exchange.setDstPeerAS v ∧ (f.setDstPeerAS v).exchange = f.exchange.setSrcPeerAS v := by
  have has : f.exchange.dstAS = f.srcAS := rfl
  have had : f.exchange.srcAS = f.dstAS := rfl
  unfold Flow.setSrcPeerAS Flow.setDstPeerAS
  rw [has, had]
  constructor <;> split <;> rfl

theorem setAlertInfo_exchange (f : Flow α) (a : FlowAlert) :
    (f.setAlertInfo a).exchange = f.exchange.setAlertInfo (exchangeAlert a) := rfl

theorem getPartialTrafficStats_exchange (f : Flow α) (base : Option PartializableFlowTrafficStats) (allocOk : Bool) :
    f.exchange.getPartialTrafficStats (base.map (·.swap)) allocOk =
      (f.getPartialTrafficStats base allocOk).map fun p => (p.1.swap, p.2.swap) := by
  cases base with
  | none => cases allocOk <;> rfl
  | some base => rfl

theorem updatePartialTrafficStatsDbDump_exchange (f : Flow α) (allocOk : Bool) :
    (f.updatePartialTrafficStatsDbDump allocOk).exchange = f.exchange.updatePartialTrafficStatsDbDump allocOk := by
  have hbase : f.exchange.lastDbDumpPartial = f.lastDbDumpPartial.map (·.swap) := rfl
  simp only [Flow.updatePartialTrafficStatsDbDump, hbase, getPartialTrafficStats_exchange]
  cases f.getPartialTrafficStats f.lastDbDumpPartial allocOk <;> rfl

theorem periodicStatsUpdate_exchange (f : Flow α) (allocOk : Bool) :
    (f.periodicStatsUpdate allocOk).exchange = f.exchange.periodicStatsUpdate allocOk := by
  have hbase : f.exchange.periodicStatsBase = f.periodicStatsBase.map (·.swap) := rfl
  simp only [Flow.periodicStatsUpdate, hbase, getPartialTrafficStats_exchange]
  cases f.getPartialTrafficStats f.periodicStatsBase allocOk <;> rfl

theorem swap_exchange (f : Flow α) (flowSwapHeuristic : Bool) :
    (f.swap flowSwapHeuristic).exchange = f.exchange.swap flowSwapHeuristic := by
  cases flowSwapHeuristic with
  | false => rfl
  | true =>
    obtain ⟨cliHost, srvHost, cliIpAddr, srvIpAddr, _, _, tcp⟩ := f
    cases cliHost <;> cases srvHost <;> cases cliIpAddr <;> cases srvIpAddr <;> cases tcp <;> rfl

/-- The updates do not know which side is the client. -/
theorem step_exchange (f : Flow α) (e : Ev) : (step env f e).exchange = step env f.exchange e.exchange := by
  cases e with
  | incStats => exact incStats_exchange env ..
  | addFlowStats => exact addFlowStats_exchange env ..
  | updateTcpSeqIssues => exact updateTcpSeqIssues_exchange ..
  | updateTcpFlags => exact updateTcpFlags_exchange ..
  | updateTcpWindow => exact updateTcpWindow_exchange ..
  | updateTcpSeqNum => exact updateTcpSeqNum_exchange ..
  | allocTCPStats => exact allocTCPStats_exchange ..
  | setFlowTcpWindow => exact setFlowTcpWindow_exchange ..
  | updateTCPStats => exact updateTCPStats_exchange ..
  | setTOS => exact setTOS_exchange ..
  | getAS src =>
    cases src
    · exact getDstAS_exchange env f
    · exact getSrcAS_exchange env f
  | setPeerAS v src =>
    cases src
    · exact (setPeerAS_exchange f v).2
    · exact (setPeerAS_exchange f v).1
  | setMacRaw m macs cli => cases cli <;> rfl
  | updateHRBytes v firstSeen src2dst => cases src2dst <;> rfl
  | resetHRCounters => rfl
  | setAlertInfo => exact setAlertInfo_exchange ..
  | updatePartialTrafficStatsDbDump => exact updatePartialTrafficStatsDbDump_exchange ..
  | periodicStatsUpdate => exact periodicStatsUpdate_exchange ..
  | swap => exact swap_exchange ..

/-! ## What swap does -/

/-- What `swap` leaves alone is the same on both sides. -/
structure LeftEqual (f : Flow α) : Prop where
  peers : (f.cliHost.isSome ∧ f.srvHost.isSome) ∨
    (f.cliHost = none ∧ f.srvHost = none ∧ f.cliIpAddr.isSome ∧ f.srvIpAddr.isSome) ∨
    (f.cliHost = f.srvHost ∧ f.cliIpAddr = f.srvIpAddr)
  asNames : f.srcASName = f.dstASName
  macs : f.cMac = f.sMac
  zeroWindow : f.src2dstTcpZeroWindow = f.dst2srcTcpZeroWindow
  fragments : f.ipStatsS2DPktFrag = f.ipStatsD2SPktFrag
  hrBytes : f.hrSrc2DstBytes = f.hrDst2SrcBytes
  tcpStats : f.tcp.isSome ∨ f.tcpStatsCli2Srv = f.tcpStatsSrv2Cli

/-- Both peers are hosts. -/
def bothHosts (f : Flow α) : Bool := f.cliHost.isSome && f.srvHost.isSome

/-- Both peers are addresses without a host. -/
def bothAddresses (f : Flow α) : Bool :=
  f.cliIpAddr.isSome && f.cliHost.isNone && f.srvIpAddr.isSome && f.srvHost.isNone

/-- `swap` is the exchange but for these fields. -/
theorem swap_true (f : Flow α) : f.swap true =
    { f.exchange with
      cliHost := if bothHosts f then f.srvHost else f.cliHost
      srvHost := if bothHosts f then f.cliHost else f.srvHost
      cliIpAddr := if bothHosts f || bothAddresses f then f.srvIpAddr else f.cliIpAddr
      srvIpAddr := if bothHosts f || bothAddresses f then f.cliIpAddr else f.srvIpAddr
      hrSrc2DstBytes := f.hrSrc2DstBytes, hrDst2SrcBytes := f.hrDst2SrcBytes
      srcASName := f.srcASName, dstASName := f.dstASName
      cMac := f.cMac, sMac := f.sMac
      src2dstTcpZeroWindow := f.src2dstTcpZeroWindow, dst2srcTcpZeroWindow := f.dst2srcTcpZeroWindow
      tcpStatsCli2Srv := if f.tcp.isSome then f.tcpStatsSrv2Cli else f.tcpStatsCli2Srv
      tcpStatsSrv2Cli := if f.tcp.isSome then f.tcpStatsCli2Srv else f.tcpStatsSrv2Cli
      ipStatsS2DPktFrag := f.ipStatsS2DPktFrag, ipStatsD2SPktFrag := f.ipStatsD2SPktFrag } := rfl

theorem leftEqual_of_swap {f : Flow α} (h : f.swap true = f.exchange) : LeftEqual f where
  peers := by
    have hhost : (f.swap true).cliHost = f.srvHost := congrArg Flow.cliHost h
    have hip : (f.swap true).cliIpAddr = f.srvIpAddr := congrArg Flow.cliIpAddr h
    rw [swap_true] at hhost hip
    simp only at hhost hip
    by_cases hb : bothHosts f
    · exact .inl (by simpa [bothHosts] using hb)
    by_cases ha : bothAddresses f
    · simp only [bothAddresses, Bool.and_eq_true, Option.isNone_iff_eq_none] at ha
      exact .inr (.inl ⟨ha.1.1.2, ha.2, ha.1.1.1, ha.1.2⟩)
    · rw [if_neg hb] at hhost
      rw [if_neg (by simp [hb, ha])] at hip
      exact .inr (.inr ⟨hhost, hip⟩)
  asNames := congrArg Flow.srcASName h
  macs := congrArg Flow.cMac h
  zeroWindow := congrArg Flow.src2dstTcpZeroWindow h
  fragments := congrArg Flow.ipStatsS2DPktFrag h
  hrBytes := congrArg Flow.hrSrc2DstBytes h
  tcpStats := by
    have ht : (if f.tcp.isSome then f.tcpStatsSrv2Cli else f.tcpStatsCli2Srv) = f.tcpStatsSrv2Cli :=
      congrArg Flow.tcpStatsCli2Srv h
    by_cases hs : f.tcp.isSome
    · exact .inl hs
    · rw [if_neg hs] at ht
      exact .inr ht

theorem swap_of_leftEqual {f : Flow α} (h : LeftEqual f) : f.swap true = f.exchange := by
  obtain ⟨hpeers, hnames, hmacs, hzero, hfrag, hhr, htcp⟩ := h
  have htcp' : ∀ a b : TCPStats, f.tcp.isSome ∨ a = b → (if f.tcp.isSome then b else a) = b := by
    rintro a b (ht | rfl)
    · rw [if_pos ht]
    · rw [ite_self]
  rw [swap_true, htcp' _ _ htcp, htcp' _ _ (htcp.imp_right Eq.symm)]
  simp only [Flow.exchange, hnames, hmacs, hzero, hfrag, hhr, bothHosts, bothAddresses]
  rcases hpeers with ⟨hc, hs⟩ | ⟨hc, hs, hci, hsi⟩ | ⟨he, hi⟩
  · simp [hc, hs]
  · simp [hc, hs, hci, hsi]
  · simp [he, hi]

theorem map_swap_swap (base : Option PartializableFlowTrafficStats) :
    (base.map (·.swap)).map (·.swap) = base := by
  cases base <;> rfl

theorem swap_swap_peers (f : Flow α) :
    ((f.swap true).swap true).cliHost = f.cliHost ∧ ((f.swap true).swap true).srvHost = f.srvHost ∧
      ((f.swap true).swap true).cliIpAddr = f.cliIpAddr ∧ ((f.swap true).swap true).srvIpAddr = f.srvIpAddr := by
  obtain ⟨cliHost, srvHost, cliIpAddr, srvIpAddr, _⟩ := f
  cases cliHost <;> cases srvHost <;> cases cliIpAddr <;> cases srvIpAddr <;> exact ⟨rfl, rfl, rfl, rfl⟩

theorem swap_swap_tcp (f : Flow α) :
    ((f.swap true).swap true).tcp = f.tcp ∧ ((f.swap true).swap true).tcpStatsCli2Srv = f.tcpStatsCli2Srv ∧
      ((f.swap true).swap true).tcpStatsSrv2Cli = f.tcpStatsSrv2Cli := by
  obtain ⟨_, _, _, _, _, _, tcp, _⟩ := f
  cases tcp <;> exact ⟨rfl, rfl, rfl⟩

/-- Two swaps restore the flow. -/
theorem swap_swap (f : Flow α) : (f.swap true).swap true = f := by
  obtain ⟨h1, h2, h3, h4⟩ := swap_swap_peers f
  obtain ⟨h5, h6, h7⟩ := swap_swap_tcp f
  exact Flow.ext h1 h2 h3 h4 rfl rfl h5 rfl rfl rfl rfl rfl rfl rfl rfl rfl rfl rfl rfl rfl rfl rfl rfl rfl rfl rfl rfl h6 h7
    rfl rfl rfl rfl rfl (map_swap_swap _) rfl (map_swap_swap _)

/-- Whatever `swap` leaves alone, it exchanges both partial statistics. -/
theorem partials_swap (f : Flow α) (allocOk : Bool) :
    (f.swap true).getPartialTrafficStats (f.swap true).lastDbDumpPartial allocOk =
        (f.getPartialTrafficStats f.lastDbDumpPartial allocOk).map (fun p => (p.1.swap, p.2.swap)) ∧
      (f.swap true).getPartialTrafficStats (f.swap true).periodicStatsBase allocOk =
        (f.getPartialTrafficStats f.periodicStatsBase allocOk).map fun p => (p.1.swap, p.2.swap) :=
  ⟨getPartialTrafficStats_exchange f f.lastDbDumpPartial allocOk,
    getPartialTrafficStats_exchange f f.periodicStatsBase allocOk⟩

/-- The flow after its swap is the exchanged one; swapping again restores it; and what is then taken as a partial
    statistic, at once or after more packets, is what the exchanged flow would have given. -/
structure Exchanges (f : Flow α) (evs : List Ev) : Prop where
  state : (run (step env) f evs).swap true = run (step env) f.exchange (evs.map Ev.exchange)
  restored : ((run (step env) f evs).swap true).swap true = run (step env) f evs
  partials : ∀ (later : List Ev) (allocOk : Bool),
    let a := run (step env) ((run (step env) f evs).swap true) later
    let b := run (step env) (run (step env) f.exchange (evs.map Ev.exchange)) later
    a.getPartialTrafficStats a.lastDbDumpPartial allocOk = b.getPartialTrafficStats b.lastDbDumpPartial allocOk ∧
      a.getPartialTrafficStats a.periodicStatsBase allocOk = b.getPartialTrafficStats b.periodicStatsBase allocOk

/-- At any point of any sequence of updates, `swap` gives the accounting of the exchanged flow exactly when the pairs
    that it leaves alone are equal. -/
theorem swap_exchanges_iff (f : Flow α) (evs : List Ev) :
    Exchanges env f evs ↔ LeftEqual (run (step env) f evs) := by
  have hrun : (run (step env) f evs).exchange = run (step env) f.exchange (evs.map Ev.exchange) :=
    run_map (step env) (step_exchange env) f evs
  constructor
  · intro h
    exact leftEqual_of_swap (h.state.trans hrun.symm)
  · intro h
    have hstate := (swap_of_leftEqual h).trans hrun
    refine ⟨hstate, swap_swap _, fun later allocOk => ?_⟩
    rw [hstate]
    exact ⟨rfl, rfl⟩

/-- A new TCP flow of a packet interface. -/
def newFlow (cliHost srvHost : Host) (cliPort srvPort : UInt16) (cliMac srvMac : List UInt8)
    (macs : List UInt8 → Option Mac) : Flow α :=
  { cliHost := some cliHost, srvHost := some srvHost, cliIpAddr := some cliHost.ip, srvIpAddr := some srvHost.ip
    src2dstTcpFlags := 0, dst2srcTcpFlags := 0, tcp := some ⟨⟨0, 0⟩, ⟨0, 0⟩, 0, 0⟩
    hrSrc2DstBytes := [], hrDst2SrcBytes := [], hrBaseFirstSeen := 0, cli2srvTos := 0, srv2cliTos := 0
    cliPort := cliPort, srvPort := srvPort, srcAS := 0, dstAS := 0, srcASName := none, dstASName := none
    srcPeerAS := 0, dstPeerAS := 0, cliMac := cliMac, srvMac := srvMac, cMac := macs cliMac, sMac := macs srvMac
    src2dstTcpZeroWindow := false, dst2srcTcpZeroWindow := false
    alertInfo := ⟨false, false, false, false, true⟩, tcpStatsCli2Srv := ⟨0, 0, 0, 0⟩, tcpStatsSrv2Cli := ⟨0, 0, 0, 0⟩
    stats :=
      { PartializableFlowTrafficStats.zero with
        cli2srvBytesStats := env.initDataAnalysis, srv2cliBytesStats := env.initDataAnalysis }
    ipStatsS2DPktFrag := 0, ipStatsD2SPktFrag := 0
    cli2srvPktTime := some ⟨⟨0, 0⟩, env.initDataAnalysis⟩, srv2cliPktTime := some ⟨⟨0, 0⟩, env.initDataAnalysis⟩
    lastDbDumpPartial := none, lastDbDumpDelta := .zero, periodicStatsBase := none }

/-- The client announces a window of 0: after the swap it is still the client that did, though it is the server. -/
theorem swap_keeps_zero_window :
    ¬ ∀ (α : Type) (env : Env α) (cliHost srvHost : Host) (cliPort srvPort : UInt16) (cliMac srvMac : List UInt8)
      (macs : List UInt8 → Option Mac) (evs : List Ev),
      Exchanges env (newFlow env cliHost srvHost cliPort srvPort cliMac srvMac macs) evs := by
  intro hall
  have hstate := (hall Unit ⟨(), fun _ _ => (), fun _ _ => none, fun _ => (0, none)⟩ ⟨1, 0, none⟩ ⟨2, 0, none⟩ 40000 443
    [] [] (fun _ => none) [.updateTcpWindow 0 true]).state
  have hzero := congrArg Flow.src2dstTcpZeroWindow hstate
  exact absurd hzero (by decide)

end

end Ntopng.Flows.Swap
