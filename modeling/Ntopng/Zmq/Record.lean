/-
  Ntopng.Zmq.Record — the record of a collected flow and its swap
  (`ParsedFlow::swap`, src/ParsedFlow.cpp, src/ParsedFlowCore.cpp, include/ParsedFlow.h,
  include/ParsedFlowCore.h, include/ParsedeBPF.h).

  The record has all the fields of the three classes. `swap` exchanges the pairs of
  `ParsedFlowCore` one by one, but for the TOS, and the two QoE values; of the eBPF
  information it turns a marker, and the other pairs it leaves.

  Proved (`swap_reverses_iff`): the record is turned round exactly when the heuristic is
  enabled, or the pairs it exchanges are alike, and the pairs it leaves are alike; swapping
  twice always gives the record back.
-/

import Mathlib
import Ntopng.Collect.ProcessFlow

namespace Ntopng.Zmq

open Ntopng.Flows.Swap (Timeval)
open Ntopng.Collect (TcpInfo ParsedeBPF Bgp Qoe)

/-! ## Addresses -/

/-- `ipType` is a union: an IPv4 address is in the first of the 16 bytes, in network byte order. -/
structure IpAddress where
  ipVersion : Nat
  multicastIP : Bool
  broadcastIP : Bool
  ipType : List UInt8
  deriving DecidableEq, Repr

/-- The constructor. -/
def IpAddress.unset : IpAddress := ⟨0, false, false, List.replicate 16 0⟩

/-- `struct ndpi_in6_addr`, 16 bytes; an IPv4 address is mapped. -/
abbrev In6Addr := List UInt8

abbrev Mac := List UInt8

/-! ## The record -/

structure ParsedFlowCore where
  srcMac : Mac
  dstMac : Mac
  direction : UInt8
  srcTos : UInt8
  dstTos : UInt8
  srcIp : IpAddress
  dstIp : IpAddress
  firstSwitched : UInt32
  lastSwitched : UInt32
  observationPointId : UInt16
  icmpTypeCode : UInt16
  version : UInt8
  l4Proto : UInt8
  exporterDeviceIp : In6Addr
  mappedExporterDeviceIp : In6Addr
  exporterSiteId : UInt16
  nextHop : In6Addr
  mappedNextHop : In6Addr
  nextHopSiteId : UInt16
  nprobeIp : In6Addr
  uniqueSourceId : UInt32
  nprobeSourceId : UInt32
  srcPort : UInt16
  dstPort : UInt16
  inIndex : UInt32
  outIndex : UInt32
  masterProtocol : UInt16
  appProtocol : UInt16
  vlanId : UInt16
  pktSamplingRate : UInt16
  inPkts : UInt32
  inBytes : UInt32
  outPkts : UInt32
  outBytes : UInt32
  vrfId : UInt32
  inFragments : UInt32
  outFragments : UInt32
  srcAs : UInt32
  dstAs : UInt32
  prevAdjacentAs : UInt32
  nextAdjacentAs : UInt32
  absolutePacketOctetCounters : Bool
  tcp : TcpInfo
  deriving DecidableEq, Repr

structure CustomApp where
  pen : UInt32
  appId : UInt16
  remappedAppId : Int
  deriving DecidableEq, Repr

structure ParsedFlow extends ParsedFlowCore, ParsedeBPF where
  hasParsedeBPF : Bool
  isSwapped : Bool
  additionalFieldsJson : Option String
  additionalFieldsTlv : Option String
  l7Info : Option String
  httpUrl : Option String
  httpSite : Option String
  httpUserAgent : Option String
  dhcpClientName : Option String
  sipCallId : Option String
  httpMethod : Nat
  dnsQuery : Option String
  endReason : Option String
  tlsServerName : Option String
  bittorrentHash : Option String
  tcpFingerprint : Option String
  ja4cHash : Option String
  flowRiskInfo : Option String
  externalAlert : Option String
  l7Json : Option String
  otInfo : Option String
  smtpRcpTo : Option String
  smtpMailFrom : Option String
  srcIpAddrPreNat : UInt32
  dstIpAddrPreNat : UInt32
  srcIpAddrPostNat : UInt32
  dstIpAddrPostNat : UInt32
  tcpStatsSrcToDst : UInt32
  tcpStatsDstToSrc : UInt32
  tlsUnsafeCipher : UInt8
  flowVerdict : UInt8
  osHint : Nat
  tlsCipher : UInt16
  httpRetCode : UInt16
  dnsQueryType : UInt16
  dnsRetCode : UInt16
  dnsQueryId : UInt16
  l7ErrorCode : UInt32
  srcPortPreNat : UInt16
  dstPortPreNat : UInt16
  srcPortPostNat : UInt16
  dstPortPostNat : UInt16
  customApp : CustomApp
  confidence : Nat
  ndpiFlowRiskBitmap : UInt64
  ndpiFlowRiskName : Option String
  flowSource : Nat
  wlanSsid : Option String
  bgp : Bgp
  wtpMacAddress : Mac
  qoe : Qoe
  hrSrcToDstBytes : Option String
  hrDstToSrcBytes : Option String
  deriving DecidableEq, Repr

def noAddress : In6Addr := List.replicate 16 0

def noMac : Mac := List.replicate 6 0

def ParsedFlowCore.init : ParsedFlowCore :=
  { srcMac := noMac, dstMac := noMac, direction := 0, srcTos := 0, dstTos := 0, srcIp := .unset, dstIp := .unset
    firstSwitched := 0, lastSwitched := 0, observationPointId := 0, icmpTypeCode := 0, version := 0, l4Proto := 0
    exporterDeviceIp := noAddress, mappedExporterDeviceIp := noAddress, exporterSiteId := 0
    nextHop := noAddress, mappedNextHop := noAddress, nextHopSiteId := 0, nprobeIp := noAddress
    uniqueSourceId := 0, nprobeSourceId := 0, srcPort := 0, dstPort := 0, inIndex := 0, outIndex := 0
    masterProtocol := 0, appProtocol := 0, vlanId := 0, pktSamplingRate := 1
    inPkts := 0, inBytes := 0, outPkts := 0, outBytes := 0, vrfId := 0, inFragments := 0, outFragments := 0
    srcAs := 0, dstAs := 0, prevAdjacentAs := 0, nextAdjacentAs := 0, absolutePacketOctetCounters := false
    tcp := Collect.ParsedFlow.init.tcp }

/-- The constructor. -/
def ParsedFlow.init : ParsedFlow :=
  { toParsedFlowCore := .init, toParsedeBPF := .init
    hasParsedeBPF := false, isSwapped := false, additionalFieldsJson := none, additionalFieldsTlv := none
    l7Info := none, httpUrl := none, httpSite := none, httpUserAgent := none, dhcpClientName := none
    sipCallId := none, httpMethod := 0, dnsQuery := none, endReason := none, tlsServerName := none
    bittorrentHash := none, tcpFingerprint := none, ja4cHash := none, flowRiskInfo := none, externalAlert := none
    l7Json := none, otInfo := none, smtpRcpTo := none, smtpMailFrom := none
    srcIpAddrPreNat := 0, dstIpAddrPreNat := 0, srcIpAddrPostNat := 0, dstIpAddrPostNat := 0
    tcpStatsSrcToDst := 0, tcpStatsDstToSrc := 0, tlsUnsafeCipher := 0, flowVerdict := 0, osHint := 0
    tlsCipher := 0, httpRetCode := 0, dnsQueryType := 0, dnsRetCode := 0, dnsQueryId := 0, l7ErrorCode := 0
    srcPortPreNat := 0, dstPortPreNat := 0, srcPortPostNat := 0, dstPortPostNat := 0
    customApp := ⟨0, 0, 0⟩, confidence := 0, ndpiFlowRiskBitmap := 0, ndpiFlowRiskName := none, flowSource := 0
    wlanSsid := none, bgp := ⟨none, none⟩, wtpMacAddress := noMac, qoe := ⟨0, 0⟩
    hrSrcToDstBytes := none, hrDstToSrcBytes := none }

/-! ## The swap -/

def ParsedFlowCore.swap (z : ParsedFlowCore) : ParsedFlowCore :=
  { z with
    srcMac := z.dstMac, dstMac := z.srcMac
    srcIp := z.dstIp, dstIp := z.srcIp
    srcPort := z.dstPort, dstPort := z.srcPort
    inIndex := z.outIndex, outIndex := z.inIndex
    inBytes := z.outBytes, outBytes := z.inBytes
    inPkts := z.outPkts, outPkts := z.inPkts
    inFragments := z.outFragments, outFragments := z.inFragments
    srcAs := z.dstAs, dstAs := z.srcAs
    prevAdjacentAs := z.nextAdjacentAs, nextAdjacentAs := z.prevAdjacentAs
    tcp :=
      { z.tcp with
        clientTcpFlags := z.tcp.serverTcpFlags, serverTcpFlags := z.tcp.clientTcpFlags
        oooInPkts := z.tcp.oooOutPkts, oooOutPkts := z.tcp.oooInPkts
        retrInPkts := z.tcp.retrOutPkts, retrOutPkts := z.tcp.retrInPkts
        lostInPkts := z.tcp.lostOutPkts, lostOutPkts := z.tcp.lostInPkts
        clientNwLatency := z.tcp.serverNwLatency, serverNwLatency := z.tcp.clientNwLatency
        inWindow := z.tcp.outWindow, outWindow := z.tcp.inWindow } }

/-- `enabled` is the preference of the swap heuristic. -/
def ParsedFlow.swap (enabled : Bool) (z : ParsedFlow) : ParsedFlow :=
  if enabled then
    { z with
      toParsedFlowCore := z.toParsedFlowCore.swap
      toParsedeBPF := z.toParsedeBPF.swap
      qoe := ⟨z.qoe.dstToSrc, z.qoe.srcToDst⟩
      isSwapped := true }
  else z

/-! ## The record the other way round -/

/-- Every pair exchanged, and nothing else. -/
def ParsedFlow.reversed (z : ParsedFlow) : ParsedFlow :=
  { z with
    toParsedFlowCore := { z.toParsedFlowCore.swap with srcTos := z.dstTos, dstTos := z.srcTos }
    toParsedeBPF := z.toParsedeBPF.exchange
    srcIpAddrPreNat := z.dstIpAddrPreNat, dstIpAddrPreNat := z.srcIpAddrPreNat
    srcIpAddrPostNat := z.dstIpAddrPostNat, dstIpAddrPostNat := z.srcIpAddrPostNat
    srcPortPreNat := z.dstPortPreNat, dstPortPreNat := z.srcPortPreNat
    srcPortPostNat := z.dstPortPostNat, dstPortPostNat := z.srcPortPostNat
    tcpStatsSrcToDst := z.tcpStatsDstToSrc, tcpStatsDstToSrc := z.tcpStatsSrcToDst
    bgp := ⟨z.bgp.dst, z.bgp.src⟩
    qoe := ⟨z.qoe.dstToSrc, z.qoe.srcToDst⟩
    hrSrcToDstBytes := z.hrDstToSrcBytes, hrDstToSrcBytes := z.hrSrcToDstBytes }

/-- The record without the two markers of a swap. -/
def ParsedFlow.unmarked (z : ParsedFlow) : ParsedFlow := { z with isSwapped := false, serverInfo := false }

/-- The record is turned round, and back when it is swapped again. -/
structure Reverses (enabled : Bool) (z : ParsedFlow) : Prop where
  once : (z.swap enabled).unmarked = z.reversed.unmarked
  twice : { (z.swap enabled).swap enabled with isSwapped := z.isSwapped } = z

/-- The pairs that are exchanged. -/
structure ExchangedAlike (z : ParsedFlow) : Prop where
  mac : z.srcMac = z.dstMac
  ip : z.srcIp = z.dstIp
  port : z.srcPort = z.dstPort
  index : z.inIndex = z.outIndex
  bytes : z.inBytes = z.outBytes
  pkts : z.inPkts = z.outPkts
  fragments : z.inFragments = z.outFragments
  asn : z.srcAs = z.dstAs
  adjacentAs : z.prevAdjacentAs = z.nextAdjacentAs
  tcpFlags : z.tcp.clientTcpFlags = z.tcp.serverTcpFlags
  ooo : z.tcp.oooInPkts = z.tcp.oooOutPkts
  retr : z.tcp.retrInPkts = z.tcp.retrOutPkts
  lost : z.tcp.lostInPkts = z.tcp.lostOutPkts
  latency : z.tcp.clientNwLatency = z.tcp.serverNwLatency
  window : z.tcp.inWindow = z.tcp.outWindow
  qoe : z.qoe.srcToDst = z.qoe.dstToSrc

/-- The pairs that are left as they are. -/
structure LeftAlike (z : ParsedFlow) : Prop where
  tos : z.srcTos = z.dstTos
  process : z.srcProcessInfo = z.dstProcessInfo
  container : z.srcContainerInfo = z.dstContainerInfo
  tcpInfo : z.srcTcpInfo = z.dstTcpInfo
  ipPreNat : z.srcIpAddrPreNat = z.dstIpAddrPreNat
  ipPostNat : z.srcIpAddrPostNat = z.dstIpAddrPostNat
  portPreNat : z.srcPortPreNat = z.dstPortPreNat
  portPostNat : z.srcPortPostNat = z.dstPortPostNat
  tcpStats : z.tcpStatsSrcToDst = z.tcpStatsDstToSrc
  bgp : z.bgp.src = z.bgp.dst
  hrBytes : z.hrSrcToDstBytes = z.hrDstToSrcBytes

theorem swap_twice (enabled : Bool) (z : ParsedFlow) :
    { (z.swap enabled).swap enabled with isSwapped := z.isSwapped } = z := by
  cases enabled with
  | false => rfl
  | true =>
    have hserver : (!!z.serverInfo) = z.serverInfo := Bool.not_not _
    unfold ParsedFlow.swap ParsedFlowCore.swap ParsedeBPF.swap
    simp only [if_true, hserver]

/-- Enabled, it remains to exchange the pairs that are left. -/
theorem swap_eq_reversed_iff (z : ParsedFlow) : (z.swap true).unmarked = z.reversed.unmarked ↔ LeftAlike z := by
  constructor
  · intro h
    have hcore := congrArg ParsedFlow.toParsedFlowCore h
    have hebpf := congrArg ParsedFlow.toParsedeBPF h
    constructor
    · exact congrArg ParsedFlowCore.srcTos hcore
    · exact congrArg ParsedeBPF.srcProcessInfo hebpf
    · exact congrArg ParsedeBPF.srcContainerInfo hebpf
    · exact congrArg ParsedeBPF.srcTcpInfo hebpf
    · exact congrArg ParsedFlow.srcIpAddrPreNat h
    · exact congrArg ParsedFlow.srcIpAddrPostNat h
    · exact congrArg ParsedFlow.srcPortPreNat h
    · exact congrArg ParsedFlow.srcPortPostNat h
    · exact congrArg ParsedFlow.tcpStatsSrcToDst h
    · exact congrArg Bgp.src (congrArg ParsedFlow.bgp h)
    · exact congrArg ParsedFlow.hrSrcToDstBytes h
  · intro h
    have hbgp : (⟨z.bgp.dst, z.bgp.src⟩ : Bgp) = z.bgp := by
      rw [← h.bgp]
      exact congrArg (Bgp.mk z.bgp.src) h.bgp
    unfold ParsedFlow.swap ParsedFlow.reversed ParsedFlow.unmarked ParsedFlowCore.swap ParsedeBPF.swap ParsedeBPF.exchange
    simp only [if_true, hbgp, h.tos, h.process, h.container, h.tcpInfo, h.ipPreNat, h.ipPostNat, h.portPreNat,
      h.portPostNat, h.tcpStats, h.hrBytes]

theorem tcp_alike {t : TcpInfo} (hflags : t.clientTcpFlags = t.serverTcpFlags) (hooo : t.oooInPkts = t.oooOutPkts)
    (hretr : t.retrInPkts = t.retrOutPkts) (hlost : t.lostInPkts = t.lostOutPkts)
    (hlatency : t.clientNwLatency = t.serverNwLatency) (hwindow : t.inWindow = t.outWindow) :
    { t with
      clientTcpFlags := t.serverTcpFlags, serverTcpFlags := t.clientTcpFlags
      oooInPkts := t.oooOutPkts, oooOutPkts := t.oooInPkts
      retrInPkts := t.retrOutPkts, retrOutPkts := t.retrInPkts
      lostInPkts := t.lostOutPkts, lostOutPkts := t.lostInPkts
      clientNwLatency := t.serverNwLatency, serverNwLatency := t.clientNwLatency
      inWindow := t.outWindow, outWindow := t.inWindow } = t := by
  cases t
  simp only at hflags hooo hretr hlost hlatency hwindow
  simp only [hflags, hooo, hretr, hlost, hlatency, hwindow]

theorem core_swap_alike {z : ParsedFlow} (h : ExchangedAlike z) : z.toParsedFlowCore.swap = z.toParsedFlowCore := by
  have htcp := tcp_alike h.tcpFlags h.ooo h.retr h.lost h.latency h.window
  unfold ParsedFlowCore.swap
  rw [htcp]
  rcases z with ⟨core, _⟩
  obtain ⟨hmac, hip, hport, hindex, hbytes, hpkts, hfragments, hasn, hadjacent, _⟩ := h
  cases core
  simp only at hmac hip hport hindex hbytes hpkts hfragments hasn hadjacent
  simp only [hmac, hip, hport, hindex, hbytes, hpkts, hfragments, hasn, hadjacent]

/-- Disabled, the record is its own reverse when nothing tells its sides apart. -/
theorem eq_reversed_iff (z : ParsedFlow) :
    z.unmarked = z.reversed.unmarked ↔ ExchangedAlike z ∧ LeftAlike z := by
  constructor
  · intro h
    have hcore := congrArg ParsedFlow.toParsedFlowCore h
    have hebpf := congrArg ParsedFlow.toParsedeBPF h
    have htcp := congrArg ParsedFlowCore.tcp hcore
    constructor
    · constructor
      · exact congrArg ParsedFlowCore.srcMac hcore
      · exact congrArg ParsedFlowCore.srcIp hcore
      · exact congrArg ParsedFlowCore.srcPort hcore
      · exact congrArg ParsedFlowCore.inIndex hcore
      · exact congrArg ParsedFlowCore.inBytes hcore
      · exact congrArg ParsedFlowCore.inPkts hcore
      · exact congrArg ParsedFlowCore.inFragments hcore
      · exact congrArg ParsedFlowCore.srcAs hcore
      · exact congrArg ParsedFlowCore.prevAdjacentAs hcore
      · exact congrArg TcpInfo.clientTcpFlags htcp
      · exact congrArg TcpInfo.oooInPkts htcp
      · exact congrArg TcpInfo.retrInPkts htcp
      · exact congrArg TcpInfo.lostInPkts htcp
      · exact congrArg TcpInfo.clientNwLatency htcp
      · exact congrArg TcpInfo.inWindow htcp
      · exact congrArg Qoe.srcToDst (congrArg ParsedFlow.qoe h)
    · constructor
      · exact congrArg ParsedFlowCore.srcTos hcore
      · exact congrArg ParsedeBPF.srcProcessInfo hebpf
      · exact congrArg ParsedeBPF.srcContainerInfo hebpf
      · exact congrArg ParsedeBPF.srcTcpInfo hebpf
      · exact congrArg ParsedFlow.srcIpAddrPreNat h
      · exact congrArg ParsedFlow.srcIpAddrPostNat h
      · exact congrArg ParsedFlow.srcPortPreNat h
      · exact congrArg ParsedFlow.srcPortPostNat h
      · exact congrArg ParsedFlow.tcpStatsSrcToDst h
      · exact congrArg Bgp.src (congrArg ParsedFlow.bgp h)
      · exact congrArg ParsedFlow.hrSrcToDstBytes h
  · rintro ⟨he, hl⟩
    rw [← (swap_eq_reversed_iff z).mpr hl]
    have hqoe : (⟨z.qoe.dstToSrc, z.qoe.srcToDst⟩ : Qoe) = z.qoe := by
      rw [← he.qoe]
      exact congrArg (Qoe.mk z.qoe.srcToDst) he.qoe
    unfold ParsedFlow.swap ParsedFlow.unmarked ParsedeBPF.swap
    simp only [if_true, core_swap_alike he, hqoe]

/-- The record is turned round exactly when the pairs that are not exchanged are alike. -/
theorem swap_reverses_iff (enabled : Bool) (z : ParsedFlow) :
    Reverses enabled z ↔ (enabled = true ∨ ExchangedAlike z) ∧ LeftAlike z := by
  have honce : (z.swap enabled).unmarked = z.reversed.unmarked ↔
      (enabled = true ∨ ExchangedAlike z) ∧ LeftAlike z := by
    cases enabled with
    | false =>
      have hsame : z.swap false = z := rfl
      rw [hsame, eq_reversed_iff]
      simp
    | true =>
      rw [swap_eq_reversed_iff]
      simp
  exact ⟨fun h => honce.mp h.once, fun h => ⟨honce.mpr h, swap_twice enabled z⟩⟩

/-- A request from port 80 to port 40000, marked by its source. -/
def markedRecord : ParsedFlow := { ParsedFlow.init with srcPort := 80, dstPort := 40000, l4Proto := 6, srcTos := 184 }

/-- The ports are exchanged, and the mark stays with the source. -/
theorem not_reverses :
    ¬ (∀ z, Reverses true z) ∧
      ((markedRecord.swap true).srcPort, (markedRecord.swap true).dstPort) = (40000, 80) ∧
      ((markedRecord.swap true).srcTos, (markedRecord.swap true).dstTos) = (184, 0) ∧
      (markedRecord.reversed.srcTos, markedRecord.reversed.dstTos) = (0, 184) := by
  refine ⟨fun h => ?_, rfl, rfl, rfl⟩
  have htos : (markedRecord.swap true).unmarked.srcTos = markedRecord.reversed.unmarked.srcTos :=
    congrArg (fun z : ParsedFlow => z.srcTos) (h markedRecord).once
  revert htos
  decide

end Ntopng.Zmq
