/-
  Ntopng.Collect.ProcessFlow — a collected record and the flow it belongs to
  (`ParserInterface::processFlow`, src/ParserInterface.cpp; src/Flow.cpp;
  include/ParsedFlow.h, include/ParsedFlowCore.h).

  `process` is the function from the point where `getFlow` returned an existing or a new
  flow: it reads and rewrites the record, updates the flow, and counts the traffic on the
  interface. Counters are adjusted when they are absolute, scaled by the sampling rate, and
  handed on by direction. The record is passed by pointer, so what is left of it is a result.

  What nDPI and the allocations decide is in `Env`. What the flow keeps of its two peers
  beside its traffic (BGP, NAT, QoE, eBPF) is in `Collect.Peers`. Left out are what it keeps
  of a record as it is (risks, roles, verdict, JSON), times, the state of the connection, and
  what hosts and MACs count.
-/

import Ntopng.Flows.Swap
import Ntopng.Lib.CString
import Ntopng.Collect.Ebpf

namespace Ntopng.Collect

open Ntopng.Flows
open Ntopng.Lib.CString (isspace)
open Ntopng.Flows.Swap (IpAddress Timeval)

/-! ## The record -/

structure TcpInfo where
  tcpFlags : UInt8
  clientTcpFlags : UInt8
  serverTcpFlags : UInt8
  oooInPkts : UInt32
  oooOutPkts : UInt32
  retrInPkts : UInt32
  retrOutPkts : UInt32
  lostInPkts : UInt32
  lostOutPkts : UInt32
  clientNwLatency : Timeval
  serverNwLatency : Timeval
  /-- A `float`, in any unit. -/
  applLatencyMsec : Nat
  inWindow : UInt16
  outWindow : UInt16
  deriving DecidableEq, Repr

/-- The texts that a flow may take over. -/
structure Texts where
  l7Info : Option String
  dnsQuery : Option String
  httpUrl : Option String
  httpSite : Option String
  httpUserAgent : Option String
  tlsServerName : Option String
  bittorrentHash : Option String
  additionalFieldsTlv : Option String
  deriving DecidableEq, Repr

structure Bgp where
  src : Option String
  dst : Option String
  deriving DecidableEq, Repr

structure Qoe where
  srcToDst : UInt8
  dstToSrc : UInt8
  deriving DecidableEq, Repr

/-- IPv4 addresses and ports after a NAT. -/
structure PostNat where
  srcIpAddrPostNat : UInt32
  dstIpAddrPostNat : UInt32
  srcPortPostNat : UInt16
  dstPortPostNat : UInt16
  deriving DecidableEq, Repr

structure ParsedFlow where
  srcMac : List UInt8
  dstMac : List UInt8
  srcIp : IpAddress
  dstIp : IpAddress
  srcPort : UInt16
  dstPort : UInt16
  l4Proto : UInt8
  firstSwitched : Nat
  direction : UInt8
  srcTos : UInt8
  dstTos : UInt8
  pktSamplingRate : UInt16
  inPkts : UInt32
  inBytes : UInt32
  outPkts : UInt32
  outBytes : UInt32
  inFragments : UInt32
  outFragments : UInt32
  srcAs : UInt32
  dstAs : UInt32
  prevAdjacentAs : UInt32
  nextAdjacentAs : UInt32
  vrfId : UInt32
  absolutePacketOctetCounters : Bool
  tcp : TcpInfo
  l7Proto : UInt16 × UInt16
  texts : Texts
  endReason : Option String
  tcpStatsSrcToDst : UInt32
  tcpStatsDstToSrc : UInt32
  hrSrcToDstBytes : Option String
  hrDstToSrcBytes : Option String
  wlanSsid : Option String
  wtpMacAddress : List UInt8
  bgp : Bgp
  qoe : Qoe
  nat : PostNat
  hasParsedeBPF : Bool
  ebpf : ParsedeBPF
  deriving DecidableEq, Repr

/-- The constructors. -/
def ParsedFlow.init : ParsedFlow :=
  { srcMac := List.replicate 6 0, dstMac := List.replicate 6 0, srcIp := 0, dstIp := 0, srcPort := 0, dstPort := 0
    l4Proto := 0, firstSwitched := 0, direction := 0, srcTos := 0, dstTos := 0, pktSamplingRate := 1
    inPkts := 0, inBytes := 0, outPkts := 0, outBytes := 0, inFragments := 0, outFragments := 0, srcAs := 0, dstAs := 0
    prevAdjacentAs := 0, nextAdjacentAs := 0, vrfId := 0, absolutePacketOctetCounters := false
    tcp :=
      { tcpFlags := 0, clientTcpFlags := 0, serverTcpFlags := 0, oooInPkts := 0, oooOutPkts := 0, retrInPkts := 0
        retrOutPkts := 0, lostInPkts := 0, lostOutPkts := 0, clientNwLatency := ⟨0, 0⟩, serverNwLatency := ⟨0, 0⟩
        applLatencyMsec := 0, inWindow := 0, outWindow := 0 }
    l7Proto := (0, 0), texts := ⟨none, none, none, none, none, none, none, none⟩, endReason := none
    tcpStatsSrcToDst := 0, tcpStatsDstToSrc := 0, hrSrcToDstBytes := none, hrDstToSrcBytes := none
    wlanSsid := none, wtpMacAddress := List.replicate 6 0, bgp := ⟨none, none⟩, qoe := ⟨0, 0⟩, nat := ⟨0, 0, 0, 0⟩
    hasParsedeBPF := false, ebpf := .init }

/-- `strtoull`, base 10: blanks, a sign, digits; too large is the largest. -/
def strtoull (s : List Char) : Option (UInt64 × List Char) :=
  let s := s.dropWhile isspace
  let (negative, s) := match s with
    | '-' :: rest => (true, rest)
    | '+' :: rest => (false, rest)
    | rest => (false, rest)
  let digits := s.takeWhile Char.isDigit
  if digits.isEmpty then none
  else
    let v := digits.foldl (fun v c => 10 * v + (c.toNat - '0'.toNat)) 0
    let v :=
      if v < 2 ^ 64 then (if negative then 0 - UInt64.ofNat v else UInt64.ofNat v) else UInt64.ofNat (2 ^ 64 - 1)
    some (v, s.dropWhile Char.isDigit)

/-- The values up to the closing bracket, or to what is no number. -/
def parseHRValues : Nat → List Char → List UInt64
  | 0, _ => []
  | fuel + 1, s =>
    match s with
    | [] | ']' :: _ => []
    | s =>
      match strtoull s with
      | none => []
      | some (v, ',' :: rest) => v :: parseHRValues fuel rest
      | some (v, rest) => v :: parseHRValues fuel rest

/-- A value takes one character at least. -/
def parseHRBytesString (s : Option String) : List UInt64 :=
  match s.map String.toList with
  | some ('[' :: rest) => parseHRValues rest.length rest
  | _ => []

def unknownFlowDirection : UInt8 := 2

/-! ## The flow -/

inductive L7 where
  | dns
  | http
  | tls
  | other
  deriving DecidableEq, Repr

/-- What is known of the protocol. -/
structure Protos where
  detectionCompleted : Bool
  l7 : L7
  lastQuery : Option String
  lastQueryShadow : Option String
  lastQueryUpdateTime : Nat
  lastUrl : Option String
  lastUserAgent : Option String
  hostServerName : Option String
  clientRequestedServerName : Option String
  btHash : Option String
  tlvInfo : Option String
  deriving DecidableEq, Repr

structure Flow (α : Type) where
  acct : Swap.Flow α
  clientRTT3WH : Timeval
  serverRTT3WH : Timeval
  applLatencyMsec : Nat
  endReason : Option String
  protos : Protos

/-- The flow that a record begins, when there is no room for its hosts; `d` is the state of the data analysis. -/
def newFlow {α : Type} (d : α) (z : ParsedFlow) : Flow α :=
  { acct :=
      { cliHost := none, srvHost := none, cliIpAddr := some z.srcIp, srvIpAddr := some z.dstIp
        src2dstTcpFlags := 0, dst2srcTcpFlags := 0, tcp := none
        hrSrc2DstBytes := [], hrDst2SrcBytes := [], hrBaseFirstSeen := 0, cli2srvTos := 0, srv2cliTos := 0
        cliPort := z.srcPort, srvPort := z.dstPort, srcAS := 0, dstAS := 0, srcASName := none, dstASName := none
        srcPeerAS := 0, dstPeerAS := 0, cliMac := z.srcMac, srvMac := z.dstMac, cMac := none, sMac := none
        src2dstTcpZeroWindow := false, dst2srcTcpZeroWindow := false
        alertInfo := ⟨false, false, false, false, true⟩, tcpStatsCli2Srv := ⟨0, 0, 0, 0⟩, tcpStatsSrv2Cli := ⟨0, 0, 0, 0⟩
        stats := { PartializableFlowTrafficStats.zero with cli2srvBytesStats := d, srv2cliBytesStats := d }
        ipStatsS2DPktFrag := 0, ipStatsD2SPktFrag := 0, cli2srvPktTime := none, srv2cliPktTime := none
        lastDbDumpPartial := none, lastDbDumpDelta := .zero, periodicStatsBase := none }
    clientRTT3WH := ⟨0, 0⟩, serverRTT3WH := ⟨0, 0⟩, applLatencyMsec := 0, endReason := none
    protos :=
      { detectionCompleted := false, l7 := .other, lastQuery := none, lastQueryShadow := none, lastQueryUpdateTime := 0
        lastUrl := none, lastUserAgent := none, hostServerName := none, clientRequestedServerName := none
        btHash := none, tlvInfo := none } }

/-- What is decided elsewhere: the data analysis and the protocols of nDPI, allocations, the local networks and the
    time. -/
structure Env (α : Type) where
  acct : Swap.Env α
  detect : UInt16 × UInt16 → UInt8 → IpAddress × UInt16 → IpAddress × UInt16 → L7
  tcpAllocOk : Bool
  collectionAllocOk : Bool
  ebpfAllocOk : Bool
  isLocalHost : IpAddress → Bool
  timeLastPktRcvd : Nat

/-- One that knows one protocol and no local hosts. -/
def plainEnv (l7 : L7) : Env Unit :=
  { acct := ⟨(), fun _ _ => (), fun _ _ => none, fun _ => (0, none)⟩
    detect := fun _ _ _ _ => l7, tcpAllocOk := true, collectionAllocOk := true, ebpfAllocOk := true
    isLocalHost := fun _ => false, timeLastPktRcvd := 0 }

/-- What `incStats` adds to the interface; the counters are 64-bit. -/
structure EthStats where
  ingressPkts : Nat
  ingressBytes : Nat
  egressPkts : Nat
  egressBytes : Nat
  deriving DecidableEq, Repr

/-- A parser interface has no packet overhead. -/
def EthStats.incStats (i : EthStats) (ingressPacket : Bool) (numPkts pktLen : UInt32) : EthStats :=
  if ingressPacket then
    { i with ingressPkts := i.ingressPkts + numPkts.toNat, ingressBytes := i.ingressBytes + pktLen.toNat }
  else { i with egressPkts := i.egressPkts + numPkts.toNat, egressBytes := i.egressBytes + pktLen.toNat }

section

variable {α : Type} (env : Env α)

namespace Flow

variable (f : Flow α)

def getPackets (cli2srv : Bool) : UInt64 :=
  if cli2srv then f.acct.stats.cli2srvPackets.toUInt64 else f.acct.stats.srv2cliPackets.toUInt64

def getBytes (cli2srv : Bool) : UInt64 :=
  if cli2srv then f.acct.stats.cli2srvBytes else f.acct.stats.srv2cliBytes

def cliIp : Option IpAddress := (f.acct.cliHost.map (·.ip)).or f.acct.cliIpAddr
def srvIp : Option IpAddress := (f.acct.srvHost.map (·.ip)).or f.acct.srvIpAddr

def isLocalToRemote : Bool :=
  (f.cliIp.map env.isLocalHost).getD false && !(f.srvIp.map env.isLocalHost).getD false

def setFlowRTT (tv : Timeval) (client : Bool) : Flow α :=
  let f := { f with acct := f.acct.allocTCPStats env.tcpAllocOk }
  if f.acct.tcp.isNone then f
  else if client then { f with clientRTT3WH := tv }
  else { f with serverRTT3WH := tv }

def setFlowTcpWindow (window : UInt16) (client : Bool) : Flow α :=
  { f with acct := f.acct.setFlowTcpWindow window client env.tcpAllocOk }

end Flow

/-! ## The stages -/

/-- An absolute value becomes what is new to the flow; a smaller one is out of sequence. -/
def absoluteToDelta (v : UInt32) (cur : UInt64) : UInt32 :=
  if v ≠ 0 then (if v.toUInt64 ≥ cur then (v.toUInt64 - cur).toUInt32 else 0) else v

theorem absoluteToDelta_toNat (v : UInt32) (cur : UInt64) : (absoluteToDelta v cur).toNat = v.toNat - cur.toNat := by
  unfold absoluteToDelta
  have hv := v.toNat_lt
  by_cases h0 : v = 0
  · simp [h0]
  · rw [if_pos h0]
    split
    · rename_i hle
      have hle' : cur.toNat ≤ v.toNat := by simpa [UInt64.le_iff_toNat_le] using hle
      have hsub : (v.toUInt64 - cur).toNat = v.toNat - cur.toNat := by
        rw [UInt64.toNat_sub_of_le _ _ hle]
        rfl
      rw [UInt64.toNat_toUInt32, hsub, Nat.mod_eq_of_lt (by omega)]
    · rename_i hlt
      have hlt' : v.toNat < cur.toNat := by
        simpa [UInt64.le_iff_toNat_le] using hlt
      simp only [UInt32.toNat_zero]
      omega

def ParsedFlow.adjustAbsolute (z : ParsedFlow) (f : Flow α) (src2dstDirection : Bool) : ParsedFlow :=
  if z.absolutePacketOctetCounters then
    { z with
      inPkts := absoluteToDelta z.inPkts (f.getPackets src2dstDirection)
      inBytes := absoluteToDelta z.inBytes (f.getBytes src2dstDirection)
      outPkts := absoluteToDelta z.outPkts (f.getPackets (!src2dstDirection))
      outBytes := absoluteToDelta z.outBytes (f.getBytes (!src2dstDirection)) }
  else z

def Timeval.nonzero (tv : Timeval) : Bool := tv.tvSec != 0 || tv.tvUsec != 0

/-- As nProbe divides the round trip time by 2. -/
def Timeval.double (tv : Timeval) : Timeval := ⟨2 * tv.tvSec, 2 * tv.tvUsec⟩

/-- The latencies that are set are doubled in the record. -/
def ParsedFlow.doubleLatencies (z : ParsedFlow) : ParsedFlow :=
  let twice (tv : Timeval) : Timeval := if Timeval.nonzero tv then Timeval.double tv else tv
  { z with tcp :=
      { z.tcp with
        clientNwLatency := twice z.tcp.clientNwLatency
        serverNwLatency := twice z.tcp.serverNwLatency } }

/-- `z` is the record with its latencies doubled. -/
def Flow.updateRTT (f : Flow α) (z : ParsedFlow) (src2dstDirection : Bool) : Flow α :=
  let f := if Timeval.nonzero z.tcp.clientNwLatency then f.setFlowRTT env z.tcp.clientNwLatency src2dstDirection else f
  if Timeval.nonzero z.tcp.serverNwLatency then f.setFlowRTT env z.tcp.serverNwLatency (!src2dstDirection) else f

/-- Only a record from the client has one. -/
def Flow.updateApplLatency (f : Flow α) (z : ParsedFlow) (src2dstDirection : Bool) : Flow α :=
  if src2dstDirection ∧ z.tcp.applLatencyMsec ≠ 0 then { f with applLatencyMsec := z.tcp.applLatencyMsec } else f

def Flow.updateInfo (f : Flow α) (z : ParsedFlow) (src2dstDirection : Bool) : Flow α :=
  let f := { f with endReason := z.endReason.or f.endReason }
  let f := if z.tcp.inWindow ≠ 0 then f.setFlowTcpWindow env z.tcp.inWindow src2dstDirection else f
  let f := if z.tcp.outWindow ≠ 0 then f.setFlowTcpWindow env z.tcp.outWindow (!src2dstDirection) else f
  let f := { f with acct := (f.acct.setTOS z.srcTos true).setTOS z.dstTos false }
  -- setRTT
  let f := { f with acct := f.acct.allocTCPStats env.tcpAllocOk }
  f.updateApplLatency z src2dstDirection

/-- In 32 bits. -/
def ParsedFlow.scale (z : ParsedFlow) (v : UInt32) : UInt32 := z.pktSamplingRate.toUInt32 * v

def updateFlags (acct : Swap.Flow α) (z : ParsedFlow) (src2dstDirection : Bool) : Swap.Flow α :=
  if z.tcp.clientTcpFlags ≠ 0 ∨ z.tcp.serverTcpFlags ≠ 0 then
    let acct :=
      if z.tcp.clientTcpFlags ≠ 0 then acct.updateTcpFlags z.tcp.clientTcpFlags src2dstDirection false else acct
    let acct :=
      if z.tcp.serverTcpFlags ≠ 0 then acct.updateTcpFlags z.tcp.serverTcpFlags (!src2dstDirection) false else acct
    -- never: one of the two is set
    if z.tcp.tcpFlags ≠ 0 ∧ z.tcp.clientTcpFlags = 0 ∧ z.tcp.serverTcpFlags = 0 then
      acct.updateTcpFlags z.tcp.tcpFlags src2dstDirection false
    else acct
  else acct

def Flow.updateTcp (f : Flow α) (z : ParsedFlow) (src2dstDirection : Bool) : Flow α :=
  if z.l4Proto = 6 then
    let acct := (updateFlags f.acct z src2dstDirection).updateTcpSeqIssues z.tcp.retrInPkts z.tcp.oooInPkts
      z.tcp.lostInPkts z.tcp.retrOutPkts z.tcp.oooOutPkts z.tcp.lostOutPkts
    { f with acct := acct }
  else f

/-- `z` is the record with its counters adjusted. -/
def Flow.addFlowStats (f : Flow α) (z : ParsedFlow) (src2dstDirection : Bool) : Flow α :=
  let acct := f.acct.addFlowStats env.acct src2dstDirection (z.scale z.inPkts) (z.scale z.inBytes) 0
    (z.scale z.outPkts) (z.scale z.outBytes) 0 (z.scale z.inFragments) (z.scale z.outFragments)
  { f with acct := acct }

/-- The text of the record goes where nProbe left a gap. -/
def Texts.adoptL7Info (t : Texts) (l7 : L7) : Texts :=
  match t.l7Info with
  | none => t
  | some info =>
    if info.isEmpty then t
    else
      match l7 with
      | .dns => { t with dnsQuery := t.dnsQuery.or (some info) }
      | .http => { t with httpSite := t.httpSite.or (some info) }
      | .tls => { t with tlsServerName := t.tlsServerName.or (some info) }
      | .other => t

/-- Too early after the last one, the query is not taken. -/
def Protos.setDNSQuery (p : Protos) (q : String) : Protos :=
  if p.lastQueryShadow.isNone || decide (p.lastQueryUpdateTime + 1 < env.timeLastPktRcvd) then
    { p with lastQueryShadow := p.lastQuery, lastQuery := some q, lastQueryUpdateTime := env.timeLastPktRcvd }
  else p

/-- The texts of the protocol change hands, whether the flow has a use for them or not. -/
def Protos.updateL7 (p : Protos) (t : Texts) : Protos × Texts :=
  match p.l7 with
  | .dns =>
    (match t.dnsQuery with
      | none => p
      | some q => p.setDNSQuery env q, { t with dnsQuery := none })
  | .http =>
    ({ p with
        lastUrl := p.lastUrl.or t.httpUrl
        lastUserAgent := p.lastUserAgent.or t.httpUserAgent
        hostServerName := t.httpSite.or p.hostServerName },
      { t with httpUrl := none, httpUserAgent := none, httpSite := none })
  | .tls =>
    if p.clientRequestedServerName.isNone then
      ({ p with clientRequestedServerName := t.tlsServerName }, { t with tlsServerName := none })
    else (p, t)
  | .other => (p, t)

def Protos.detect (p : Protos) (l7 : L7) (t : Texts) : Protos × Texts :=
  let p := { p with tlvInfo := t.additionalFieldsTlv.or p.tlvInfo, l7 := l7, detectionCompleted := true }
  let t := { t with additionalFieldsTlv := none }
  let (p, t) := p.updateL7 env (t.adoptL7Info l7)
  ({ p with btHash := t.bittorrentHash.or p.btHash }, { t with bittorrentHash := none })

def setPeers (acct : Swap.Flow α) (z : ParsedFlow) : Swap.Flow α :=
  let acct := if z.srcAs ≠ 0 then acct.setSrcPeerAS z.srcAs else acct
  let acct := if z.dstAs ≠ 0 then acct.setDstPeerAS z.dstAs else acct
  acct.updateTCPStats z.tcpStatsSrcToDst z.tcpStatsDstToSrc

/-- What nDPI makes of the record; a record with eBPF information has no protocol of its own. -/
def ParsedFlow.detect (z : ParsedFlow) : L7 :=
  env.detect (if z.hasParsedeBPF then (0, 0) else z.l7Proto) z.l4Proto (z.srcIp, z.srcPort) (z.dstIp, z.dstPort)

/-- Once per flow, until the protocol is set. -/
def Flow.detectProtocol (f : Flow α) (z : ParsedFlow) : Flow α × ParsedFlow :=
  if f.protos.detectionCompleted then (f, z)
  else
    let (protos, texts) := f.protos.detect env (z.detect env) z.texts
    ({ f with protos := protos, acct := setPeers f.acct z }, { z with texts := texts })

/-- An unknown direction is computed from the flow: 1 is TX. -/
def ParsedFlow.setDirection (z : ParsedFlow) (f : Flow α) : ParsedFlow :=
  if z.direction = unknownFlowDirection then { z with direction := if f.isLocalToRemote env then 1 else 0 } else z

/-- Ingress and egress, by the direction of the record. -/
def EthStats.addRecord (i : EthStats) (z : ParsedFlow) : EthStats :=
  if z.direction = 0 then
    let i := if z.inPkts ≠ 0 then i.incStats true (z.scale z.inPkts) (z.scale z.inBytes) else i
    if z.outPkts ≠ 0 then i.incStats false (z.scale z.outPkts) (z.scale z.outBytes) else i
  else
    let i := if z.outBytes ≠ 0 then i.incStats true (z.scale z.outPkts) (z.scale z.outBytes) else i
    if z.inPkts ≠ 0 then i.incStats false (z.scale z.inPkts) (z.scale z.inBytes) else i

def updateHR (acct : Swap.Flow α) (z : ParsedFlow) (src2dst : Bool) (s : Option String) : Swap.Flow α :=
  match s with
  | none => acct
  | some s =>
    if src2dst then acct.updateHRSrc2DstBytes (parseHRBytesString (some s)) z.firstSwitched
    else acct.updateHRDst2SrcBytes (parseHRBytesString (some s)) z.firstSwitched

def Flow.updateHRBytes (f : Flow α) (z : ParsedFlow) : Flow α :=
  if z.direction = 0 then
    { f with acct := updateHR (updateHR f.acct z true z.hrDstToSrcBytes) z false z.hrSrcToDstBytes }
  else { f with acct := updateHR (updateHR f.acct z true z.hrSrcToDstBytes) z false z.hrDstToSrcBytes }

/-- The flow, what the interface counted, and what is left of the record. -/
def process (f : Flow α) (i : EthStats) (src2dstDirection : Bool) (z : ParsedFlow) :
    Flow α × EthStats × ParsedFlow :=
  let z := (z.adjustAbsolute f src2dstDirection).doubleLatencies
  let f := f.updateRTT env z src2dstDirection
  let f := f.updateInfo env z src2dstDirection
  let f := f.updateTcp z src2dstDirection
  let f := f.addFlowStats env z src2dstDirection
  let (f, z) := f.detectProtocol env z
  let z := z.setDirection env f
  (f.updateHRBytes z, i.addRecord z, z)

end

end Ntopng.Collect
