/-
  Ntopng.Flows.Lookup — how a packet finds its flow (src/FlowHash.cpp, src/Flow.cpp,
  src/NetworkInterface.cpp).

  Three functions say which packets belong to a flow: the sum that `FlowHash::find` takes
  for the bucket, the key that the flow is linked under, and `Flow::equal`. A requested swap
  is performed by the next packet of the flow (`getFlow`), which then takes its direction
  from the ports alone; `processPacket` starts over while a flow that it got in the other
  direction still wants to be swapped.

  What the outside decides is in the event: room and memory, the hosts of a new flow, the
  preferences, the MACs of the hosts. Ghost field: `creator`, the packet that created a flow.
-/

import Ntopng.Lib.Run
import Ntopng.Lib.Bytes

namespace Ntopng.Flows.Lookup

open Ntopng.Lib.Run Ntopng.Lib.Bytes

/-! ## Addresses and packets -/

/-- In network order. -/
inductive IpAddress where
  | v4 (ipv4 : UInt32)
  | v6 (w0 w1 w2 w3 : UInt32)
  deriving DecidableEq, Repr

def IpAddress.key : IpAddress → UInt32
  | .v4 ipv4 => ntohl ipv4
  | .v6 w0 w1 w2 w3 => w0 + w1 <<< 2 + w2 <<< 4 + w3 <<< 6

/-- A pointer to a `Mac`. -/
abbrev Mac := Nat

/-- A pointer to a `Host`. -/
abbrev HostId := Nat

structure Unreachable where
  srcIp : IpAddress
  dstIp : IpAddress
  srcPort : UInt16
  dstPort : UInt16
  protocol : UInt16
  deriving DecidableEq, Repr

structure ICMPinfo where
  icmpType : UInt8
  icmpCode : UInt8
  icmpIdentifier : UInt16
  unreach : Option Unreachable
  deriving DecidableEq, Repr

/-- Type, code and identifier are not part of it. -/
def ICMPinfo.key (i : ICMPinfo) : UInt32 :=
  match i.unreach with
  | none => 0
  | some u => u.srcIp.key + u.dstIp.key + u.srcPort.toUInt32 + u.dstPort.toUInt32 + u.protocol.toUInt32

def icmpKey (i : Option ICMPinfo) : UInt32 := (i.map ICMPinfo.key).getD 0

structure Packet where
  srcMac : Option Mac
  dstMac : Option Mac
  srcIp : IpAddress
  dstIp : IpAddress
  srcPort : UInt16
  dstPort : UInt16
  vlanId : UInt16
  privateFlowId : UInt32
  protocol : UInt8
  /-- NULL when the protocol is not ICMP. -/
  icmpInfo : Option ICMPinfo
  deriving DecidableEq, Repr

def Packet.reverse (p : Packet) : Packet :=
  { p with
    srcMac := p.dstMac, dstMac := p.srcMac, srcIp := p.dstIp, dstIp := p.srcIp
    srcPort := p.dstPort, dstPort := p.srcPort }

/-- The sum of `FlowHash::find`. -/
def Packet.sum (p : Packet) : UInt32 :=
  p.srcIp.key + p.dstIp.key + icmpKey p.icmpInfo + p.privateFlowId + p.srcPort.toUInt32 + p.dstPort.toUInt32 +
    p.vlanId.toUInt32 + p.protocol.toUInt32

/-! ## Flows and their table -/

abbrev FlowId := Nat

structure Flow where
  cliHost : Option HostId
  srvHost : Option HostId
  cliIpAddr : Option IpAddress
  srvIpAddr : Option IpAddress
  cliPort : UInt16
  srvPort : UInt16
  vlanId : UInt16
  privateFlowId : UInt32
  protocol : UInt8
  icmpInfo : Option ICMPinfo
  flowKey : UInt32
  swapRequested : Bool
  swapDone : Bool
  idle : Bool
  deriving DecidableEq, Repr

def ipKey (a : Option IpAddress) : UInt32 := (a.map IpAddress.key).getD 0

/-- `computeKey`, called once by the constructor. -/
def Flow.computeKey (f : Flow) : UInt32 :=
  f.cliPort.toUInt32 + f.srvPort.toUInt32 + f.vlanId.toUInt32 + f.protocol.toUInt32 + f.privateFlowId +
    ipKey f.cliIpAddr + ipKey f.srvIpAddr + icmpKey f.icmpInfo

structure Prefs where
  flowSwapHeuristic : Bool
  useMacAddressInFlowKey : Bool
  deriving DecidableEq, Repr

structure Sys where
  numHashes : UInt32
  table : UInt32 → List FlowId
  flow : FlowId → Flow
  created : Nat
  creator : FlowId → Packet
  hostMac : HostId → Option Mac
  prefs : Prefs
  /-- A packet is in the retry loop for good. -/
  stuck : Bool

/-- What `getFlow` meets outside: room in the table, memory, and the hosts that are found for a new flow. -/
structure Outside where
  createIfMissing : Bool
  emptyRoom : Bool
  flowOk : Bool
  cliHost : Option HostId
  srvHost : Option HostId
  cliIpOk : Bool
  srvIpOk : Bool
  icmpOk : Bool
  unreachOk : Bool
  deriving DecidableEq, Repr

/-- The part of `Flow::swap` that a lookup depends on. -/
def Flow.swap (f : Flow) (flowSwapHeuristic : Bool) : Flow :=
  if !flowSwapHeuristic then f
  else
    let hosts := f.cliHost.isSome && f.srvHost.isSome
    let view := f.cliIpAddr.isSome && f.cliHost.isNone && f.srvIpAddr.isSome && f.srvHost.isNone
    { f with
      cliHost := if hosts then f.srvHost else f.cliHost
      srvHost := if hosts then f.cliHost else f.srvHost
      cliIpAddr := if hosts || view then f.srvIpAddr else f.cliIpAddr
      srvIpAddr := if hosts || view then f.cliIpAddr else f.srvIpAddr
      cliPort := f.srvPort
      srvPort := f.cliPort
      swapDone := true
      swapRequested := false }

/-- The constructor. The copy of the ICMP information may fail, or leave out what was unreachable. -/
def newFlow (p : Packet) (o : Outside) : Flow :=
  let f : Flow :=
    { cliHost := o.cliHost, srvHost := o.srvHost
      cliIpAddr := if o.cliHost.isSome || o.cliIpOk then some p.srcIp else none
      srvIpAddr := if o.srvHost.isSome || o.srvIpOk then some p.dstIp else none
      cliPort := p.srcPort, srvPort := p.dstPort, vlanId := p.vlanId, privateFlowId := p.privateFlowId
      protocol := p.protocol
      icmpInfo :=
        if o.icmpOk then p.icmpInfo.map fun i => { i with unreach := if o.unreachOk then i.unreach else none } else none
      flowKey := 0, swapRequested := false, swapDone := false, idle := false }
  { f with flowKey := f.computeKey }

namespace Sys

variable (s : Sys)

def hash (p : Packet) : UInt32 := p.sum % s.numHashes

/-- The MACs of the hosts, against those of the packet in the direction of the flow. -/
def macsMatch (f : Flow) (srcMac dstMac : Option Mac) : Bool :=
  !s.prefs.useMacAddressInFlowKey ||
    ((match f.cliHost with
      | some h => srcMac.isNone || s.hostMac h == srcMac
      | none => true) &&
    (match f.cliHost, f.srvHost with
      | some _, some h => srcMac.isNone || dstMac.isNone || s.hostMac h == dstMac
      | _, _ => true))

/-- `Flow::equal`: `some` of the direction. -/
def equal (f : Flow) (p : Packet) : Option Bool :=
  if f.privateFlowId ≠ p.privateFlowId then none
  else if f.vlanId ≠ p.vlanId then none
  else if p.protocol ≠ f.protocol then none
  else if f.cliIpAddr = some p.srcIp ∧ f.srvIpAddr = some p.dstIp ∧ p.srcPort = f.cliPort ∧ p.dstPort = f.srvPort then
    if s.macsMatch f p.srcMac p.dstMac then some true else none
  else if f.srvIpAddr = some p.srcIp ∧ f.cliIpAddr = some p.dstIp ∧ p.dstPort = f.cliPort ∧ p.srcPort = f.srvPort then
    if s.macsMatch f p.dstMac p.srcMac then some false else none
  else none

/-- The first flow of the bucket that is not idle and equal. -/
def findLoop (p : Packet) : List FlowId → Option (FlowId × Bool)
  | [] => none
  | f :: rest =>
    if (s.flow f).idle then findLoop p rest
    else
      match s.equal (s.flow f) p with
      | some dir => some (f, dir)
      | none => findLoop p rest

/-- `FlowHash::find`: the flow and its direction, or else the flow that waits to be swapped. -/
def find (p : Packet) : Option (FlowId × Bool) × Option FlowId :=
  match s.findLoop p (s.table (s.hash p)) with
  | none => (none, none)
  | some (f, dir) => if (s.flow f).swapRequested then (none, some f) else (some (f, dir), none)

def setFlow (f : FlowId) (v : Flow) : Sys := { s with flow := Function.update s.flow f v }

/-- `GenericHash::add`, with room. -/
def add (p : Packet) (o : Outside) : Sys :=
  let f := newFlow p o
  let bucket := f.flowKey % s.numHashes
  { s with
    table := Function.update s.table bucket (s.created :: s.table bucket)
    flow := Function.update s.flow s.created f
    creator := Function.update s.creator s.created p
    created := s.created + 1 }

/-- The flow, the direction of the packet and whether it is new. -/
def getFlow (p : Packet) (o : Outside) : Option (FlowId × Bool × Bool) × Sys :=
  match s.find p with
  | (some (f, dir), _) => (some (f, dir, false), s)
  | (none, some f) =>
    let ret := (s.flow f).swap s.prefs.flowSwapHeuristic
    (some (f, ntohs p.srcPort == ntohs ret.cliPort && ntohs p.dstPort == ntohs ret.srvPort, false), s.setFlow f ret)
  | (none, none) =>
    if !o.createIfMissing || !o.emptyRoom || !o.flowOk then (none, s)
    else (some (s.created, true, true), s.add p o)

/-- `pre_get_flow` of `processPacket`, at most so many times. -/
def preGetFlow (p : Packet) (o : Outside) : Nat → Sys → Option (Option (FlowId × Bool × Bool) × Sys)
  | 0, _ => none
  | n + 1, s =>
    match s.getFlow p o with
    | (none, s) => some (none, s)
    | (some (f, src2dst, new), s) =>
      if (s.flow f).swapRequested && !src2dst then
        preGetFlow p o n (s.setFlow f { s.flow f with swapDone := true })
      else some (some (f, src2dst, new), s)

end Sys

/-! ## Runs -/

inductive Ev where
  | packet (p : Packet) (o : Outside)
  | requestSwap (f : FlowId)
  /-- A pending swap turns out to be wrong. -/
  | withdrawSwap (f : FlowId)
  /-- `performPendingSwap`, or the swap that follows its request at once. -/
  | swap (f : FlowId)
  | idle (f : FlowId)
  | purge (f : FlowId)
  | setPrefs (prefs : Prefs)
  | setHostMac (h : HostId) (m : Option Mac)

/-- The retry takes no turn that the first did not (`preGetFlow_stuck`): two are enough. -/
def step (s : Sys) : Ev → Sys
  | .packet p o =>
    match Sys.preGetFlow p o 2 s with
    | some (_, s) => s
    | none => { s with stuck := true }
  | .requestSwap f =>
    if s.prefs.flowSwapHeuristic then s.setFlow f { s.flow f with swapRequested := true } else s
  | .withdrawSwap f => s.setFlow f { s.flow f with swapRequested := false }
  | .swap f => s.setFlow f ((s.flow f).swap s.prefs.flowSwapHeuristic)
  | .idle f => s.setFlow f { s.flow f with idle := true }
  | .purge f => if (s.flow f).idle then { s with table := fun b => (s.table b).erase f } else s
  | .setPrefs prefs => { s with prefs := prefs }
  | .setHostMac h m => { s with hostMac := Function.update s.hostMac h m }

/-- An empty table. -/
def start (numHashes : UInt32) (prefs : Prefs) : Sys :=
  { numHashes := numHashes, table := fun _ => []
    flow := fun _ => ⟨none, none, none, none, 0, 0, 0, 0, 0, none, 0, false, false, true⟩
    created := 0, creator := fun _ => ⟨none, none, .v4 0, .v4 0, 0, 0, 0, 0, 0, none⟩
    hostMac := fun _ => none, prefs := prefs, stuck := false }

end Ntopng.Flows.Lookup
