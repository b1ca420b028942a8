/-
  Ntopng.Dissect.Parse — the header parsing of `processPacket` and what it looks up
  (src/NetworkInterface.cpp, src/ICMPinfo.cpp), and `dissectPacket` as a whole.

  Left out: sub-interfaces, and what is done with a flow once it is found; what each call of
  `getFlow` leads to comes from outside.
-/

import Ntopng.Dissect.Decap

namespace Ntopng.Dissect

open Ntopng.Lib.Bytes Ntopng.Lib.Turns

/-- What the parsing leaves in the locals of `processPacket`. -/
structure Parsed where
  packet : Flows.Lookup.Packet
  ingressPacket : Bool
  /-- `iph ? ETHERTYPE_IP : ETHERTYPE_IPV6` -/
  ethProto : UInt16
  tos : UInt8
  tcpFlags : UInt8
  tcpWindowScale : UInt8
  isFragment : Bool
  framePadding : UInt16
  /-- Where the payload starts, if it is set. -/
  payload : Option Nat
  trustedPayloadLen : Nat
  deriving DecidableEq, Repr

/-- The layer 4 packet, with what the IP header says about it. -/
structure L4 where
  protocol : UInt8
  offset : Nat
  trustedLen : Nat
  isFragment : Bool
  framePadding : UInt16
  tos : UInt8
  deriving DecidableEq, Repr

/-- `none`: the function has counted the packet and returned. -/
def countAndReturn {α : Type} (i : Iface) (p : Capture) (s : St) (ethProto : UInt16) : Reading (Option α) := do
  incStats s ethProto 0 (p.lenOnWire i)
  pure none

section

variable (i : Iface) (p : Capture) (h : Handoff)

/-- `max_val(0, (int)h->caplen - ip_offset)`, in 16 bits. -/
def trustedIpLen : UInt16 := if p.caplen < 2 ^ 31 then u16 (p.caplen - h.st.ipOffset.toNat) else 0

/-! ## ICMP -/

/-- `payload_len` bytes at `o`. -/
def dissectICMP (payloadLen o : Nat) : Reading Flows.Lookup.ICMPinfo :=
  if payloadLen > 2 then do
    let icmpType ← p.byte o
    let icmpCode ← p.byte (o + 1)
    if icmpType = 3 ∧ icmpCode = 3 ∧ payloadLen ≥ 28 then do
      let b ← p.byte (o + 8)
      let protocol ← p.byte (o + 17)
      if payloadLen ≥ 8 + headerLen b + 8 ∧ protocol = IPPROTO_UDP then do
        let saddr ← p.word (o + 20)
        let daddr ← p.word (o + 24)
        let source ← p.short (o + 8 + headerLen b)
        let dest ← p.short (o + 8 + headerLen b + 2)
        pure ⟨icmpType, icmpCode, 0, some ⟨.v4 saddr, .v4 daddr, source, dest, protocol.toUInt16⟩⟩
      else pure ⟨icmpType, icmpCode, 0, none⟩
    else if (icmpType = 8 ∨ icmpType = 0 ∨ icmpType = 13 ∨ icmpType = 14 ∨ icmpType = 15 ∨ icmpType = 16) ∧
        icmpCode = 0 ∧ payloadLen > 5 then do
      let identifier ← p.short (o + 4)
      pure ⟨icmpType, icmpCode, ntohs identifier, none⟩
    else pure ⟨icmpType, icmpCode, 0, none⟩
  else pure ⟨0, 0, 0, none⟩

/-! ## The IP header -/

/-- The captured length behind `l4`, less the padding of the frame. -/
def trustL4 (protocol : UInt8) (l4 : Nat) (isFragment : Bool) (framePadding : UInt16) (tos : UInt8)
    (ethProto : UInt16) : Reading (Option L4) :=
  if l4 < p.caplen then
    if (u16 (p.caplen - l4)).toNat ≥ framePadding.toNat then
      pure (some ⟨protocol, l4, (u16 (p.caplen - l4)).toNat - framePadding.toNat, isFragment, framePadding, tos⟩)
    else countAndReturn i p h.st ethProto
  else countAndReturn i p h.st ETHERTYPE_IPV6

def parseIPv4 (iph : Nat) : Reading (Option L4) :=
  if (trustedIpLen p h).toNat < 20 then countAndReturn i p h.st ETHERTYPE_IP
  else do
    let b ← p.byte iph
    if headerLen b = 0 ∨ version b ≠ 4 then countAndReturn i p h.st ETHERTYPE_IP
    else do
      let totLen ← p.short (iph + 2)
      let ipTotLen := (ntohs totLen).toNat
      if ipTotLen > p.caplen - h.st.ipOffset.toNat ∨ ipTotLen < 20 then countAndReturn i p h.st ETHERTYPE_IP
      else do
        let fragOff ← p.short (iph + 6)
        let isFragment : Bool :=
          headerLen b > p.len - h.st.ipOffset.toNat ∨ p.len - h.st.ipOffset.toNat < ipTotLen ∨
            ntohs fragOff &&& 0x1FFF ≠ 0 ∨ ntohs fragOff &&& 0x2000 ≠ 0
        if isFragment ∧ ntohs fragOff &&& 0x1FFF ≠ 0 then countAndReturn i p h.st ETHERTYPE_IP
        else do
          let tos ← p.byte (iph + 1)
          let protocol ← p.byte (iph + 9)
          let framePadding := if p.caplen > iph + ipTotLen then u16 (p.caplen - iph - ipTotLen) else 0
          trustL4 i p h protocol (iph + headerLen b) isFragment framePadding tos ETHERTYPE_IP

def parseIPv6 (ip6 : Nat) : Reading (Option L4) :=
  if (trustedIpLen p h).toNat < 40 then countAndReturn i p h.st ETHERTYPE_IPV6
  else do
    let b ← p.byte ip6
    if version b ≠ 6 then countAndReturn i p h.st ETHERTYPE_IPV6
    else do
      let b1 ← p.byte (ip6 + 1)
      let tos := b <<< 4 ||| b1 >>> 4
      let nxt ← p.byte (ip6 + 6)
      if (nxt = 0x3C ∨ nxt = 0) ∧ (trustedIpLen p h).toNat > 40 + 40 + 2 then do
        let l4Proto ← p.byte (ip6 + 40)
        let optLen ← p.byte (ip6 + 41)
        if (trustedIpLen p h).toNat < 40 + 8 * (optLen.toNat + 1) then countAndReturn i p h.st ETHERTYPE_IPV6
        else trustL4 i p h l4Proto (ip6 + (40 + 8 * (optLen.toNat + 1))) false 0 tos ETHERTYPE_IPV6
      else trustL4 i p h nxt (ip6 + 40) false 0 tos ETHERTYPE_IPV6

/-! ## Layer 4 -/

/-- Ports in network order, flags, the payload and its length, what ICMP says. -/
structure Ports where
  src : UInt16
  dst : UInt16
  tcpFlags : UInt8
  tcpWindowScale : UInt8
  payload : Option Nat
  trustedPayloadLen : Nat
  icmpInfo : Option Flows.Lookup.ICMPinfo

/-- The family of the headers that must be captured whole and start with the ports. -/
def portsOf (l4 : L4) (ethProto : UInt16) (headerSize : Nat) (more : UInt16 → UInt16 → Reading Ports) :
    Reading (Option Ports) :=
  if l4.trustedLen ≥ headerSize then do
    let src ← p.short l4.offset
    let dst ← p.short (l4.offset + 2)
    let ports ← more src dst
    pure (some ports)
  else countAndReturn i p h.st ethProto

/-- The loop over the `optionsLen` bytes of options at `o`, at its index `i`; every turn moves on, so that as many turns
    suffice as there are bytes. -/
def windowScale (o optionsLen : Nat) : (turns i : Nat) → Reading UInt8
  | 0, _ => pure 0
  | turns + 1, i =>
    if i < optionsLen then do
      let kind ← p.byte (o + i : Nat)
      if kind = 0 ∨ kind = 1 then windowScale o optionsLen turns (i + 1)
      else if i + 1 < optionsLen then do
        let len ← p.byte (o + (i + 1) : Nat)
        if len = 0 then pure 0
        else if kind = 3 then
          -- the third byte may lie behind the options
          if len = 3 then p.byte (o + (i + 2) : Nat) else pure 0
        else if i + len.toNat < optionsLen then windowScale o optionsLen turns (i + len.toNat)
        else pure 0
      else pure 0
    else pure 0

def tcpWindowScale (o tcpLen : Nat) (flags : UInt8) : Reading UInt8 :=
  if i.pro ∧ flags &&& TH_SYN ≠ 0 ∧ tcpLen > 20 then windowScale p (o + 20) (tcpLen - 20) (tcpLen - 20) 0 else pure 0

def parseL4 (l4 : L4) (ethProto : UInt16) : Reading (Option Ports) :=
  if l4.protocol = IPPROTO_TCP then
    portsOf i p h l4 ethProto 20 fun src dst => do
      let doff ← p.byte (l4.offset + 12)
      let flags ← p.byte (l4.offset + 13)
      let tcpLen := min (4 * (doff >>> 4).toNat) l4.trustedLen
      let scale ← tcpWindowScale i p l4.offset tcpLen flags
      pure ⟨src, dst, flags, scale, some (l4.offset + tcpLen), l4.trustedLen - tcpLen, none⟩
  else if l4.protocol = IPPROTO_UDP then
    portsOf i p h l4 ethProto 8 fun src dst =>
      pure ⟨src, dst, 0, 0, some (l4.offset + 8), l4.trustedLen - 8, none⟩
  else if l4.protocol = IPPROTO_SCTP then
    portsOf i p h l4 ethProto 12 fun src dst =>
      pure ⟨src, dst, 0, 0, some (l4.offset + 12), l4.trustedLen - 12, none⟩
  else if l4.protocol = IPPROTO_ICMP then do
    let icmpInfo ← dissectICMP p l4.trustedLen l4.offset
    pure (some ⟨0, 0, 0, 0, none, 0, some icmpInfo⟩)
  else pure (some ⟨0, 0, 0, 0, none, 0, none⟩)

def addresses : Reading (Flows.Lookup.IpAddress × Flows.Lookup.IpAddress) :=
  match h.header with
  | .iph iph => do
    let saddr ← p.word (iph.toNat + 12)
    let daddr ← p.word (iph.toNat + 16)
    pure (.v4 saddr, .v4 daddr)
  | .ip6 ip6 => do
    let src ← p.address6 (ip6.toNat + 8)
    let dst ← p.address6 (ip6.toNat + 24)
    pure (src, dst)

/-- The transaction of a DNS packet. -/
def privateFlowId (protocol : UInt8) (ports : Ports) : Reading UInt32 :=
  if protocol = IPPROTO_UDP ∧ ports.trustedPayloadLen > 20 ∧ (ports.src = ntohs 53 ∨ ports.dst = ntohs 53) then
    match ports.payload with
    | some o => do
      let b0 ← p.byte o
      let b1 ← p.byte (o + 1)
      pure (netShort b0 b1).toUInt32
    | none => pure 0
  else pure 0

/-! ## processPacket, up to the flow -/

def parseIp : Reading (Option L4) :=
  match h.header with
  | .iph iph => parseIPv4 i p h iph.toNat
  | .ip6 ip6 => parseIPv6 i p h ip6.toNat

def IpHeader.ethProto : IpHeader → UInt16
  | .iph _ => ETHERTYPE_IP
  | .ip6 _ => ETHERTYPE_IPV6

def processPacket : Reading (Option Parsed) :=
  match h.st.ethernet with
  | none => countAndReturn i p h.st ETHERTYPE_IP
  | some e => do
    let source ← hSource i p e
    let dest ← hDest i p e
    match ← parseIp i p h with
    | none => pure none
    | some l4 =>
      match ← parseL4 i p h l4 h.header.ethProto with
      | none => pure none
      | some ports => do
        let addrs ← addresses p h
        let privateFlowId ← privateFlowId p l4.protocol ports
        pure (some
          { packet :=
              { srcMac := i.getMac source, dstMac := i.getMac dest
                srcIp := addrs.1, dstIp := addrs.2, srcPort := ports.src, dstPort := ports.dst
                vlanId := h.st.vlanId, privateFlowId := privateFlowId
                protocol := l4.protocol, icmpInfo := ports.icmpInfo }
            ingressPacket := h.st.ingressPacket, ethProto := h.header.ethProto, tos := l4.tos
            tcpFlags := ports.tcpFlags, tcpWindowScale := ports.tcpWindowScale, isFragment := l4.isFragment, framePadding := l4.framePadding
            payload := ports.payload, trustedPayloadLen := ports.trustedPayloadLen })

end

/-! ## dissectPacket -/

/-- What a call of `getFlow` leads to. -/
inductive Answer where
  | noFlow
  /-- A flow in the other direction that wants to be swapped: `goto pre_get_flow`. -/
  | startOver
  /-- A flow, with the direction that the local hosts give to the packet. -/
  | flow (ingressPacket : Bool)
  /-- `std::bad_alloc` before the packet is counted. -/
  | badAlloc
  deriving DecidableEq, Repr

/-- `dissectPacket` up to the first call of `getFlow`, and what that one is asked for, if it is reached. -/
def dissectToFlow (i : Iface) (p : Capture) (ethType : UInt16) (ingress : Bool) (fuel : Nat) :
    Reading (Option (Option Parsed)) :=
  if p.len = 0 ∨ p.caplen > p.len then do
    incStats (start ethType ingress).st 0 0 0
    pure (some none)
  else do
    match ← iterate (turn i p) fuel (start ethType ingress) with
    | none => pure none
    | some none => pure (some none)
    | some (some h) => do
      let parsed ← processPacket i p h
      pure (some parsed)

/-- The `k`-th call of `getFlow`. -/
def preGetFlow (i : Iface) (p : Capture) (parsed : Parsed) (answer : Nat → Answer) (k : Nat) :
    Reading (Nat ⊕ Unit) :=
  match answer k with
  | .noFlow => do
    Walk.report ⟨parsed.ingressPacket, parsed.ethProto, parsed.packet.protocol, p.lenOnWire i⟩
    pure (.inr ())
  | .startOver => pure (.inl (k + 1))
  | .flow ingressPacket => do
    Walk.report ⟨ingressPacket, parsed.ethProto, parsed.packet.protocol, p.lenOnWire i⟩
    pure (.inr ())
  | .badAlloc => pure (.inr ())

def dissectPacket (i : Iface) (p : Capture) (ethType : UInt16) (ingress : Bool) (answer : Nat → Answer)
    (fuel : Nat) : Reading (Option Unit) := do
  match ← dissectToFlow i p ethType ingress fuel with
  | none => pure none
  | some none => pure (some ())
  | some (some parsed) => iterate (preGetFlow i p parsed answer) fuel 0

end Ntopng.Dissect
