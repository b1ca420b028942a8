/-
  Ntopng.Dissect.Decap — how `dissectPacket` takes a packet out of its tunnels
  (src/NetworkInterface.cpp).

  The function is a machine: its labels are the two labels of the source, the heads of its
  loops and the places where one header ends and the next begins; a turn goes from a label
  to the next, hands the packet to `processPacket` or ends. Offsets are assigned to 16-bit
  variables and compared as the integers that C promotes them to; what a turn assigns to
  those it goes on with is noted (`Walk.assign`).
-/

import Ntopng.Dissect.Packet

namespace Ntopng.Dissect

open Ntopng.Lib.Bytes Ntopng.Lib.Turns

/-! ## State -/

inductive Ethernet where
  /-- `dummy_ethernet` -/
  | dummy
  /-- `dummy_ethernet` with the MACs that `do_simulate_macs` draws -/
  | simulated
  /-- a header of the packet -/
  | at (offset : UInt16)
  deriving DecidableEq, Repr

/-- The variables of `dissectPacket`. -/
structure St where
  ethType : UInt16
  ipOffset : UInt16
  vlanId : UInt16
  ethOffset : UInt16
  encapsulationOverhead : UInt16
  ethernet : Option Ethernet
  ingressPacket : Bool
  deriving DecidableEq, Repr

/-- The locals of the IPv4 branch after a UDP header; `iph` is where the pointer points. -/
structure Udp4 where
  ipLen : UInt16
  sport : UInt16
  dport : UInt16
  iph : UInt16
  deriving DecidableEq, Repr

inductive Label where
  | datalinkCheck
  | decodePacketEth
  | switchEthType
  | tzsp (u : Udp4)
  | tzspTag (u : Udp4) (offset : UInt32)
  | capwap (u : Udp4)
  | capwap6 (ipv6Shift : UInt16)
  deriving DecidableEq, Repr

structure Conf where
  label : Label
  st : St
  deriving DecidableEq, Repr

/-- Which of the pointers `iph` and `ip6` is set, and where it points. -/
inductive IpHeader where
  | iph (offset : UInt16)
  | ip6 (offset : UInt16)
  deriving DecidableEq, Repr

/-- What `processPacket` is called with. -/
structure Handoff where
  st : St
  header : IpHeader
  deriving DecidableEq, Repr

/-- `none` where the function ends without a call of `processPacket`. -/
abbrev Next := Conf ⊕ Option Handoff

abbrev Turn := Reading Next

/-! ## The ways on -/

def goto (label : Label) (s : St) : Turn := pure (.inl ⟨label, s⟩)

/-- On with an offset that is cut to 16 bits. -/
def gotoIp (label : Label) (s : St) (ipOffset : Nat) : Turn := do
  Walk.assign 16 ipOffset
  goto label { s with ipOffset := u16 ipOffset }

/-- To the Ethernet header at an offset that is cut to 16 bits. -/
def gotoEth (s : St) (ethOffset : Nat) : Turn := do
  Walk.assign 16 ethOffset
  goto .datalinkCheck { s with ethOffset := u16 ethOffset }

/-- `goto dissect_packet_end`, or a return, or a break that nothing follows. -/
def finish : Turn := pure (.inr none)

def incStats (s : St) (ethProto : UInt16) (l4Proto : UInt8) (pktLen : UInt32) : Reading Unit :=
  Walk.report ⟨s.ingressPacket, ethProto, l4Proto, pktLen⟩

def countAndFinish (s : St) (ethProto : UInt16) (pktLen : UInt32) : Turn := do
  incStats s ethProto 0 pktLen
  finish

section

variable (i : Iface) (p : Capture) (s : St)

/-! ## Ethernet addresses -/

/-- `sender_mac` is copied where the datalink sets `ethernet` to the dummy, save for `DLT_ENC`. -/
def dummySource : MacAddress :=
  if p.datalink = .en10mb ∨ p.datalink = .enc then [0, 0, 0, 0, 0, 0] else i.senderMac.getD [0, 0, 0, 0, 0, 0]

def hDest : Ethernet → Reading MacAddress
  | .dummy => pure [0, 0, 0, 0, 0, 0]
  | .simulated => pure i.simulatedMacs.2
  | .at offset => p.mac offset.toNat

def hSource : Ethernet → Reading MacAddress
  | .dummy => pure (dummySource i p)
  | .simulated => pure i.simulatedMacs.1
  | .at offset => p.mac (offset.toNat + 6)

/-- Traffic direction based on MAC. -/
def direction : Reading Bool :=
  match s.ethernet with
  | none => pure s.ingressPacket
  | some e =>
    if i.trafficMirrored ∧ i.gwMacConfigured then do
      let dest ← hDest i p e
      pure (if i.isGwMac dest then false else s.ingressPacket)
    else if ¬ i.trafficDirectionsSupported then do
      let source ← hSource i p e
      pure (if i.isInterfaceMac source then false else s.ingressPacket)
    else pure s.ingressPacket

/-! ## datalink_check -/

def decode (ethType : UInt16) (ethernet : Ethernet) (ipOffset : Nat) : Turn :=
  gotoIp .decodePacketEth { s with ethType := ethType, ethernet := some ethernet } ipOffset

def datalinkCheck : Turn :=
  match p.datalink with
  | .null =>
    if p.caplen < 4 then countAndFinish s 0 (UInt32.ofNat p.len)
    else if s.ethOffset.toNat + 4 ≤ p.caplen then do
      let nullType ← p.word s.ethOffset.toNat
      if nullType = BSD_AF_INET then decode s ETHERTYPE_IP .dummy (4 + s.ethOffset.toNat)
      else if nullType = BSD_AF_INET6_BSD ∨ nullType = BSD_AF_INET6_FREEBSD ∨ nullType = BSD_AF_INET6_DARWIN then
        decode s ETHERTYPE_IPV6 .dummy (4 + s.ethOffset.toNat)
      else countAndFinish s 0 (p.lenOnWire i)
    else countAndFinish s 0 (UInt32.ofNat p.len)
  | .en10mb =>
    if s.ethOffset.toNat + 14 > p.caplen then countAndFinish s 0 (UInt32.ofNat p.len)
    else do
      let hProto ← p.short (s.ethOffset.toNat + 12)
      decode s (ntohs hProto) (.at s.ethOffset) (14 + s.ethOffset.toNat)
  | .linuxCookedV2 =>
    if s.ethOffset.toNat + 20 > p.caplen then countAndFinish s 0 (UInt32.ofNat p.len)
    else do
      let b0 ← p.byte s.ethOffset.toNat
      let b1 ← p.byte (s.ethOffset.toNat + 1)
      decode s (netShort b0 b1) .dummy (20 + s.ethOffset.toNat)
  | .linuxCooked =>
    if s.ethOffset.toNat + 16 > p.caplen then countAndFinish s 0 (UInt32.ofNat p.len)
    else do
      let b0 ← p.byte (s.ethOffset.toNat + 14)
      let b1 ← p.byte (s.ethOffset.toNat + 15)
      decode s (netShort b0 b1) .dummy (16 + s.ethOffset.toNat)
  | .raw =>
    if s.ethOffset.toNat + 4 > p.caplen then countAndFinish s 0 (UInt32.ofNat p.len)
    else do
      let b ← p.byte s.ethOffset.toNat
      if version b = 4 then decode s ETHERTYPE_IP .dummy s.ethOffset.toNat
      else if version b = 6 then decode s ETHERTYPE_IPV6 .dummy s.ethOffset.toNat
      else countAndFinish s 0 (p.lenOnWire i)
  | .enc => do
    -- no look at the captured length, and `eth_type` may still be what the stack held
    let b ← p.byte 0
    if b = 2 then decode s ETHERTYPE_IP .dummy 12 else goto .decodePacketEth s
  | .ipv4 => decode s ETHERTYPE_IP .dummy 0
  | .pppEther =>
    if p.caplen < 6 then countAndFinish s 0 (UInt32.ofNat p.len)
    else decode s ETHERTYPE_PPPoE .dummy s.ethOffset.toNat
  | .other => countAndFinish s 0 (p.lenOnWire i)

/-! ## decode_packet_eth -/

/-- `len` bytes at `o`. -/
def guessIp (o len : Nat) : Reading UInt16 :=
  if len ≥ 20 then do
    let b ← p.byte o
    if version b = 4 then pure ETHERTYPE_IP
    else if len ≥ 40 ∧ version b = 6 then pure ETHERTYPE_IPV6
    else pure 1
  else pure 1

/-- The type, and whether an Ethernet header stands there. -/
def guessEthType (o len : Nat) : Reading (UInt16 × Bool) :=
  if len ≥ 14 then do
    let hProto ← p.short (o + 12)
    if ntohs hProto = ETHERTYPE_IP ∨ ntohs hProto = ETHERTYPE_IPV6 ∨ ntohs hProto = ETHERTYPE_PPPoE ∨
        ntohs hProto = ETHERTYPE_VLAN then
      pure (ntohs hProto, true)
    else do
      let ethType ← guessIp p o len
      pure (ethType, false)
  else do
    let ethType ← guessIp p o len
    pure (ethType, false)

/-- One turn of the loop over VLAN and MPLS headers. -/
def decodePacketEth : Turn :=
  if s.ipOffset.toNat < p.caplen then
    if s.ethType = ETHERTYPE_VLAN ∧ s.ipOffset.toNat + 4 < p.caplen then do
      let vlanId ← p.short s.ipOffset.toNat
      let b2 ← p.byte (s.ipOffset.toNat + 2)
      let b3 ← p.byte (s.ipOffset.toNat + 3)
      gotoIp .decodePacketEth { s with vlanId := ntohs vlanId &&& 0xFFF, ethType := netShort b2 b3 }
        (s.ipOffset.toNat + 4)
    else if s.ethType = ETHERTYPE_MPLS ∧ s.ipOffset.toNat + 2 < p.caplen then do
      let bos ← p.byte (s.ipOffset.toNat + 2)
      Walk.assign 16 (s.ipOffset.toNat + 4)
      let ipOffset := u16 (s.ipOffset.toNat + 4)
      if bos &&& 1 ≠ 0 then
        if p.caplen > 14 + ipOffset.toNat then do
          let guess ← guessEthType p ipOffset.toNat (p.caplen - ipOffset.toNat)
          gotoIp .switchEthType { s with ethType := guess.1 }
            (if guess.2 then ipOffset.toNat + 14 else ipOffset.toNat)
        else countAndFinish s ETHERTYPE_IP (p.lenOnWire i)
      else goto .decodePacketEth { s with ipOffset := ipOffset }
    else goto .switchEthType s
  else goto .switchEthType s

/-! ## processPacket is called -/

def simulateVlan (vlanId : UInt16) (header : IpHeader) : Reading UInt16 :=
  if vlanId = 0 ∧ i.simulateVlans then
    match header with
    | .ip6 o => do
      let src15 ← p.byte (o.toNat + 23)
      let dst15 ← p.byte (o.toNat + 39)
      pure ((src15.toUInt32 + dst15.toUInt32) % SIMULATE_VLANS_MAX_VALUE).toUInt16
    | .iph o => do
      let saddr ← p.word (o.toNat + 12)
      let daddr ← p.word (o.toNat + 16)
      pure ((saddr + daddr) % SIMULATE_VLANS_MAX_VALUE).toUInt16
  else pure vlanId

/-- Only the IPv4 branch simulates MACs. -/
def chosenEthernet (simulateMacs : Bool) : Option Ethernet :=
  if i.ignoreMacs then some .dummy else if simulateMacs ∧ i.simulateMacs then some .simulated else s.ethernet

def deliver (simulateMacs : Bool) (header : IpHeader) : Turn := do
  let vlanId ← simulateVlan i p (if s.vlanId ≠ 0 ∧ i.ignoreVlans then 0 else s.vlanId) header
  pure (.inr (some ⟨{ s with vlanId := vlanId, ethernet := chosenEthernet i s simulateMacs }, header⟩))

/-! ## Tunnels over IPv4 -/

/-- The optional fields of a GRE header. -/
def greOptions (flags : UInt16) : Nat :=
  (if flags &&& (GRE_HEADER_CHECKSUM ||| GRE_HEADER_ROUTING) ≠ 0 then 4 else 0) +
    (if flags &&& GRE_HEADER_KEY ≠ 0 then 4 else 0) + (if flags &&& GRE_HEADER_SEQ_NUM ≠ 0 then 4 else 0)

/-- The Ethernet header behind an ERSPAN header. -/
def erspan (offset : Nat) : Turn := do
  Walk.assign 16 offset
  let hProto ← p.short ((u16 offset).toNat + 12)
  gotoIp .decodePacketEth
    { s with
      ethOffset := u16 offset, encapsulationOverhead := u16 offset, ethernet := some (.at (u16 offset))
      ethType := ntohs hProto }
    ((u16 offset).toNat + 14)

def greIp (ethType : UInt16) (offset : Nat) : Turn :=
  gotoIp .decodePacketEth { s with ethType := ethType, encapsulationOverhead := u16 offset } offset

def gre4 (ipLen : Nat) : Turn := do
  let flags ← p.short (s.ipOffset.toNat + ipLen)
  let proto ← p.short (s.ipOffset.toNat + ipLen + 2)
  let flags := ntohs flags
  let proto := ntohs proto
  let offset := s.ipOffset.toNat + ipLen + 4 + greOptions flags
  if p.caplen ≥ offset ∧ proto = GRE_TEB then gotoEth s offset
  else if p.caplen ≥ offset ∧ proto = 0x88BE then gotoEth s offset
  else if p.caplen ≥ offset ∧ proto = ETHERTYPE_IP then greIp s s.ethType offset
  else if p.caplen ≥ offset ∧ proto = ETHERTYPE_IPV6 then greIp s ETHERTYPE_IPV6 offset
  else if p.caplen ≥ offset + 14 + 8 ∧ proto = ETH_P_ERSPAN then erspan p s (offset + 8)
  else if p.caplen ≥ offset + 14 + 8 ∧ proto = ETH_P_ERSPAN2 ∧ p.caplen ≥ offset + 14 + 20 then
    erspan p s (offset + 20)
  else deliver i p s true (.iph s.ipOffset)

/-- The optional fields of a GTP header. -/
def gtpOptions (flags : UInt8) : Nat :=
  (if flags &&& 0x04 ≠ 0 then 8 else 0) + (if flags &&& 0x02 ≠ 0 then 4 else 0) + (if flags &&& 0x01 ≠ 0 then 1 else 0)

/-- `offset` is where the GTP header starts. -/
def gtp (u : Udp4) (offset : Nat) : Turn :=
  if offset + 12 < p.caplen then do
    let flags ← p.byte offset
    let messageType ← p.byte (offset + 1)
    if (flags &&& 0xE0) >>> 5 = 1 ∧ messageType = 0xFF then do
      Walk.assign 16 (offset + 8 + gtpOptions flags)
      let ipOffset := u16 (offset + 8 + gtpOptions flags)
      if ipOffset.toNat + 20 ≥ p.caplen then countAndFinish s 0 (p.lenOnWire i)
      else do
        let b ← p.byte ipOffset.toNat
        if version b ≠ 4 then countAndFinish s ETHERTYPE_IPV6 (p.lenOnWire i)
        else goto (.capwap { u with iph := ipOffset }) { s with ipOffset := ipOffset }
    else goto (.capwap u) s
  else countAndFinish s 0 (p.lenOnWire i)

/-- What a PPP protocol leads to; `otherwise` where it is neither IPv4 nor IPv6. -/
def pppPayload (proto : UInt16) (offset : Nat) (otherwise : Turn) : Turn :=
  if proto = 0x0021 then
    if offset + 20 ≥ p.caplen then countAndFinish s 0 (p.lenOnWire i)
    else deliver i p { s with ethType := ETHERTYPE_IP, ipOffset := u16 offset } true (.iph (u16 offset))
  else if proto = 0x0057 then
    if offset + 40 ≥ p.caplen then countAndFinish s 0 (p.lenOnWire i)
    else deliver i p { s with ethType := ETHERTYPE_IPV6, ipOffset := u16 offset } true (.ip6 (u16 offset))
  else otherwise

def l2tpHeaderLen (flags : UInt16) : Nat :=
  if flags &&& 0x8002 = 0x0002 then
    6 + (if flags &&& 0x4000 = 0x4000 then 2 else 0) + (if flags &&& 0x0800 = 0x0800 then 2 else 0) +
      (if flags &&& 0x0200 = 0x0200 then 2 else 0)
  else 0

def l2tp (offset : Nat) : Turn :=
  if offset + 6 < p.caplen then do
    let flags ← p.short offset
    let ppp := offset + l2tpHeaderLen (ntohs flags) + 2
    if ppp + 3 ≥ p.caplen then countAndFinish s 0 (p.lenOnWire i)
    else do
      let b0 ← p.byte ppp
      let b1 ← p.byte (ppp + 1)
      pppPayload i p s (netShort b0 b1) (ppp + 2)
        (if netShort b0 b1 = 0x003d then
          if ppp + 6 + 3 ≥ p.caplen then countAndFinish s 0 (p.lenOnWire i)
          else do
            let b0 ← p.byte (ppp + 6 : Nat)
            let b1 ← p.byte (ppp + 7 : Nat)
            -- another protocol leaves the packet as it came
            pppPayload i p s (netShort b0 b1) (ppp + 8) (deliver i p s true (.iph s.ipOffset))
        else countAndFinish s 0 (p.lenOnWire i))
  else countAndFinish s 0 (p.lenOnWire i)

def udp4 (ipLen : Nat) : Turn :=
  if s.ipOffset.toNat + ipLen + 8 > p.caplen then countAndFinish s 0 (p.lenOnWire i)
  else do
    let source ← p.short (s.ipOffset.toNat + ipLen)
    let dest ← p.short (s.ipOffset.toNat + ipLen + 2)
    let u : Udp4 := ⟨u16 ipLen, ntohs source, ntohs dest, s.ipOffset⟩
    if u.sport = GTP_U_V1_PORT ∨ u.dport = GTP_U_V1_PORT then gtp i p s u (s.ipOffset.toNat + ipLen + 8)
    else if u.sport = EOIP_PORT ∧ u.dport = EOIP_PORT then
      gotoEth s (s.ipOffset.toNat + ipLen + 8 + 12)
    else if u.sport = L2TP_PORT ∧ u.dport = L2TP_PORT then l2tp i p s (s.ipOffset.toNat + ipLen + 8)
    else if u.sport = TZSP_PORT ∨ u.dport = TZSP_PORT then goto (.tzsp u) s
    else if u.dport = VXLAN_PORT then
      gotoEth s (s.ipOffset.toNat + ipLen + 8 + 8)
    else goto (.capwap u) s

def tzsp (u : Udp4) : Turn :=
  if s.ipOffset.toNat + u.ipLen.toNat + 8 + 4 > p.caplen then finish
  else do
    let version ← p.byte (s.ipOffset.toNat + u.ipLen.toNat + 8)
    let type ← p.byte (s.ipOffset.toNat + u.ipLen.toNat + 8 + 1)
    let encapsulates ← p.short (s.ipOffset.toNat + u.ipLen.toNat + 8 + 2)
    if version = 1 ∧ type = 0 ∧ ntohs encapsulates = 1 then
      goto (.tzspTag u (UInt32.ofNat (s.ipOffset.toNat + u.ipLen.toNat + 8 + 4))) s
    else goto (.capwap u) s

/-- What follows a tag of `len` bytes: the captured length, then the end of the tags. -/
def tzspAdvance (u : Udp4) (offset : UInt32) (len : Nat) (stop : Bool) : Turn := do
  Walk.assign 32 (offset.toNat + len)
  let offset := UInt32.ofNat (offset.toNat + len)
  if offset.toNat > p.caplen then countAndFinish s ETHERTYPE_IPV6 (p.lenOnWire i)
  else if stop then gotoEth s offset.toNat
  else goto (.tzspTag u offset) s

/-- One turn of the loop over the tags. -/
def tzspTag (u : Udp4) (offset : UInt32) : Turn :=
  if offset.toNat < p.caplen then do
    let tagType ← p.byte offset.toNat
    if tagType = 0 then tzspAdvance i p s u offset 1 false
    else if tagType = 1 then tzspAdvance i p s u offset 1 true
    else if offset.toNat + 1 ≥ p.caplen then finish
    else do
      let tagDataLen ← p.byte (offset.toNat + 1)
      tzspAdvance i p s u offset (2 + tagDataLen.toNat) false
  else goto (.capwap u) s

/-- The packet inside of CAPWAP; its type is the last field before it. -/
def capwapInner (simulateMacs : Bool) (ipOffset : UInt16) : Turn :=
  if ipOffset.toNat ≥ p.caplen then countAndFinish s 0 (p.lenOnWire i)
  else do
    let ethType ← p.short (ipOffset.toNat - 2)
    if ntohs ethType = ETHERTYPE_IP then
      if ipOffset.toNat + 20 ≥ p.caplen then countAndFinish s 0 (p.lenOnWire i)
      else deliver i p { s with ipOffset := ipOffset } simulateMacs (.iph ipOffset)
    else if ntohs ethType = ETHERTYPE_IPV6 then
      if ipOffset.toNat + 40 ≥ p.caplen then countAndFinish s 0 (p.lenOnWire i)
      else deliver i p { s with ipOffset := ipOffset } simulateMacs (.ip6 ipOffset)
    else countAndFinish s 0 (p.lenOnWire i)

/-- `offset` is where the CAPWAP header starts; 802.11 and LLC headers follow it. -/
def capwapHeader (simulateMacs : Bool) (offset : UInt16) : Turn := do
  let b ← p.byte (offset.toNat + 1)
  capwapInner i p s simulateMacs (u16 (offset.toNat + (b >>> 3).toNat * 4 + 24 + 8))

def isCapwap (sport dport : UInt16) : Bool := sport = CAPWAP_DATA_PORT ∨ dport = CAPWAP_DATA_PORT

def capwap (u : Udp4) : Turn :=
  if isCapwap u.sport u.dport then
    if (u16 (s.ipOffset.toNat + u.ipLen.toNat + 8)).toNat + 1 ≥ p.caplen then countAndFinish s 0 (p.lenOnWire i)
    else capwapHeader i p s true (u16 (s.ipOffset.toNat + u.ipLen.toNat + 8))
  else deliver i p s true (.iph u.iph)

def ipv4 : Turn :=
  if p.caplen ≥ s.ipOffset.toNat + 20 then do
    let b ← p.byte s.ipOffset.toNat
    if headerLen b = 0 ∨ version b ≠ 4 then countAndFinish s ETHERTYPE_IP (p.lenOnWire i)
    else do
      let fragOff ← p.short (s.ipOffset.toNat + 6)
      let protocol ← p.byte (s.ipOffset.toNat + 9)
      let ipLen := headerLen b
      let fragment := ntohs fragOff &&& 0x3FFF ≠ 0
      if i.decodeTunnels ∧ protocol = IPPROTO_GRE ∧ ¬ fragment ∧ p.caplen ≥ s.ipOffset.toNat + ipLen + 4 then
        gre4 i p s ipLen
      else if i.decodeTunnels ∧ protocol = IPPROTO_IPV6 ∧ p.caplen ≥ s.ipOffset.toNat + ipLen + 40 then
        -- 6in4
        greIp s ETHERTYPE_IPV6 (s.ipOffset.toNat + ipLen)
      else if i.decodeTunnels ∧ protocol = IPPROTO_UDP ∧ ¬ fragment then udp4 i p s ipLen
      else if i.decodeTunnels ∧ protocol = IPPROTO_IP_IN_IP then
        if (u16 (s.ipOffset.toNat + ipLen)).toNat > p.caplen then countAndFinish s 0 (p.lenOnWire i)
        else gotoIp .decodePacketEth { s with ethType := ETHERTYPE_IP } (s.ipOffset.toNat + ipLen)
      else deliver i p s true (.iph s.ipOffset)
  else finish

/-! ## Tunnels over IPv6 -/

def gre6 (ipv6Shift : Nat) : Turn := do
  let flags ← p.short (s.ipOffset.toNat + ipv6Shift)
  let proto ← p.short (s.ipOffset.toNat + ipv6Shift + 2)
  let flags := ntohs flags
  let proto := ntohs proto
  let offset := s.ipOffset.toNat + ipv6Shift + 4 + greOptions flags
  if p.caplen ≥ offset ∧ proto = ETHERTYPE_IP then greIp s ETHERTYPE_IP offset
  else if p.caplen ≥ offset ∧ proto = ETHERTYPE_IPV6 then greIp s s.ethType offset
  else if p.caplen ≥ offset + 14 + 8 ∧ proto = ETH_P_ERSPAN then erspan p s (offset + 8)
  else deliver i p s false (.ip6 s.ipOffset)

/-- The ports are compared in network order. -/
def udp6 (ipv6Shift : Nat) : Turn :=
  if s.ipOffset.toNat + ipv6Shift + 8 > p.caplen then countAndFinish s ETHERTYPE_IPV6 (p.lenOnWire i)
  else do
    let sport ← p.short (s.ipOffset.toNat + ipv6Shift)
    let dport ← p.short (s.ipOffset.toNat + ipv6Shift + 2)
    if isCapwap sport dport then goto (.capwap6 (u16 ipv6Shift)) s
    else deliver i p s false (.ip6 s.ipOffset)

/-- A header cut short leaves the outer packet, with the offset moved. -/
def capwap6 (ipv6Shift : UInt16) : Turn :=
  if (u16 (s.ipOffset.toNat + ipv6Shift.toNat + 8)).toNat + 1 < p.caplen then
    capwapHeader i p s false (u16 (s.ipOffset.toNat + ipv6Shift.toNat + 8))
  else
    deliver i p { s with ipOffset := u16 (s.ipOffset.toNat + ipv6Shift.toNat + 8) } false (.ip6 s.ipOffset)

/-- `ipv6_shift` is where the options end, from the options on. -/
def tunnels6 (l4Proto : UInt8) (ipv6Shift : Nat) : Turn :=
  if i.decodeTunnels ∧ l4Proto = IPPROTO_GRE ∧ p.caplen ≥ s.ipOffset.toNat + ipv6Shift + 4 then
    gre6 i p s ipv6Shift
  else if i.decodeTunnels ∧ l4Proto = IPPROTO_UDP then udp6 i p s ipv6Shift
  else if i.decodeTunnels ∧ l4Proto = IPPROTO_IP_IN_IP then greIp s ETHERTYPE_IP (s.ipOffset.toNat + 40)
  else deliver i p s false (.ip6 s.ipOffset)

def ipv6 : Turn :=
  if p.caplen ≥ s.ipOffset.toNat + 40 then do
    let b ← p.byte s.ipOffset.toNat
    if version b ≠ 6 then countAndFinish s ETHERTYPE_IPV6 (p.lenOnWire i)
    else do
      let nxt ← p.byte (s.ipOffset.toNat + 6)
      if nxt = 0x3C then
        if s.ipOffset.toNat + 40 + 2 > p.caplen then countAndFinish s ETHERTYPE_IPV6 (p.lenOnWire i)
        else do
          let l4Proto ← p.byte (s.ipOffset.toNat + 40)
          let optLen ← p.byte (s.ipOffset.toNat + 41)
          tunnels6 i p s l4Proto (8 * (optLen.toNat + 1))
      else tunnels6 i p s nxt 40
  else finish

/-! ## The other types -/

def pppoe : Turn := do
  Walk.assign 16 (s.ipOffset.toNat + 6)
  let ipOffset := u16 (s.ipOffset.toNat + 6)
  if ipOffset.toNat + 1 < p.caplen then do
    let b0 ← p.byte ipOffset.toNat
    let b1 ← p.byte (ipOffset.toNat + 1)
    let proto := if b0 = 0 then b1 else b0
    let ipOffset := if b0 = 0 then ipOffset.toNat + 2 else ipOffset.toNat + 1
    if proto = 0x21 then gotoIp .decodePacketEth { s with ethType := ETHERTYPE_IP } ipOffset
    else if proto = 0x57 then gotoIp .decodePacketEth { s with ethType := ETHERTYPE_IPV6 } ipOffset
    else countAndFinish s ETHERTYPE_IP (p.lenOnWire i)
  else finish

/-- No IPv4 nor IPv6. -/
def nonIp : Turn :=
  match (if i.ignoreMacs then some .dummy else s.ethernet) with
  | none => countAndFinish s s.ethType (p.lenOnWire i)
  | some e => do
    let _ ← hSource i p e
    let _ ← hDest i p e
    if s.ethType = ETHERTYPE_ARP ∧ p.caplen ≥ s.ipOffset.toNat + 28 then do
      let _ ← p.short (s.ipOffset.toNat + 6)
      let _ ← p.mac (s.ipOffset.toNat + 8)
      let _ ← p.word (s.ipOffset.toNat + 14)
      let _ ← p.mac (s.ipOffset.toNat + 18)
      let _ ← p.word (s.ipOffset.toNat + 24)
      countAndFinish s s.ethType (p.lenOnWire i)
    else countAndFinish s s.ethType (p.lenOnWire i)

def switchEthType : Turn := do
  let ingress ← direction i p s
  let s := { s with ingressPacket := ingress }
  if s.ethType = ETHERTYPE_PPPoE then pppoe i p s
  else if s.ethType = ETHERTYPE_IP then ipv4 i p s
  else if s.ethType = ETHERTYPE_IPV6 then ipv6 i p s
  else nonIp i p s

end

/-! ## The machine -/

def turn (i : Iface) (p : Capture) (c : Conf) : Turn :=
  match c.label with
  | .datalinkCheck => datalinkCheck i p c.st
  | .decodePacketEth => decodePacketEth i p c.st
  | .switchEthType => switchEthType i p c.st
  | .tzsp u => tzsp p c.st u
  | .tzspTag u offset => tzspTag i p c.st u offset
  | .capwap u => capwap i p c.st u
  | .capwap6 ipv6Shift => capwap6 i p c.st ipv6Shift

/-- `ethType` is what the uninitialised variable holds. -/
def start (ethType : UInt16) (ingress : Bool) : Conf :=
  ⟨.datalinkCheck, ⟨ethType, 0, 0, 0, 0, none, ingress⟩⟩

end Ntopng.Dissect
