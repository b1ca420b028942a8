/-
  Ntopng.Dissect.Packet — a captured packet, and what its dissection consults
  (src/NetworkInterface.cpp, include/ntop_defines.h).

  The host is little-endian. Memory around the captured bytes is whatever it is: a read
  outside of them has a value, and shows in `Walk.reads`.
-/

import Ntopng.Lib.Bytes
import Ntopng.Lib.Turns
import Ntopng.Flows.Lookup

namespace Ntopng.Dissect

open Ntopng.Lib.Bytes Ntopng.Lib.Turns

/-! ## Constants -/

def ETHERTYPE_IP : UInt16 := 0x0800
def ETHERTYPE_IPV6 : UInt16 := 0x86DD
def ETHERTYPE_VLAN : UInt16 := 0x8100
def ETHERTYPE_MPLS : UInt16 := 0x8847
def ETHERTYPE_PPPoE : UInt16 := 0x8864
def ETHERTYPE_ARP : UInt16 := 0x0806
def ETH_P_ERSPAN : UInt16 := 0x88BE
def ETH_P_ERSPAN2 : UInt16 := 0x22EB

/-- Transparent Ethernet Bridging. -/
def GRE_TEB : UInt16 := 0x6558

def GRE_HEADER_CHECKSUM : UInt16 := 0x8000
def GRE_HEADER_ROUTING : UInt16 := 0x4000
def GRE_HEADER_KEY : UInt16 := 0x2000
def GRE_HEADER_SEQ_NUM : UInt16 := 0x1000

def IPPROTO_ICMP : UInt8 := 1
def IPPROTO_IP_IN_IP : UInt8 := 4
def IPPROTO_TCP : UInt8 := 6
def IPPROTO_UDP : UInt8 := 17
def IPPROTO_IPV6 : UInt8 := 41
def IPPROTO_GRE : UInt8 := 47
def IPPROTO_SCTP : UInt8 := 132

def GTP_U_V1_PORT : UInt16 := 2152
def EOIP_PORT : UInt16 := 16667
def L2TP_PORT : UInt16 := 1701
def TZSP_PORT : UInt16 := 37008
def VXLAN_PORT : UInt16 := 4789
def CAPWAP_DATA_PORT : UInt16 := 5247

def BSD_AF_INET : UInt32 := 2
def BSD_AF_INET6_BSD : UInt32 := 24
def BSD_AF_INET6_FREEBSD : UInt32 := 28
def BSD_AF_INET6_DARWIN : UInt32 := 30

def TH_SYN : UInt8 := 0x02

def SIMULATE_VLANS_MAX_VALUE : UInt32 := 0xa

/-! ## The packet -/

/-- What `datalink_type` is compared with. -/
inductive Datalink where
  | null
  | en10mb
  | linuxCookedV2
  | linuxCooked
  | raw
  | enc
  | ipv4
  | pppEther
  | other
  deriving DecidableEq, Repr

structure Capture where
  packet : Int → UInt8
  caplen : Nat
  len : Nat
  datalink : Datalink
  caplen_lt : caplen < 2 ^ 32
  len_lt : len < 2 ^ 32

abbrev MacAddress := List UInt8

/-- The interface and the preferences, as far as the dissection asks them. -/
structure Iface where
  /-- Built with `NTOPNG_PRO`. -/
  pro : Bool
  scalingFactor : UInt32
  netfilter : Bool
  trafficMirrored : Bool
  gwMacConfigured : Bool
  trafficDirectionsSupported : Bool
  decodeTunnels : Bool
  ignoreVlans : Bool
  simulateVlans : Bool
  ignoreMacs : Bool
  simulateMacs : Bool
  isGwMac : MacAddress → Bool
  isInterfaceMac : MacAddress → Bool
  getMac : MacAddress → Option Flows.Lookup.Mac
  senderMac : Option MacAddress
  /-- What `do_simulate_macs` draws. -/
  simulatedMacs : MacAddress × MacAddress

/-- A call of `incStats`; every one of them counts one packet. -/
structure IncStats where
  ingressPacket : Bool
  ethProto : UInt16
  l4Proto : UInt8
  pktLen : UInt32
  deriving DecidableEq, Repr

def Capture.lenOnWire (i : Iface) (p : Capture) : UInt32 :=
  UInt32.ofNat p.len * i.scalingFactor + (if i.netfilter then 14 else 0)

/-! ## Fields of headers -/

/-- An assignment to a `u_int16_t`. -/
def u16 (n : Nat) : UInt16 := UInt16.ofNat n

@[simp] theorem toNat_u16 (n : Nat) : (u16 n).toNat = n % 65536 := UInt16.toNat_ofNat'

theorem toNat_u16_of_lt {n : Nat} (h : n < 65536) : (u16 n).toNat = n := by
  rw [toNat_u16, Nat.mod_eq_of_lt h]

/-- Two bytes of memory as the host loads them. -/
def hostShort (b0 b1 : UInt8) : UInt16 := b0.toUInt16 ||| b1.toUInt16 <<< 8

def hostWord (b0 b1 b2 b3 : UInt8) : UInt32 :=
  b0.toUInt32 ||| b1.toUInt32 <<< 8 ||| b2.toUInt32 <<< 16 ||| b3.toUInt32 <<< 24

/-- `(packet[o] << 8) + packet[o + 1]`. -/
def netShort (b0 b1 : UInt8) : UInt16 := b0.toUInt16 <<< 8 + b1.toUInt16

def version (b : UInt8) : UInt8 := b >>> 4

/-- `ihl * 4`. -/
def headerLen (b : UInt8) : Nat := (b &&& 0x0F).toNat * 4

theorem headerLen_le (b : UInt8) : headerLen b ≤ 60 := by
  have h : (b &&& 0x0F).toNat ≤ 15 := by
    rw [UInt8.toNat_and]
    exact Nat.and_le_right
  unfold headerLen
  omega

/-! ## Reading -/

abbrev Reading (α : Type) := Walk IncStats α

namespace Capture

variable (p : Capture)

def byte (o : Int) : Reading UInt8 := Walk.read p.packet o

def short (o : Int) : Reading UInt16 := do
  let b0 ← p.byte o
  let b1 ← p.byte (o + 1)
  pure (hostShort b0 b1)

def word (o : Int) : Reading UInt32 := do
  let b0 ← p.byte o
  let b1 ← p.byte (o + 1)
  let b2 ← p.byte (o + 2)
  let b3 ← p.byte (o + 3)
  pure (hostWord b0 b1 b2 b3)

def mac (o : Int) : Reading MacAddress := do
  let b0 ← p.byte o
  let b1 ← p.byte (o + 1)
  let b2 ← p.byte (o + 2)
  let b3 ← p.byte (o + 3)
  let b4 ← p.byte (o + 4)
  let b5 ← p.byte (o + 5)
  pure [b0, b1, b2, b3, b4, b5]

/-- An IPv6 address as `IpAddress::set` copies it. -/
def address6 (o : Int) : Reading Flows.Lookup.IpAddress := do
  let w0 ← p.word o
  let w1 ← p.word (o + 4)
  let w2 ← p.word (o + 8)
  let w3 ← p.word (o + 12)
  pure (.v6 w0 w1 w2 w3)

/-! What they return. -/

def shortAt (o : Int) : UInt16 := hostShort (p.packet o) (p.packet (o + 1))

def wordAt (o : Int) : UInt32 :=
  hostWord (p.packet o) (p.packet (o + 1)) (p.packet (o + 2)) (p.packet (o + 3))

@[simp] theorem out_byte (o : Int) : (p.byte o).out = p.packet o := rfl
@[simp] theorem out_short (o : Int) : (p.short o).out = p.shortAt o := rfl
@[simp] theorem out_word (o : Int) : (p.word o).out = p.wordAt o := rfl

@[simp] theorem reports_byte (o : Int) : (p.byte o).reports = [] := (rfl)
@[simp] theorem reports_short (o : Int) : (p.short o).reports = [] := (rfl)
@[simp] theorem reports_word (o : Int) : (p.word o).reports = [] := (rfl)
@[simp] theorem reports_mac (o : Int) : (p.mac o).reports = [] := (rfl)
@[simp] theorem reports_address6 (o : Int) : (p.address6 o).reports = [] := (rfl)

open Walk

variable {n : Nat}

@[simp] theorem readsBelow_byte (o : Int) : ReadsBelow n (p.byte o) ↔ 0 ≤ o ∧ o < n := readsBelow_read ..

@[simp] theorem readsBelow_short (o : Int) : ReadsBelow n (p.short o) ↔ 0 ≤ o ∧ o + 2 ≤ n := by
  simp only [short, readsBelow_bind, readsBelow_byte, readsBelow_pure, and_true]
  omega

@[simp] theorem readsBelow_word (o : Int) : ReadsBelow n (p.word o) ↔ 0 ≤ o ∧ o + 4 ≤ n := by
  simp only [word, readsBelow_bind, readsBelow_byte, readsBelow_pure, and_true]
  omega

@[simp] theorem readsBelow_mac (o : Int) : ReadsBelow n (p.mac o) ↔ 0 ≤ o ∧ o + 6 ≤ n := by
  simp only [mac, readsBelow_bind, readsBelow_byte, readsBelow_pure, and_true]
  omega

@[simp] theorem readsBelow_address6 (o : Int) : ReadsBelow n (p.address6 o) ↔ 0 ≤ o ∧ o + 16 ≤ n := by
  simp only [address6, readsBelow_bind, readsBelow_word, readsBelow_pure, and_true]
  omega

end Capture

end Ntopng.Dissect
