/-
  Ntopng.Zmq.SwapDecision — the guess of the client by the ports, for packets and for
  collected flows (`Flow::check_swap`, src/Flow.cpp; `ZMQParserInterface::preprocessFlow`,
  src/ZMQParserInterface.cpp).

  A comment on each of the two asks to keep it in sync with the other.

  Proved (`decisions_agree_iff`): whatever else is in the record of a flow, the two decide
  the same exactly when the heuristic is disabled or the flow is none of the kinds that
  `Differs` lists.
-/

import Mathlib
import Ntopng.Lib.Bytes
import Ntopng.Flows.Direction
import Ntopng.Zmq.Record

namespace Ntopng.Zmq

open Ntopng.Lib.Bytes
open Ntopng.Flows.Direction (IPPROTO_ICMP IPPROTO_TCP IPPROTO_UDP IPPROTO_ICMPV6 synSeen portsGuess)

/-! ## Addresses -/

namespace IpAddress

variable (a : IpAddress)

/-- The 4 bytes of an IPv4 address, or the 16 of an IPv6 one. -/
def isEmpty : Bool :=
  a.ipVersion == 0 || (a.ipVersion == 4 && (a.ipType.take 4).all (· == 0)) ||
    (a.ipVersion == 6 && a.ipType.all (· == 0))

def isBroadMulticastAddress : Bool := a.broadcastIP || a.multicastIP

def isNonEmptyUnicastAddress : Bool := !a.multicastIP && !a.broadcastIP && !a.isEmpty

def isIPv4 : Bool := a.ipVersion == 4
def isIPv6 : Bool := a.ipVersion == 6

/-- The flags are not computed again. -/
def setVersion (version : Nat) : IpAddress := { a with ipVersion := version }

end IpAddress

/-- No address, or a mapped 0.0.0.0. -/
def isNullAddress (a : In6Addr) : Bool :=
  a.all (· == 0) ||
    (a.getD 10 0 == 0xFF && a.getD 11 0 == 0xFF && ((a.drop 12).take 4).all (· == 0))

/-! ## A packet -/

/-- What identifies a flow; the ports are in host byte order. -/
structure FlowKey where
  cliIp : IpAddress
  srvIp : IpAddress
  cliPort : UInt16
  srvPort : UInt16
  protocol : UInt8
  deriving DecidableEq, Repr

/-- Packets in order, from the client or not, each with its TCP flags. -/
abbrev History := List (Bool × UInt8)

/-- The flags of the client, in OR. -/
def src2dstTcpFlags (h : History) : UInt8 :=
  h.foldl (fun flags p => if p.1 then flags ||| p.2 else flags) 0

/-- Whether `check_swap` requests a swap; `rdp` is what nDPI has detected. -/
def checkSwap (enabled rdp : Bool) (k : FlowKey) (h : History) : Bool :=
  enabled && portsGuess k.protocol (src2dstTcpFlags h) k.cliIp.isNonEmptyUnicastAddress
    k.srvIp.isNonEmptyUnicastAddress k.cliPort k.srvPort rdp

/-! ## A record -/

structure Prefs where
  isFlowSwapHeuristicEnabled : Bool
  doIgnoreVlans : Bool

/-- An empty address takes the version of the other one; else two versions do not match. -/
def matchVersions (src dst : IpAddress) : Option (IpAddress × IpAddress) :=
  if src.ipVersion = dst.ipVersion then some (src, dst)
  else if dst.isIPv4 ∧ src.isIPv6 ∧ src.isEmpty then some (src.setVersion 4, dst)
  else if src.isIPv4 ∧ dst.isIPv6 ∧ dst.isEmpty then some (src, dst.setVersion 4)
  else if dst.isIPv6 ∧ src.isIPv4 ∧ src.isEmpty then some (src.setVersion 6, dst)
  else if src.isIPv6 ∧ dst.isIPv4 ∧ dst.isEmpty then some (src, dst.setVersion 6)
  else none

def ParsedFlow.matchVersions (z : ParsedFlow) : Option ParsedFlow :=
  if z.hasParsedeBPF then some z
  else (Zmq.matchVersions z.srcIp z.dstIp).map fun ips => { z with srcIp := ips.1, dstIp := ips.2 }

def ParsedFlow.guessSwap (enabled : Bool) (z : ParsedFlow) : ParsedFlow :=
  if z.hasParsedeBPF then z
  else if z.srcIp.isBroadMulticastAddress || z.dstIp.isBroadMulticastAddress then z
  else
    let cliPort := ntohs z.srcPort
    let srvPort := ntohs z.dstPort
    let doSwap := cliPort < srvPort
    let doSwap :=
      doSwap && (if z.l4Proto = IPPROTO_TCP then !synSeen z.tcp.clientTcpFlags else z.l4Proto != IPPROTO_UDP)
    if doSwap then z.swap enabled else z

def ParsedFlow.setSources (getExporterUniqueSourceID : In6Addr → In6Addr → UInt32) (z : ParsedFlow) : ParsedFlow :=
  let z := { z with pktSamplingRate := if z.pktSamplingRate = 0 then 1 else z.pktSamplingRate }
  let z := { z with nprobeIp := if isNullAddress z.nprobeIp then z.exporterDeviceIp else z.nprobeIp }
  let z :=
    { z with uniqueSourceId :=
        if z.uniqueSourceId = 0 then
          if z.nprobeSourceId ≠ 0 then z.nprobeSourceId else getExporterUniqueSourceID z.exporterDeviceIp z.nprobeIp
        else z.uniqueSourceId }
  { z with nprobeSourceId := if z.nprobeSourceId = 0 then z.uniqueSourceId else z.nprobeSourceId }

def ParsedFlow.ignoreVlans (doIgnoreVlans : Bool) (z : ParsedFlow) : ParsedFlow :=
  if z.vlanId ≠ 0 ∧ doIgnoreVlans then { z with vlanId := 0 } else z

/-- Some exporters put the type and the code in the ports. -/
def ParsedFlow.clearIcmpPorts (z : ParsedFlow) : ParsedFlow :=
  if z.l4Proto = IPPROTO_ICMP ∨ z.l4Proto = IPPROTO_ICMPV6 then { z with srcPort := 0, dstPort := 0 } else z

/-- The record that is processed, if it is. -/
def preprocessFlow (prefs : Prefs) (getExporterUniqueSourceID : In6Addr → In6Addr → UInt32) (z : ParsedFlow) :
    Option ParsedFlow :=
  ((z.ignoreVlans prefs.doIgnoreVlans).clearIcmpPorts).matchVersions.map fun z =>
    (z.guessSwap prefs.isFlowSwapHeuristicEnabled).setSources getExporterUniqueSourceID

/-- A record of the flow without eBPF information; `z` has the rest of it. -/
def FlowKey.report (k : FlowKey) (h : History) (z : ParsedFlow) : ParsedFlow :=
  { z with
    srcIp := k.cliIp, dstIp := k.srvIp
    srcPort := ntohs k.cliPort, dstPort := ntohs k.srvPort
    l4Proto := k.protocol
    tcp := { z.tcp with clientTcpFlags := src2dstTcpFlags h }
    hasParsedeBPF := false
    isSwapped := false }

/-- Whether the record of the flow is swapped. -/
def collectedSwap (prefs : Prefs) (getExporterUniqueSourceID : In6Addr → In6Addr → UInt32) (k : FlowKey) (h : History)
    (z : ParsedFlow) : Bool :=
  (preprocessFlow prefs getExporterUniqueSourceID (k.report h z)).any (·.isSwapped)

/-! ## Where they differ -/

/-- The versions match, or an empty address adapts. -/
def FlowKey.comparable (k : FlowKey) : Prop :=
  k.cliIp.ipVersion = k.srvIp.ipVersion ∨
    (k.cliIp.isEmpty ∨ k.srvIp.isEmpty) ∧
      (k.cliIp.isIPv4 ∧ k.srvIp.isIPv6 ∨ k.cliIp.isIPv6 ∧ k.srvIp.isIPv4)

/-- Neither UDP nor TCP with a SYN of the client. -/
def guessed (k : FlowKey) (h : History) : Prop :=
  k.protocol ≠ IPPROTO_UDP ∧ ¬ (k.protocol = IPPROTO_TCP ∧ synSeen (src2dstTcpFlags h))

def FlowKey.icmp (k : FlowKey) : Prop := k.protocol = IPPROTO_ICMP ∨ k.protocol = IPPROTO_ICMPV6

/-- From a unicast address to one that is not. -/
def FlowKey.toNonUnicast (k : FlowKey) : Prop :=
  k.cliIp.isNonEmptyUnicastAddress ∧ ¬ k.srvIp.isNonEmptyUnicastAddress

inductive Differs (rdp : Bool) (k : FlowKey) (h : History) : Prop
  /-- Only the record of a client port 0 is swapped. -/
  | zeroPort : guessed k h → k.cliPort = 0 → 0 < k.srvPort → ¬ k.icmp → k.comparable →
      ¬ k.cliIp.isBroadMulticastAddress → ¬ k.srvIp.isBroadMulticastAddress → Differs rdp k h
  /-- Only the record of an empty server address is swapped. -/
  | emptyServer : guessed k h → 0 < k.cliPort → k.cliPort < k.srvPort → ¬ k.icmp → k.comparable →
      k.cliIp.isNonEmptyUnicastAddress → ¬ k.srvIp.isBroadMulticastAddress → k.srvIp.isEmpty → Differs rdp k h
  /-- Only the packet is swapped: an address is not unicast, the record of ICMP has no ports, or it is dropped. -/
  | onlyPacket : guessed k h → 0 < k.cliPort → k.cliPort < k.srvPort → ¬ k.toNonUnicast →
      (k.cliIp.isBroadMulticastAddress ∨ k.srvIp.isBroadMulticastAddress ∨ k.icmp ∨ ¬ k.comparable) →
      Differs rdp k h
  /-- Only the packet of an RDP server is. -/
  | rdpServer : ¬ (k.protocol = IPPROTO_TCP ∧ synSeen (src2dstTcpFlags h)) → rdp = true →
      k.cliPort = 3389 → 0 < k.srvPort → k.srvPort ≤ k.cliPort → ¬ k.toNonUnicast → Differs rdp k h

/-! ## The two decisions -/

theorem checkSwap_iff (enabled rdp : Bool) (k : FlowKey) (h : History) : checkSwap enabled rdp k h = true ↔
    enabled = true ∧ ¬ (k.protocol = IPPROTO_TCP ∧ synSeen (src2dstTcpFlags h)) ∧ 0 < k.cliPort ∧ 0 < k.srvPort ∧
      ¬ k.toNonUnicast ∧
        if k.cliPort < k.srvPort then k.protocol ≠ IPPROTO_UDP else rdp = true ∧ k.cliPort = 3389 := by
  have hpos : ∀ p : UInt16, 0 < p ↔ ¬ p = 0 := fun p => UInt16.pos_iff_ne_zero
  unfold checkSwap portsGuess FlowKey.toNonUnicast
  rw [hpos, hpos]
  by_cases htcp : k.protocol = IPPROTO_TCP ∧ synSeen (src2dstTcpFlags h) = true
  · simp [htcp]
  · have hguard : (k.protocol == IPPROTO_TCP && synSeen (src2dstTcpFlags h)) = false := by
      simpa using htcp
    rw [hguard]
    by_cases hc : k.cliPort = 0
    · simp [hc]
    · by_cases hs : k.srvPort = 0
      · simp [hs]
      · by_cases hcast : k.cliIp.isNonEmptyUnicastAddress = true ∧ ¬ k.srvIp.isNonEmptyUnicastAddress = true
        · simp [hcast.1, hcast.2]
        · have hcheck : (!(k.cliIp.isNonEmptyUnicastAddress && !k.srvIp.isNonEmptyUnicastAddress)) = true := by
            simpa [or_iff_not_imp_left] using hcast
          rw [hcheck]
          simp only [hcast, not_false_eq_true, true_and]
          by_cases hlt : k.cliPort < k.srvPort <;> simp [hc, hs, htcp, hlt]

theorem guessSwap_isSwapped (enabled : Bool) {z : ParsedFlow} (hebpf : z.hasParsedeBPF = false)
    (hswapped : z.isSwapped = false) : (z.guessSwap enabled).isSwapped = true ↔
      enabled = true ∧ ¬ z.srcIp.isBroadMulticastAddress ∧ ¬ z.dstIp.isBroadMulticastAddress ∧
        ntohs z.srcPort < ntohs z.dstPort ∧ z.l4Proto ≠ IPPROTO_UDP ∧
          ¬ (z.l4Proto = IPPROTO_TCP ∧ synSeen z.tcp.clientTcpFlags) := by
  have hswap : ∀ b : Bool, (if b then z.swap enabled else z).isSwapped = true ↔ b = true ∧ enabled = true := by
    intro b
    cases b <;> cases enabled <;> simp [ParsedFlow.swap, hswapped]
  have hne : IPPROTO_TCP ≠ IPPROTO_UDP := by decide
  unfold ParsedFlow.guessSwap
  rw [hebpf]
  simp only [Bool.false_eq_true, if_false]
  by_cases hcast : z.srcIp.isBroadMulticastAddress = true ∨ z.dstIp.isBroadMulticastAddress = true
  · rw [if_pos (by simpa using hcast), hswapped]
    simp only [Bool.false_eq_true, false_iff]
    rintro ⟨-, hsrc, hdst, -⟩
    exact hcast.elim hsrc hdst
  · rw [if_neg (by simpa using hcast), hswap]
    rw [not_or] at hcast
    by_cases htcp : z.l4Proto = IPPROTO_TCP
    · simp [htcp, hne, hcast.1, hcast.2]
      tauto
    · simp [htcp, hcast.1, hcast.2]
      tauto

/-- Matching the versions changes nothing but them. -/
theorem matchVersions_cases (src dst : IpAddress) :
    let comparable := src.ipVersion = dst.ipVersion ∨ (src.isEmpty ∨ dst.isEmpty) ∧
      (src.isIPv4 ∧ dst.isIPv6 ∨ src.isIPv6 ∧ dst.isIPv4)
    matchVersions src dst = none ∧ ¬ comparable ∨
      ∃ v w, matchVersions src dst = some (src.setVersion v, dst.setVersion w) ∧ comparable := by
  dsimp only
  unfold matchVersions
  split
  · exact .inr ⟨_, _, rfl, .inl ‹_›⟩
  · split
    · rename_i h
      exact .inr ⟨4, dst.ipVersion, rfl, .inr ⟨.inl h.2.2, .inr ⟨h.2.1, h.1⟩⟩⟩
    · split
      · rename_i h
        exact .inr ⟨src.ipVersion, 4, rfl, .inr ⟨.inr h.2.2, .inl ⟨h.1, h.2.1⟩⟩⟩
      · split
        · rename_i h
          exact .inr ⟨6, dst.ipVersion, rfl, .inr ⟨.inl h.2.2, .inl ⟨h.2.1, h.1⟩⟩⟩
        · split
          · rename_i h
            exact .inr ⟨src.ipVersion, 6, rfl, .inr ⟨.inr h.2.2, .inr ⟨h.1, h.2.1⟩⟩⟩
          · rename_i hv h1 h2 h3 h4
            refine .inl ⟨rfl, ?_⟩
            rintro (h | ⟨he | he, ⟨hs, hd⟩ | ⟨hs, hd⟩⟩)
            · exact hv h
            · exact h3 ⟨hd, hs, he⟩
            · exact h1 ⟨hd, hs, he⟩
            · exact h2 ⟨hs, hd, he⟩
            · exact h4 ⟨hs, hd, he⟩

/-- What the first stages leave of the record of a flow. -/
theorem report_stages (doIgnoreVlans : Bool) (k : FlowKey) (h : History) (z : ParsedFlow) :
    let y := ((k.report h z).ignoreVlans doIgnoreVlans).clearIcmpPorts
    y.srcIp = k.cliIp ∧ y.dstIp = k.srvIp ∧ y.l4Proto = k.protocol ∧ y.tcp.clientTcpFlags = src2dstTcpFlags h ∧
      y.hasParsedeBPF = false ∧ y.isSwapped = false ∧
        (ntohs y.srcPort < ntohs y.dstPort ↔ ¬ k.icmp ∧ k.cliPort < k.srvPort) := by
  have hvlan : ∃ v, (k.report h z).ignoreVlans doIgnoreVlans = { k.report h z with vlanId := v } := by
    unfold ParsedFlow.ignoreVlans
    split
    · exact ⟨0, rfl⟩
    · exact ⟨_, rfl⟩
  obtain ⟨v, hv⟩ := hvlan
  dsimp only
  rw [hv]
  unfold ParsedFlow.clearIcmpPorts
  split
  · rename_i hi
    refine ⟨rfl, rfl, rfl, rfl, rfl, rfl, ?_⟩
    have hicmp : k.icmp := hi
    simp [hicmp]
  · rename_i hi
    refine ⟨rfl, rfl, rfl, rfl, rfl, rfl, ?_⟩
    have hicmp : ¬ k.icmp := hi
    have hports : ntohs (k.report h z).srcPort = k.cliPort ∧ ntohs (k.report h z).dstPort = k.srvPort :=
      ⟨ntohs_ntohs _, ntohs_ntohs _⟩
    rw [← hports.1, ← hports.2]
    simp [hicmp]

theorem collectedSwap_iff (prefs : Prefs) (getExporterUniqueSourceID : In6Addr → In6Addr → UInt32) (k : FlowKey)
    (h : History) (z : ParsedFlow) : collectedSwap prefs getExporterUniqueSourceID k h z = true ↔
      prefs.isFlowSwapHeuristicEnabled = true ∧ k.comparable ∧ ¬ k.icmp ∧ ¬ k.cliIp.isBroadMulticastAddress ∧
        ¬ k.srvIp.isBroadMulticastAddress ∧ k.cliPort < k.srvPort ∧ guessed k h := by
  obtain ⟨hsrc, hdst, hproto, hflags, hebpf, hswapped, hports⟩ := report_stages prefs.doIgnoreVlans k h z
  have hno : ¬ ((k.report h z).ignoreVlans prefs.doIgnoreVlans).clearIcmpPorts.hasParsedeBPF = true := by
    rw [hebpf]
    decide
  unfold collectedSwap preprocessFlow ParsedFlow.matchVersions guessed
  rw [if_neg hno, hsrc, hdst]
  rcases matchVersions_cases k.cliIp k.srvIp with ⟨hnone, hc⟩ | ⟨v, w, hsome, hc⟩
  · have hnc : ¬ k.comparable := hc
    rw [hnone]
    simp [hnc]
  · have hcomparable : k.comparable := hc
    rw [hsome]
    generalize ((k.report h z).ignoreVlans prefs.doIgnoreVlans).clearIcmpPorts = y at *
    have hguess := guessSwap_isSwapped prefs.isFlowSwapHeuristicEnabled
      (z := { y with srcIp := k.cliIp.setVersion v, dstIp := k.srvIp.setVersion w }) hebpf hswapped
    refine hguess.trans ?_
    change _ ∧ ¬ k.cliIp.isBroadMulticastAddress ∧ ¬ k.srvIp.isBroadMulticastAddress ∧ ntohs y.srcPort < ntohs y.dstPort ∧
      y.l4Proto ≠ _ ∧ ¬ (y.l4Proto = _ ∧ synSeen y.tcp.clientTcpFlags) ↔ _
    rw [hports, hproto, hflags]
    tauto

theorem isNonEmptyUnicast_iff (a : IpAddress) :
    a.isNonEmptyUnicastAddress = true ↔ ¬ a.isBroadMulticastAddress ∧ ¬ a.isEmpty := by
  unfold IpAddress.isNonEmptyUnicastAddress IpAddress.isBroadMulticastAddress
  cases a.multicastIP <;> cases a.broadcastIP <;> simp

/-- Of a kind that differs, only one of the two swaps. -/
theorem differs_iff (prefs : Prefs) (getExporterUniqueSourceID : In6Addr → In6Addr → UInt32) (rdp : Bool)
    (k : FlowKey) (h : History) (z : ParsedFlow) (henabled : prefs.isFlowSwapHeuristicEnabled = true) :
    Differs rdp k h ↔
      (checkSwap true rdp k h = true ∧ ¬ collectedSwap prefs getExporterUniqueSourceID k h z = true ∨
        ¬ checkSwap true rdp k h = true ∧ collectedSwap prefs getExporterUniqueSourceID k h z = true) := by
  have hpos : ∀ p : UInt16, ¬ 0 < p → p = 0 := by
    intro p hp
    simpa [UInt16.pos_iff_ne_zero] using hp
  have hlower : k.cliPort < k.srvPort → 0 < k.srvPort := by
    intro hlt
    rw [UInt16.lt_iff_toNat_lt] at hlt ⊢
    exact Nat.lt_of_le_of_lt (Nat.zero_le _) hlt
  rw [checkSwap_iff, collectedSwap_iff, henabled]
  unfold guessed
  constructor
  · intro hd
    cases hd with
    | zeroPort hg hc hs hi hv hsrc hdst =>
      refine .inr ⟨?_, rfl, hv, hi, hsrc, hdst, hc ▸ hs, hg⟩
      rintro ⟨-, -, hcli, -⟩
      rw [hc] at hcli
      exact absurd hcli (by decide)
    | emptyServer hg hc hlt hi hv hsrc hdst he =>
      refine .inr ⟨?_, rfl, hv, hi, ((isNonEmptyUnicast_iff _).mp hsrc).1, hdst, hlt, hg⟩
      rintro ⟨-, -, -, -, hcast, -⟩
      exact hcast ⟨hsrc, fun hu => ((isNonEmptyUnicast_iff _).mp hu).2 he⟩
    | onlyPacket hg hc hlt hcast hwhy =>
      refine .inl ⟨⟨rfl, hg.2, hc, hlower hlt, hcast, ?_⟩, ?_⟩
      · rw [if_pos hlt]
        exact hg.1
      · rintro ⟨-, hv, hi, hsrc, hdst, -⟩
        rcases hwhy with h1 | h1 | h1 | h1
        · exact hsrc h1
        · exact hdst h1
        · exact hi h1
        · exact h1 hv
    | rdpServer hsyn hrdp hc hs hle hcast =>
      have hnlt : ¬ k.cliPort < k.srvPort := UInt16.not_lt.mpr hle
      refine .inl ⟨⟨rfl, hsyn, ?_, hs, hcast, ?_⟩, fun hb => hnlt hb.2.2.2.2.2.1⟩
      · rw [hc]
        decide
      · rw [if_neg hnlt]
        exact ⟨hrdp, hc⟩
  · rintro (⟨⟨-, hsyn, hc, hs, hcast, hports⟩, hb⟩ | ⟨ha, -, hv, hi, hsrc, hdst, hlt, hg⟩)
    · by_cases hlt : k.cliPort < k.srvPort
      · rw [if_pos hlt] at hports
        refine .onlyPacket ⟨hports, hsyn⟩ hc hlt hcast ?_
        by_contra hnot
        simp only [not_or, Classical.not_not] at hnot
        exact hb ⟨rfl, hnot.2.2.2, hnot.2.2.1, hnot.1, hnot.2.1, hlt, hports, hsyn⟩
      · rw [if_neg hlt] at hports
        exact .rdpServer hsyn hports.1 hports.2 hs (UInt16.not_lt.mp hlt) hcast
    · by_cases hc : 0 < k.cliPort
      · have hcast : k.toNonUnicast := by
          by_contra hcast
          refine ha ⟨rfl, hg.2, hc, hlower hlt, hcast, ?_⟩
          rw [if_pos hlt]
          exact hg.1
        have hempty : k.srvIp.isEmpty = true := by
          by_contra he
          exact hcast.2 ((isNonEmptyUnicast_iff _).mpr ⟨hdst, he⟩)
        exact .emptyServer hg hc hlt hi hv hcast.1 hdst hempty
      · exact .zeroPort hg (hpos _ hc) (hlower hlt) hi hv hsrc hdst

/-- The two decide the same exactly when the heuristic is disabled or the flow is of no kind that differs. -/
theorem decisions_agree_iff (prefs : Prefs) (getExporterUniqueSourceID : In6Addr → In6Addr → UInt32) (rdp : Bool)
    (k : FlowKey) (h : History) (z : ParsedFlow) :
    checkSwap prefs.isFlowSwapHeuristicEnabled rdp k h = collectedSwap prefs getExporterUniqueSourceID k h z ↔
      prefs.isFlowSwapHeuristicEnabled = false ∨ ¬ Differs rdp k h := by
  cases henabled : prefs.isFlowSwapHeuristicEnabled with
  | false =>
    have hpacket : checkSwap false rdp k h = false := rfl
    have hrecord : collectedSwap prefs getExporterUniqueSourceID k h z = false := by
      rw [← Bool.not_eq_true, collectedSwap_iff, henabled]
      simp
    simp [hpacket, hrecord]
  | true =>
    rw [differs_iff prefs getExporterUniqueSourceID rdp k h z henabled, Bool.eq_iff_iff]
    tauto

/-! ## A flow that differs -/

/-- An IPv4 address as `checkIP` sees it, without local networks. -/
def ipv4 (a b c d : UInt8) : IpAddress :=
  { ipVersion := 4
    multicastIP := a &&& 0xF0 == 0xE0
    broadcastIP := (a == 255 && b == 255 && c == 255 && d == 255) || (a == 0 && b == 0 && c == 0 && d == 0)
    ipType := [a, b, c, d] ++ List.replicate 12 0 }

/-- TCP from 10.0.0.1, port 0, to 10.0.0.2, port 80. -/
def scan : FlowKey := ⟨ipv4 10 0 0 1, ipv4 10 0 0 2, 0, 80, 6⟩

/-- TCP from 10.0.0.1, port 3389, to 10.0.0.2, port 2000. -/
def rdpReply : FlowKey := ⟨ipv4 10 0 0 1, ipv4 10 0 0 2, 3389, 2000, 6⟩

/-- An ACK of the client. -/
def ack : History := [(true, 0x10)]

/-- Only the record of the first flow is swapped, and only the packet of the second. -/
theorem not_decisions_agree :
    ¬ (∀ prefs getExporterUniqueSourceID rdp k h z,
        checkSwap prefs.isFlowSwapHeuristicEnabled rdp k h = collectedSwap prefs getExporterUniqueSourceID k h z) ∧
      (checkSwap true false scan ack, collectedSwap ⟨true, false⟩ (fun _ _ => 0) scan ack .init) = (false, true) ∧
      (checkSwap true true rdpReply ack, collectedSwap ⟨true, false⟩ (fun _ _ => 0) rdpReply ack .init) = (true, false) := by
  have hscan : (checkSwap true false scan ack, collectedSwap ⟨true, false⟩ (fun _ _ => 0) scan ack .init) =
      (false, true) := by decide
  refine ⟨fun h => ?_, hscan, by decide⟩
  obtain ⟨hpacket, hrecord⟩ := Prod.mk.inj hscan
  have hsame := h ⟨true, false⟩ (fun _ _ => 0) false scan ack .init
  rw [hrecord] at hsame
  exact absurd (hpacket.symm.trans hsame) (by decide)

end Ntopng.Zmq
