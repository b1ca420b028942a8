/-
  Ntopng.Dissect.Bounds — what the dissection reads (src/NetworkInterface.cpp).

  Every turn keeps the invariant that a pointer into the packet points to a captured header
  (`keeps_turn`), and reads captured bytes only, but for two places: `datalink_check` on
  `DLT_ENC`, and the type field before the end of a CAPWAP header (`readsBelow_turn`). The
  header parsing reads captured bytes only, but for a window scale that is cut short at the
  end of the capture (`readsBelow_processPacket`).
-/

import Ntopng.Dissect.Parse

namespace Ntopng.Dissect

open Ntopng.Lib.Bytes Ntopng.Lib.Turns Ntopng.Lib.Turns.Walk

/-! ## What every configuration has -/

/-- A pointer to an Ethernet header points to a captured one. -/
def EthernetIn (p : Capture) (e : Option Ethernet) : Prop := ∀ o, e = some (.at o) → o.toNat + 14 ≤ p.caplen

def IpHeader.offset : IpHeader → UInt16
  | .iph o => o
  | .ip6 o => o

/-- The fixed part of the header is captured. -/
def HeaderIn (p : Capture) : IpHeader → Prop
  | .iph o => o.toNat + 20 ≤ p.caplen
  | .ip6 o => o.toNat + 40 ≤ p.caplen

/-- What a label relies on besides. -/
def LabelInv (p : Capture) (s : St) : Label → Prop
  | .tzsp u => u.iph = s.ipOffset ∧ s.ipOffset.toNat + 20 ≤ p.caplen
  | .tzspTag u _ => u.iph = s.ipOffset ∧ s.ipOffset.toNat + 20 ≤ p.caplen
  | .capwap u => u.iph = s.ipOffset ∧ s.ipOffset.toNat + 20 ≤ p.caplen
  | .capwap6 _ => s.ipOffset.toNat + 40 ≤ p.caplen
  | _ => True

structure Inv (p : Capture) (c : Conf) : Prop where
  ethernet : EthernetIn p c.st.ethernet
  label : LabelInv p c.st c.label

/-- What `processPacket` relies on. -/
structure HandoffInv (p : Capture) (h : Handoff) : Prop where
  ethernet : EthernetIn p h.st.ethernet
  header : HeaderIn p h.header
  le : h.header.offset.toNat ≤ h.st.ipOffset.toNat

def NextInv (p : Capture) : Next → Prop
  | .inl c => Inv p c
  | .inr (some h) => HandoffInv p h
  | .inr none => True

def Keeps (p : Capture) (t : Turn) : Prop := Yields (NextInv p) t

/-- A turn that reads captured bytes only and keeps the invariant. -/
abbrev Good (p : Capture) (t : Turn) : Prop := Sound p.caplen (NextInv p) t

section

variable {i : Iface} {p : Capture} {s : St} {α : Type}

@[simp] theorem good_goto (l : Label) : Good p (goto l s) ↔ EthernetIn p s.ethernet ∧ LabelInv p s l :=
  ⟨fun h => ⟨h.2.ethernet, h.2.label⟩, fun h => ⟨readsBelow_pure _, h.1, h.2⟩⟩

@[simp] theorem good_gotoIp (l : Label) (n : Nat) :
    Good p (gotoIp l s n) ↔ EthernetIn p s.ethernet ∧ LabelInv p { s with ipOffset := u16 n } l := by
  simp only [gotoIp, sound_bind, readsBelow_assign, good_goto, true_and]

@[simp] theorem good_gotoEth (n : Nat) : Good p (gotoEth s n) ↔ EthernetIn p s.ethernet := by
  simp only [gotoEth, sound_bind, readsBelow_assign, good_goto, LabelInv, true_and, and_true]

@[simp] theorem good_finish : Good p finish := ⟨readsBelow_pure _, trivial⟩

@[simp] theorem good_countAndFinish (e : UInt16) (l : UInt32) : Good p (countAndFinish s e l) :=
  ⟨nofun, trivial⟩

theorem ethernetIn_dummy : EthernetIn p (some .dummy) := nofun

theorem readsBelow_hDest {e : Ethernet} (h : EthernetIn p (some e)) : ReadsBelow p.caplen (hDest i p e) := by
  cases e with
  | dummy => exact readsBelow_pure _
  | simulated => exact readsBelow_pure _
  | «at» o =>
    have ho := h o rfl
    simp only [hDest, Capture.readsBelow_mac]
    omega

theorem readsBelow_hSource {e : Ethernet} (h : EthernetIn p (some e)) : ReadsBelow p.caplen (hSource i p e) := by
  cases e with
  | dummy => exact readsBelow_pure _
  | simulated => exact readsBelow_pure _
  | «at» o =>
    have ho := h o rfl
    simp only [hSource, Capture.readsBelow_mac]
    omega

theorem readsBelow_direction (h : EthernetIn p s.ethernet) : ReadsBelow p.caplen (direction i p s) := by
  unfold direction
  split
  · exact readsBelow_pure _
  · rename_i e he
    rw [he] at h
    simp only [readsBelow_ite, readsBelow_bind, readsBelow_pure, and_true]
    exact ⟨fun _ => readsBelow_hDest h, fun _ => ⟨fun _ => readsBelow_hSource h, fun _ => trivial⟩⟩

/-! ## datalink_check -/

@[simp] theorem good_decode (ethType : UInt16) (e : Ethernet) (o : Nat) :
    Good p (decode s ethType e o) ↔ EthernetIn p (some e) :=
  (good_gotoIp ..).trans (and_iff_left trivial)

theorem good_datalinkCheck (hd : p.datalink = .enc → 0 < p.caplen) (h : EthernetIn p s.ethernet) :
    Good p (datalinkCheck i p s) := by
  cases hdl : p.datalink <;>
    simp only [datalinkCheck, hdl, sound_ite, sound_bind, good_decode, good_goto, good_countAndFinish,
      Capture.readsBelow_byte, Capture.readsBelow_short, Capture.readsBelow_word, LabelInv,
      ethernetIn_dummy, h, implies_true, true_and, and_true]
  case en10mb =>
    intro hlt
    refine ⟨by omega, fun o ho => ?_⟩
    obtain rfl : s.ethOffset = o := by simpa using ho
    omega
  case enc =>
    have hpos := hd hdl
    omega
  all_goals omega

theorem keeps_datalinkCheck (h : EthernetIn p s.ethernet) : Keeps p (datalinkCheck i p s) := by
  by_cases hd : p.datalink = .enc → 0 < p.caplen
  · exact (good_datalinkCheck hd h).2
  · have hdl : p.datalink = .enc := by simp only [Classical.not_imp] at hd; exact hd.1
    simp only [datalinkCheck, hdl, Keeps, yields_bind, yields_ite]
    exact ⟨fun _ => ((good_decode ..).mpr ethernetIn_dummy).2, fun _ => ⟨h, trivial⟩⟩

theorem readsBelow_datalinkCheck (h : EthernetIn p s.ethernet) :
    ReadsBelow p.caplen (datalinkCheck i p s) ↔ (p.datalink = .enc → 0 < p.caplen) := by
  refine ⟨fun hr hd => ?_, fun hd => (good_datalinkCheck hd h).1⟩
  simp only [datalinkCheck, hd, readsBelow_bind, Capture.readsBelow_byte] at hr
  omega

/-! ## decode_packet_eth -/

theorem readsBelow_guessIp {o len : Nat} (h : o + len ≤ p.caplen) : ReadsBelow p.caplen (guessIp p o len) := by
  simp only [guessIp, readsBelow_ite, readsBelow_bind, readsBelow_pure, Capture.readsBelow_byte, implies_true, and_true]
  omega

theorem readsBelow_guessEthType {o len : Nat} (h : o + len ≤ p.caplen) :
    ReadsBelow p.caplen (guessEthType p o len) := by
  simp only [guessEthType, readsBelow_ite, readsBelow_bind, readsBelow_pure, Capture.readsBelow_short,
    readsBelow_guessIp h, implies_true, and_true]
  omega

theorem good_decodePacketEth (h : EthernetIn p s.ethernet) : Good p (decodePacketEth i p s) := by
  simp only [decodePacketEth, sound_ite, sound_bind, good_goto, good_gotoIp, good_countAndFinish,
    Capture.readsBelow_byte, Capture.readsBelow_short, readsBelow_assign, LabelInv, h, implies_true, true_and, and_true]
  intro hlt
  refine ⟨fun hv => by omega, fun _ hm => ⟨by omega, fun _ hlt => ?_⟩⟩
  exact readsBelow_guessEthType (by omega)

/-! ## processPacket is called -/

theorem ethernetIn_chosen (b : Bool) (h : EthernetIn p s.ethernet) : EthernetIn p (chosenEthernet i s b) := by
  unfold chosenEthernet
  split
  · exact nofun
  · split
    · exact nofun
    · exact h

theorem readsBelow_simulateVlan (vlanId : UInt16) {header : IpHeader} (h : HeaderIn p header) :
    ReadsBelow p.caplen (simulateVlan i p vlanId header) := by
  simp only [simulateVlan, readsBelow_ite, readsBelow_pure, implies_true, and_true]
  intro _
  cases header with
  | iph o =>
    simp only [HeaderIn] at h
    simp only [readsBelow_bind, readsBelow_pure, Capture.readsBelow_word, and_true]
    omega
  | ip6 o =>
    simp only [HeaderIn] at h
    simp only [readsBelow_bind, readsBelow_pure, Capture.readsBelow_byte, and_true]
    omega

theorem good_deliver (b : Bool) {header : IpHeader} (h : EthernetIn p s.ethernet) (hh : HeaderIn p header)
    (hle : header.offset.toNat ≤ s.ipOffset.toNat) : Good p (deliver i p s b header) :=
  (sound_bind ..).mpr ⟨readsBelow_simulateVlan _ hh, readsBelow_pure _, ethernetIn_chosen b h, hh, hle⟩

theorem good_deliver4 (b : Bool) {o : UInt16} (h : EthernetIn p s.ethernet) (h4 : o.toNat + 20 ≤ p.caplen)
    (hle : o.toNat ≤ s.ipOffset.toNat) : Good p (deliver i p s b (.iph o)) :=
  good_deliver b h h4 hle

theorem good_deliver6 (b : Bool) {o : UInt16} (h : EthernetIn p s.ethernet) (h6 : o.toNat + 40 ≤ p.caplen)
    (hle : o.toNat ≤ s.ipOffset.toNat) : Good p (deliver i p s b (.ip6 o)) :=
  good_deliver b h h6 hle

/-! ## Tunnels over IPv4 -/

@[simp] theorem good_greIp (ethType : UInt16) (o : Nat) : Good p (greIp s ethType o) ↔ EthernetIn p s.ethernet :=
  (good_gotoIp ..).trans (and_iff_left trivial)

theorem good_erspan {o : Nat} (h : o + 14 ≤ p.caplen) : Good p (erspan p s o) := by
  have ho : (u16 o).toNat ≤ o := by rw [toNat_u16]; omega
  simp only [erspan, sound_bind, good_gotoIp, readsBelow_assign, Capture.readsBelow_short, LabelInv, true_and, and_true]
  refine ⟨by omega, fun o' ho' => ?_⟩
  obtain rfl : u16 o = o' := by simpa using ho'
  omega

theorem good_gre4 {ipLen : Nat} (h : EthernetIn p s.ethernet) (h4 : s.ipOffset.toNat + 20 ≤ p.caplen)
    (hlen : s.ipOffset.toNat + ipLen + 4 ≤ p.caplen) : Good p (gre4 i p s ipLen) := by
  simp only [gre4, sound_bind, sound_ite, good_gotoEth, good_greIp, Capture.readsBelow_short, h, implies_true,
    true_and]
  refine ⟨by omega, by omega, fun _ _ _ _ => ⟨fun he => good_erspan (by omega), fun _ => ⟨fun he => good_erspan (by omega), fun _ => ?_⟩⟩⟩
  exact good_deliver4 true h h4 (Nat.le_refl _)

theorem good_gtp {u : Udp4} {o : Nat} (h : EthernetIn p s.ethernet) (hu : u.iph = s.ipOffset)
    (h4 : s.ipOffset.toNat + 20 ≤ p.caplen) : Good p (gtp i p s u o) := by
  simp only [gtp, sound_bind, sound_ite, good_goto, good_countAndFinish, Capture.readsBelow_byte, readsBelow_assign,
    LabelInv, h, hu, h4, implies_true, and_true, true_and]
  intro hlt
  refine ⟨by omega, by omega, fun _ hge => ?_⟩
  exact ⟨by omega, fun _ => by omega⟩

theorem good_pppPayload {proto : UInt16} {o : Nat} {otherwise : Turn} (h : EthernetIn p s.ethernet)
    (hother : Good p otherwise) : Good p (pppPayload i p s proto o otherwise) := by
  have ho : (u16 o).toNat ≤ o := by rw [toNat_u16]; omega
  simp only [pppPayload, sound_ite, good_countAndFinish, hother, implies_true, true_and, and_true]
  exact ⟨fun _ hlt => good_deliver4 true h (by omega) (Nat.le_refl _), fun _ _ hlt => good_deliver6 true h (by omega) (Nat.le_refl _)⟩

theorem good_l2tp {o : Nat} (h : EthernetIn p s.ethernet) (h4 : s.ipOffset.toNat + 20 ≤ p.caplen) :
    Good p (l2tp i p s o) := by
  simp only [l2tp, sound_bind, sound_ite, good_countAndFinish, Capture.readsBelow_byte, Capture.readsBelow_short,
    implies_true, true_and, and_true]
  intro hlt
  refine ⟨by omega, fun hppp => ⟨by omega, by omega, ?_⟩⟩
  refine good_pppPayload h ?_
  simp only [sound_bind, sound_ite, good_countAndFinish, Capture.readsBelow_byte, implies_true, true_and, and_true]
  intro _ hlt
  exact ⟨by omega, by omega, good_pppPayload h (good_deliver4 true h h4 (Nat.le_refl _))⟩

theorem good_udp4 {ipLen : Nat} (h : EthernetIn p s.ethernet) (h4 : s.ipOffset.toNat + 20 ≤ p.caplen) :
    Good p (udp4 i p s ipLen) := by
  have hgtp : ∀ u : Udp4, u.iph = s.ipOffset → Good p (gtp i p s u (s.ipOffset.toNat + ipLen + 8)) :=
    fun u hu => good_gtp h hu h4
  simp only [udp4, sound_bind, sound_ite, good_goto, good_gotoEth, good_countAndFinish, Capture.readsBelow_short, LabelInv, h, h4,
    hgtp, good_l2tp h h4, implies_true, and_true, true_and]
  omega

theorem good_tzsp {u : Udp4} (h : EthernetIn p s.ethernet) (hu : u.iph = s.ipOffset)
    (h4 : s.ipOffset.toNat + 20 ≤ p.caplen) : Good p (tzsp p s u) := by
  simp only [tzsp, sound_bind, sound_ite, good_goto, good_finish, Capture.readsBelow_byte, Capture.readsBelow_short,
    LabelInv, h, hu, h4, implies_true, and_true, true_and]
  omega

theorem good_tzspAdvance {u : Udp4} {o : UInt32} {len : Nat} {stop : Bool} (h : EthernetIn p s.ethernet)
    (hu : u.iph = s.ipOffset) (h4 : s.ipOffset.toNat + 20 ≤ p.caplen) : Good p (tzspAdvance i p s u o len stop) := by
  simp only [tzspAdvance, sound_bind, sound_ite, good_goto, good_gotoEth, good_countAndFinish, readsBelow_assign,
    LabelInv, h, hu, h4, implies_true, and_true]

theorem good_tzspTag {u : Udp4} {o : UInt32} (h : EthernetIn p s.ethernet)
    (hu : u.iph = s.ipOffset) (h4 : s.ipOffset.toNat + 20 ≤ p.caplen) : Good p (tzspTag i p s u o) := by
  simp only [tzspTag, sound_bind, sound_ite, good_goto, good_finish, good_tzspAdvance h hu h4, Capture.readsBelow_byte,
    LabelInv, h, hu, h4, implies_true, and_true, true_and]
  omega

/-- Where the packet inside of a CAPWAP header at `o` starts. -/
def capwapEnd (p : Capture) (o : UInt16) : UInt16 :=
  u16 (o.toNat + (p.packet (o.toNat + 1) >>> 3).toNat * 4 + 24 + 8)

/-- The type field before the inner packet does not lie before the captured bytes. -/
def CapwapFits (p : Capture) (o : UInt16) : Prop :=
  o.toNat + 1 < p.caplen → (capwapEnd p o).toNat < p.caplen → 2 ≤ (capwapEnd p o).toNat

theorem keeps_capwapInner {b : Bool} {o : UInt16} (h : EthernetIn p s.ethernet) :
    Keeps p (capwapInner i p s b o) := by
  simp only [capwapInner, Keeps, yields_bind, yields_ite]
  refine ⟨fun _ => trivial, fun _ => ⟨fun _ => ⟨fun _ => trivial, fun h4 => ?_⟩,
    fun _ => ⟨fun _ => ⟨fun _ => trivial, fun h6 => ?_⟩, fun _ => trivial⟩⟩⟩
  · have h4' : o.toNat + 20 ≤ p.caplen := by omega
    exact (good_deliver4 (s := { s with ipOffset := o }) b h h4' (Nat.le_refl _)).2
  · have h6' : o.toNat + 40 ≤ p.caplen := by omega
    exact (good_deliver6 (s := { s with ipOffset := o }) b h h6' (Nat.le_refl _)).2

theorem good_capwapInner {b : Bool} {o : UInt16} (h : EthernetIn p s.ethernet)
    (ho : o.toNat < p.caplen → 2 ≤ o.toNat) : Good p (capwapInner i p s b o) := by
  simp only [capwapInner, sound_ite, sound_bind, good_countAndFinish, Capture.readsBelow_short, implies_true, true_and,
    and_true]
  intro hlt
  refine ⟨by omega, fun _ h4 => ?_, fun _ _ h6 => ?_⟩
  · exact good_deliver4 b h (by omega) (Nat.le_refl _)
  · exact good_deliver6 b h (by omega) (Nat.le_refl _)

theorem readsBelow_capwapInner {b : Bool} {o : UInt16} (h : EthernetIn p s.ethernet) :
    ReadsBelow p.caplen (capwapInner i p s b o) ↔ (o.toNat < p.caplen → 2 ≤ o.toNat) := by
  refine ⟨fun hr hlt => ?_, fun ho => (good_capwapInner h ho).1⟩
  simp only [capwapInner, readsBelow_ite, readsBelow_bind, Capture.readsBelow_short] at hr
  have h2 := (hr.2 (by omega)).1
  omega

theorem readsBelow_capwapHeader {b : Bool} {o : UInt16} (h : EthernetIn p s.ethernet) (ho : o.toNat + 1 < p.caplen) :
    ReadsBelow p.caplen (capwapHeader i p s b o) ↔ CapwapFits p o := by
  simp only [capwapHeader, readsBelow_bind, Capture.readsBelow_byte, readsBelow_capwapInner h]
  exact ⟨fun hr _ => hr.2, fun hf => ⟨by omega, hf ho⟩⟩

theorem keeps_capwapHeader {b : Bool} {o : UInt16} (h : EthernetIn p s.ethernet) :
    Keeps p (capwapHeader i p s b o) :=
  (yields_bind ..).mpr (keeps_capwapInner h)

theorem keeps_capwap {u : Udp4} (h : EthernetIn p s.ethernet) (hu : u.iph = s.ipOffset)
    (h4 : s.ipOffset.toNat + 20 ≤ p.caplen) : Keeps p (capwap i p s u) := by
  simp only [capwap, Keeps, yields_ite]
  refine ⟨fun _ => ⟨fun _ => trivial, fun _ => keeps_capwapHeader h⟩, fun _ => ?_⟩
  exact (good_deliver4 true h (hu ▸ h4) (hu ▸ Nat.le_refl _)).2

theorem readsBelow_capwap {u : Udp4} (h : EthernetIn p s.ethernet) (hu : u.iph = s.ipOffset)
    (h4 : s.ipOffset.toNat + 20 ≤ p.caplen) :
    ReadsBelow p.caplen (capwap i p s u) ↔
      (isCapwap u.sport u.dport → CapwapFits p (u16 (s.ipOffset.toNat + u.ipLen.toNat + 8))) := by
  have hdeliver := (good_deliver4 (i := i) true h (hu ▸ h4) (Nat.le_of_eq (congrArg UInt16.toNat hu))).1
  simp only [capwap, readsBelow_ite, hdeliver, implies_true, and_true]
  refine forall_congr' fun _ => ?_
  by_cases hlt : (u16 (s.ipOffset.toNat + u.ipLen.toNat + 8)).toNat + 1 < p.caplen
  · simp only [show ¬ (u16 (s.ipOffset.toNat + u.ipLen.toNat + 8)).toNat + 1 ≥ p.caplen by omega, false_implies,
      not_false_iff, true_implies, true_and, readsBelow_capwapHeader h hlt]
  · exact ⟨fun _ hlt' => absurd hlt' hlt, fun _ => ⟨fun _ => (good_countAndFinish ..).1, fun hge => absurd (by omega) hge⟩⟩

theorem good_ipv4 (h : EthernetIn p s.ethernet) : Good p (ipv4 i p s) := by
  simp only [ipv4, sound_ite, sound_bind, good_gotoIp, good_greIp, good_countAndFinish, good_finish,
    Capture.readsBelow_byte, Capture.readsBelow_short, LabelInv, h, implies_true, true_and, and_true]
  intro h4
  refine ⟨by omega, fun _ => ⟨by omega, by omega, fun hgre => ?_, fun _ _ => ⟨fun _ => ?_, fun _ _ => ?_⟩⟩⟩
  · exact good_gre4 h h4 hgre.2.2.2
  · exact good_udp4 h h4
  · exact good_deliver4 true h h4 (Nat.le_refl _)

/-! ## Tunnels over IPv6 -/

theorem good_gre6 {ipv6Shift : Nat} (h : EthernetIn p s.ethernet) (h6 : s.ipOffset.toNat + 40 ≤ p.caplen)
    (hlen : s.ipOffset.toNat + ipv6Shift + 4 ≤ p.caplen) : Good p (gre6 i p s ipv6Shift) := by
  simp only [gre6, sound_bind, sound_ite, good_greIp, Capture.readsBelow_short, h, implies_true, true_and]
  refine ⟨by omega, by omega, fun _ _ => ⟨fun he => good_erspan (by omega), fun _ => ?_⟩⟩
  exact good_deliver6 false h h6 (Nat.le_refl _)

theorem good_udp6 {ipv6Shift : Nat} (h : EthernetIn p s.ethernet) (h6 : s.ipOffset.toNat + 40 ≤ p.caplen) :
    Good p (udp6 i p s ipv6Shift) := by
  simp only [udp6, sound_bind, sound_ite, good_goto, good_countAndFinish, Capture.readsBelow_short, LabelInv, h, h6,
    good_deliver6 false h h6 (Nat.le_refl _), implies_true, true_and, and_true]
  omega

theorem good_tunnels6 {l4Proto : UInt8} {ipv6Shift : Nat} (h : EthernetIn p s.ethernet)
    (h6 : s.ipOffset.toNat + 40 ≤ p.caplen) : Good p (tunnels6 i p s l4Proto ipv6Shift) := by
  simp only [tunnels6, sound_ite, good_greIp, good_udp6 h h6, good_deliver6 false h h6 (Nat.le_refl _), h,
    implies_true, and_true]
  exact fun hgre => good_gre6 h h6 hgre.2.2

theorem good_ipv6 (h : EthernetIn p s.ethernet) : Good p (ipv6 i p s) := by
  simp only [ipv6, sound_ite, sound_bind, good_countAndFinish, good_finish, Capture.readsBelow_byte, implies_true,
    true_and, and_true]
  intro h6
  simp only [good_tunnels6 h h6, implies_true, and_true]
  omega

/-- Cut short, the header ends behind the outer one. -/
theorem good_deliver_capwap6 {o : UInt16} (h : EthernetIn p s.ethernet) (h6 : s.ipOffset.toNat + 40 ≤ p.caplen)
    (ho : ¬ o.toNat + 1 < p.caplen) :
    Good p (deliver i p { s with ipOffset := o } false (.ip6 s.ipOffset)) :=
  good_deliver6 false h h6 (by show s.ipOffset.toNat ≤ o.toNat; omega)

theorem keeps_capwap6 {ipv6Shift : UInt16} (h : EthernetIn p s.ethernet) (h6 : s.ipOffset.toNat + 40 ≤ p.caplen) :
    Keeps p (capwap6 i p s ipv6Shift) := by
  simp only [capwap6, Keeps, yields_ite]
  exact ⟨fun _ => keeps_capwapHeader h, fun hlt => (good_deliver_capwap6 h h6 hlt).2⟩

theorem readsBelow_capwap6 {ipv6Shift : UInt16} (h : EthernetIn p s.ethernet) (h6 : s.ipOffset.toNat + 40 ≤ p.caplen) :
    ReadsBelow p.caplen (capwap6 i p s ipv6Shift) ↔
      CapwapFits p (u16 (s.ipOffset.toNat + ipv6Shift.toNat + 8)) := by
  by_cases hlt : (u16 (s.ipOffset.toNat + ipv6Shift.toNat + 8)).toNat + 1 < p.caplen
  · simp only [capwap6, if_pos hlt, readsBelow_capwapHeader h hlt]
  · simp only [capwap6, if_neg hlt, (good_deliver_capwap6 h h6 hlt).1, true_iff]
    exact fun hlt' => absurd hlt' hlt

/-! ## The other types -/

theorem good_pppoe (h : EthernetIn p s.ethernet) : Good p (pppoe i p s) := by
  simp only [pppoe, sound_ite, sound_bind, good_gotoIp, good_countAndFinish, good_finish, Capture.readsBelow_byte,
    readsBelow_assign, LabelInv, h, implies_true, true_and, and_true]
  omega

theorem good_nonIp (h : EthernetIn p s.ethernet) : Good p (nonIp i p s) := by
  have h' : EthernetIn p (if i.ignoreMacs then some .dummy else s.ethernet) := by
    split
    · exact nofun
    · exact h
  unfold nonIp
  split
  · exact good_countAndFinish ..
  · rename_i e he
    rw [he] at h'
    simp only [sound_bind, sound_ite, good_countAndFinish, readsBelow_hSource h', readsBelow_hDest h',
      Capture.readsBelow_short, Capture.readsBelow_mac, Capture.readsBelow_word, implies_true, true_and, and_true]
    omega

theorem good_switchEthType (h : EthernetIn p s.ethernet) : Good p (switchEthType i p s) := by
  simp only [switchEthType, sound_bind, sound_ite, readsBelow_direction h, true_and]
  exact ⟨fun _ => good_pppoe h, fun _ => ⟨fun _ => good_ipv4 h, fun _ => ⟨fun _ => good_ipv6 h, fun _ => good_nonIp h⟩⟩⟩

/-! ## A turn -/

/-- Exactly what keeps a turn from reading outside of the captured bytes. -/
def Fits (p : Capture) (c : Conf) : Prop :=
  match c.label with
  | .datalinkCheck => p.datalink = .enc → 0 < p.caplen
  | .capwap u => isCapwap u.sport u.dport → CapwapFits p (u16 (c.st.ipOffset.toNat + u.ipLen.toNat + 8))
  | .capwap6 ipv6Shift => CapwapFits p (u16 (c.st.ipOffset.toNat + ipv6Shift.toNat + 8))
  | _ => True

theorem keeps_turn {c : Conf} (h : Inv p c) : Keeps p (turn i p c) := by
  obtain ⟨label, s⟩ := c
  obtain ⟨he, hl⟩ := h
  cases label with
  | datalinkCheck => exact keeps_datalinkCheck he
  | decodePacketEth => exact (good_decodePacketEth he).2
  | switchEthType => exact (good_switchEthType he).2
  | tzsp u => exact (good_tzsp he hl.1 hl.2).2
  | tzspTag u o => exact (good_tzspTag he hl.1 hl.2).2
  | capwap u => exact keeps_capwap he hl.1 hl.2
  | capwap6 ipv6Shift => exact keeps_capwap6 he hl

theorem readsBelow_turn {c : Conf} (h : Inv p c) : ReadsBelow p.caplen (turn i p c) ↔ Fits p c := by
  obtain ⟨label, s⟩ := c
  obtain ⟨he, hl⟩ := h
  cases label with
  | datalinkCheck => exact readsBelow_datalinkCheck he
  | decodePacketEth => exact iff_of_true (good_decodePacketEth he).1 trivial
  | switchEthType => exact iff_of_true (good_switchEthType he).1 trivial
  | tzsp u => exact iff_of_true (good_tzsp he hl.1 hl.2).1 trivial
  | tzspTag u o => exact iff_of_true (good_tzspTag he hl.1 hl.2).1 trivial
  | capwap u => exact readsBelow_capwap he hl.1 hl.2
  | capwap6 ipv6Shift => exact readsBelow_capwap6 he hl

theorem inv_start (ethType : UInt16) (ingress : Bool) : Inv p (start ethType ingress) := ⟨nofun, trivial⟩

theorem inv_leads {c c' : Conf} (h : Inv p c) (hl : Leads (turn i p) c c') : Inv p c' := by
  have hk : NextInv p (turn i p c).out := keeps_turn h
  rwa [show (turn i p c).out = .inl c' from hl] at hk

theorem handoffInv {c : Conf} {h : Handoff} (hc : Inv p c) (ho : (turn i p c).out = .inr (some h)) :
    HandoffInv p h := by
  have hk : NextInv p (turn i p c).out := keeps_turn hc
  rwa [ho] at hk

/-! ## processPacket -/

theorem readsBelow_dissectICMP {payloadLen o : Nat} (h : o + payloadLen ≤ p.caplen) :
    ReadsBelow p.caplen (dissectICMP p payloadLen o) := by
  simp only [dissectICMP, readsBelow_ite, readsBelow_bind, readsBelow_pure, Capture.readsBelow_byte,
    Capture.readsBelow_short, Capture.readsBelow_word, implies_true, and_true]
  omega

/-- The layer 4 packet is captured. -/
def L4Fits (p : Capture) (o : Option L4) : Prop := ∀ l4, o = some l4 → l4.offset + l4.trustedLen ≤ p.caplen

/-- The payload is captured. -/
def PortsFit (p : Capture) (o : Option Ports) : Prop :=
  ∀ ports, o = some ports → ∀ l, ports.payload = some l → l + ports.trustedPayloadLen ≤ p.caplen

theorem sound_countAndReturn {Q : Option α → Prop} (hQ : Q none) (e : UInt16) :
    Sound p.caplen Q (countAndReturn i p s e) := ⟨nofun, hQ⟩

section

variable {h : Handoff}

theorem sound_trustL4 {protocol : UInt8} {l4 : Nat} {isFragment : Bool} {framePadding : UInt16}
    {tos : UInt8} {ethProto : UInt16} :
    Sound p.caplen (L4Fits p) (trustL4 i p h protocol l4 isFragment framePadding tos ethProto) := by
  simp only [trustL4, sound_ite, sound_pure]
  refine ⟨fun hlt => ⟨fun hge l4' heq => ?_, fun _ => ?_⟩, fun _ => ?_⟩
  · obtain rfl := Option.some.inj heq
    show l4 + ((u16 (p.caplen - l4)).toNat - framePadding.toNat) ≤ p.caplen
    rw [toNat_u16]
    omega
  · exact sound_countAndReturn nofun _
  · exact sound_countAndReturn nofun _

theorem sound_parseIPv4 {o : UInt16} (ho : o.toNat + 20 ≤ p.caplen) :
    Sound p.caplen (L4Fits p) (parseIPv4 i p h o.toNat) := by
  have hret : ∀ e, Sound p.caplen (L4Fits p) (countAndReturn i p h.st e) := sound_countAndReturn nofun
  simp only [parseIPv4, sound_ite, sound_bind, hret, sound_trustL4, Capture.readsBelow_byte, Capture.readsBelow_short,
    implies_true, true_and, and_true]
  omega

/-- The options lie behind a header that the offset is not before. -/
theorem sound_parseIPv6 {o : UInt16} (ho : o.toNat + 40 ≤ p.caplen) (hle : o.toNat ≤ h.st.ipOffset.toNat) :
    Sound p.caplen (L4Fits p) (parseIPv6 i p h o.toNat) := by
  have hret : ∀ e, Sound p.caplen (L4Fits p) (countAndReturn i p h.st e) := sound_countAndReturn nofun
  have htrust : (trustedIpLen p h).toNat ≤ p.caplen - h.st.ipOffset.toNat := by
    unfold trustedIpLen
    split
    · rw [toNat_u16]; exact Nat.mod_le ..
    · exact Nat.zero_le _
  simp only [parseIPv6, sound_ite, sound_bind, hret, sound_trustL4, Capture.readsBelow_byte,
    implies_true, true_and, and_true]
  omega

theorem sound_parseIp (hh : HandoffInv p h) : Sound p.caplen (L4Fits p) (parseIp i p h) := by
  obtain ⟨st, header⟩ := h
  cases header with
  | iph o => exact sound_parseIPv4 hh.header
  | ip6 o => exact sound_parseIPv6 hh.header hh.le

theorem yields_portsOf {l4 : L4} {ethProto : UInt16} {headerSize : Nat} {more : UInt16 → UInt16 → Reading Ports}
    (hmore : headerSize ≤ l4.trustedLen → ∀ src dst, Yields (fun ports => PortsFit p (some ports)) (more src dst)) :
    Yields (PortsFit p) (portsOf i p h l4 ethProto headerSize more) := by
  simp only [portsOf, yields_ite, yields_bind, yields_pure]
  refine ⟨fun hge => hmore hge _ _, fun _ => ?_⟩
  exact fun ports hp => by cases hp

theorem readsBelow_portsOf {l4 : L4} {ethProto : UInt16} {headerSize : Nat} {more : UInt16 → UInt16 → Reading Ports}
    (hl : l4.offset + l4.trustedLen ≤ p.caplen) (hs : 4 ≤ headerSize) :
    ReadsBelow p.caplen (portsOf i p h l4 ethProto headerSize more) ↔
      (headerSize ≤ l4.trustedLen →
        ReadsBelow p.caplen (more (p.shortAt l4.offset) (p.shortAt (l4.offset + 2)))) := by
  simp only [portsOf, readsBelow_ite, readsBelow_bind, readsBelow_pure, Capture.readsBelow_short]
  constructor
  · exact fun hr hge => (hr.1 hge).2.2.1
  · exact fun hr => ⟨fun hge => ⟨by omega, by omega, hr hge, trivial⟩, fun _ => List.forall_mem_nil _⟩

/-! ### TCP options -/

/-- The loop over the options comes to this index. -/
inductive OptionAt (p : Capture) (o optionsLen : Nat) : Nat → Prop
  | first : OptionAt p o optionsLen 0
  | skip {i : Nat} (h : OptionAt p o optionsLen i) (hi : i < optionsLen)
    (hkind : p.packet (o + i : Nat) = 0 ∨ p.packet (o + i : Nat) = 1) : OptionAt p o optionsLen (i + 1)
  | next {i : Nat} (h : OptionAt p o optionsLen i)
    (hkind : ¬ (p.packet (o + i : Nat) = 0 ∨ p.packet (o + i : Nat) = 1)) (hscale : p.packet (o + i : Nat) ≠ 3)
    (hlen : p.packet (o + (i + 1) : Nat) ≠ 0) (hi : i + (p.packet (o + (i + 1) : Nat)).toNat < optionsLen) :
    OptionAt p o optionsLen (i + (p.packet (o + (i + 1) : Nat)).toNat)

/-- The options end with the first two bytes of a window scale, and the capture ends with the options. -/
def ScaleCut (p : Capture) (o optionsLen : Nat) : Prop :=
  ∃ i, OptionAt p o optionsLen i ∧ i + 2 = optionsLen ∧ p.packet (o + i : Nat) = 3 ∧
    p.packet (o + (i + 1) : Nat) = 3 ∧ p.caplen ≤ o + optionsLen

theorem readsBelow_windowScale {o optionsLen : Nat} (ho : o + optionsLen ≤ p.caplen) (hcut : ¬ ScaleCut p o optionsLen)
    (turns : Nat) {k : Nat} (hk : OptionAt p o optionsLen k) :
    ReadsBelow p.caplen (windowScale p o optionsLen turns k) := by
  induction turns generalizing k with
  | zero => exact readsBelow_pure _
  | succ turns ih =>
    simp only [windowScale, readsBelow_ite, readsBelow_bind, readsBelow_pure, Capture.readsBelow_byte,
      implies_true, true_and, and_true]
    refine fun hlt => ⟨by omega, fun hkind => ih (hk.skip hlt hkind), fun hkind hlt' => ⟨by omega, fun hlen =>
      ⟨fun hscale h3 => ?_, fun hscale hin => ih (hk.next hkind hscale hlen hin)⟩⟩⟩
    by_cases hend : k + 2 = optionsLen
    · by_cases hcap : p.caplen ≤ o + optionsLen
      · exact absurd ⟨k, hk, hend, hscale, h3, hcap⟩ hcut
      · omega
    · omega

/-- Wherever the loop comes to, it goes on from there with turns enough. -/
theorem readsBelow_of_optionAt {o optionsLen k : Nat} (h : ReadsBelow p.caplen (windowScale p o optionsLen optionsLen 0))
    (hk : OptionAt p o optionsLen k) :
    ∃ turns, optionsLen ≤ turns + k ∧ ReadsBelow p.caplen (windowScale p o optionsLen turns k) := by
  induction hk with
  | first => exact ⟨optionsLen, Nat.le_refl _, h⟩
  | skip _ hi hkind ih =>
    obtain ⟨turns, hturns, hreads⟩ := ih
    obtain ⟨turns, rfl⟩ := Nat.exists_eq_succ_of_ne_zero (show turns ≠ 0 by omega)
    simp only [windowScale, readsBelow_ite, readsBelow_bind] at hreads
    exact ⟨turns, by omega, (hreads.1 hi).2.1 hkind⟩
  | @next k _ hkind hscale hlen hi ih =>
    obtain ⟨turns, hturns, hreads⟩ := ih
    obtain ⟨turns, rfl⟩ := Nat.exists_eq_succ_of_ne_zero (show turns ≠ 0 by omega)
    have hpos : 0 < (p.packet (o + (k + 1) : Nat)).toNat := Nat.pos_of_ne_zero fun h0 => hlen (UInt8.toNat_inj.mp h0)
    simp only [windowScale, readsBelow_ite, readsBelow_bind] at hreads
    have hbehind := (hreads.1 (by omega)).2.2 hkind
    exact ⟨turns, by omega, (((hbehind.1 (by omega)).2.2 hlen).2 hscale).1 hi⟩

theorem readsBelow_windowScale_iff {o optionsLen : Nat} (ho : o + optionsLen ≤ p.caplen) :
    ReadsBelow p.caplen (windowScale p o optionsLen optionsLen 0) ↔ ¬ ScaleCut p o optionsLen := by
  refine ⟨?_, fun hcut => readsBelow_windowScale ho hcut _ .first⟩
  rintro h ⟨k, hk, hend, hscale, hlen, hcap⟩
  obtain ⟨turns, hturns, hreads⟩ := readsBelow_of_optionAt h hk
  obtain ⟨turns, rfl⟩ := Nat.exists_eq_succ_of_ne_zero (show turns ≠ 0 by omega)
  have hkind : ¬ (p.packet (o + k : Nat) = 0 ∨ p.packet (o + k : Nat) = 1) := by
    rw [hscale]
    decide
  have hlen0 : p.packet (o + (k + 1) : Nat) ≠ 0 := by
    rw [hlen]
    decide
  simp only [windowScale, readsBelow_ite, readsBelow_bind, Capture.readsBelow_byte] at hreads
  have hbehind := (hreads.1 (by omega)).2.2 hkind
  have hthird := (((hbehind.1 (by omega)).2.2 hlen0).1 hscale).1 hlen
  omega

/-- The length of the TCP header. -/
def tcpLenOf (p : Capture) (l4 : L4) : Nat := min (4 * (p.packet (l4.offset + 12) >>> 4).toNat) l4.trustedLen

/-- A SYN whose window scale is cut short at the end of the capture. -/
def ScaleLost (i : Iface) (p : Capture) (l4 : L4) : Prop :=
  i.pro ∧ l4.protocol = IPPROTO_TCP ∧ 20 ≤ l4.trustedLen ∧ p.packet (l4.offset + 13) &&& TH_SYN ≠ 0 ∧
    20 < tcpLenOf p l4 ∧ ScaleCut p (l4.offset + 20) (tcpLenOf p l4 - 20)

theorem readsBelow_tcpWindowScale {l4 : L4} (hl : l4.offset + l4.trustedLen ≤ p.caplen) (hp : l4.protocol = IPPROTO_TCP)
    (hlen : 20 ≤ l4.trustedLen) :
    ReadsBelow p.caplen (tcpWindowScale i p l4.offset (tcpLenOf p l4) (p.packet (l4.offset + 13))) ↔
      ¬ ScaleLost i p l4 := by
  have hle : tcpLenOf p l4 ≤ l4.trustedLen := Nat.min_le_right ..
  by_cases hc : i.pro = true ∧ p.packet (l4.offset + 13) &&& TH_SYN ≠ 0 ∧ tcpLenOf p l4 > 20
  · obtain ⟨hpro, hsyn, hlt⟩ := hc
    rw [tcpWindowScale, if_pos ⟨hpro, hsyn, hlt⟩, readsBelow_windowScale_iff (by omega)]
    exact not_congr ⟨fun h => ⟨hpro, hp, hlen, hsyn, hlt, h⟩, fun h => h.2.2.2.2.2⟩
  · rw [tcpWindowScale, if_neg hc]
    exact iff_of_true (readsBelow_pure _) fun h => hc ⟨h.1, h.2.2.2.1, h.2.2.2.2.1⟩

theorem yields_parseL4 {l4 : L4} (ethProto : UInt16) (hl : l4.offset + l4.trustedLen ≤ p.caplen) :
    Yields (PortsFit p) (parseL4 i p h l4 ethProto) := by
  have hnone : ∀ src dst flags scale len icmp, PortsFit p (some ⟨src, dst, flags, scale, none, len, icmp⟩) := by
    intro src dst flags scale len icmp ports heq l hpay
    obtain rfl := Option.some.inj heq
    cases hpay
  have hsome : ∀ src dst flags scale n, n ≤ l4.trustedLen →
      PortsFit p (some ⟨src, dst, flags, scale, some (l4.offset + n), l4.trustedLen - n, none⟩) := by
    intro src dst flags scale n hn ports heq l hpay
    obtain rfl := Option.some.inj heq
    obtain rfl := Option.some.inj hpay
    show l4.offset + n + (l4.trustedLen - n) ≤ p.caplen
    omega
  simp only [parseL4, yields_ite, yields_bind, yields_pure, hnone, implies_true, and_true]
  refine ⟨fun _ => ?_, fun _ => ⟨fun _ => ?_, fun _ _ => ?_⟩⟩
  · exact yields_portsOf fun hge src dst => hsome _ _ _ _ _ (Nat.min_le_right ..)
  · exact yields_portsOf fun hge src dst => hsome _ _ _ _ _ hge
  · exact yields_portsOf fun hge src dst => hsome _ _ _ _ _ hge

/-- Only the loop over the options may read what is not captured. -/
theorem readsBelow_parseL4 {l4 : L4} (ethProto : UInt16) (hl : l4.offset + l4.trustedLen ≤ p.caplen) :
    ReadsBelow p.caplen (parseL4 i p h l4 ethProto) ↔ ¬ ScaleLost i p l4 := by
  by_cases hp : l4.protocol = IPPROTO_TCP
  · simp only [parseL4, if_pos hp, readsBelow_portsOf hl (show 4 ≤ 20 by decide), readsBelow_bind, readsBelow_pure,
      Capture.readsBelow_byte, and_true]
    by_cases hlen : 20 ≤ l4.trustedLen
    · rw [← readsBelow_tcpWindowScale hl hp hlen]
      exact ⟨fun hr => (hr hlen).2.2, fun hr _ => ⟨by omega, by omega, hr⟩⟩
    · exact iff_of_true (fun h => absurd h hlen) fun h => hlen h.2.2.1
  · refine iff_of_true ?_ fun h => hp h.2.1
    simp only [parseL4, if_neg hp, readsBelow_ite, readsBelow_bind, readsBelow_pure, readsBelow_dissectICMP hl,
      readsBelow_portsOf hl (show 4 ≤ 8 by decide), readsBelow_portsOf hl (show 4 ≤ 12 by decide), implies_true,
      and_true]

theorem readsBelow_addresses (hh : HandoffInv p h) : ReadsBelow p.caplen (addresses p h) := by
  obtain ⟨st, header⟩ := h
  have hin := hh.header
  cases header with
  | iph o =>
    simp only [HeaderIn] at hin
    simp only [addresses, readsBelow_bind, readsBelow_pure, Capture.readsBelow_word, and_true]
    omega
  | ip6 o =>
    simp only [HeaderIn] at hin
    simp only [addresses, readsBelow_bind, readsBelow_pure, Capture.readsBelow_address6, and_true]
    omega

theorem readsBelow_privateFlowId {protocol : UInt8} {ports : Ports} (hp : PortsFit p (some ports)) :
    ReadsBelow p.caplen (privateFlowId p protocol ports) := by
  simp only [privateFlowId, readsBelow_ite, readsBelow_pure, implies_true, and_true]
  rintro ⟨_, hlen, _⟩
  split
  · rename_i o ho
    have hfit := hp ports rfl o ho
    simp only [readsBelow_bind, readsBelow_pure, Capture.readsBelow_byte, and_true]
    omega
  · exact readsBelow_pure _

/-- A packet whose parsing comes to a window scale that is cut short at the end of the capture. -/
def HandoffLost (i : Iface) (p : Capture) (h : Handoff) : Prop :=
  h.st.ethernet ≠ none ∧ ∃ l4, (parseIp i p h).out = some l4 ∧ ScaleLost i p l4

/-- Exactly when the header parsing of a packet that was handed over reads captured bytes only. -/
theorem readsBelow_processPacket (hh : HandoffInv p h) :
    ReadsBelow p.caplen (processPacket i p h) ↔ ¬ HandoffLost i p h := by
  have hip := sound_parseIp (i := i) hh
  unfold processPacket
  split
  · rename_i he
    exact iff_of_true nofun fun hlost => hlost.1 he
  · rename_i e he
    have hee : EthernetIn p (some e) := he ▸ hh.ethernet
    simp only [readsBelow_bind, readsBelow_hSource hee, readsBelow_hDest hee, hip.1, true_and]
    split
    · rename_i hnone
      refine iff_of_true (readsBelow_pure _) fun hlost => ?_
      obtain ⟨-, l4, hl4, -⟩ := hlost
      rw [hnone] at hl4
      cases hl4
    · rename_i l4 hl4
      have hfit := hip.2 l4 hl4
      have hlost : HandoffLost i p h ↔ ScaleLost i p l4 := by
        refine ⟨?_, fun hl => ⟨by rw [he]; exact Option.some_ne_none _, l4, hl4, hl⟩⟩
        rintro ⟨-, l4', hl4', hl⟩
        rw [hl4] at hl4'
        rwa [Option.some.inj hl4']
      rw [hlost, readsBelow_bind, readsBelow_parseL4 _ hfit]
      refine and_iff_left ?_
      split
      · exact readsBelow_pure _
      · rename_i ports hports
        have hfits : PortsFit p (some ports) := hports ▸ yields_parseL4 (i := i) (h := h) h.header.ethProto hfit
        simp only [readsBelow_bind, readsBelow_addresses hh, readsBelow_privateFlowId hfits, readsBelow_pure, true_and]

end

end

end Ntopng.Dissect
