/-
  Ntopng.Dissect.Unseen — what the walk over the headers does not look at
  (src/NetworkInterface.cpp).

  Proved: behind `datalink_check`, configurations that agree on the label, the type, `ip_offset`
  and whether there is an Ethernet header lead to such configurations, or both end (`sim_turn`).
  The offset of the Ethernet frame that a tunnel leads to is not among these.
-/

import Ntopng.Dissect.Progress

namespace Ntopng.Dissect

open Ntopng.Lib.Bytes Ntopng.Lib.Turns Ntopng.Lib.Turns.Walk

/-! ## Configurations that go the same way -/

structure StSim (s s' : St) : Prop where
  ethType : s.ethType = s'.ethType
  ip : s.ipOffset = s'.ipOffset
  ethernet : s.ethernet.isSome = s'.ethernet.isSome

structure ConfSim (c c' : Conf) : Prop where
  label : c.label = c'.label
  st : StSim c.st c'.st

inductive NextSim : Next → Next → Prop
  | goto {l : Label} {s s' : St} (hs : StSim s s') : NextSim (.inl ⟨l, s⟩) (.inl ⟨l, s'⟩)
  | ends (b b' : Option Handoff) : NextSim (.inr b) (.inr b')

abbrev Sim (t t' : Turn) : Prop := Rel NextSim t t'

theorem stSim_self (s : St) : StSim s s := ⟨rfl, rfl, rfl⟩

theorem StSim.trans {s₁ s₂ s₃ : St} (h : StSim s₁ s₂) (h' : StSim s₂ s₃) : StSim s₁ s₃ :=
  ⟨h.ethType.trans h'.ethType, h.ip.trans h'.ip, h.ethernet.trans h'.ethernet⟩

section

variable {i : Iface} {p : Capture} {s s' : St} {α : Type}

theorem sim_ite (c : Prop) [Decidable c] {a b a' b' : Turn} :
    Sim (if c then a else b) (if c then a' else b') ↔ (c → Sim a a') ∧ (¬ c → Sim b b') := by
  by_cases h : c <;> simp [h]

theorem sim_bind (m : Reading α) {f f' : α → Turn} : Sim (m >>= f) (m >>= f') ↔ Sim (f m.out) (f' m.out) := .rfl

theorem sim_goto (l : Label) : Sim (goto l s) (goto l s') ↔ StSim s s' := by
  refine ⟨fun h => ?_, .goto⟩
  cases h with
  | goto hs => exact hs

theorem sim_gotoIp (l : Label) (n : Nat) :
    Sim (gotoIp l s n) (gotoIp l s' n) ↔ StSim { s with ipOffset := u16 n } { s' with ipOffset := u16 n } :=
  sim_goto l

theorem sim_gotoEth (n : Nat) :
    Sim (gotoEth s n) (gotoEth s' n) ↔ StSim { s with ethOffset := u16 n } { s' with ethOffset := u16 n } :=
  sim_goto _

theorem sim_finish : Sim finish finish := .ends ..
theorem sim_countAndFinish (e e' : UInt16) (l l' : UInt32) : Sim (countAndFinish s e l) (countAndFinish s' e' l') := .ends ..
theorem sim_deliver (b b' : Bool) (h h' : IpHeader) : Sim (deliver i p s b h) (deliver i p s' b' h') := .ends ..

theorem stSim_iff {ty ty' ip ip' v v' o o' e e' : UInt16} {eth eth' : Option Ethernet} {b b' : Bool} :
    StSim ⟨ty, ip, v, o, e, eth, b⟩ ⟨ty', ip', v', o', e', eth', b'⟩ ↔ ty = ty' ∧ ip = ip' ∧ eth.isSome = eth'.isSome :=
  ⟨fun h => ⟨h.ethType, h.ip, h.ethernet⟩, fun h => ⟨h.1, h.2.1, h.2.2⟩⟩

/-! ## The turns -/

theorem sim_decodePacketEth (hs : StSim s s') : Sim (decodePacketEth i p s) (decodePacketEth i p s') := by
  obtain ⟨ty, ip, v, o, e, eth, b⟩ := s
  obtain ⟨ty', ip', v', o', e', eth', b'⟩ := s'
  obtain ⟨rfl, rfl, heth⟩ := stSim_iff.mp hs
  simp only [decodePacketEth, sim_ite, sim_bind, sim_goto, sim_gotoIp, sim_countAndFinish, stSim_iff, heth,
    implies_true, and_self]

theorem sim_ipv4 (hs : StSim s s') : Sim (ipv4 i p s) (ipv4 i p s') := by
  obtain ⟨ty, ip, v, o, e, eth, b⟩ := s
  obtain ⟨ty', ip', v', o', e', eth', b'⟩ := s'
  obtain ⟨rfl, rfl, heth⟩ := stSim_iff.mp hs
  simp only [ipv4, gre4, greIp, erspan, udp4, gtp, l2tp, pppPayload, sim_ite, sim_bind, sim_goto, sim_gotoIp,
    sim_gotoEth, sim_finish, sim_countAndFinish, sim_deliver, stSim_iff, heth, Option.isSome_some, implies_true,
    and_self]

theorem sim_ipv6 (hs : StSim s s') : Sim (ipv6 i p s) (ipv6 i p s') := by
  obtain ⟨ty, ip, v, o, e, eth, b⟩ := s
  obtain ⟨ty', ip', v', o', e', eth', b'⟩ := s'
  obtain ⟨rfl, rfl, heth⟩ := stSim_iff.mp hs
  simp only [ipv6, tunnels6, gre6, udp6, greIp, erspan, sim_ite, sim_bind, sim_goto, sim_gotoIp, sim_finish,
    sim_countAndFinish, sim_deliver, stSim_iff, heth, Option.isSome_some, implies_true, and_self]

theorem sim_pppoe (hs : StSim s s') : Sim (pppoe i p s) (pppoe i p s') := by
  obtain ⟨ty, ip, v, o, e, eth, b⟩ := s
  obtain ⟨ty', ip', v', o', e', eth', b'⟩ := s'
  obtain ⟨rfl, rfl, heth⟩ := stSim_iff.mp hs
  simp only [pppoe, sim_ite, sim_bind, sim_gotoIp, sim_finish, sim_countAndFinish, stSim_iff, heth, implies_true,
    and_self]

/-- Whatever the type, the packet ends here. -/
theorem nonIp_ends (i : Iface) (p : Capture) (s : St) : (nonIp i p s).out = .inr none := by
  unfold nonIp
  split
  · rfl
  · simp only [out_bind, out_ite]
    split <;> rfl

theorem sim_nonIp : Sim (nonIp i p s) (nonIp i p s') := by
  show NextSim _ _
  rw [nonIp_ends, nonIp_ends]
  exact .ends ..

theorem sim_switchEthType (hs : StSim s s') : Sim (switchEthType i p s) (switchEthType i p s') := by
  refine rel_bind (Q := fun _ _ => True) trivial fun ingress ingress' _ => ?_
  have hs' : StSim { s with ingressPacket := ingress } { s' with ingressPacket := ingress' } :=
    ⟨hs.ethType, hs.ip, hs.ethernet⟩
  simp only
  rw [hs.ethType] at hs' ⊢
  exact (sim_ite _).mpr ⟨fun _ => sim_pppoe hs', fun _ => (sim_ite _).mpr ⟨fun _ => sim_ipv4 hs', fun _ =>
    (sim_ite _).mpr ⟨fun _ => sim_ipv6 hs', fun _ => sim_nonIp⟩⟩⟩

theorem sim_tzsp {u : Udp4} (hs : StSim s s') : Sim (tzsp p s u) (tzsp p s' u) := by
  obtain ⟨ty, ip, v, o, e, eth, b⟩ := s
  obtain ⟨ty', ip', v', o', e', eth', b'⟩ := s'
  obtain ⟨rfl, rfl, heth⟩ := stSim_iff.mp hs
  simp only [tzsp, sim_ite, sim_bind, sim_goto, sim_finish, stSim_iff, heth, implies_true, and_self]

theorem sim_tzspTag {u : Udp4} {o : UInt32} (hs : StSim s s') : Sim (tzspTag i p s u o) (tzspTag i p s' u o) := by
  obtain ⟨ty, ip, v, o, e, eth, b⟩ := s
  obtain ⟨ty', ip', v', o', e', eth', b'⟩ := s'
  obtain ⟨rfl, rfl, heth⟩ := stSim_iff.mp hs
  simp only [tzspTag, tzspAdvance, sim_ite, sim_bind, sim_goto, sim_gotoEth, sim_finish, sim_countAndFinish, stSim_iff,
    heth, implies_true, and_self]

theorem sim_capwapHeader (b : Bool) (o : UInt16) : Sim (capwapHeader i p s b o) (capwapHeader i p s' b o) := by
  simp only [capwapHeader, capwapInner, sim_ite, sim_bind, sim_countAndFinish, sim_deliver, implies_true, and_self]

theorem sim_capwap {u : Udp4} (hs : StSim s s') : Sim (capwap i p s u) (capwap i p s' u) := by
  obtain ⟨ty, ip, v, o, e, eth, b⟩ := s
  obtain ⟨ty', ip', v', o', e', eth', b'⟩ := s'
  obtain ⟨rfl, rfl, heth⟩ := stSim_iff.mp hs
  simp only [capwap, sim_ite, sim_countAndFinish, sim_capwapHeader, sim_deliver, implies_true, and_self]

theorem sim_capwap6 {ipv6Shift : UInt16} (hs : StSim s s') : Sim (capwap6 i p s ipv6Shift) (capwap6 i p s' ipv6Shift) := by
  obtain ⟨ty, ip, v, o, e, eth, b⟩ := s
  obtain ⟨ty', ip', v', o', e', eth', b'⟩ := s'
  obtain ⟨rfl, rfl, heth⟩ := stSim_iff.mp hs
  simp only [capwap6, sim_ite, sim_capwapHeader, sim_deliver, implies_true, and_self]

/-- Behind `datalink_check`, what configurations agree on is all that matters for the way. -/
theorem sim_turn {c c' : Conf} (hc : ConfSim c c') (hl : c.label ≠ .datalinkCheck) : Sim (turn i p c) (turn i p c') := by
  obtain ⟨label, s⟩ := c
  obtain ⟨label', s'⟩ := c'
  obtain ⟨hlabel, hs⟩ := hc
  obtain rfl : label = label' := hlabel
  cases label with
  | datalinkCheck => exact absurd rfl hl
  | decodePacketEth => exact sim_decodePacketEth hs
  | switchEthType => exact sim_switchEthType hs
  | tzsp u => exact sim_tzsp hs
  | tzspTag u o => exact sim_tzspTag hs
  | capwap u => exact sim_capwap hs
  | capwap6 ipv6Shift => exact sim_capwap6 hs

end

end Ntopng.Dissect
