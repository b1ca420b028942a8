/-
  Ntopng.Dissect.Safety — when decapsulation and header parsing end, and read captured bytes
  only (src/NetworkInterface.cpp).

  Proved: which packets are safe as long as no offset of the walk wraps, as none does in up to
  65280 captured bytes (`safe_iff`). A walk goes on for ever only if it comes to
  `datalink_check` again on a datalink that ignores `eth_offset`, and then it does
  (`endless_of_fixed`, `endless_of_enc`: the walk after a second visit repeats the one before
  it), or if a turn in which an offset wraps is taken twice (`halts_iff_ends`).
-/

import Ntopng.Dissect.Unseen

namespace Ntopng.Dissect

open Ntopng.Lib.Bytes Ntopng.Lib.Turns Ntopng.Lib.Turns.Walk

/-! ## Finitely many configurations -/

instance finiteUInt16 : Finite UInt16 := .of_injective UInt16.toFin fun _ _ h => UInt16.toFin_inj.mp h
instance finiteUInt32 : Finite UInt32 := .of_injective UInt32.toFin fun _ _ h => UInt32.toFin_inj.mp h

instance : Finite Ethernet := by
  refine .of_injective (β := Option Bool ⊕ UInt16)
    (fun e => match e with | .dummy => .inl none | .simulated => .inl (some true) | .at o => .inr o) ?_
  intro a b h
  cases a <;> cases b <;> simp_all

instance : Finite Udp4 :=
  .of_injective (fun u => (u.ipLen, u.sport, u.dport, u.iph)) fun a b h => by
    cases a; cases b; simp_all

instance : Finite Label := by
  refine .of_injective (β := (Option (Option Unit)) ⊕ Udp4 ⊕ (Udp4 × UInt32) ⊕ Udp4 ⊕ UInt16)
    (fun l => match l with
      | .datalinkCheck => .inl none
      | .decodePacketEth => .inl (some none)
      | .switchEthType => .inl (some (some ()))
      | .tzsp u => .inr (.inl u)
      | .tzspTag u o => .inr (.inr (.inl (u, o)))
      | .capwap u => .inr (.inr (.inr (.inl u)))
      | .capwap6 k => .inr (.inr (.inr (.inr k)))) ?_
  intro a b h
  cases a <;> cases b <;> simp_all

instance : Finite St :=
  .of_injective (fun s => (s.ethType, s.ipOffset, s.vlanId, s.ethOffset, s.encapsulationOverhead, s.ethernet,
    s.ingressPacket)) fun a b h => by cases a; cases b; simp_all

instance : Finite Conf :=
  .of_injective (fun c => (c.label, c.st)) fun a b h => by cases a; cases b; simp_all

section

variable {i : Iface} {p : Capture} {ethType : UInt16} {ingress : Bool}

/-! ## Safe packets -/

/-- Decapsulation and header parsing end, and read captured bytes only. -/
def Safe (i : Iface) (p : Capture) (ethType : UInt16) (ingress : Bool) : Prop :=
  (∃ fuel, (dissectToFlow i p ethType ingress fuel).out ≠ none) ∧
    ∀ fuel, ReadsBelow p.caplen (dissectToFlow i p ethType ingress fuel)

/-- The walk ends with this call of `processPacket`. -/
def HandedOver (i : Iface) (p : Capture) (ethType : UInt16) (ingress : Bool) (h : Handoff) : Prop :=
  ∃ c, Reached (turn i p) (start ethType ingress) c ∧ (turn i p c).out = .inr (some h)

theorem inv_of_reached {c : Conf} (hr : Reached (turn i p) (start ethType ingress) c) : Inv p c :=
  inv_reached (fun _ _ => inv_leads) (inv_start ethType ingress) hr

theorem handedOver_iff {h : Handoff} :
    HandedOver i p ethType ingress h ↔ ∃ n, (iterate (turn i p) n (start ethType ingress)).out = some (some h) :=
  ⟨fun ⟨_, hr, ho⟩ => iterate_of_reached hr ho, fun ⟨_, hn⟩ => reached_of_iterate hn⟩

theorem inv_of_handedOver {h : Handoff} (hh : HandedOver i p ethType ingress h) : HandoffInv p h := by
  obtain ⟨c, hr, ho⟩ := hh
  exact handoffInv (inv_of_reached hr) ho

theorem readsBelow_dissectToFlow (hg : ¬ (p.len = 0 ∨ p.caplen > p.len)) (fuel : Nat) :
    ReadsBelow p.caplen (dissectToFlow i p ethType ingress fuel) ↔
      ReadsBelow p.caplen (iterate (turn i p) fuel (start ethType ingress)) ∧
        ∀ h, (iterate (turn i p) fuel (start ethType ingress)).out = some (some h) → ¬ HandoffLost i p h := by
  simp only [dissectToFlow, if_neg hg, readsBelow_bind]
  refine and_congr_right fun _ => ?_
  cases hit : (iterate (turn i p) fuel (start ethType ingress)).out with
  | none => exact iff_of_true (readsBelow_pure _) fun _ h => absurd h.symm (Option.some_ne_none _)
  | some o =>
    cases o with
    | none =>
      exact iff_of_true (readsBelow_pure _) fun _ h => absurd (Option.some.inj h).symm (Option.some_ne_none _)
    | some h =>
      have hh := inv_of_handedOver (handedOver_iff.mpr ⟨fuel, hit⟩)
      simp only [readsBelow_bind, readsBelow_pure, and_true, readsBelow_processPacket hh]
      exact ⟨fun hl h' heq => Option.some.inj (Option.some.inj heq) ▸ hl, fun hl => hl h rfl⟩

/-- The walk ends and reads captured bytes only, and so does the parsing of the packet that it hands over. -/
theorem safe_iff_walk :
    Safe i p ethType ingress ↔ p.len = 0 ∨ p.caplen > p.len ∨
      (Halts (turn i p) (start ethType ingress) ∧
        (∀ c, Reached (turn i p) (start ethType ingress) c → Fits p c) ∧
        ∀ h, HandedOver i p ethType ingress h → ¬ HandoffLost i p h) := by
  by_cases hg : p.len = 0 ∨ p.caplen > p.len
  · have hsafe : Safe i p ethType ingress := by
      refine ⟨⟨0, ?_⟩, fun fuel => ?_⟩
      · simp only [dissectToFlow, if_pos hg, out_bind, out_pure]
        exact Option.some_ne_none _
      · simp only [dissectToFlow, if_pos hg, incStats, readsBelow_bind, readsBelow_report, readsBelow_pure, and_self]
    tauto
  · have hout : ∀ fuel, (dissectToFlow i p ethType ingress fuel).out ≠ none ↔
        (iterate (turn i p) fuel (start ethType ingress)).out ≠ none := by
      intro fuel
      simp only [dissectToFlow, if_neg hg, out_bind]
      cases (iterate (turn i p) fuel (start ethType ingress)).out with
      | none => exact iff_of_false (fun h => h rfl) fun h => h rfl
      | some o => cases o <;> exact iff_of_true (Option.some_ne_none _) (Option.some_ne_none _)
    have hturns : (∀ n, ReadsBelow p.caplen (iterate (turn i p) n (start ethType ingress))) ↔
        ∀ c, Reached (turn i p) (start ethType ingress) c → Fits p c := by
      rw [readsBelow_iterate_iff]
      exact forall₂_congr fun c hr => readsBelow_turn (inv_of_reached hr)
    have hhanded : (∀ n h, (iterate (turn i p) n (start ethType ingress)).out = some (some h) → ¬ HandoffLost i p h) ↔
        ∀ h, HandedOver i p ethType ingress h → ¬ HandoffLost i p h := by
      simp only [handedOver_iff, forall_exists_index]
      exact forall_comm
    simp only [Safe, hout, readsBelow_dissectToFlow hg, forall_and, hturns, hhanded, Halts]
    tauto

theorem fits_of_small (hp : Small p) {c : Conf} (hd : p.datalink = .enc → 0 < p.caplen) : Fits p c := by
  have hcapwap : ∀ o, CapwapFits p o := by
    intro o ho _
    simp only [Small] at hp
    have hlen : (p.packet (o.toNat + 1) >>> 3).toNat ≤ 31 := by
      rw [UInt8.toNat_shiftRight]
      have := (p.packet (o.toNat + 1)).toNat_lt
      show (p.packet (o.toNat + 1)).toNat >>> 3 ≤ 31
      omega
    simp only [capwapEnd, toNat_u16]
    omega
  unfold Fits
  split
  · exact hd
  · exact fun _ => hcapwap _
  · exact hcapwap _
  · trivial

/-! ## Datalinks that ignore eth_offset -/

/-- The walk comes to `datalink_check` again. -/
def Restarts (i : Iface) (p : Capture) (c : Conf) : Prop :=
  ∃ c', Relation.TransGen (Leads (turn i p)) c c' ∧ c'.label = .datalinkCheck

/-- A turn from elsewhere than `datalink_check`. -/
def Onward (i : Iface) (p : Capture) (c c' : Conf) : Prop := Leads (turn i p) c c' ∧ c.label ≠ .datalinkCheck

theorem reached_of_onward {c c' : Conf} (h : Relation.ReflTransGen (Onward i p) c c') : Reached (turn i p) c c' :=
  Relation.ReflTransGen.mono (show Onward i p ≤ Leads (turn i p) from fun _ _ hl => hl.1) _ _ h

/-- What the code does not look at makes no difference to the way. -/
theorem sim_path {c c' x : Conf} (hpath : Relation.ReflTransGen (Onward i p) c c') (hx : ConfSim c x) :
    ∃ x', Relation.ReflTransGen (Onward i p) x x' ∧ ConfSim c' x' := by
  induction hpath using Relation.ReflTransGen.head_induction_on generalizing x with
  | refl => exact ⟨x, .refl, hx⟩
  | head hl _ ih =>
    rename_i c₁ c₂ _
    have hsim : NextSim (turn i p c₁).out (turn i p x).out := sim_turn hx hl.2
    rw [show (turn i p c₁).out = .inl c₂ from hl.1] at hsim
    generalize hout : (turn i p x).out = next at hsim
    cases hsim with
    | @goto l s s' hst =>
      have hx2 : x.label ≠ .datalinkCheck := hx.label ▸ hl.2
      obtain ⟨x', hpath', hx'⟩ := ih (x := ⟨l, s'⟩) ⟨rfl, hst⟩
      exact ⟨x', .head ⟨hout, hx2⟩ hpath', hx'⟩

theorem first_check {c c' : Conf} (h : Reached (turn i p) c c') (hl : c'.label = .datalinkCheck) :
    ∃ c₁, Relation.ReflTransGen (Onward i p) c c₁ ∧ c₁.label = .datalinkCheck := by
  induction h using Relation.ReflTransGen.head_induction_on with
  | refl => exact ⟨c', .refl, hl⟩
  | head hleads _ ih =>
    rename_i c₀ c₂ _
    by_cases h0 : c₀.label = .datalinkCheck
    · exact ⟨c₀, .refl, h0⟩
    · obtain ⟨c₁, hpath, h1⟩ := ih
      exact ⟨c₁, .head ⟨hleads, h0⟩ hpath, h1⟩

/-- Where every visit of `datalink_check` leads to the same place, a second one is followed by a third. -/
theorem endless_of_fixed
    (hfix : ∀ s s', ∃ c c', Leads (turn i p) ⟨.datalinkCheck, s⟩ c ∧ Leads (turn i p) ⟨.datalinkCheck, s'⟩ c' ∧
      ConfSim c c') (hr : Restarts i p (start ethType ingress)) :
    ¬ Halts (turn i p) (start ethType ingress) := by
  obtain ⟨c, hpath, hl⟩ := hr
  obtain ⟨c₁, hl₁, hpath₁⟩ := Relation.TransGen.head'_iff.mp hpath
  obtain ⟨c₂, honward, hl₂⟩ := first_check hpath₁ hl
  refine not_halts_of_loop (K := fun c => c.label = .datalinkCheck) (fun x hx => ?_) rfl
  obtain ⟨a, a', ha, ha', hsim⟩ := hfix (start ethType ingress).st x.st
  obtain rfl : a = c₁ := leads_unique ha hl₁
  obtain ⟨x', hxpath, hx'⟩ := sim_path honward hsim
  obtain ⟨label, st⟩ := x
  obtain rfl : label = .datalinkCheck := hx
  exact ⟨x', Relation.TransGen.head' ha' (reached_of_onward hxpath), hx'.label.symm.trans hl₂⟩

theorem fixed_ipv4 (hd : p.datalink = .ipv4) (s s' : St) :
    ∃ c c', Leads (turn i p) ⟨.datalinkCheck, s⟩ c ∧ Leads (turn i p) ⟨.datalinkCheck, s'⟩ c' ∧ ConfSim c c' := by
  have hout : ∀ s, Leads (turn i p) ⟨.datalinkCheck, s⟩
      ⟨.decodePacketEth, { s with ethType := ETHERTYPE_IP, ethernet := some .dummy, ipOffset := 0 }⟩ := by
    intro s
    simp only [Leads, turn, datalinkCheck, hd]
    rfl
  exact ⟨_, _, hout s, hout s', rfl, rfl, rfl, rfl⟩

theorem fixed_enc (hd : p.datalink = .enc) (h2 : p.packet 0 = 2) (s s' : St) :
    ∃ c c', Leads (turn i p) ⟨.datalinkCheck, s⟩ c ∧ Leads (turn i p) ⟨.datalinkCheck, s'⟩ c' ∧ ConfSim c c' := by
  have hout : ∀ s, Leads (turn i p) ⟨.datalinkCheck, s⟩
      ⟨.decodePacketEth, { s with ethType := ETHERTYPE_IP, ethernet := some .dummy, ipOffset := 12 }⟩ := by
    intro s
    simp only [Leads, turn, datalinkCheck, hd, out_bind]
    rw [if_pos (show (p.byte 0).out = 2 from h2)]
    rfl
  exact ⟨_, _, hout s, hout s', rfl, rfl, rfl, rfl⟩

/-! `DLT_ENC` with another first byte: `datalink_check` changes nothing. -/

/-- The labels on the way to a restart. -/
def TowardsCheck : Label → Prop
  | .datalinkCheck => True
  | .tzsp _ => True
  | .tzspTag _ _ => True
  | _ => False

/-- What leads to a restart leaves the IPv4 header where it is. -/
def Stays (s : St) : Next → Prop
  | .inl c => TowardsCheck c.label → StSim s c.st
  | .inr _ => True

abbrev Remains (s : St) (t : Turn) : Prop := Yields (Stays s) t

theorem remains_goto {s s' : St} (l : Label) : Remains s (goto l s') ↔ (TowardsCheck l → StSim s s') := .rfl
theorem remains_gotoIp {s s' : St} (l : Label) (n : Nat) :
    Remains s (gotoIp l s' n) ↔ (TowardsCheck l → StSim s { s' with ipOffset := u16 n }) := .rfl
theorem remains_gotoEth {s : St} (n : Nat) : Remains s (gotoEth s n) := fun _ => ⟨rfl, rfl, rfl⟩
theorem remains_finish {s : St} : Remains s finish := trivial
theorem remains_countAndFinish {s s' : St} (e : UInt16) (l : UInt32) : Remains s (countAndFinish s' e l) := trivial
theorem remains_deliver {s s' : St} (b : Bool) (header : IpHeader) : Remains s (deliver i p s' b header) := trivial

theorem remains_ipv4 {s : St} : Remains s (ipv4 i p s) := by
  simp only [ipv4, gre4, greIp, erspan, udp4, gtp, l2tp, pppPayload, yields_ite, yields_bind, remains_goto,
    remains_gotoIp, remains_gotoEth, remains_finish, remains_countAndFinish, remains_deliver, stSim_self, TowardsCheck,
    false_implies, implies_true, and_true]

theorem remains_tzsp {s : St} {u : Udp4} : Remains s (tzsp p s u) := by
  simp only [tzsp, yields_ite, yields_bind, remains_goto, remains_finish, stSim_self, implies_true, and_true]

theorem remains_tzspTag {s : St} {u : Udp4} {o : UInt32} : Remains s (tzspTag i p s u o) := by
  simp only [tzspTag, tzspAdvance, yields_ite, yields_bind, remains_goto, remains_gotoEth, remains_finish,
    remains_countAndFinish, stSim_self, implies_true, and_true]

/-- No restart that way. -/
def Avoids : Next → Prop
  | .inl c => ¬ TowardsCheck c.label
  | .inr _ => True

theorem avoids_goto {s : St} (l : Label) : Yields Avoids (goto l s) ↔ ¬ TowardsCheck l := .rfl
theorem avoids_gotoIp {s : St} (l : Label) (n : Nat) : Yields Avoids (gotoIp l s n) ↔ ¬ TowardsCheck l := .rfl
theorem avoids_finish : Yields Avoids finish := trivial
theorem avoids_countAndFinish {s : St} (e : UInt16) (l : UInt32) : Yields Avoids (countAndFinish s e l) := trivial
theorem avoids_deliver {s : St} (b : Bool) (header : IpHeader) : Yields Avoids (deliver i p s b header) := trivial

theorem avoids_decodePacketEth {s : St} : Yields Avoids (decodePacketEth i p s) := by
  simp only [decodePacketEth, yields_ite, yields_bind, avoids_goto, avoids_gotoIp, avoids_countAndFinish, TowardsCheck, not_false_iff,
    implies_true, and_true]

theorem avoids_ipv6 {s : St} : Yields Avoids (ipv6 i p s) := by
  simp only [ipv6, tunnels6, gre6, udp6, greIp, erspan, yields_ite, yields_bind, avoids_goto, avoids_gotoIp, avoids_finish,
    avoids_countAndFinish, avoids_deliver, TowardsCheck, not_false_iff, implies_true, and_true]

theorem avoids_pppoe {s : St} : Yields Avoids (pppoe i p s) := by
  simp only [pppoe, yields_ite, yields_bind, avoids_gotoIp, avoids_finish, avoids_countAndFinish, TowardsCheck,
    not_false_iff, implies_true, and_true]

theorem avoids_capwapHeader {s : St} {b : Bool} {o : UInt16} : Yields Avoids (capwapHeader i p s b o) := by
  simp only [capwapHeader, capwapInner, yields_ite, yields_bind, avoids_countAndFinish, avoids_deliver, implies_true,
    and_true]

/-- Only the IPv4 branch leads to a restart, and it leaves the header where it is. -/
theorem onward_towards {c c' : Conf} (h : Onward i p c c') (ht : TowardsCheck c'.label) :
    (TowardsCheck c.label ∨ (c.label = .switchEthType ∧ c.st.ethType = ETHERTYPE_IP)) ∧ StSim c.st c'.st := by
  obtain ⟨hl, hlabel⟩ := h
  have hremains : ∀ s, Remains s (turn i p c) → StSim s c'.st := by
    intro s hrem
    unfold Remains Yields at hrem
    rw [show (turn i p c).out = .inl c' from hl] at hrem
    exact hrem ht
  have havoids : ¬ Yields Avoids (turn i p c) := by
    unfold Yields
    rw [show (turn i p c).out = .inl c' from hl]
    exact fun h => h ht
  obtain ⟨label, s⟩ := c
  cases label with
  | datalinkCheck => exact absurd rfl hlabel
  | decodePacketEth => exact absurd avoids_decodePacketEth havoids
  | switchEthType =>
    by_cases hip : s.ethType = ETHERTYPE_IP
    · refine ⟨.inr ⟨rfl, hip⟩, hremains s ?_⟩
      have hne : s.ethType ≠ ETHERTYPE_PPPoE := by rw [hip]; decide
      show Yields (Stays s) (switchEthType i p s)
      simp only [switchEthType, yields_bind, if_neg hne, if_pos hip]
      have hrem : Yields (Stays _) _ :=
        remains_ipv4 (i := i) (p := p) (s := { s with ingressPacket := (direction i p s).out })
      unfold Yields Stays at hrem ⊢
      split
      · rename_i c heq
        rw [heq] at hrem
        exact fun htc => ⟨(hrem htc).ethType, (hrem htc).ip, (hrem htc).ethernet⟩
      · trivial
    · refine absurd ?_ havoids
      show Yields Avoids (switchEthType i p s)
      simp only [switchEthType, yields_bind, yields_ite, avoids_pppoe, avoids_ipv6, implies_true, true_and]
      refine fun _ => ⟨fun h => absurd h hip, fun _ _ => ?_⟩
      unfold Yields
      rw [nonIp_ends]
      trivial
  | tzsp u => exact ⟨.inl trivial, hremains s remains_tzsp⟩
  | tzspTag u o => exact ⟨.inl trivial, hremains s remains_tzspTag⟩
  | capwap u =>
    refine absurd ?_ havoids
    simp only [turn, capwap, yields_ite, avoids_countAndFinish, avoids_capwapHeader, avoids_deliver, implies_true,
      and_true]
  | capwap6 ipv6Shift =>
    refine absurd ?_ havoids
    simp only [turn, capwap6, yields_ite, avoids_capwapHeader, avoids_deliver, implies_true, and_true]

/-- A restart comes from the IPv4 header that the walk still stands at. -/
def FromSwitch (i : Iface) (p : Capture) (c : Conf) : Prop :=
  ∃ b, b.label = .switchEthType ∧ b.st.ethType = ETHERTYPE_IP ∧ Relation.ReflTransGen (Onward i p) b c ∧ StSim b.st c.st

/-- `datalink_check` leads to the loop over the headers only. -/
theorem leads_datalinkCheck {s : St} {c : Conf} (h : Leads (turn i p) ⟨.datalinkCheck, s⟩ c) :
    c.label = .decodePacketEth := by
  have hy : Yields (fun n : Next => ∀ c, n = .inl c → c.label = .decodePacketEth) (datalinkCheck i p s) := by
    have hgoto : ∀ s, Yields (fun n : Next => ∀ c, n = .inl c → c.label = .decodePacketEth) (goto .decodePacketEth s) :=
      fun _ _ hc => Sum.inl.inj hc ▸ rfl
    have hgotoIp : ∀ s n, Yields (fun n : Next => ∀ c, n = .inl c → c.label = .decodePacketEth)
        (gotoIp .decodePacketEth s n) := fun _ _ => hgoto _
    have hcount : ∀ e l, Yields (fun n : Next => ∀ c, n = .inl c → c.label = .decodePacketEth) (countAndFinish s e l) :=
      fun _ _ _ hc => by cases hc
    cases hd : p.datalink <;>
      simp only [datalinkCheck, hd, decode, yields_ite, yields_bind, hgoto, hgotoIp, hcount, implies_true, and_self]
  exact hy c h

theorem fromSwitch_of_reached {c : Conf} (hr : Reached (turn i p) (start ethType ingress) c)
    (hne : c ≠ start ethType ingress) (ht : TowardsCheck c.label) : FromSwitch i p c := by
  induction hr with
  | refl => exact absurd rfl hne
  | tail hr hl ih =>
    rename_i b c
    by_cases hb : b.label = .datalinkCheck
    · obtain ⟨label, s⟩ := b
      obtain rfl : label = .datalinkCheck := hb
      rw [leads_datalinkCheck hl] at ht
      exact absurd ht id
    · obtain ⟨hfrom, hst⟩ := onward_towards ⟨hl, hb⟩ ht
      obtain htb | ⟨hlabel, hip⟩ := hfrom
      · obtain ⟨x, hx, hxip, hpath, hxs⟩ := ih (fun h => hb (h ▸ rfl)) htb
        exact ⟨x, hx, hxip, hpath.tail ⟨hl, hb⟩, hxs.trans hst⟩
      · exact ⟨b, hlabel, hip, .single ⟨hl, hb⟩, hst⟩

theorem endless_of_enc (hd : p.datalink = .enc) (h2 : p.packet 0 ≠ 2) (hr : Restarts i p (start ethType ingress)) :
    ¬ Halts (turn i p) (start ethType ingress) := by
  obtain ⟨c, hpath, hl⟩ := hr
  have hreached : Reached (turn i p) (start ethType ingress) c := hpath.to_reflTransGen
  by_cases hc : c = start ethType ingress
  · exact fun hh => not_recurs_of_halts hh (hc ▸ hpath : Relation.TransGen _ _ _)
  rw [halts_of_reached hreached]
  have hK := fromSwitch_of_reached hreached hc (by rw [hl]; trivial)
  refine not_halts_of_loop (K := fun c => c.label = .datalinkCheck ∧ FromSwitch i p c) (fun x hx => ?_) ⟨hl, hK⟩
  obtain ⟨label, s⟩ := x
  obtain ⟨hlabel, b, hb, hip, honward, hst⟩ := hx
  obtain rfl : label = .datalinkCheck := hlabel
  have hcheck : Leads (turn i p) ⟨.datalinkCheck, s⟩ ⟨.decodePacketEth, s⟩ := by
    simp only [Leads, turn, datalinkCheck, hd, out_bind]
    rw [if_neg (show (p.byte 0).out ≠ 2 from h2)]
    rfl
  have hips : s.ethType = ETHERTYPE_IP := hst.ethType.symm.trans hip
  have hdecode : Leads (turn i p) ⟨.decodePacketEth, s⟩ ⟨.switchEthType, s⟩ := by
    have hvlan : ¬ (s.ethType = ETHERTYPE_VLAN ∧ s.ipOffset.toNat + 4 < p.caplen) := by
      rw [hips]
      exact fun h => absurd h.1 (by decide)
    have hmpls : ¬ (s.ethType = ETHERTYPE_MPLS ∧ s.ipOffset.toNat + 2 < p.caplen) := by
      rw [hips]
      exact fun h => absurd h.1 (by decide)
    simp only [Leads, turn, decodePacketEth, if_neg hvlan, if_neg hmpls, ite_self]
    rfl
  obtain ⟨x', hpath', hx'⟩ := sim_path (x := ⟨.switchEthType, s⟩) honward ⟨hb, hst⟩
  exact ⟨x', Relation.TransGen.head' hcheck ((reached_of_onward hpath').head hdecode), hx'.label.symm,
    ⟨.switchEthType, s⟩, rfl, hips, hpath', hx'.st⟩

/-- A restart on a datalink that ignores the new offset goes on for ever. -/
theorem endless_of_restarts (hd : p.datalink = .enc ∨ p.datalink = .ipv4)
    (hr : Restarts i p (start ethType ingress)) : ¬ Halts (turn i p) (start ethType ingress) := by
  obtain hd | hd := hd
  · by_cases h2 : p.packet 0 = 2
    · exact endless_of_fixed (fixed_enc hd h2) hr
    · exact endless_of_enc hd h2 hr
  · exact endless_of_fixed (fixed_ipv4 hd) hr

/-! ## Which walks end -/

/-- No restart on a datalink that ignores the new offset. -/
def NoRestart (i : Iface) (p : Capture) (ethType : UInt16) (ingress : Bool) : Prop :=
  p.datalink = .enc ∨ p.datalink = .ipv4 → ¬ Restarts i p (start ethType ingress)

/-- In no turn of the walk an offset is assigned what it cannot hold. -/
def Unwrapped (i : Iface) (p : Capture) (ethType : UInt16) (ingress : Bool) : Prop :=
  ∀ c, Reached (turn i p) (start ethType ingress) c → Lossless (turn i p c)

/-- What it takes for the walk to end: besides, a turn in which an offset wraps must not be taken twice. -/
def Ends (i : Iface) (p : Capture) (ethType : UInt16) (ingress : Bool) : Prop :=
  NoRestart i p ethType ingress ∧
    ∀ c, Reached (turn i p) (start ethType ingress) c → ¬ Lossless (turn i p c) → ¬ Recurs (turn i p) c

theorem near_of_reached (hp : Small p) {c : Conf} (hr : Reached (turn i p) (start ethType ingress) c) : Near p c :=
  inv_reached (fun _ _ hc hl => near_leads hp hc hl) (near_start ..) hr

theorem unwrapped_of_small (hp : Small p) : Unwrapped i p ethType ingress :=
  fun _ hr => lossless_turn hp (near_of_reached hp hr)

theorem not_honours_iff : ¬ HonoursEthOffset p ↔ p.datalink = .enc ∨ p.datalink = .ipv4 := by
  simp only [HonoursEthOffset, ne_eq, ← not_or, not_not]

theorem halts_iff_ends : Halts (turn i p) (start ethType ingress) ↔ Ends i p ethType ingress := by
  refine ⟨fun hh => ⟨fun hd hr => endless_of_restarts hd hr hh, fun c hr _ => ?_⟩, fun ⟨hno, hwrap⟩ => ?_⟩
  · exact not_recurs_of_halts ((halts_of_reached hr).mp hh)
  · -- only these turns may keep the rank
    let K : Conf → Prop := fun c => ¬ Lossless (turn i p c) ∨
      (c.label = .datalinkCheck ∧ ¬ (HonoursEthOffset p ∨ c.st.ethOffset.toNat = 0))
    refine (halts_iff_of_measure rank K fun c c' hr hl hK => ?_).mpr fun c hr hK => ?_
    · obtain ⟨hlossless, hcheck⟩ := not_or.mp hK
      refine rank_leads (fun hp => near_of_reached hp hr) (not_not.mp hlossless) (fun hlabel => ?_) hl
      exact Classical.byContradiction fun hd => hcheck ⟨hlabel, hd⟩
    · rcases hK with hlost | ⟨hlabel, hd⟩
      · exact hwrap c hr hlost
      · rw [not_or] at hd
        obtain heq | hpath := Relation.reflTransGen_iff_eq_or_transGen.mp hr
        · exact absurd (by rw [heq]; rfl) hd.2
        · exact absurd ⟨c, hpath, hlabel⟩ (hno (not_honours_iff.mp hd.1))

/-- What a packet must meet. -/
structure Steady (i : Iface) (p : Capture) (ethType : UInt16) (ingress : Bool) : Prop where
  fits : ∀ c, Reached (turn i p) (start ethType ingress) c → Fits p c
  noRestart : NoRestart i p ethType ingress
  options : ∀ h, HandedOver i p ethType ingress h → ¬ HandoffLost i p h

theorem steady_of_safe (h : Safe i p ethType ingress) :
    p.len = 0 ∨ p.caplen > p.len ∨ Steady i p ethType ingress :=
  (safe_iff_walk.mp h).imp_right (Or.imp_right fun ⟨hh, hf, ho⟩ => ⟨hf, (halts_iff_ends.mp hh).1, ho⟩)

theorem safe_of_steady (hw : Unwrapped i p ethType ingress)
    (h : p.len = 0 ∨ p.caplen > p.len ∨ Steady i p ethType ingress) : Safe i p ethType ingress :=
  safe_iff_walk.mpr (h.imp_right (Or.imp_right fun hs =>
    ⟨halts_iff_ends.mpr ⟨hs.noRestart, fun c hr hlost => absurd (hw c hr) hlost⟩, hs.fits, hs.options⟩))

/-- Which packets are dissected safely, unless an offset wraps on the way; none does in up to 65280 captured bytes,
    and of those only an empty one on `DLT_ENC` is read before or behind its bytes by the walk. -/
theorem safe_iff (i : Iface) (p : Capture) (ethType : UInt16) (ingress : Bool) :
    (Unwrapped i p ethType ingress →
      (Safe i p ethType ingress ↔ p.len = 0 ∨ p.caplen > p.len ∨ Steady i p ethType ingress)) ∧
      (Safe i p ethType ingress → p.len = 0 ∨ p.caplen > p.len ∨ Steady i p ethType ingress) ∧
      (Small p → Unwrapped i p ethType ingress ∧
        ((∀ c, Reached (turn i p) (start ethType ingress) c → Fits p c) ↔ (p.datalink = .enc → 0 < p.caplen))) := by
  refine ⟨fun hw => ⟨steady_of_safe, safe_of_steady hw⟩, steady_of_safe, fun hp => ⟨unwrapped_of_small hp, ?_⟩⟩
  exact ⟨fun h => h _ .refl, fun hd c _ => fits_of_small hp hd⟩

end

/-- An interface that decodes tunnels, with every preference off. -/
def plainIface : Iface :=
  { pro := true, scalingFactor := 1, netfilter := false, trafficMirrored := false, gwMacConfigured := false
    trafficDirectionsSupported := true, decodeTunnels := true, ignoreVlans := false, simulateVlans := false
    ignoreMacs := false, simulateMacs := false, isGwMac := fun _ => false, isInterfaceMac := fun _ => false
    getMac := fun _ => none, senderMac := none, simulatedMacs := ([], []) }

/-- The bytes, captured whole. -/
def captureOf (datalink : Datalink) (bytes : List UInt8) (h : bytes.length < 2 ^ 32) : Capture :=
  ⟨fun o => bytes.getD o.toNat 0, bytes.length, bytes.length, datalink, h, h⟩

/-- A VXLAN header in UDP over IPv4, on `DLT_IPV4`. -/
def vxlanOnIpv4 : Capture :=
  captureOf .ipv4 [0x45, 0, 0, 28, 0, 0, 0, 0, 64, 17, 0, 0, 1, 2, 3, 4, 5, 6, 7, 8, 0x10, 0, 0x12, 0xB5, 0, 8, 0, 0]
    (by decide)

/-- Nothing captured of a packet on `DLT_ENC`. -/
def emptyEnc : Capture := ⟨fun _ => 0, 0, 60, .enc, by decide, by decide⟩

/-- A SYN over IPv4 whose options are two paddings and the kind and the length of a window scale. -/
def cutScale : Capture :=
  captureOf .ipv4 [0x45, 0, 0, 44, 0, 0, 0, 0, 64, 6, 0, 0, 1, 2, 3, 4, 5, 6, 7, 8, 0x10, 0, 0, 80, 0, 0, 0, 0, 0, 0, 0, 0,
    0x60, 0x02, 0, 0, 0, 0, 0, 0, 1, 1, 3, 3] (by decide)

/-- At an IPv4 header at offset 0, after a restart. -/
def restarted (label : Label) : Conf := ⟨label, ⟨ETHERTYPE_IP, 0, 0, 36, 0, some .dummy, true⟩⟩

theorem vxlan_on_ipv4_recurs : Recurs (turn plainIface vxlanOnIpv4) (restarted .datalinkCheck) := by
  have h1 : Leads (turn plainIface vxlanOnIpv4) (restarted .datalinkCheck) (restarted .decodePacketEth) := by decide
  have h2 : Leads (turn plainIface vxlanOnIpv4) (restarted .decodePacketEth) (restarted .switchEthType) := by decide
  have h3 : Leads (turn plainIface vxlanOnIpv4) (restarted .switchEthType) (restarted .datalinkCheck) := by decide
  exact .head h1 (.head h2 (.single h3))

theorem cutScale_lost : ¬ Safe plainIface cutScale 0 true := by
  let s : St := ⟨ETHERTYPE_IP, 0, 0, 0, 0, some .dummy, true⟩
  have h1 : Leads (turn plainIface cutScale) (start 0 true) ⟨.decodePacketEth, s⟩ := by decide
  have h2 : Leads (turn plainIface cutScale) ⟨.decodePacketEth, s⟩ ⟨.switchEthType, s⟩ := by decide
  have h3 : (turn plainIface cutScale ⟨.switchEthType, s⟩).out = .inr (some ⟨s, .iph 0⟩) := by decide
  have hl4 : (parseIp plainIface cutScale ⟨s, .iph 0⟩).out = some ⟨IPPROTO_TCP, 20, 24, false, 0, 0⟩ := by decide
  have hcut : ScaleCut cutScale 40 4 :=
    ⟨2, (OptionAt.first.skip (by decide) (by decide)).skip (by decide) (by decide), by decide, by decide, by decide,
      by decide⟩
  have hlost : HandoffLost plainIface cutScale ⟨s, .iph 0⟩ :=
    ⟨by decide, _, hl4, by decide, by decide, by decide, by decide, by decide, hcut⟩
  rw [safe_iff_walk]
  rintro (h | h | ⟨-, -, h⟩)
  · exact absurd h (by decide)
  · exact absurd h (by decide)
  · exact h _ ⟨_, ((Relation.ReflTransGen.single h1).tail h2), h3⟩ hlost

/-- `datalink_check` goes back to the same IPv4 header for ever; on `DLT_ENC`, it reads a byte that is not there; the
    loop over the options reads the byte behind the packet. -/
theorem vxlan_on_ipv4_unsafe :
    (vxlanOnIpv4.caplen ≤ vxlanOnIpv4.len ∧ ¬ Safe plainIface vxlanOnIpv4 0 true) ∧
      (emptyEnc.caplen ≤ emptyEnc.len ∧ ¬ Safe plainIface emptyEnc 0 true) ∧
      cutScale.caplen ≤ cutScale.len ∧ ¬ Safe plainIface cutScale 0 true := by
  refine ⟨⟨by decide, ?_⟩, ⟨by decide, ?_⟩, by decide, cutScale_lost⟩
  · rw [safe_iff_walk]
    have h1 : Leads (turn plainIface vxlanOnIpv4) (start 0 true)
        ⟨.decodePacketEth, ⟨ETHERTYPE_IP, 0, 0, 0, 0, some .dummy, true⟩⟩ := by decide
    have h2 : Leads (turn plainIface vxlanOnIpv4) ⟨.decodePacketEth, ⟨ETHERTYPE_IP, 0, 0, 0, 0, some .dummy, true⟩⟩
        ⟨.switchEthType, ⟨ETHERTYPE_IP, 0, 0, 0, 0, some .dummy, true⟩⟩ := by decide
    have h3 : Leads (turn plainIface vxlanOnIpv4) ⟨.switchEthType, ⟨ETHERTYPE_IP, 0, 0, 0, 0, some .dummy, true⟩⟩
        (restarted .datalinkCheck) := by decide
    rintro (h | h | ⟨h, -⟩)
    · exact absurd h (by decide)
    · exact absurd h (by decide)
    · have hh := (halts_of_reached (((Relation.ReflTransGen.single h1).tail h2).tail h3)).mp h
      exact not_recurs_of_halts hh vxlan_on_ipv4_recurs
  · rw [safe_iff_walk]
    rintro (h | h | ⟨-, h, -⟩)
    · exact absurd h (by decide)
    · exact absurd h (by decide)
    · exact absurd (h _ .refl rfl : 0 < emptyEnc.caplen) (by decide)

end Ntopng.Dissect
