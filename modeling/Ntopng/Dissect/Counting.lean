/-
  Ntopng.Dissect.Counting — how often `dissectPacket` counts a packet (src/NetworkInterface.cpp).

  A turn that ends the walk calls `incStats` once, unless it leaves at a header that is cut
  short (`settles_turn`); no other turn calls it. The parsing calls it where it gives up
  (`counts_processPacket`), and otherwise the answer of `getFlow` decides. Proved: which
  packets are counted once (`countedOnce_iff`).
-/

import Ntopng.Dissect.Safety

namespace Ntopng.Dissect

open Ntopng.Lib.Bytes Ntopng.Lib.Turns Ntopng.Lib.Turns.Walk

/-! ## The exits that do not count -/

/-- Headers that are cut short where the code leaves without a call of `incStats`. -/
def CutShort (p : Capture) (c : Conf) : Prop :=
  match c.label with
  | .switchEthType =>
    (c.st.ethType = ETHERTYPE_PPPoE ∧ p.caplen ≤ (u16 (c.st.ipOffset.toNat + 6)).toNat + 1) ∨
      (c.st.ethType = ETHERTYPE_IP ∧ p.caplen < c.st.ipOffset.toNat + 20) ∨
      (c.st.ethType = ETHERTYPE_IPV6 ∧ p.caplen < c.st.ipOffset.toNat + 40)
  | .tzsp u => p.caplen < c.st.ipOffset.toNat + u.ipLen.toNat + 12
  | .tzspTag _ offset =>
    offset.toNat < p.caplen ∧ p.caplen ≤ offset.toNat + 1 ∧ p.packet offset.toNat ≠ 0 ∧ p.packet offset.toNat ≠ 1
  | _ => False

/-- A turn that ends the walk counts once, unless it is cut short; one that does not end it does not count. -/
structure Settles (cut : Prop) (t : Turn) : Prop where
  quiet : t.out ≠ .inr none → t.reports = [] ∧ ¬ cut
  counts : t.out = .inr none → ¬ cut → t.reports.length = 1
  silent : t.out = .inr none → cut → t.reports = []

section

variable {i : Iface} {p : Capture} {s : St} {cut : Prop} {α : Type}

theorem settles_going {t : Turn} (hout : t.out ≠ .inr none) (hrep : t.reports = []) : Settles cut t ↔ ¬ cut :=
  ⟨fun h => (h.quiet hout).2, fun h => ⟨fun _ => ⟨hrep, h⟩, fun ho => absurd ho hout, fun ho => absurd ho hout⟩⟩

theorem settles_goto (l : Label) : Settles cut (goto l s) ↔ ¬ cut := settles_going Sum.inl_ne_inr rfl

theorem settles_finish : Settles cut finish ↔ cut :=
  ⟨fun h => Classical.byContradiction fun hc => absurd (h.counts rfl hc) (by decide),
    fun h => ⟨fun hne => absurd rfl hne, fun _ hc => absurd h hc, fun _ _ => rfl⟩⟩

theorem settles_countAndFinish (e : UInt16) (l : UInt32) : Settles cut (countAndFinish s e l) ↔ ¬ cut :=
  ⟨fun h hc => absurd (h.silent rfl hc) nofun, fun h => ⟨fun hne => absurd rfl hne, fun _ _ => rfl, fun _ hc => absurd hc h⟩⟩

theorem settles_bind {m : Reading α} (hm : m.reports = []) (f : α → Turn) :
    Settles cut (m >>= f) ↔ Settles cut (f m.out) := by
  have hrep : (m >>= f).reports = (f m.out).reports := by rw [reports_bind, hm, List.nil_append]
  exact ⟨fun h => ⟨fun ho => hrep ▸ h.quiet ho, fun ho hc => hrep ▸ h.counts ho hc, fun ho hc => hrep ▸ h.silent ho hc⟩,
    fun h => ⟨fun ho => hrep ▸ h.quiet ho, fun ho hc => hrep ▸ h.counts ho hc, fun ho hc => hrep ▸ h.silent ho hc⟩⟩

theorem settles_gotoIp (l : Label) (n : Nat) : Settles cut (gotoIp l s n) ↔ ¬ cut :=
  (settles_bind (reports_assign ..) _).trans (settles_goto l)

theorem settles_gotoEth (n : Nat) : Settles cut (gotoEth s n) ↔ ¬ cut :=
  (settles_bind (reports_assign ..) _).trans (settles_goto _)

theorem settles_ite (c : Prop) [Decidable c] (a b : Turn) :
    Settles cut (if c then a else b) ↔ (c → Settles cut a) ∧ (¬ c → Settles cut b) := by
  by_cases h : c <;> simp [h]

theorem reports_simulateVlan (v : UInt16) (header : IpHeader) : (simulateVlan i p v header).reports = [] := by
  unfold simulateVlan
  split
  · cases header <;> rfl
  · rfl

theorem settles_deliver (b : Bool) (header : IpHeader) : Settles cut (deliver i p s b header) ↔ ¬ cut := by
  rw [deliver, settles_bind (reports_simulateVlan ..)]
  exact settles_going (fun ho => Option.some_ne_none _ (Sum.inr.inj ho)) rfl

theorem reports_hDest (e : Ethernet) : (hDest i p e).reports = [] := by cases e <;> rfl
theorem reports_hSource (e : Ethernet) : (hSource i p e).reports = [] := by cases e <;> rfl

theorem reports_direction : (direction i p s).reports = [] := by
  unfold direction
  split
  · rfl
  · simp only [reports_ite, reports_bind, reports_hDest, reports_hSource, reports_pure, List.nil_append, ite_self]

theorem reports_guessIp (o len : Nat) : (guessIp p o len).reports = [] := by
  simp only [guessIp, reports_ite, reports_bind, Capture.reports_byte, reports_pure, List.nil_append, ite_self]

theorem reports_guessEthType (o len : Nat) : (guessEthType p o len).reports = [] := by
  simp only [guessEthType, reports_ite, reports_bind, Capture.reports_short, reports_guessIp, reports_pure,
    List.nil_append, ite_self]

/-! ## One turn -/

theorem settles_datalinkCheck : Settles False (datalinkCheck i p s) := by
  cases hd : p.datalink <;>
    simp only [datalinkCheck, hd, decode, settles_ite, settles_bind, settles_goto, settles_gotoIp, settles_countAndFinish,
      Capture.reports_byte, Capture.reports_short, Capture.reports_word, not_false_iff, implies_true, and_self]

theorem settles_decodePacketEth : Settles False (decodePacketEth i p s) := by
  simp only [decodePacketEth, settles_ite, settles_bind, settles_goto, settles_gotoIp, settles_countAndFinish,
    reports_guessEthType, reports_assign, Capture.reports_byte, Capture.reports_short, not_false_iff, implies_true,
    and_self]

theorem settles_ipv4 (h4 : s.ipOffset.toNat + 20 ≤ p.caplen) : Settles False (ipv4 i p s) := by
  simp only [ipv4, gre4, greIp, erspan, udp4, gtp, l2tp, pppPayload, settles_ite, settles_bind, settles_goto,
    settles_gotoIp, settles_gotoEth, settles_countAndFinish, settles_finish, settles_deliver, reports_assign,
    Capture.reports_byte, Capture.reports_short, not_false_iff, implies_true, and_self, true_and]
  omega

theorem settles_ipv6 (h6 : s.ipOffset.toNat + 40 ≤ p.caplen) : Settles False (ipv6 i p s) := by
  simp only [ipv6, tunnels6, gre6, udp6, greIp, erspan, settles_ite, settles_bind, settles_goto, settles_gotoIp,
    settles_countAndFinish, settles_finish, settles_deliver, reports_assign, Capture.reports_byte,
    Capture.reports_short, not_false_iff, implies_true, and_self, true_and]
  omega

theorem settles_pppoe :
    Settles (p.caplen ≤ (u16 (s.ipOffset.toNat + 6)).toNat + 1) (pppoe i p s) := by
  simp only [pppoe, settles_ite, settles_bind, settles_gotoIp, settles_countAndFinish, settles_finish,
    reports_assign, Capture.reports_byte]
  omega

theorem settles_nonIp : Settles False (nonIp i p s) := by
  unfold nonIp
  split
  · exact (settles_countAndFinish ..).mpr id
  · simp only [settles_bind, settles_ite, settles_countAndFinish, reports_hSource, reports_hDest, Capture.reports_short,
      Capture.reports_mac, Capture.reports_word, not_false_iff, implies_true, and_self]

theorem settles_of_iff {t : Turn} {cut' : Prop} (h : cut ↔ cut') (ht : Settles cut' t) : Settles cut t := by
  rwa [propext h]

theorem settles_short {t : Turn} {n : Nat} (hcut : cut ↔ p.caplen < n) (hshort : p.caplen < n → t = finish)
    (hlong : n ≤ p.caplen → Settles False t) : Settles cut t := by
  by_cases hn : p.caplen < n
  · rw [hshort hn]
    exact settles_finish.mpr (hcut.mpr hn)
  · exact settles_of_iff (iff_of_false (fun h => hn (hcut.mp h)) id) (hlong (by omega))

theorem settles_switchEthType : Settles (CutShort p ⟨.switchEthType, s⟩) (switchEthType i p s) := by
  rw [switchEthType, settles_bind reports_direction]
  generalize (direction i p s).out = ingress
  simp only [CutShort, settles_ite]
  refine ⟨fun hty => ?_, fun hnp => ⟨fun hty => ?_, fun hn4 => ⟨fun hty => ?_, fun hn6 => ?_⟩⟩⟩
  · refine settles_of_iff ?_ settles_pppoe
    simp only [hty, true_and, show ETHERTYPE_PPPoE ≠ ETHERTYPE_IP by decide,
      show ETHERTYPE_PPPoE ≠ ETHERTYPE_IPV6 by decide, false_and, or_false]
  · refine settles_short (p := p) (n := s.ipOffset.toNat + 20) ?_ (fun hlt => ?_) fun hle => settles_ipv4 hle
    · simp only [hty, true_and, show ETHERTYPE_IP ≠ ETHERTYPE_PPPoE by decide,
        show ETHERTYPE_IP ≠ ETHERTYPE_IPV6 by decide, false_and, or_false, false_or]
    · exact if_neg (by show ¬ p.caplen ≥ s.ipOffset.toNat + 20; omega)
  · refine settles_short (p := p) (n := s.ipOffset.toNat + 40) ?_ (fun hlt => ?_) fun hle => settles_ipv6 hle
    · simp only [hty, true_and, show ETHERTYPE_IPV6 ≠ ETHERTYPE_PPPoE by decide,
        show ETHERTYPE_IPV6 ≠ ETHERTYPE_IP by decide, false_and, false_or]
    · exact if_neg (by show ¬ p.caplen ≥ s.ipOffset.toNat + 40; omega)
  · refine settles_of_iff ?_ settles_nonIp
    simp only [show s.ethType ≠ ETHERTYPE_PPPoE from hnp, show s.ethType ≠ ETHERTYPE_IP from hn4,
      show s.ethType ≠ ETHERTYPE_IPV6 from hn6, false_and, or_false]

theorem settles_tzsp {u : Udp4} : Settles (CutShort p ⟨.tzsp u, s⟩) (tzsp p s u) := by
  simp only [tzsp, CutShort, settles_ite, settles_bind, settles_goto, settles_finish, Capture.reports_byte,
    Capture.reports_short]
  omega

theorem settles_tzspAdvance {u : Udp4} {o : UInt32} {len : Nat} {stop : Bool} :
    Settles cut (tzspAdvance i p s u o len stop) ↔ ¬ cut := by
  simp only [tzspAdvance, settles_bind, settles_ite, settles_goto, settles_gotoEth, settles_countAndFinish, reports_assign]
  by_cases h : (UInt32.ofNat (o.toNat + len)).toNat > p.caplen <;> cases stop <;> simp only [h, true_implies,
    not_true, not_false_iff, false_implies, and_true, true_and, Bool.false_eq_true]

theorem settles_tzspTag {u : Udp4} {o : UInt32} : Settles (CutShort p ⟨.tzspTag u o, s⟩) (tzspTag i p s u o) := by
  simp only [tzspTag, CutShort, settles_ite, settles_bind, settles_tzspAdvance, settles_goto, settles_finish,
    Capture.reports_byte]
  refine ⟨fun hlt => ⟨fun h0 hc => hc.2.2.1 h0, fun h0 => ⟨fun h1 hc => hc.2.2.2 h1, fun h1 => ⟨fun hge => ?_,
    fun hlt' => ?_⟩⟩⟩, fun hge hc => hge hc.1⟩
  · exact ⟨hlt, hge, h0, h1⟩
  · omega

theorem settles_capwapHeader {b : Bool} {o : UInt16} : Settles False (capwapHeader i p s b o) := by
  simp only [capwapHeader, capwapInner, settles_ite, settles_bind, settles_countAndFinish, settles_deliver,
    Capture.reports_byte, Capture.reports_short, not_false_iff, implies_true, and_self]

theorem settles_turn (c : Conf) : Settles (CutShort p c) (turn i p c) := by
  obtain ⟨label, s⟩ := c
  cases label with
  | datalinkCheck => exact settles_datalinkCheck
  | decodePacketEth => exact settles_decodePacketEth
  | switchEthType => exact settles_switchEthType
  | tzsp u => exact settles_tzsp
  | tzspTag u o => exact settles_tzspTag
  | capwap u =>
    show Settles False (capwap i p s u)
    simp only [capwap, settles_ite, settles_countAndFinish, settles_deliver, settles_capwapHeader, not_false_iff,
      implies_true, and_self]
  | capwap6 k =>
    show Settles False (capwap6 i p s k)
    simp only [capwap6, settles_ite, settles_deliver, settles_capwapHeader, not_false_iff, implies_true, and_self]

theorem quiet_leads {c c' : Conf} (h : Leads (turn i p) c c') : (turn i p c).reports = [] ∧ ¬ CutShort p c :=
  (settles_turn c).quiet (by rw [show (turn i p c).out = .inl c' from h]; exact nofun)

/-! ## processPacket -/

/-- The parsing counts the packet where it gives up, and only there. -/
def CountsOrGoesOn {α : Type} (m : Reading (Option α)) : Prop :=
  (m.out = none → m.reports.length = 1) ∧ (m.out ≠ none → m.reports = [])

theorem counts_countAndReturn (e : UInt16) : CountsOrGoesOn (countAndReturn (α := α) i p s e) :=
  ⟨fun _ => rfl, fun h => absurd rfl h⟩

theorem counts_some (a : α) : CountsOrGoesOn (pure (some a)) := ⟨nofun, fun _ => rfl⟩

theorem counts_bind {β : Type} {m : Reading β} (hm : m.reports = []) (f : β → Reading (Option α)) :
    CountsOrGoesOn (m >>= f) ↔ CountsOrGoesOn (f m.out) := by
  simp only [CountsOrGoesOn, out_bind, reports_bind, hm, List.nil_append]

theorem counts_ite (c : Prop) [Decidable c] (a b : Reading (Option α)) :
    CountsOrGoesOn (if c then a else b) ↔ (c → CountsOrGoesOn a) ∧ (¬ c → CountsOrGoesOn b) := by
  by_cases h : c <;> simp [h]

theorem counts_seq {β : Type} {m : Reading (Option β)} {f : Option β → Reading (Option α)} (hm : CountsOrGoesOn m)
    (hnone : f none = pure none) (hf : ∀ b, CountsOrGoesOn (f (some b))) : CountsOrGoesOn (m >>= f) := by
  cases hout : m.out with
  | none =>
    have hrep := hm.1 hout
    refine ⟨fun _ => ?_, fun h => ?_⟩
    · rw [reports_bind, hout, hnone, reports_pure, List.append_nil, hrep]
    · rw [out_bind, hout, hnone] at h
      exact absurd rfl h
  | some b =>
    have hrep := hm.2 (by rw [hout]; exact Option.some_ne_none _)
    simp only [CountsOrGoesOn, out_bind, reports_bind, hrep, hout, List.nil_append]
    exact hf b

section

variable {h : Handoff}

theorem reports_dissectICMP (payloadLen o : Nat) : (dissectICMP p payloadLen o).reports = [] := by
  simp only [dissectICMP, reports_ite, reports_bind, reports_pure, Capture.reports_byte, Capture.reports_short,
    Capture.reports_word, List.nil_append, ite_self]

theorem counts_trustL4 {protocol : UInt8} {l4 : Nat} {isFragment : Bool} {framePadding : UInt16} {tos : UInt8}
    {ethProto : UInt16} : CountsOrGoesOn (trustL4 i p h protocol l4 isFragment framePadding tos ethProto) := by
  simp only [trustL4, counts_ite, counts_some, counts_countAndReturn, implies_true, and_self]

theorem counts_parseIp : CountsOrGoesOn (parseIp i p h) := by
  obtain ⟨st, header⟩ := h
  cases header <;>
    simp only [parseIp, parseIPv4, parseIPv6, counts_ite, counts_bind, counts_countAndReturn, counts_trustL4,
      Capture.reports_byte, Capture.reports_short, implies_true, and_self]

theorem reports_windowScale (o optionsLen turns k : Nat) : (windowScale p o optionsLen turns k).reports = [] := by
  induction turns generalizing k with
  | zero => rfl
  | succ turns ih =>
    simp only [windowScale, reports_ite, reports_bind, reports_pure, Capture.reports_byte, ih, List.nil_append, ite_self]

theorem reports_tcpWindowScale (o tcpLen : Nat) (flags : UInt8) : (tcpWindowScale i p o tcpLen flags).reports = [] := by
  simp only [tcpWindowScale, reports_ite, reports_windowScale, reports_pure, ite_self]

theorem counts_parseL4 {l4 : L4} {ethProto : UInt16} : CountsOrGoesOn (parseL4 i p h l4 ethProto) := by
  simp only [parseL4, portsOf, counts_ite, counts_bind, counts_countAndReturn, counts_some, reports_dissectICMP,
    reports_tcpWindowScale, reports_bind, reports_pure, Capture.reports_byte, Capture.reports_short, List.append_nil, implies_true, and_self]

theorem reports_addresses : (addresses p h).reports = [] := by
  obtain ⟨st, header⟩ := h
  cases header <;> rfl

theorem reports_privateFlowId {protocol : UInt8} {ports : Ports} : (privateFlowId p protocol ports).reports = [] := by
  unfold privateFlowId
  split
  · split <;> rfl
  · rfl

theorem counts_processPacket : CountsOrGoesOn (processPacket i p h) := by
  unfold processPacket
  split
  · exact counts_countAndReturn _
  · simp only [counts_bind, reports_hSource, reports_hDest]
    refine counts_seq counts_parseIp rfl fun l4 => counts_seq counts_parseL4 rfl fun ports => ?_
    simp only [counts_bind, reports_addresses, reports_privateFlowId]
    exact counts_some _

end

/-! ## The flow -/

/-- Some call of `getFlow` ends with the packet counted, and all before it ask for another one. -/
def Answered (answer : Nat → Answer) : Prop :=
  ∃ k, (∀ j < k, answer j = .startOver) ∧ (answer k = .noFlow ∨ ∃ b, answer k = .flow b)

section

variable {parsed : Parsed} {answer : Nat → Answer}

theorem answered_of_counted {n k : Nat} (hout : (iterate (preGetFlow i p parsed answer) n k).out ≠ none)
    (hrep : (iterate (preGetFlow i p parsed answer) n k).reports.length = 1) :
    ∃ k', k ≤ k' ∧ (∀ j, k ≤ j → j < k' → answer j = .startOver) ∧ (answer k' = .noFlow ∨ ∃ b, answer k' = .flow b) := by
  induction n generalizing k with
  | zero => exact absurd rfl hout
  | succ n ih =>
    have hself : (∀ j, k ≤ j → j < k → answer j = .startOver) := fun j h h' => absurd h' (by omega)
    cases ha : answer k with
    | noFlow => exact ⟨k, Nat.le_refl k, hself, .inl ha⟩
    | flow b => exact ⟨k, Nat.le_refl k, hself, .inr ⟨b, ha⟩⟩
    | badAlloc =>
      have hend : (preGetFlow i p parsed answer k) = pure (.inr ()) := by simp only [preGetFlow, ha]
      rw [iterate_of_ends (b := ()) (by rw [hend]; rfl), hend] at hrep
      exact absurd hrep (by decide)
    | startOver =>
      have hgo : (preGetFlow i p parsed answer k) = pure (.inl (k + 1)) := by simp only [preGetFlow, ha]
      rw [iterate_of_leads (show Leads _ k (k + 1) by rw [Leads, hgo]; rfl), hgo] at hout hrep
      obtain ⟨k', hle, hall, hk'⟩ := ih hout hrep
      refine ⟨k', by omega, fun j hj hlt => ?_, hk'⟩
      by_cases hjk : j = k
      · rw [hjk, ha]
      · exact hall j (by omega) hlt

theorem counted_of_answered (parsed : Parsed) (h : Answered answer) :
    ∃ n, (iterate (preGetFlow i p parsed answer) n 0).out ≠ none ∧
      (iterate (preGetFlow i p parsed answer) n 0).reports.length = 1 := by
  obtain ⟨k, hall, hk⟩ := h
  have hquiet : ∀ j j', Leads (preGetFlow i p parsed answer) j j' → (preGetFlow i p parsed answer j).reports = [] := by
    intro j j' hl
    unfold Leads at hl
    cases ha : answer j <;> simp only [preGetFlow, ha] at hl ⊢
    · cases hl
    · rfl
    · cases hl
    · rfl
  have hreached : ∀ j ≤ k, Reached (preGetFlow i p parsed answer) 0 j := by
    intro j hj
    induction j with
    | zero => exact .refl
    | succ j ih =>
      refine Relation.ReflTransGen.tail (ih (by omega)) ?_
      show (preGetFlow i p parsed answer j).out = _
      simp only [preGetFlow, hall j (by omega)]
      rfl
  obtain ⟨hb, hlen⟩ : (preGetFlow i p parsed answer k).out = .inr () ∧
      (preGetFlow i p parsed answer k).reports.length = 1 := by
    obtain hk | ⟨b, hk⟩ := hk <;> simp only [preGetFlow, hk] <;> exact ⟨rfl, rfl⟩
  obtain ⟨n, hout, hrep⟩ := iterate_of_final hquiet (hreached k (Nat.le_refl k)) hb
  exact ⟨n, by rw [hout]; exact Option.some_ne_none _, by rw [hrep]; exact hlen⟩

/-! ## The whole function -/

variable {ethType : UInt16} {ingress : Bool}

/-- The function ends, and has counted the packet once. -/
def CountedOnce (i : Iface) (p : Capture) (ethType : UInt16) (ingress : Bool) (answer : Nat → Answer) : Prop :=
  ∃ fuel, (dissectPacket i p ethType ingress answer fuel).out ≠ none ∧
    (dissectPacket i p ethType ingress answer fuel).reports.length = 1

/-- The packet gets to `getFlow`. -/
def GetsToFlow (i : Iface) (p : Capture) (ethType : UInt16) (ingress : Bool) : Prop :=
  ∃ c h parsed, Reached (turn i p) (start ethType ingress) c ∧ (turn i p c).out = .inr (some h) ∧
    (processPacket i p h).out = some parsed

theorem quiet (c c' : Conf) (h : Leads (turn i p) c c') : (turn i p c).reports = [] := (quiet_leads h).1

/-- What the run gives, as soon as it has ended. -/
theorem run_of_final {c : Conf} {b : Option Handoff} (hr : Reached (turn i p) (start ethType ingress) c)
    (hb : (turn i p c).out = .inr b) {n : Nat} (hn : (iterate (turn i p) n (start ethType ingress)).out ≠ none) :
    (iterate (turn i p) n (start ethType ingress)).out = some b ∧
      (iterate (turn i p) n (start ethType ingress)).reports = (turn i p c).reports := by
  obtain ⟨m, hout, hrep⟩ := iterate_of_final quiet hr hb
  rw [iterate_unique hn (by rw [hout]; exact Option.some_ne_none _ : (iterate (turn i p) m (start ethType ingress)).out ≠ none)]
  exact ⟨hout, hrep⟩

/-- Without the guard, the function is the walk, the parsing and the calls of `getFlow`. -/
theorem dissectPacket_of_walk (answer : Nat → Answer) (hg : ¬ (p.len = 0 ∨ p.caplen > p.len)) {n : Nat} {b : Option Handoff}
    (hout : (iterate (turn i p) n (start ethType ingress)).out = some b) :
    (dissectPacket i p ethType ingress answer n).out =
        (match b.bind fun h => (processPacket i p h).out with
          | none => some ()
          | some parsed => (iterate (preGetFlow i p parsed answer) n 0).out) ∧
      (dissectPacket i p ethType ingress answer n).reports =
        (iterate (turn i p) n (start ethType ingress)).reports ++
          (match b with | none => [] | some h => (processPacket i p h).reports) ++
          (match b.bind fun h => (processPacket i p h).out with
            | none => []
            | some parsed => (iterate (preGetFlow i p parsed answer) n 0).reports) := by
  simp only [dissectPacket, dissectToFlow, if_neg hg, out_bind, reports_bind, hout]
  cases b with
  | none => exact ⟨rfl, by simp⟩
  | some h =>
    simp only [out_bind, reports_bind, out_pure, reports_pure, Option.bind_some, List.append_nil]
    cases (processPacket i p h).out with
    | none => exact ⟨rfl, by simp⟩
    | some parsed => exact ⟨rfl, by simp⟩

/-- A final turn that hands the packet over has not counted it. -/
theorem handoff_quiet {c : Conf} {h : Handoff} (hb : (turn i p c).out = .inr (some h)) : (turn i p c).reports = [] :=
  ((settles_turn c).quiet (by rw [hb]; exact nofun)).1

theorem out_of_cutShort {c : Conf} (hc : CutShort p c) : (turn i p c).out = .inr none :=
  Classical.byContradiction fun hne => ((settles_turn c).quiet hne).2 hc

theorem conditions_of_counted (hg : ¬ (p.len = 0 ∨ p.caplen > p.len)) (h : CountedOnce i p ethType ingress answer) :
    Halts (turn i p) (start ethType ingress) ∧
      (∀ c, Reached (turn i p) (start ethType ingress) c → ¬ CutShort p c) ∧
      (GetsToFlow i p ethType ingress → Answered answer) := by
  obtain ⟨n, hout, hlen⟩ := h
  have hrun : (iterate (turn i p) n (start ethType ingress)).out ≠ none := by
    intro hnone
    simp only [dissectPacket, dissectToFlow, if_neg hg, out_bind, hnone, out_pure] at hout
    exact hout rfl
  refine ⟨⟨n, hrun⟩, fun c hr hcut => ?_, ?_⟩
  · have hb := out_of_cutShort (i := i) hcut
    obtain ⟨hwalk, hrep⟩ := run_of_final hr hb hrun
    rw [(dissectPacket_of_walk answer hg hwalk).2, hrep, (settles_turn c).silent hb hcut] at hlen
    cases hlen
  · rintro ⟨c, h, parsed, hr, hb, hparsed⟩
    obtain ⟨hwalk, hrep⟩ := run_of_final hr hb hrun
    obtain ⟨hout', hrep'⟩ := dissectPacket_of_walk answer hg hwalk
    have hquiet : (processPacket i p h).reports = [] := counts_processPacket.2 (by rw [hparsed]; exact Option.some_ne_none _)
    simp only [Option.bind_some, hparsed, hrep, handoff_quiet hb, hquiet, List.nil_append] at hout' hrep'
    rw [hout'] at hout
    rw [hrep'] at hlen
    obtain ⟨k, -, hall, hk⟩ := answered_of_counted hout hlen
    exact ⟨k, fun j hj => hall j (Nat.zero_le j) hj, hk⟩

theorem counted_of_conditions (hg : ¬ (p.len = 0 ∨ p.caplen > p.len))
    (hh : Halts (turn i p) (start ethType ingress))
    (hcut : ∀ c, Reached (turn i p) (start ethType ingress) c → ¬ CutShort p c)
    (hflow : GetsToFlow i p ethType ingress → Answered answer) : CountedOnce i p ethType ingress answer := by
  obtain ⟨n, hn⟩ := hh
  obtain ⟨b, hwalk⟩ := Option.ne_none_iff_exists'.mp hn
  obtain ⟨c, hr, hb, hrep⟩ := ends_of_iterate quiet hwalk
  obtain ⟨hout, hreports⟩ := dissectPacket_of_walk answer hg hwalk
  cases b with
  | none =>
    refine ⟨n, by rw [hout]; exact Option.some_ne_none _, ?_⟩
    rw [hreports, hrep]
    simp only [Option.bind_none, List.append_nil]
    exact (settles_turn c).counts hb (hcut c hr)
  | some h =>
    rw [handoff_quiet hb] at hrep
    cases hparsed : (processPacket i p h).out with
    | none =>
      simp only [Option.bind_some, hparsed, hrep, List.nil_append, List.append_nil] at hout hreports
      exact ⟨n, by rw [hout]; exact Option.some_ne_none _, by rw [hreports]; exact counts_processPacket.1 hparsed⟩
    | some parsed =>
      obtain ⟨m, hm, hlen⟩ := counted_of_answered (i := i) (p := p) parsed (hflow ⟨c, h, parsed, hr, hb, hparsed⟩)
      have hwalk' : (iterate (turn i p) (max n m) (start ethType ingress)).out = some (some h) := by
        rw [iterate_mono hn (Nat.le_max_left n m), hwalk]
      have hrep' : (iterate (turn i p) (max n m) (start ethType ingress)).reports = [] := by
        rw [iterate_mono hn (Nat.le_max_left n m), hrep]
      have hquiet : (processPacket i p h).reports = [] := counts_processPacket.2 (by rw [hparsed]; exact Option.some_ne_none _)
      obtain ⟨hout', hreports'⟩ := dissectPacket_of_walk answer hg hwalk'
      simp only [Option.bind_some, hparsed, hrep', hquiet, List.nil_append, iterate_mono hm (Nat.le_max_right n m)]
        at hout' hreports'
      exact ⟨max n m, by rw [hout']; exact hm, by rw [hreports']; exact hlen⟩

/-- Exactly which packets are counted once. -/
theorem countedOnce_iff (i : Iface) (p : Capture) (ethType : UInt16) (ingress : Bool) (answer : Nat → Answer) :
    CountedOnce i p ethType ingress answer ↔ p.len = 0 ∨ p.caplen > p.len ∨
      (Ends i p ethType ingress ∧ (∀ c, Reached (turn i p) (start ethType ingress) c → ¬ CutShort p c) ∧
        (GetsToFlow i p ethType ingress → Answered answer)) := by
  rw [← halts_iff_ends]
  by_cases hg : p.len = 0 ∨ p.caplen > p.len
  · have hcounted : CountedOnce i p ethType ingress answer := by
      refine ⟨0, ?_, ?_⟩ <;> simp only [dissectPacket, dissectToFlow, if_pos hg]
      · exact Option.some_ne_none _
      · rfl
    tauto
  · have hwalk : CountedOnce i p ethType ingress answer ↔ _ :=
      ⟨conditions_of_counted hg, fun h => counted_of_conditions hg h.1 h.2.1 h.2.2⟩
    rw [hwalk]
    tauto

end

end

/-- An Ethernet frame of 14 bytes that announces IPv4, and nothing behind it. -/
def bareEthernet : Capture :=
  captureOf .en10mb [0xFF, 0xFF, 0xFF, 0xFF, 0xFF, 0xFF, 2, 0, 0, 0, 0, 1, 0x08, 0x00] (by decide)

/-- The packet leaves `dissectPacket` uncounted. -/
theorem bare_ethernet_uncounted :
    (∃ fuel, (dissectPacket plainIface bareEthernet 0 true (fun _ => .noFlow) fuel).out ≠ none ∧
      (dissectPacket plainIface bareEthernet 0 true (fun _ => .noFlow) fuel).reports = []) ∧
      ¬ CountedOnce plainIface bareEthernet 0 true fun _ => .noFlow := by
  have hrun : (dissectPacket plainIface bareEthernet 0 true (fun _ => .noFlow) 3).out = some () ∧
    (dissectPacket plainIface bareEthernet 0 true (fun _ => .noFlow) 3).reports = [] := by decide
  refine ⟨⟨3, by rw [hrun.1]; exact Option.some_ne_none _, hrun.2⟩, fun h => ?_⟩
  have hcut : CutShort bareEthernet ⟨.switchEthType, ⟨ETHERTYPE_IP, 14, 0, 0, 0, some (.at 0), true⟩⟩ :=
    .inr (.inl (by decide))
  have h1 : Leads (turn plainIface bareEthernet) (start 0 true)
      ⟨.decodePacketEth, ⟨ETHERTYPE_IP, 14, 0, 0, 0, some (.at 0), true⟩⟩ := by decide
  have h2 : Leads (turn plainIface bareEthernet) ⟨.decodePacketEth, ⟨ETHERTYPE_IP, 14, 0, 0, 0, some (.at 0), true⟩⟩
      ⟨.switchEthType, ⟨ETHERTYPE_IP, 14, 0, 0, 0, some (.at 0), true⟩⟩ := by decide
  exact (conditions_of_counted (by decide) h).2.1 _ ((Relation.ReflTransGen.single h1).tail h2) hcut

end Ntopng.Dissect
