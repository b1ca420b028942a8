/-
  Ntopng.Dissect.Progress — the dissection moves forward as long as no offset wraps
  (src/NetworkInterface.cpp).

  Proved: every turn whose offsets fit their variables lowers the rank, but for a restart of
  `DLT_ENC` or `DLT_IPV4` (`rank_leads`). In packets that 16 bits suffice for, all offsets fit
  (`lossless_turn`) and stay near the captured length (`near_leads`).
-/

import Ntopng.Dissect.Bounds

namespace Ntopng.Dissect

open Ntopng.Lib.Bytes Ntopng.Lib.Turns Ntopng.Lib.Turns.Walk

/-! ## Moving forward -/

/-- No offset that the walk computes needs more than 16 bits. -/
def Small (p : Capture) : Prop := p.caplen + 256 ≤ 65536

/-- The datalinks that `ethOffset` means something to. -/
def HonoursEthOffset (p : Capture) : Prop := p.datalink ≠ .enc ∧ p.datalink ≠ .ipv4

/-- Falls with every turn: the bytes still ahead, then the label. -/
def rank (c : Conf) : Nat :=
  match c.label with
  | .datalinkCheck => 8 * (4294967296 - c.st.ethOffset.toNat) + 4
  | .decodePacketEth => 8 * (4294967296 - c.st.ipOffset.toNat) + 3
  | .switchEthType => 8 * (4294967296 - c.st.ipOffset.toNat) + 2
  | .tzsp _ => 8 * (4294967296 - c.st.ipOffset.toNat) + 1
  | .tzspTag _ offset => 8 * (4294967296 - offset.toNat) + 1
  | .capwap _ => 0
  | .capwap6 _ => 0

def LabelNear (p : Capture) (s : St) : Label → Prop
  | .tzsp u => u.ipLen.toNat ≤ 60
  | .tzspTag u offset => u.ipLen.toNat ≤ 60 ∧ offset.toNat ≤ p.caplen
  | .capwap u => u.ipLen.toNat ≤ 60
  | .capwap6 ipv6Shift => s.ipOffset.toNat + ipv6Shift.toNat + 8 ≤ p.caplen
  | _ => True

/-- Offsets stay about the captured length. -/
structure Near (p : Capture) (c : Conf) : Prop where
  ip : c.st.ipOffset.toNat ≤ p.caplen + 12
  eth : c.st.ethOffset.toNat ≤ p.caplen + 12
  label : LabelNear p c.st c.label

def NextNear (p : Capture) : Next → Prop
  | .inl c => Near p c
  | .inr _ => True

def NextBelow (m : Nat) : Next → Prop
  | .inl c => rank c < m
  | .inr _ => True

/-- What fits moves on; and where 16 bits suffice, everything fits and stays near. -/
structure Falls (p : Capture) (m : Nat) (t : Turn) : Prop where
  near : Small p → Lossless t ∧ Yields (NextNear p) t
  below : Lossless t → Yields (NextBelow m) t

section

variable {i : Iface} {p : Capture} {s : St} {m : Nat} {α : Type}

theorem falls_ite (c : Prop) [Decidable c] (a b : Turn) :
    Falls p m (if c then a else b) ↔ (c → Falls p m a) ∧ (¬ c → Falls p m b) := by
  by_cases h : c <;> simp [h]

theorem falls_bind {t : Reading α} (ht : Lossless t) (f : α → Turn) : Falls p m (t >>= f) ↔ Falls p m (f t.out) := by
  have hloss : Lossless (t >>= f) ↔ Lossless (f t.out) := (lossless_bind ..).trans (and_iff_right ht)
  exact ⟨fun h => ⟨fun hp => (h.near hp).imp hloss.mp id, fun hl => h.below (hloss.mpr hl)⟩,
    fun h => ⟨fun hp => (h.near hp).imp hloss.mpr id, fun hl => h.below (hloss.mp hl)⟩⟩

/-- What is assigned fits where 16 bits suffice, and may be taken to fit elsewhere. -/
theorem falls_assign {bits n : Nat} (f : Unit → Turn) :
    Falls p m (assign bits n >>= f) ↔ (Small p → n < 2 ^ bits) ∧ (n < 2 ^ bits → Falls p m (f ())) := by
  have hloss : Lossless (assign bits n >>= f) ↔ n < 2 ^ bits ∧ Lossless (f ()) := by
    rw [lossless_bind, lossless_assign, out_assign]
  constructor
  · refine fun h => ⟨fun hp => (hloss.mp (h.near hp).1).1, fun hn => ⟨fun hp => ?_, fun hl => h.below (hloss.mpr ⟨hn, hl⟩)⟩⟩
    exact ⟨(hloss.mp (h.near hp).1).2, (h.near hp).2⟩
  · refine fun h => ⟨fun hp => ?_, fun hl => (h.2 (hloss.mp hl).1).below (hloss.mp hl).2⟩
    exact ⟨hloss.mpr ⟨h.1 hp, ((h.2 (h.1 hp)).near hp).1⟩, ((h.2 (h.1 hp)).near hp).2⟩

theorem falls_goto (l : Label) :
    Falls p m (goto l s) ↔ rank ⟨l, s⟩ < m ∧ (Small p → s.ipOffset.toNat ≤ p.caplen + 12 ∧
      s.ethOffset.toNat ≤ p.caplen + 12 ∧ LabelNear p s l) :=
  ⟨fun h => ⟨h.below (lossless_pure _), fun hp => ⟨(h.near hp).2.1, (h.near hp).2.2, (h.near hp).2.3⟩⟩,
    fun h => ⟨fun hp => ⟨lossless_pure _, (h.2 hp).1, (h.2 hp).2.1, (h.2 hp).2.2⟩, fun _ => h.1⟩⟩

theorem falls_gotoIp (l : Label) (n : Nat) :
    Falls p m (gotoIp l s n) ↔ (Small p → n < 2 ^ 16) ∧ (n < 2 ^ 16 → Falls p m (goto l { s with ipOffset := u16 n })) :=
  falls_assign _

theorem falls_gotoEth (n : Nat) :
    Falls p m (gotoEth s n) ↔
      (Small p → n < 2 ^ 16) ∧ (n < 2 ^ 16 → Falls p m (goto .datalinkCheck { s with ethOffset := u16 n })) :=
  falls_assign _

theorem falls_finish : Falls p m finish := ⟨fun _ => ⟨lossless_pure _, trivial⟩, fun _ => trivial⟩

theorem falls_countAndFinish (e : UInt16) (l : UInt32) : Falls p m (countAndFinish s e l) :=
  ⟨fun _ => ⟨nofun, trivial⟩, fun _ => trivial⟩

@[simp] theorem lossless_byte (o : Int) : Lossless (p.byte o) := lossless_read p.packet o
@[simp] theorem lossless_short (o : Int) : Lossless (p.short o) := nofun
@[simp] theorem lossless_word (o : Int) : Lossless (p.word o) := nofun
@[simp] theorem lossless_mac (o : Int) : Lossless (p.mac o) := nofun

theorem lossless_simulateVlan (v : UInt16) (header : IpHeader) : Lossless (simulateVlan i p v header) := by
  unfold simulateVlan
  split
  · cases header <;> exact nofun
  · exact lossless_pure _

theorem falls_deliver (b : Bool) (header : IpHeader) : Falls p m (deliver i p s b header) := by
  rw [deliver, falls_bind (lossless_simulateVlan _ _)]
  exact ⟨fun _ => ⟨lossless_pure _, trivial⟩, fun _ => trivial⟩

theorem falls_decode {ethType : UInt16} {e : Ethernet} {o : Nat} :
    Falls p m (decode s ethType e o) ↔ (Small p → o < 65536) ∧
      (o < 65536 → 8 * (4294967296 - o) + 3 < m ∧
        (Small p → o ≤ p.caplen + 12 ∧ s.ethOffset.toNat ≤ p.caplen + 12)) := by
  simp only [decode, falls_gotoIp, falls_goto, rank, LabelNear, and_true, Nat.reducePow]
  refine and_congr_right fun _ => forall_congr' fun ho => ?_
  rw [toNat_u16_of_lt ho]

/-- A restart that goes nowhere still falls below where restarts start. -/
theorem falls_datalinkCheck (hn : Small p → Near p ⟨.datalinkCheck, s⟩)
    (hm : (HonoursEthOffset p ∧ rank ⟨.datalinkCheck, s⟩ ≤ m) ∨ 8 * 4294967296 + 4 ≤ m) :
    Falls p m (datalinkCheck i p s) := by
  have heth : Small p → s.ethOffset.toNat ≤ p.caplen + 12 := fun hp => (hn hp).eth
  have hip : Small p → s.ipOffset.toNat ≤ p.caplen + 12 := fun hp => (hn hp).ip
  have hlt := s.ethOffset.toNat_lt
  simp only [Small, rank] at heth hip hm
  cases hdl : p.datalink <;>
    simp only [HonoursEthOffset, hdl, ne_eq, reduceCtorEq, not_true, not_false_iff, and_true, and_false, false_and,
      true_and, false_or] at hm <;>
    simp only [datalinkCheck, hdl, falls_ite, falls_bind, lossless_byte, lossless_short, lossless_word, falls_decode,
      falls_goto, falls_countAndFinish, rank, LabelNear, Small, implies_true, true_and, and_true]
  all_goals omega

theorem lossless_guessIp (o len : Nat) : Lossless (guessIp p o len) := by
  simp only [guessIp, lossless_ite, lossless_bind, lossless_pure, lossless_byte, implies_true, and_self]

theorem lossless_guessEthType (o len : Nat) : Lossless (guessEthType p o len) := by
  simp only [guessEthType, lossless_ite, lossless_bind, lossless_pure, lossless_short, lossless_guessIp, implies_true,
    and_self]

theorem falls_decodePacketEth (hn : Small p → Near p ⟨.decodePacketEth, s⟩) :
    Falls p (rank ⟨.decodePacketEth, s⟩) (decodePacketEth i p s) := by
  have heth : Small p → s.ethOffset.toNat ≤ p.caplen + 12 := fun hp => (hn hp).eth
  have hip : Small p → s.ipOffset.toNat ≤ p.caplen + 12 := fun hp => (hn hp).ip
  have hlt := s.ipOffset.toNat_lt
  simp only [Small] at heth hip
  simp only [decodePacketEth, falls_ite, falls_bind, falls_assign, lossless_byte, lossless_short,
    lossless_guessEthType, falls_gotoIp, falls_goto, falls_countAndFinish, rank, toNat_u16, LabelNear, Small,
    Nat.reducePow, implies_true, and_true]
  refine ⟨fun hlt => ⟨fun hv => ?_, fun _ => ⟨fun hm => ⟨?_, fun hfit => ⟨fun _ => fun hlt' => ?_, fun _ => ?_⟩⟩,
    fun _ => ?_⟩⟩, fun _ => ?_⟩
  case refine_3 => split <;> omega
  all_goals omega

theorem falls_greIp {ethType : UInt16} {o : Nat} (heth : Small p → s.ethOffset.toNat ≤ p.caplen + 12)
    (hle : o ≤ p.caplen) (hm : 8 * (4294967296 - o) + 3 < m) : Falls p m (greIp s ethType o) := by
  simp only [Small] at heth
  simp only [greIp, falls_gotoIp, falls_goto, rank, toNat_u16, LabelNear, Small, Nat.reducePow, and_true]
  omega

theorem falls_erspan {o : Nat} (hle : o + 14 ≤ p.caplen) (hm : 8 * (4294967296 - o) < m) :
    Falls p m (erspan p s o) := by
  simp only [erspan, falls_assign, falls_bind, lossless_short, falls_gotoIp, falls_goto, rank, toNat_u16, LabelNear,
    Small, Nat.reducePow, and_true]
  omega

/-- Into the Ethernet frame that starts at `o`. -/
theorem falls_restart {o : Nat} (hip : Small p → s.ipOffset.toNat ≤ p.caplen + 12) (hle : o ≤ p.caplen + 12)
    (hm : 8 * (4294967296 - o) + 4 < m) : Falls p m (gotoEth s o) := by
  simp only [Small] at hip
  simp only [falls_gotoEth, falls_goto, rank, toNat_u16, LabelNear, Small, Nat.reducePow, and_true]
  omega

theorem falls_capwap {u : Udp4} (hm : 0 < m) (hip : Small p → s.ipOffset.toNat ≤ p.caplen + 12)
    (heth : Small p → s.ethOffset.toNat ≤ p.caplen + 12) (hu : u.ipLen.toNat ≤ 60) : Falls p m (goto (.capwap u) s) :=
  (falls_goto _).mpr ⟨hm, fun hp => ⟨hip hp, heth hp, hu⟩⟩

theorem falls_gre4 {ipLen : Nat} (heth : Small p → s.ethOffset.toNat ≤ p.caplen + 12)
    (h4 : s.ipOffset.toNat + 20 ≤ p.caplen) (hm : 8 * (4294967296 - s.ipOffset.toNat) ≤ m) :
    Falls p m (gre4 i p s ipLen) := by
  have hlt := s.ipOffset.toNat_lt
  simp only [gre4, falls_ite, falls_bind, lossless_short, falls_deliver, implies_true, and_true]
  refine ⟨fun h => ?_, fun _ => ⟨fun h => ?_, fun _ => ⟨fun h => ?_, fun _ => ⟨fun h => ?_, fun _ =>
    ⟨fun h => ?_, fun _ h => ?_⟩⟩⟩⟩⟩
  · exact falls_restart (by omega) (by omega) (by omega)
  · exact falls_restart (by omega) (by omega) (by omega)
  · exact falls_greIp heth (by omega) (by omega)
  · exact falls_greIp heth (by omega) (by omega)
  · exact falls_erspan (by omega) (by omega)
  · exact falls_erspan (by omega) (by omega)

theorem gtpOptions_le (flags : UInt8) : gtpOptions flags ≤ 13 := by
  unfold gtpOptions
  split <;> split <;> split <;> omega

theorem falls_gtp {u : Udp4} {o : Nat} (heth : Small p → s.ethOffset.toNat ≤ p.caplen + 12)
    (hip : Small p → s.ipOffset.toNat ≤ p.caplen + 12) (hu : u.ipLen.toNat ≤ 60) (hm : 0 < m) :
    Falls p m (gtp i p s u o) := by
  simp only [gtp, falls_ite, falls_bind, falls_assign, lossless_byte, falls_countAndFinish,
    falls_capwap hm hip heth hu, implies_true, true_and, and_true]
  refine fun hin _ => ⟨fun hp => ?_, fun _ hlt _ => falls_capwap hm (fun _ => ?_) heth hu⟩
  · have hopt := gtpOptions_le (p.byte o).out
    simp only [Small] at hp
    omega
  · simp only
    omega

theorem falls_l2tp {o : Nat} : Falls p m (l2tp i p s o) := by
  simp only [l2tp, pppPayload, falls_ite, falls_bind, lossless_byte, lossless_short, falls_countAndFinish,
    falls_deliver, implies_true, and_true]

theorem falls_udp4 {ipLen : Nat} (heth : Small p → s.ethOffset.toNat ≤ p.caplen + 12)
    (h4 : s.ipOffset.toNat + 20 ≤ p.caplen) (hlen : ipLen ≤ 60) (hm : 8 * (4294967296 - s.ipOffset.toNat) + 1 < m) :
    Falls p m (udp4 i p s ipLen) := by
  have hlt := s.ipOffset.toNat_lt
  have hu : (u16 ipLen).toNat ≤ 60 := by rw [toNat_u16]; omega
  simp only [udp4, falls_ite, falls_bind, lossless_short, falls_countAndFinish, falls_l2tp, implies_true, true_and]
  refine fun hlt => ⟨fun _ => falls_gtp heth (by omega) hu (by omega), fun _ => ⟨fun _ => ?_, fun _ _ => ⟨fun _ => ?_, fun _ => ⟨fun _ => ?_, fun _ => ?_⟩⟩⟩⟩
  · exact falls_restart (by omega) (by omega) (by omega)
  · exact (falls_goto _).mpr ⟨hm, fun hp => ⟨by omega, heth hp, hu⟩⟩
  · exact falls_restart (by omega) (by omega) (by omega)
  · exact falls_capwap (by omega) (by omega) heth hu

theorem falls_ipv4 (heth : Small p → s.ethOffset.toNat ≤ p.caplen + 12)
    (hm : 8 * (4294967296 - s.ipOffset.toNat) + 1 < m) : Falls p m (ipv4 i p s) := by
  have hlt := s.ipOffset.toNat_lt
  simp only [ipv4, falls_ite, falls_bind, lossless_byte, lossless_short, falls_countAndFinish, falls_deliver,
    falls_finish, implies_true, true_and, and_true]
  refine fun h4 hh => ⟨fun h => ?_, fun _ => ⟨fun h => ?_, fun _ => ⟨fun h => ?_, fun _ h => ?_⟩⟩⟩
  · exact falls_gre4 heth h4 (by omega)
  · exact falls_greIp heth (by omega) (by omega)
  · exact falls_udp4 heth h4 (headerLen_le _) hm
  · have hlen : 0 < headerLen (p.byte s.ipOffset.toNat).out := Nat.pos_of_ne_zero fun h0 => hh (.inl h0)
    have hle := headerLen_le (p.byte s.ipOffset.toNat).out
    simp only [Small] at heth
    simp only [falls_gotoIp, falls_goto, rank, toNat_u16, LabelNear, Small, Nat.reducePow, and_true]
    omega

theorem falls_gre6 {ipv6Shift : Nat} (heth : Small p → s.ethOffset.toNat ≤ p.caplen + 12)
    (hm : 8 * (4294967296 - s.ipOffset.toNat) ≤ m) : Falls p m (gre6 i p s ipv6Shift) := by
  have hlt := s.ipOffset.toNat_lt
  simp only [gre6, falls_ite, falls_bind, lossless_short, falls_deliver, implies_true, and_true]
  refine ⟨fun h => ?_, fun _ => ⟨fun h => ?_, fun _ h => ?_⟩⟩
  · exact falls_greIp heth (by omega) (by omega)
  · exact falls_greIp heth (by omega) (by omega)
  · exact falls_erspan (by omega) (by omega)

theorem falls_ipv6 (heth : Small p → s.ethOffset.toNat ≤ p.caplen + 12)
    (hm : 8 * (4294967296 - s.ipOffset.toNat) + 1 < m) : Falls p m (ipv6 i p s) := by
  have hlt := s.ipOffset.toNat_lt
  have htunnels : ∀ l4Proto shift, s.ipOffset.toNat + 40 ≤ p.caplen → Falls p m (tunnels6 i p s l4Proto shift) := by
    intro l4Proto shift h6
    simp only [tunnels6, udp6, falls_ite, falls_bind, lossless_short, falls_countAndFinish, falls_deliver, implies_true,
      true_and, and_true]
    refine ⟨fun h => falls_gre6 heth (by omega), fun _ => ⟨fun _ hlt _ => ?_, fun _ _ => ?_⟩⟩
    · simp only [Small] at heth
      simp only [falls_goto, rank, LabelNear, toNat_u16, Small]
      omega
    · exact falls_greIp heth (by omega) (by omega)
  simp only [ipv6, falls_ite, falls_bind, lossless_byte, falls_countAndFinish, falls_finish, implies_true, true_and,
    and_true]
  exact fun h6 _ => ⟨fun _ _ => htunnels _ _ h6, fun _ => htunnels _ _ h6⟩

theorem falls_pppoe (heth : Small p → s.ethOffset.toNat ≤ p.caplen + 12)
    (hip : Small p → s.ipOffset.toNat ≤ p.caplen + 12) (hm : 8 * (4294967296 - s.ipOffset.toNat) + 1 < m) :
    Falls p m (pppoe i p s) := by
  have hlt := s.ipOffset.toNat_lt
  simp only [Small] at heth hip
  simp only [pppoe, falls_assign, falls_ite, falls_bind, lossless_byte, falls_gotoIp, falls_goto, falls_countAndFinish,
    falls_finish, rank, toNat_u16, LabelNear, Small, Nat.reducePow, implies_true, and_true]
  refine ⟨by omega, fun hfit hin => ⟨fun _ => ?_, fun _ _ => ?_⟩⟩ <;> split <;> omega

theorem lossless_hSource (e : Ethernet) : Lossless (hSource i p e) := by
  cases e with
  | dummy => exact lossless_pure _
  | simulated => exact lossless_pure _
  | «at» o => exact lossless_mac _

theorem lossless_hDest (e : Ethernet) : Lossless (hDest i p e) := by
  cases e with
  | dummy => exact lossless_pure _
  | simulated => exact lossless_pure _
  | «at» o => exact lossless_mac _

theorem falls_nonIp : Falls p m (nonIp i p s) := by
  unfold nonIp
  split
  · exact falls_countAndFinish ..
  · simp only [falls_bind, falls_ite, lossless_hSource, lossless_hDest, lossless_short, lossless_mac, lossless_word,
      falls_countAndFinish, implies_true, and_true]

theorem lossless_direction : Lossless (direction i p s) := by
  unfold direction
  split
  · exact lossless_pure _
  · simp only [lossless_ite, lossless_bind, lossless_hSource, lossless_hDest, lossless_pure, implies_true, and_self]

theorem falls_switchEthType (hn : Small p → Near p ⟨.switchEthType, s⟩) :
    Falls p (rank ⟨.switchEthType, s⟩) (switchEthType i p s) := by
  have hm : 8 * (4294967296 - s.ipOffset.toNat) + 1 < rank ⟨.switchEthType, s⟩ := Nat.lt_succ_self _
  have heth : Small p → s.ethOffset.toNat ≤ p.caplen + 12 := fun hp => (hn hp).eth
  have hip : Small p → s.ipOffset.toNat ≤ p.caplen + 12 := fun hp => (hn hp).ip
  simp only [switchEthType, falls_bind, lossless_direction, falls_ite, falls_nonIp, implies_true, and_true]
  exact ⟨fun _ => falls_pppoe heth hip hm, fun _ => ⟨fun _ => falls_ipv4 heth hm, fun _ _ => falls_ipv6 heth hm⟩⟩

theorem falls_tzsp {u : Udp4} (hn : Small p → Near p ⟨.tzsp u, s⟩) :
    Falls p (rank ⟨.tzsp u, s⟩) (tzsp p s u) := by
  have heth : Small p → s.ethOffset.toNat ≤ p.caplen + 12 := fun hp => (hn hp).eth
  have hip : Small p → s.ipOffset.toNat ≤ p.caplen + 12 := fun hp => (hn hp).ip
  have hu : Small p → u.ipLen.toNat ≤ 60 := fun hp => (hn hp).label
  have hlt := s.ipOffset.toNat_lt
  have hlt' := u.ipLen.toNat_lt
  simp only [Small] at heth hip hu
  simp only [tzsp, falls_bind, lossless_byte, lossless_short, falls_ite, falls_finish, falls_goto, rank, LabelNear, Small,
    UInt32.toNat_ofNat', implies_true, true_and]
  omega

theorem falls_tzspAdvance {u : Udp4} {o : UInt32} {len : Nat} {stop : Bool} (hpos : 0 < len) (hle : len ≤ 257)
    (hn : Small p → Near p ⟨.tzspTag u o, s⟩) : Falls p (rank ⟨.tzspTag u o, s⟩) (tzspAdvance i p s u o len stop) := by
  have heth : Small p → s.ethOffset.toNat ≤ p.caplen + 12 := fun hp => (hn hp).eth
  have hip : Small p → s.ipOffset.toNat ≤ p.caplen + 12 := fun hp => (hn hp).ip
  have hlabel : Small p → u.ipLen.toNat ≤ 60 ∧ o.toNat ≤ p.caplen := fun hp => (hn hp).label
  have hlt := o.toNat_lt
  simp only [Small] at heth hip hlabel
  simp only [tzspAdvance, falls_assign, falls_ite, falls_countAndFinish, falls_gotoEth, falls_goto, rank, LabelNear,
    Small, UInt32.toNat_ofNat', toNat_u16, Nat.reducePow, implies_true, true_and, and_true]
  omega

theorem falls_tzspTag {u : Udp4} {o : UInt32} (hn : Small p → Near p ⟨.tzspTag u o, s⟩) :
    Falls p (rank ⟨.tzspTag u o, s⟩) (tzspTag i p s u o) := by
  have hlt := o.toNat_lt
  have hone : ∀ stop, Falls p (rank ⟨.tzspTag u o, s⟩) (tzspAdvance i p s u o 1 stop) :=
    fun stop => falls_tzspAdvance (by decide) (by decide) hn
  have hlen : ∀ b : UInt8, Falls p (rank ⟨.tzspTag u o, s⟩) (tzspAdvance i p s u o (2 + b.toNat) false) := by
    intro b
    have := b.toNat_lt
    exact falls_tzspAdvance (by omega) (by omega) hn
  simp only [tzspTag, falls_bind, lossless_byte, falls_ite, falls_finish, hone, hlen, falls_goto, implies_true, true_and]
  refine fun _ => ⟨?_, fun hp => ⟨(hn hp).ip, (hn hp).eth, (hn hp).label.1⟩⟩
  simp only [rank]
  omega

theorem falls_capwapHeader {b : Bool} {o : UInt16} : Falls p m (capwapHeader i p s b o) := by
  simp only [capwapHeader, capwapInner, falls_bind, lossless_byte, lossless_short, falls_ite, falls_countAndFinish,
    falls_deliver, implies_true, and_true]

theorem falls_onward {c : Conf} (hn : Small p → Near p c) (hl : c.label ≠ .datalinkCheck) :
    Falls p (rank c) (turn i p c) := by
  obtain ⟨label, s⟩ := c
  cases label with
  | datalinkCheck => exact absurd rfl hl
  | decodePacketEth => exact falls_decodePacketEth hn
  | switchEthType => exact falls_switchEthType hn
  | tzsp u => exact falls_tzsp hn
  | tzspTag u o => exact falls_tzspTag hn
  | capwap u =>
    simp only [turn, capwap, falls_ite, falls_countAndFinish, falls_capwapHeader, falls_deliver, implies_true, and_true]
  | capwap6 ipv6Shift =>
    simp only [turn, capwap6, falls_ite, falls_capwapHeader, falls_deliver, implies_true, and_true]

/-- Some number that a turn falls below. -/
theorem falls_some (i : Iface) {c : Conf} (hn : Small p → Near p c) : ∃ m, Falls p m (turn i p c) := by
  obtain ⟨label, s⟩ := c
  by_cases hl : label = .datalinkCheck
  · subst hl
    exact ⟨_, falls_datalinkCheck hn (.inr (Nat.le_refl _))⟩
  · exact ⟨_, falls_onward hn hl⟩

/-- Where 16 bits suffice, every offset fits its variable. -/
theorem lossless_turn (hp : Small p) {c : Conf} (hn : Near p c) : Lossless (turn i p c) := by
  obtain ⟨m, hf⟩ := falls_some i fun _ => hn
  exact (hf.near hp).1

theorem near_leads {c c' : Conf} (hp : Small p) (hn : Near p c) (hl : Leads (turn i p) c c') : Near p c' := by
  obtain ⟨m, hf⟩ := falls_some i fun _ => hn
  have hy := (hf.near hp).2
  unfold Yields at hy
  rwa [show (turn i p c).out = .inl c' from hl] at hy

/-- A turn whose offsets fit moves on, but for a restart that the datalink ignores. -/
theorem rank_leads {c c' : Conf} (hn : Small p → Near p c) (hw : Lossless (turn i p c))
    (he : c.label = .datalinkCheck → HonoursEthOffset p ∨ c.st.ethOffset.toNat = 0) (hl : Leads (turn i p) c c') :
    rank c' < rank c := by
  have hf : Falls p (rank c) (turn i p c) := by
    obtain ⟨label, s⟩ := c
    by_cases hlabel : label = .datalinkCheck
    · subst hlabel
      refine falls_datalinkCheck hn ((he rfl).imp (fun he => ⟨he, Nat.le_refl _⟩) fun h0 => ?_)
      simp only at h0
      simp only [rank, h0, Nat.sub_zero, Nat.le_refl]
    · exact falls_onward hn hlabel
  have hy := hf.below hw
  unfold Yields at hy
  rwa [show (turn i p c).out = .inl c' from hl] at hy

theorem near_start (p : Capture) (ethType : UInt16) (ingress : Bool) : Near p (start ethType ingress) :=
  ⟨Nat.zero_le _, Nat.zero_le _, trivial⟩

end

end Ntopng.Dissect
