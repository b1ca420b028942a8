/-
  Ntopng.Flows.TcpCounters — how often a flow counts as a flow with a SYN, a handshake, a RST
  or a FIN (`Flow::updateTcpFlags`, src/Flow.cpp).

  Proved: in every run a flow counts at most once for its SYN, its handshake and its RST, each
  only after it has seen them (`counted_once`). Its FIN is also counted by `countFinAck`, for
  every packet with a FIN or an ACK until both were seen, so the four laws hold together
  exactly for the flows without any FIN and ACK (`counters_law_iff`).
-/

import Mathlib
import Ntopng.Flows.TcpFlags

namespace Ntopng.Flows.TcpFlags

open Ntopng.Lib.Run
open Ntopng.Flows.Direction (IPPROTO_TCP TH_SYN TH_ACK TCP_3WH_MASK)

/-! ## Flags -/

theorem isTCPFlagSet_or (a b flag : UInt8) :
    isTCPFlagSet (a ||| b) flag = (isTCPFlagSet a flag || isTCPFlagSet b flag) := by
  have hor : (a ||| b) &&& flag = (a &&& flag) ||| (b &&& flag) := by
    apply UInt8.toBitVec_inj.mp
    exact BitVec.and_or_distrib_right ..
  unfold isTCPFlagSet
  rw [hor, Bool.eq_iff_iff]
  simp only [bne_iff_ne, ne_eq, Bool.or_eq_true, UInt8.or_eq_zero_iff]
  exact not_and_or

@[simp] theorem isTCPFlagSet_zero (flag : UInt8) : isTCPFlagSet 0 flag = false := by
  simp [isTCPFlagSet]

theorem and_single {flag : UInt8} (h : flag ∈ [TH_FIN, TH_SYN, TH_RST, TH_ACK]) (flags : UInt8) :
    flags &&& flag = 0 ∨ flags &&& flag = flag := by
  have hbits : ∀ f ∈ [TH_FIN, TH_SYN, TH_RST, TH_ACK].map UInt8.toBitVec,
      ∀ x : BitVec 8, x &&& f = 0 ∨ x &&& f = f := by
    decide
  rcases hbits flag.toBitVec (List.mem_map_of_mem h) flags.toBitVec with h | h
  · exact Or.inl (UInt8.toBitVec_inj.mp h)
  · exact Or.inr (UInt8.toBitVec_inj.mp h)

/-- For a single bit, not all of it is none of it. -/
theorem and_ne_single {flag : UInt8} (h : flag ∈ [TH_FIN, TH_SYN, TH_RST, TH_ACK]) (flags : UInt8) :
    (flags &&& flag != flag) = !isTCPFlagSet flags flag := by
  have hne : flag ≠ 0 := by
    intro h0
    subst h0
    exact absurd h (by decide)
  unfold isTCPFlagSet
  rcases and_single h flags with h0 | h1
  · simp [h0, Ne.symm hne]
  · simp [h1, hne]

namespace State

variable (s : State) (time : Timeval) (flags : UInt8) (src2dst : Bool)

/-! ## One packet -/

/-- The counters change neither the flags nor the handshake. -/
structure SameFlow (s t : State) : Prop where
  conn : t.conn = s.conn
  twhOver : t.twhOver = s.twhOver
  synTime : t.synTime = s.synTime
  synAckTime : t.synAckTime = s.synAckTime
  ackTime : t.ackTime = s.ackTime

theorem SameFlow.trans {s t u : State} (h : SameFlow s t) (h' : SameFlow t u) : SameFlow s u where
  conn := h'.conn.trans h.conn
  twhOver := h'.twhOver.trans h.twhOver
  synTime := h'.synTime.trans h.synTime
  synAckTime := h'.synAckTime.trans h.synAckTime
  ackTime := h'.ackTime.trans h.ackTime

theorem countPacket_same : SameFlow s (s.countPacket flags src2dst) ∧
    (s.countPacket flags src2dst).tcpFlowStats = s.tcpFlowStats := by
  unfold countPacket
  split
  · exact ⟨⟨rfl, rfl, rfl, rfl, rfl⟩, rfl⟩
  · exact ⟨⟨rfl, rfl, rfl, rfl, rfl⟩, rfl⟩

theorem tell_same (a : AlertsCounter) : SameFlow s (s.tell time src2dst a) ∧
    (s.tell time src2dst a).tcpFlowStats = s.tcpFlowStats :=
  ⟨⟨rfl, rfl, rfl, rfl, rfl⟩, rfl⟩

theorem tellHandshake_same : SameFlow s (s.tellHandshake time flags src2dst) ∧
    (s.tellHandshake time flags src2dst).tcpFlowStats = s.tcpFlowStats := by
  unfold tellHandshake
  dsimp only
  split <;> split <;> exact ⟨⟨rfl, rfl, rfl, rfl, rfl⟩, rfl⟩

/-- The flag comes with this packet and was not seen before. -/
def fresh (flag : UInt8) : Bool := isTCPFlagSet flags flag && !isTCPFlagSet s.conn.seen flag

/-- The test of `countFinAck`. -/
def finAckFires : Bool :=
  flags &&& (TH_FIN ||| TH_ACK) != 0 && s.conn.seen &&& (TH_FIN ||| TH_ACK) != TH_FIN ||| TH_ACK

theorem fresh_eq (flag : UInt8) (h : flag ∈ [TH_FIN, TH_SYN, TH_RST, TH_ACK]) :
    (flags &&& flag != 0 && s.conn.seen &&& flag != flag) = s.fresh flags flag := by
  rw [and_ne_single h]
  rfl

theorem countSyn_spec : SameFlow s (s.countSyn flags) ∧
    (s.countSyn flags).tcpFlowStats = if s.fresh flags TH_SYN then s.tcpFlowStats.incSyn else s.tcpFlowStats := by
  unfold countSyn
  rw [fresh_eq s flags TH_SYN (by decide)]
  split
  · exact ⟨⟨rfl, rfl, rfl, rfl, rfl⟩, rfl⟩
  · exact ⟨⟨rfl, rfl, rfl, rfl, rfl⟩, rfl⟩

theorem countReset_spec : SameFlow s (s.countReset time flags src2dst) ∧
    (s.countReset time flags src2dst).tcpFlowStats =
      if s.fresh flags TH_RST then s.tcpFlowStats.incReset else s.tcpFlowStats := by
  unfold countReset
  rw [fresh_eq s flags TH_RST (by decide)]
  dsimp only
  split
  · split
    · exact ⟨⟨rfl, rfl, rfl, rfl, rfl⟩, rfl⟩
    · exact ⟨⟨rfl, rfl, rfl, rfl, rfl⟩, rfl⟩
  · exact ⟨⟨rfl, rfl, rfl, rfl, rfl⟩, rfl⟩

theorem countFin_spec : SameFlow s (s.countFin time flags src2dst) ∧
    (s.countFin time flags src2dst).tcpFlowStats =
      if s.fresh flags TH_FIN then s.tcpFlowStats.incFin else s.tcpFlowStats := by
  unfold countFin
  rw [fresh_eq s flags TH_FIN (by decide)]
  split
  · exact ⟨⟨rfl, rfl, rfl, rfl, rfl⟩, rfl⟩
  · exact ⟨⟨rfl, rfl, rfl, rfl, rfl⟩, rfl⟩

theorem countFinAck_spec : SameFlow s (s.countFinAck time flags src2dst) ∧
    (s.countFinAck time flags src2dst).tcpFlowStats =
      if s.finAckFires flags then s.tcpFlowStats.incFin else s.tcpFlowStats := by
  unfold countFinAck finAckFires
  split
  · exact ⟨⟨rfl, rfl, rfl, rfl, rfl⟩, rfl⟩
  · exact ⟨⟨rfl, rfl, rfl, rfl, rfl⟩, rfl⟩

theorem SameFlow.fresh {s t : State} (h : SameFlow s t) (flags flag : UInt8) : t.fresh flags flag = s.fresh flags flag := by
  unfold State.fresh
  rw [h.conn]

theorem SameFlow.finAckFires {s t : State} (h : SameFlow s t) (flags : UInt8) :
    t.finAckFires flags = s.finAckFires flags := by
  unfold State.finAckFires
  rw [h.conn]

/-- What a packet adds to the counters before it is told apart in the handshake. -/
theorem count_spec : SameFlow s (s.count time flags src2dst) ∧
    (s.count time flags src2dst).tcpFlowStats =
      { numSynFlows := s.tcpFlowStats.numSynFlows + (s.fresh flags TH_SYN).toNat
        numEstablishedFlows := s.tcpFlowStats.numEstablishedFlows
        numResetFlows := s.tcpFlowStats.numResetFlows + (s.fresh flags TH_RST).toNat
        numFinFlows := s.tcpFlowStats.numFinFlows + (s.fresh flags TH_FIN).toNat + (s.finAckFires flags).toNat } := by
  obtain ⟨h1, e1⟩ := s.countPacket_same flags src2dst
  obtain ⟨h2, e2⟩ := (s.countPacket flags src2dst).tellHandshake_same time flags src2dst
  have h2' := h1.trans h2
  obtain ⟨h3, e3⟩ := ((s.countPacket flags src2dst).tellHandshake time flags src2dst).countSyn_spec flags
  rw [h2'.fresh, e2, e1] at e3
  have h3' := h2'.trans h3
  unfold count
  dsimp only
  generalize ((s.countPacket flags src2dst).tellHandshake time flags src2dst).countSyn flags = t3 at e3 h3'
  obtain ⟨h4, e4⟩ := t3.countReset_spec time flags src2dst
  rw [h3'.fresh, e3] at e4
  have h4' := h3'.trans h4
  generalize t3.countReset time flags src2dst = t4 at e4 h4'
  obtain ⟨h5, e5⟩ := t4.countFin_spec time flags src2dst
  rw [h4'.fresh, e4] at e5
  have h5' := h4'.trans h5
  generalize t4.countFin time flags src2dst = t5 at e5 h5'
  obtain ⟨h6, e6⟩ := t5.countFinAck_spec time flags src2dst
  rw [h5'.finAckFires, e5] at e6
  refine ⟨h5'.trans h6, e6.trans ?_⟩
  cases s.fresh flags TH_SYN <;> cases s.fresh flags TH_RST <;> cases s.fresh flags TH_FIN <;>
    cases s.finAckFires flags <;> rfl

@[simp] theorem track_conn : (s.track flags src2dst).conn =
    (s.conn.cumulate flags src2dst).calculateConnectionState false := rfl

/-- The last ACK of the handshake counts, once. -/
def acks : Bool :=
  !s.twhOver && (flags &&& TCP_3WH_MASK == TH_ACK || flags &&& TCP_3WH_MASK == TH_ACK ||| TH_PUSH)
    && s.conn.tcp && s.ackTime.sec == 0 && decide (0 < s.synAckTime.sec)

theorem SameFlow.acks_track {s t : State} (h : SameFlow s t) (flags : UInt8) (src2dst : Bool) :
    (t.track flags src2dst).acks flags = s.acks flags := by
  unfold State.acks State.track
  dsimp only
  rw [h.twhOver, h.ackTime, h.synAckTime, h.conn]
  unfold Conn.calculateConnectionState Conn.cumulate
  cases src2dst <;> rfl

theorem handshake_spec : (s.handshake time flags).conn = s.conn ∧
    (s.handshake time flags).tcpFlowStats =
      if s.acks flags then s.tcpFlowStats.incEstablished else s.tcpFlowStats := by
  unfold handshake acks
  dsimp only
  have hack : (s.observeAck time).conn = s.conn ∧ (s.observeAck time).tcpFlowStats =
      if s.conn.tcp && s.ackTime.sec == 0 && decide (0 < s.synAckTime.sec) then s.tcpFlowStats.incEstablished
      else s.tcpFlowStats := by
    unfold observeAck
    split
    · exact ⟨rfl, rfl⟩
    · exact ⟨rfl, rfl⟩
  by_cases htwh : s.twhOver = true
  · simp [htwh]
  rw [if_neg htwh]
  by_cases hsyn : flags &&& TCP_3WH_MASK = TH_SYN
  · rw [if_pos hsyn, hsyn]
    have hno : (TH_SYN == TH_ACK || TH_SYN == TH_ACK ||| TH_PUSH) = false := by decide
    unfold observeSyn
    simp only [hno, Bool.and_false, Bool.false_and]
    split
    · exact ⟨rfl, rfl⟩
    · exact ⟨rfl, rfl⟩
  rw [if_neg hsyn]
  by_cases hsynack : flags &&& TCP_3WH_MASK = TH_SYN ||| TH_ACK
  · rw [if_pos hsynack, hsynack]
    have hno : (TH_SYN ||| TH_ACK == TH_ACK || TH_SYN ||| TH_ACK == TH_ACK ||| TH_PUSH) = false := by decide
    unfold observeSynAck
    simp only [hno, Bool.and_false, Bool.false_and]
    split
    · exact ⟨rfl, rfl⟩
    · exact ⟨rfl, rfl⟩
  rw [if_neg hsynack]
  by_cases hisAck : flags &&& TCP_3WH_MASK = TH_ACK ∨ flags &&& TCP_3WH_MASK = TH_ACK ||| TH_PUSH
  · have hb : (flags &&& TCP_3WH_MASK == TH_ACK || flags &&& TCP_3WH_MASK == TH_ACK ||| TH_PUSH) = true := by
      simpa using hisAck
    rw [if_pos hisAck, hb]
    simpa [htwh] using hack
  · have hb : (flags &&& TCP_3WH_MASK == TH_ACK || flags &&& TCP_3WH_MASK == TH_ACK ||| TH_PUSH) = false := by
      simpa using hisAck
    rw [if_neg hisAck, hb]
    simp

/-- Each time is taken from the packet of its step of the handshake, the second one only after the first. -/
theorem handshake_times :
    ((s.handshake time flags).synTime = s.synTime ∨ flags &&& TCP_3WH_MASK = TH_SYN) ∧
      ((s.handshake time flags).synAckTime = s.synAckTime ∨
        flags &&& TCP_3WH_MASK = TH_SYN ||| TH_ACK ∧ 0 < s.synTime.sec) := by
  unfold handshake
  dsimp only
  split
  · exact ⟨Or.inl rfl, Or.inl rfl⟩
  split
  · rename_i hsyn
    unfold observeSyn
    split <;> exact ⟨Or.inr hsyn, Or.inl rfl⟩
  split
  · rename_i hsynack
    unfold observeSynAck
    split
    · rename_i hcond
      simp only [Bool.and_eq_true, decide_eq_true_eq] at hcond
      exact ⟨Or.inl rfl, Or.inr ⟨hsynack, hcond.2⟩⟩
    · exact ⟨Or.inl rfl, Or.inl rfl⟩
  split
  · unfold observeAck
    split <;> exact ⟨Or.inl rfl, Or.inl rfl⟩
  · exact ⟨Or.inl rfl, Or.inl rfl⟩

theorem handshake_twhOver : (s.twhOver = true → (s.handshake time flags).twhOver = true) ∧
    (s.acks flags = true → (s.handshake time flags).twhOver = true) := by
  constructor
  · intro h
    unfold handshake
    rw [if_pos h]
    exact h
  · intro h
    unfold acks at h
    simp only [Bool.and_eq_true, Bool.or_eq_true, beq_iff_eq, Bool.not_eq_true', decide_eq_true_eq] at h
    obtain ⟨⟨⟨⟨hover, hack⟩, -⟩, -⟩, -⟩ := h
    have hsyn : flags &&& TCP_3WH_MASK ≠ TH_SYN := by
      rcases hack with h | h <;> rw [h] <;> decide
    have hsynack : flags &&& TCP_3WH_MASK ≠ TH_SYN ||| TH_ACK := by
      rcases hack with h | h <;> rw [h] <;> decide
    unfold handshake
    dsimp only
    rw [if_neg (by simp [hover]), if_neg hsyn, if_neg hsynack, if_pos hack]

end State

/-! ## Flags of a run -/

theorem Conn.seen_cumulate (c : Conn) (flags : UInt8) (src2dst : Bool) (flag : UInt8) :
    isTCPFlagSet (c.cumulate flags src2dst).seen flag =
      (isTCPFlagSet c.seen flag || isTCPFlagSet flags flag) := by
  unfold Conn.cumulate Conn.seen
  cases src2dst
  · simp only [Bool.false_eq_true, if_false, isTCPFlagSet_or, Bool.or_assoc]
  · simp only [if_true, isTCPFlagSet_or, Bool.or_assoc, Bool.or_comm (isTCPFlagSet flags flag)]

theorem Conn.seen_swap (c : Conn) (flag : UInt8) : isTCPFlagSet c.swap.seen flag = isTCPFlagSet c.seen flag := by
  simp only [Conn.swap, Conn.seen, isTCPFlagSet_or, Bool.or_comm]

def Ev.carries : Ev → UInt8 → Bool
  | .packet _ flags _, flag => isTCPFlagSet flags flag
  | .swap, _ => false

/-- Without ECE and CWR. -/
def Ev.flags3wh : Ev → UInt8
  | .packet _ flags _ => flags &&& TCP_3WH_MASK
  | .swap => 0

def Ev.isSyn (e : Ev) : Prop := e.flags3wh = TH_SYN

def Ev.isSynAck (e : Ev) : Prop := e.flags3wh = TH_SYN ||| TH_ACK

def Ev.isAck (e : Ev) : Prop := e.flags3wh = TH_ACK ∨ e.flags3wh = TH_ACK ||| TH_PUSH

theorem swap_same (s : State) : s.swap.conn = s.conn.swap ∧ s.swap.twhOver = s.twhOver ∧ s.swap.synTime = s.synTime ∧
    s.swap.synAckTime = s.synAckTime ∧ s.swap.tcpFlowStats = s.tcpFlowStats := by
  unfold State.swap
  dsimp only
  split <;> exact ⟨rfl, rfl, rfl, rfl, rfl⟩

theorem seen_step (s : State) (e : Ev) (flag : UInt8) :
    isTCPFlagSet (step s e).conn.seen flag = (isTCPFlagSet s.conn.seen flag || e.carries flag) := by
  cases e with
  | packet time flags src2dst =>
    unfold step State.updateTcpFlags
    dsimp only
    rw [(State.handshake_spec ..).1, State.track_conn, (s.count_spec time flags src2dst).1.conn]
    exact Conn.seen_cumulate ..
  | swap =>
    unfold step
    dsimp only
    rw [(swap_same s).1, Conn.seen_swap]
    exact (Bool.or_false _).symm

theorem seen_after (tcp : Bool) (es : List Ev) (flag : UInt8) :
    isTCPFlagSet (after tcp es).conn.seen flag = es.any (·.carries flag) := by
  unfold after
  apply run_history step (P := fun es s => isTCPFlagSet s.conn.seen flag = es.any (·.carries flag))
  · show isTCPFlagSet (0 ||| 0) flag = false
    rw [isTCPFlagSet_or, isTCPFlagSet_zero, Bool.or_false]
  · intro es s e ih
    rw [seen_step, ih, List.any_append]
    simp

/-! ## The counters of a run -/

/-- What a packet adds to the counters, the last ACK of the handshake included. -/
theorem stats_step (s : State) (time : Timeval) (flags : UInt8) (src2dst : Bool) :
    (step s (.packet time flags src2dst)).tcpFlowStats =
      { numSynFlows := s.tcpFlowStats.numSynFlows + (s.fresh flags TH_SYN).toNat
        numEstablishedFlows := s.tcpFlowStats.numEstablishedFlows + (s.acks flags).toNat
        numResetFlows := s.tcpFlowStats.numResetFlows + (s.fresh flags TH_RST).toNat
        numFinFlows := s.tcpFlowStats.numFinFlows + (s.fresh flags TH_FIN).toNat + (s.finAckFires flags).toNat } := by
  obtain ⟨hsame, hstats⟩ := s.count_spec time flags src2dst
  unfold step State.updateTcpFlags
  dsimp only
  rw [(State.handshake_spec ..).2]
  rw [hsame.acks_track]
  have htrack : ((s.count time flags src2dst).track flags src2dst).tcpFlowStats =
      (s.count time flags src2dst).tcpFlowStats := rfl
  rw [htrack, hstats]
  cases s.acks flags <;> rfl

/-- What the counters, the handshake and the packets so far have to do with each other. -/
structure Counted (es : List Ev) (s : State) : Prop where
  syn : s.tcpFlowStats.numSynFlows = (isTCPFlagSet s.conn.seen TH_SYN).toNat
  reset : s.tcpFlowStats.numResetFlows = (isTCPFlagSet s.conn.seen TH_RST).toNat
  established : s.tcpFlowStats.numEstablishedFlows ≤ s.twhOver.toNat
  synTime : 0 < s.synTime.sec → ∃ a, [a].Sublist es ∧ a.isSyn
  synAckTime : 0 < s.synAckTime.sec → ∃ a b, [a, b].Sublist es ∧ a.isSyn ∧ b.isSynAck
  inOrder : 0 < s.tcpFlowStats.numEstablishedFlows →
    ∃ a b c, [a, b, c].Sublist es ∧ a.isSyn ∧ b.isSynAck ∧ c.isAck

theorem counted_init (tcp : Bool) : Counted [] (State.init tcp) where
  syn := by cases tcp <;> decide
  reset := by cases tcp <;> decide
  established := Nat.zero_le _
  synTime h := absurd h (lt_irrefl (0 : Int))
  synAckTime h := absurd h (lt_irrefl (0 : Int))
  inOrder h := absurd h (lt_irrefl 0)

theorem fresh_counts {n : Nat} {s : State} {flags flag : UInt8} (h : n = (isTCPFlagSet s.conn.seen flag).toNat) :
    n + (s.fresh flags flag).toNat = (isTCPFlagSet s.conn.seen flag || isTCPFlagSet flags flag).toNat := by
  rw [h]
  unfold State.fresh
  cases isTCPFlagSet s.conn.seen flag <;> cases isTCPFlagSet flags flag <;> rfl

theorem sublist_snoc {as es : List Ev} (h : as.Sublist es) (e : Ev) : as.Sublist (es ++ [e]) :=
  h.trans (List.sublist_append_left ..)

theorem counted_packet {es : List Ev} {s : State} (h : Counted es s) (time : Timeval) (flags : UInt8) (src2dst : Bool) :
    Counted (es ++ [.packet time flags src2dst]) (step s (.packet time flags src2dst)) := by
  have hstats := stats_step s time flags src2dst
  obtain ⟨hsame, -⟩ := s.count_spec time flags src2dst
  have hacks : s.acks flags = true →
      (Ev.packet time flags src2dst).isAck ∧ 0 < s.synAckTime.sec ∧ s.twhOver = false ∧
        (step s (.packet time flags src2dst)).twhOver = true := by
    intro hacks
    have hover : (step s (.packet time flags src2dst)).twhOver = true := by
      apply (State.handshake_twhOver _ time flags).2
      rw [hsame.acks_track]
      exact hacks
    unfold State.acks at hacks
    simp only [Bool.and_eq_true, Bool.or_eq_true, beq_iff_eq, Bool.not_eq_true', decide_eq_true_eq] at hacks
    exact ⟨hacks.1.1.1.2, hacks.2, hacks.1.1.1.1, hover⟩
  have htwh : s.twhOver = true → (step s (.packet time flags src2dst)).twhOver = true := by
    intro ho
    apply (State.handshake_twhOver _ time flags).1
    exact hsame.twhOver.trans ho
  have htimes := State.handshake_times ((s.count time flags src2dst).track flags src2dst) time flags
  constructor
  · rw [seen_step, hstats]
    exact fresh_counts h.syn
  · rw [seen_step, hstats]
    exact fresh_counts h.reset
  · rw [hstats]
    dsimp only
    have hle := h.established
    cases hack : s.acks flags with
    | false =>
      cases ho : s.twhOver with
      | false =>
        rw [ho] at hle
        exact le_trans hle (Nat.zero_le _)
      | true =>
        rw [htwh ho]
        rw [ho] at hle
        exact hle
    | true =>
      obtain ⟨-, -, ho, ho'⟩ := hacks hack
      rw [ho']
      rw [ho] at hle
      exact Nat.succ_le_succ hle
  · intro hpos
    rcases htimes.1 with heq | hsyn
    · have hold : 0 < s.synTime.sec := by
        rw [← hsame.synTime]
        exact heq ▸ hpos
      obtain ⟨a, ha, hs⟩ := h.synTime hold
      exact ⟨a, sublist_snoc ha _, hs⟩
    · exact ⟨.packet time flags src2dst, List.sublist_append_right .., hsyn⟩
  · intro hpos
    rcases htimes.2 with heq | ⟨hsynack, hold⟩
    · have hold : 0 < s.synAckTime.sec := by
        rw [← hsame.synAckTime]
        exact heq ▸ hpos
      obtain ⟨a, b, hab, hs⟩ := h.synAckTime hold
      exact ⟨a, b, sublist_snoc hab _, hs⟩
    · obtain ⟨a, ha, hs⟩ := h.synTime (hsame.synTime ▸ hold)
      exact ⟨a, .packet time flags src2dst, ha.append (List.Sublist.refl _), hs, hsynack⟩
  · intro hpos
    rw [hstats] at hpos
    dsimp only at hpos
    cases hack : s.acks flags with
    | false =>
      rw [hack] at hpos
      obtain ⟨a, b, c, habc, hs⟩ := h.inOrder hpos
      exact ⟨a, b, c, sublist_snoc habc _, hs⟩
    | true =>
      obtain ⟨hisAck, hold, -, -⟩ := hacks hack
      obtain ⟨a, b, hab, ha, hb⟩ := h.synAckTime hold
      exact ⟨a, b, .packet time flags src2dst, hab.append (List.Sublist.refl [_]), ha, hb, hisAck⟩

theorem counted_swap {es : List Ev} {s : State} (h : Counted es s) : Counted (es ++ [.swap]) (step s .swap) := by
  obtain ⟨hconn, htwh, hsyn, hsynAck, hstats⟩ := swap_same s
  unfold step
  dsimp only
  constructor
  · rw [hstats, hconn, Conn.seen_swap]
    exact h.syn
  · rw [hstats, hconn, Conn.seen_swap]
    exact h.reset
  · rw [hstats, htwh]
    exact h.established
  · rw [hsyn]
    intro hpos
    obtain ⟨a, ha, hs⟩ := h.synTime hpos
    exact ⟨a, sublist_snoc ha _, hs⟩
  · rw [hsynAck]
    intro hpos
    obtain ⟨a, b, hab, hs⟩ := h.synAckTime hpos
    exact ⟨a, b, sublist_snoc hab _, hs⟩
  · rw [hstats]
    intro hpos
    obtain ⟨a, b, c, habc, hs⟩ := h.inOrder hpos
    exact ⟨a, b, c, sublist_snoc habc _, hs⟩

theorem counted_after (tcp : Bool) (es : List Ev) : Counted es (after tcp es) := by
  apply run_history step (P := Counted)
  · exact counted_init tcp
  · intro es s e h
    cases e with
    | packet time flags src2dst => exact counted_packet h time flags src2dst
    | swap => exact counted_swap h

/-! ## At most once -/

/-- The laws of the SYN, of the handshake and of the RST: counted at most once, and only when seen. -/
structure CountedOnce (es : List Ev) (t : TcpFlowStats) : Prop where
  syn : t.numSynFlows ≤ 1
  established : t.numEstablishedFlows ≤ 1
  reset : t.numResetFlows ≤ 1
  reset_seen : 0 < t.numResetFlows → ∃ e ∈ es, e.carries TH_RST
  established_inOrder : 0 < t.numEstablishedFlows →
    ∃ a b c, [a, b, c].Sublist es ∧ a.isSyn ∧ b.isSynAck ∧ c.isAck

/-- The laws of the FIN. -/
structure FinCountedOnce (es : List Ev) (t : TcpFlowStats) : Prop where
  fin : t.numFinFlows ≤ 1
  fin_seen : 0 < t.numFinFlows → ∃ e ∈ es, e.carries TH_FIN

/-- In every state of the run. -/
def Law (tcp : Bool) (es : List Ev) : Prop :=
  ∀ as, as <+: es → CountedOnce as (after tcp as).tcpFlowStats ∧ FinCountedOnce as (after tcp as).tcpFlowStats

theorem counted_once (tcp : Bool) (es : List Ev) : CountedOnce es (after tcp es).tcpFlowStats := by
  have h := counted_after tcp es
  have hreset := h.reset
  rw [seen_after] at hreset
  refine ⟨?_, ?_, ?_, ?_, h.inOrder⟩
  · rw [h.syn]
    exact Bool.toNat_le _
  · exact le_trans h.established (Bool.toNat_le _)
  · rw [hreset]
    exact Bool.toNat_le _
  · intro hpos
    rw [hreset] at hpos
    cases hany : es.any (·.carries TH_RST) with
    | false =>
      rw [hany] at hpos
      cases hpos
    | true => simpa using hany

/-! ## The FIN -/

/-- No packet of the flow carries FIN or ACK. -/
def Quiet (es : List Ev) : Prop := ∀ e ∈ es, e.carries (TH_FIN ||| TH_ACK) = false

theorem carries_fin {e : Ev} (h : e.carries (TH_FIN ||| TH_ACK) = false) : e.carries TH_FIN = false := by
  cases e with
  | swap => rfl
  | packet time flags src2dst =>
    have hzero : flags &&& (TH_FIN ||| TH_ACK) = 0 := by simpa [Ev.carries, isTCPFlagSet] using h
    have hfin : flags &&& TH_FIN = 0 := by
      have hmask : TH_FIN = (TH_FIN ||| TH_ACK) &&& TH_FIN := by decide
      rw [hmask, ← UInt8.and_assoc, hzero]
      decide
    simp [Ev.carries, isTCPFlagSet, hfin]

theorem quiet_fin (tcp : Bool) {es : List Ev} (h : Quiet es) : (after tcp es).tcpFlowStats.numFinFlows = 0 := by
  have hrun : Quiet es → (after tcp es).tcpFlowStats.numFinFlows = 0 := by
    apply run_history step (P := fun es s => Quiet es → s.tcpFlowStats.numFinFlows = 0)
    · intro _
      rfl
    · intro es s e ih hq
      have hes : Quiet es := fun x hx => hq x (List.mem_append_left _ hx)
      have he : e.carries (TH_FIN ||| TH_ACK) = false := hq e (by simp)
      cases e with
      | swap => exact (congrArg (·.numFinFlows) (swap_same s).2.2.2.2).trans (ih hes)
      | packet time flags src2dst =>
        rw [stats_step]
        dsimp only
        have hfin : isTCPFlagSet flags TH_FIN = false := carries_fin he
        have hfinack : (flags &&& (TH_FIN ||| TH_ACK) != 0) = false := he
        unfold State.fresh State.finAckFires
        rw [ih hes, hfin, hfinack]
        rfl
  exact hrun h

/-- The first packet with a FIN or an ACK counts as a FIN already, and twice if it has one. -/
theorem first_fin_or_ack (tcp : Bool) {es : List Ev} {e : Ev} (h : Quiet es)
    (he : e.carries (TH_FIN ||| TH_ACK) = true) :
    (after tcp (es ++ [e])).tcpFlowStats.numFinFlows = (e.carries TH_FIN).toNat + 1 := by
  have hfin := quiet_fin tcp h
  have hseen : ∀ flag, isTCPFlagSet (after tcp es).conn.seen flag = es.any (·.carries flag) := seen_after tcp es
  unfold after at *
  rw [run_snoc]
  cases e with
  | swap => cases he
  | packet time flags src2dst =>
    rw [stats_step]
    dsimp only
    have hnone : isTCPFlagSet (run step (State.init tcp) es).conn.seen (TH_FIN ||| TH_ACK) = false := by
      rw [hseen, List.any_eq_false]
      intro x hx
      rw [h x hx]
      exact Bool.false_ne_true
    have hnofin : isTCPFlagSet (run step (State.init tcp) es).conn.seen TH_FIN = false := by
      rw [hseen, List.any_eq_false]
      intro x hx
      rw [carries_fin (h x hx)]
      exact Bool.false_ne_true
    have hzero : (run step (State.init tcp) es).conn.seen &&& (TH_FIN ||| TH_ACK) = 0 := by
      simpa [isTCPFlagSet] using hnone
    have hfires : (run step (State.init tcp) es).finAckFires flags = true := by
      unfold State.finAckFires
      rw [hzero]
      have hflags : (flags &&& (TH_FIN ||| TH_ACK) != 0) = true := he
      rw [hflags]
      decide
    have hfresh : (run step (State.init tcp) es).fresh flags TH_FIN = isTCPFlagSet flags TH_FIN := by
      unfold State.fresh
      rw [hnofin]
      exact Bool.and_true _
    rw [hfin, hfires, hfresh, Nat.zero_add]
    rfl

/-- The first event that carries some flag. -/
theorem exists_first {es : List Ev} (h : ¬ Quiet es) :
    ∃ as e bs, es = as ++ e :: bs ∧ Quiet as ∧ e.carries (TH_FIN ||| TH_ACK) = true := by
  induction es with
  | nil => exact absurd (fun _ he => by cases he) h
  | cons e es ih =>
    by_cases he : e.carries (TH_FIN ||| TH_ACK) = true
    · exact ⟨[], e, es, rfl, (fun _ hx => by cases hx), he⟩
    have hes : ¬ Quiet es := by
      intro hq
      apply h
      intro x hx
      rcases List.mem_cons.mp hx with rfl | hx
      · exact Bool.eq_false_iff.mpr he
      · exact hq x hx
    obtain ⟨as, e', bs, rfl, has, he'⟩ := ih hes
    refine ⟨e :: as, e', bs, rfl, ?_, he'⟩
    intro x hx
    rcases List.mem_cons.mp hx with rfl | hx
    · exact Bool.eq_false_iff.mpr he
    · exact has x hx

/-- All the laws hold exactly in the runs without FIN and ACK; those of the SYN, of the handshake and of the RST hold
    in every run. -/
theorem counters_law_iff (tcp : Bool) (es : List Ev) :
    (∀ as, as <+: es → CountedOnce as (after tcp as).tcpFlowStats) ∧ (Law tcp es ↔ Quiet es) := by
  refine ⟨fun as _ => counted_once tcp as, ?_, ?_⟩
  · intro hlaw
    by_contra hq
    obtain ⟨as, e, bs, rfl, has, he⟩ := exists_first hq
    have hpre : as ++ [e] <+: as ++ e :: bs := ⟨bs, by simp⟩
    obtain ⟨-, hfin⟩ := hlaw (as ++ [e]) hpre
    have hcount := first_fin_or_ack tcp has he
    have hone := hfin.fin
    rw [hcount] at hone
    have hpos : 0 < (after tcp (as ++ [e])).tcpFlowStats.numFinFlows := by omega
    obtain ⟨x, hx, hxfin⟩ := hfin.fin_seen hpos
    rcases List.mem_append.mp hx with hx | hx
    · rw [carries_fin (has x hx)] at hxfin
      cases hxfin
    · rw [List.mem_singleton.mp hx] at hxfin
      rw [hxfin] at hone
      exact absurd hone (by decide)
  · intro hq as has
    have hqas : Quiet as := fun x hx => hq x (has.subset hx)
    refine ⟨counted_once tcp as, ?_, ?_⟩
    · rw [quiet_fin tcp hqas]
      exact Nat.zero_le _
    · intro hpos
      rw [quiet_fin tcp hqas] at hpos
      cases hpos

/-- The SYN and the SYN-ACK of a handshake: no FIN was sent, and one is counted. -/
theorem not_counters_law : ¬ ∀ tcp es, Law tcp es := by
  intro h
  have hlaw := (h true [.packet ⟨1, 0⟩ TH_SYN true, .packet ⟨1, 20⟩ (TH_SYN ||| TH_ACK) false]
    [.packet ⟨1, 0⟩ TH_SYN true, .packet ⟨1, 20⟩ (TH_SYN ||| TH_ACK) false] (List.prefix_refl _)).2
  obtain ⟨e, he, hfin⟩ := hlaw.fin_seen (by decide)
  simp only [List.mem_cons, List.not_mem_nil, or_false] at he
  rcases he with rfl | rfl
  · exact absurd hfin (by decide)
  · exact absurd hfin (by decide)

end Ntopng.Flows.TcpFlags
