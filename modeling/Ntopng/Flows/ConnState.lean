/-
  Ntopng.Flows.ConnState — how the connection state of a TCP flow moves
  (`Flow::calculateConnectionState`, src/Flow.cpp).

  A packet adds its flags to those of its direction and the state follows from these and from
  the state before. The law: the major class never falls, and once both peers have sent a FIN
  after a handshake the state is SF. The class can fall in two ways: the flags look half open
  although the flow was established or closed (`halfOpen`), or they look open although it was
  closed (`looksOpen`). The second is the way of every flow whose server closes first: S3 does
  not survive the next packet.

  Proved (`conn_law_iff`): the class falls in a run exactly if a packet meets one of the two,
  and the FINs lead to SF, and stay there, exactly if the last of them finds S1, S2, S3 or SF.
-/

import Mathlib
import Ntopng.Flows.TcpCounters

namespace Ntopng.Flows.TcpFlags

open Ntopng.Lib.Run
open Ntopng.Flows.Direction (IPPROTO_TCP TH_SYN TH_ACK TCP_3WH_MASK)

namespace Conn

variable (c : Conn)

/-! ## What the flags look like -/

/-- A SYN without its answer, or a SYN-ACK without its SYN that was reset or ended. -/
def halfOpen : Bool :=
  c.src TH_SYN && !c.dst TH_SYN ||
    !c.src TH_SYN && c.dst TH_SYN && c.dst TH_ACK && (c.dst TH_RST || c.dst TH_FIN)

/-- Flags both ways, no FIN with an ACK from the client and no RST. -/
def looksOpen : Bool :=
  c.src TCP_3WH_MASK && c.dst TCP_3WH_MASK && !(c.src TH_FIN && c.src TH_ACK) && !c.src TH_RST && !c.dst TH_RST

def bothFin : Bool := c.src TH_FIN && c.dst TH_FIN

/-- Where a connection that is neither half open nor without SYN goes. -/
def openState : MinorConnState :=
  if c.currentCState = .s1 then
    if c.bothFin then .sf
    else if c.src TH_FIN then .s2
    else if c.dst TH_FIN then .s3
    else if c.src TH_RST then .rsto
    else if c.dst TH_RST then .rstr
    else .s1
  else if (c.currentCState = .s2 ∨ c.currentCState = .s3) ∧ c.bothFin then .sf
  else if c.looksOpen then .s1
  else c.currentCState

variable {c}

theorem connectionState_noTcp (h : c.tcp = false) (isCumulative : Bool) : c.connectionState isCumulative = .noState := by
  unfold connectionState
  simp [h]

theorem connectionState_halfOpen (hip : c.isTCP = true) (htcp : c.tcp = true) (h : c.halfOpen = true) :
    c.connectionState false ∈ [.rstos0, .sh, .s0, .rej, .rstrh, .shr] := by
  unfold halfOpen at h
  simp only [Bool.or_eq_true, Bool.and_eq_true, Bool.not_eq_true'] at h
  unfold connectionState
  dsimp only
  rw [if_neg (by simp [hip, htcp])]
  rcases h with ⟨hsrc, hdst⟩ | ⟨⟨⟨hsrc, hdst⟩, hack⟩, hend⟩
  · rw [if_pos (by simp [hsrc, hdst])]
    split
    · split
      · decide
      · split <;> decide
    · decide
  · rw [if_neg (by simp [hsrc])]
    by_cases hrst : c.dst TH_RST = true
    · rw [if_pos (by simp [hsrc, hdst, hack, hrst])]
      decide
    · have hfin : c.dst TH_FIN = true := hend.resolve_left hrst
      rw [if_neg (by simp [hrst]), if_pos (by simp [hsrc, hdst, hack, hfin])]
      decide

theorem connectionState_noSyn (hip : c.isTCP = true) (htcp : c.tcp = true) (hsrc : c.src TH_SYN = false)
    (hdst : c.dst TH_SYN = false) : c.connectionState false = .oth := by
  unfold connectionState
  simp [hip, htcp, hsrc, hdst]

theorem connectionState_open (hip : c.isTCP = true) (htcp : c.tcp = true) (hhalf : c.halfOpen = false)
    (hsyn : c.src TH_SYN = true ∨ c.dst TH_SYN = true) : c.connectionState false = c.openState := by
  have hno : ¬ (c.src TH_SYN && !c.dst TH_SYN) = true := by
    intro h
    unfold halfOpen at hhalf
    rw [h] at hhalf
    cases hhalf
  have hend : ∀ b : Bool, (b = c.dst TH_RST ∨ b = c.dst TH_FIN) →
      ¬ (c.dst TH_SYN && c.dst TH_ACK && b && !c.src TH_SYN) = true := by
    intro b hb h
    unfold halfOpen at hhalf
    simp only [Bool.and_eq_true, Bool.not_eq_true'] at h
    rcases hb with rfl | rfl <;> simp [h] at hhalf
  have hsyn' : ¬ (!c.src TH_SYN && !c.dst TH_SYN) = true := by
    rcases hsyn with h | h <;> simp [h]
  have hs1 : c.checkS1ConnState = (c.currentCState == .s1 || c.looksOpen) := by
    unfold checkS1ConnState looksOpen
    rw [if_neg (by simp [htcp])]
  unfold connectionState openState
  dsimp only
  rw [if_neg (by simp [hip, htcp]), if_neg hno, if_neg (hend _ (Or.inl rfl)), if_neg (hend _ (Or.inr rfl)),
    if_neg hsyn', hs1]
  unfold bothFin
  cases c.src TH_FIN <;> cases c.dst TH_FIN <;> cases c.currentCState <;> simp

/-! ## One packet -/

variable (c)

/-- The state after a packet. -/
def packet (flags : UInt8) (src2dst : Bool) : Conn := (c.cumulate flags src2dst).calculateConnectionState false

/-- What every run keeps: only flows with memory for it have a state, and only OTH comes without any SYN. -/
structure Inv : Prop where
  isTCP : c.isTCP = true
  noTcp : c.tcp = false → c.currentCState = .noState
  syn : c.currentCState ≠ .noState → c.currentCState ≠ .oth → c.src TH_SYN = true ∨ c.dst TH_SYN = true

variable {c} {flags : UInt8} {src2dst : Bool}

theorem cumulate_same : (c.cumulate flags src2dst).protocol = c.protocol ∧ (c.cumulate flags src2dst).tcp = c.tcp ∧
    (c.cumulate flags src2dst).currentCState = c.currentCState := by
  unfold cumulate
  split <;> exact ⟨rfl, rfl, rfl⟩

theorem cumulate_src (flag : UInt8) :
    (c.cumulate flags src2dst).src flag = (c.src flag || src2dst && isTCPFlagSet flags flag) := by
  unfold cumulate src
  cases src2dst
  · exact (Bool.or_false _).symm
  · exact isTCPFlagSet_or ..

theorem cumulate_dst (flag : UInt8) :
    (c.cumulate flags src2dst).dst flag = (c.dst flag || !src2dst && isTCPFlagSet flags flag) := by
  unfold cumulate dst
  cases src2dst
  · exact isTCPFlagSet_or ..
  · exact (Bool.or_false _).symm

theorem packet_src (flag : UInt8) : (c.packet flags src2dst).src flag = (c.cumulate flags src2dst).src flag := rfl

theorem packet_dst (flag : UInt8) : (c.packet flags src2dst).dst flag = (c.cumulate flags src2dst).dst flag := rfl

theorem cumulate_syn (h : c.src TH_SYN = true ∨ c.dst TH_SYN = true) :
    (c.cumulate flags src2dst).src TH_SYN = true ∨ (c.cumulate flags src2dst).dst TH_SYN = true := by
  rcases h with h | h
  · exact Or.inl (by rw [cumulate_src, h, Bool.true_or])
  · exact Or.inr (by rw [cumulate_dst, h, Bool.true_or])

/-- The state after a packet, by what its flags look like. -/
theorem packet_state (h : c.Inv) (htcp : c.tcp = true) :
    let t := c.cumulate flags src2dst
    (t.halfOpen = true ∧ (c.packet flags src2dst).currentCState ∈ [.rstos0, .sh, .s0, .rej, .rstrh, .shr]) ∨
      (t.halfOpen = false ∧ (t.src TH_SYN = false ∧ t.dst TH_SYN = false) ∧
        (c.packet flags src2dst).currentCState = .oth) ∨
      (t.halfOpen = false ∧ (t.src TH_SYN = true ∨ t.dst TH_SYN = true) ∧
        (c.packet flags src2dst).currentCState = t.openState) := by
  intro t
  obtain ⟨hproto, htcp', -⟩ := @cumulate_same c flags src2dst
  have hip : t.isTCP = true := by
    have := h.isTCP
    unfold isTCP at this ⊢
    rw [hproto]
    exact this
  have ht : t.tcp = true := htcp'.trans htcp
  cases hhalf : t.halfOpen with
  | true => exact Or.inl ⟨rfl, connectionState_halfOpen hip ht hhalf⟩
  | false =>
    by_cases hsyn : t.src TH_SYN = true ∨ t.dst TH_SYN = true
    · exact Or.inr (Or.inr ⟨rfl, hsyn, connectionState_open hip ht hhalf hsyn⟩)
    · rw [not_or, Bool.not_eq_true, Bool.not_eq_true] at hsyn
      exact Or.inr (Or.inl ⟨rfl, hsyn, connectionState_noSyn hip ht hsyn.1 hsyn.2⟩)

theorem packet_noTcp (htcp : c.tcp = false) : (c.packet flags src2dst).currentCState = .noState :=
  connectionState_noTcp (cumulate_same.2.1.trans htcp) false

theorem inv_packet (h : c.Inv) : (c.packet flags src2dst).Inv where
  isTCP := by
    have hproto : (c.packet flags src2dst).protocol = c.protocol := cumulate_same.1
    have := h.isTCP
    unfold Conn.isTCP at this ⊢
    rw [hproto]
    exact this
  noTcp htcp := packet_noTcp (cumulate_same.2.1.symm.trans htcp)
  syn hno hoth := by
    rw [packet_src, packet_dst]
    cases htcp : c.tcp with
    | false => exact absurd (packet_noTcp htcp) hno
    | true =>
      rcases @packet_state _ flags src2dst h htcp with ⟨hhalf, -⟩ | ⟨-, -, heq⟩ | ⟨-, hsyn, -⟩
      · unfold halfOpen at hhalf
        simp only [Bool.or_eq_true, Bool.and_eq_true] at hhalf
        rcases hhalf with hh | hh
        · exact Or.inl hh.1
        · exact Or.inr hh.1.1.2
      · exact absurd heq hoth
      · exact hsyn

theorem inv_swap (h : c.Inv) : c.swap.Inv where
  isTCP := h.isTCP
  noTcp := h.noTcp
  syn hno hoth := (h.syn hno hoth).symm

/-! ## When the class falls -/

end Conn

def MajorConnState.rank : MajorConnState → Nat
  | .noState => 0
  | .attempted => 1
  | .established => 2
  | .closed => 3

namespace Conn

variable (c : Conn) (flags : UInt8) (src2dst : Bool)

/-- Closed, and after this packet the flags look half open, or open without the FIN that ends S2 and S3. -/
def Reopens : Prop :=
  let t := c.cumulate flags src2dst
  c.getMajorConnState = .closed ∧
    (t.halfOpen = true ∨
      t.looksOpen = true ∧ ¬ ((c.currentCState = .s2 ∨ c.currentCState = .s3) ∧ t.bothFin = true))

/-- Established, and after this packet the flags look half open. -/
def Relapses : Prop := c.getMajorConnState = .established ∧ (c.cumulate flags src2dst).halfOpen = true

variable {c} {flags} {src2dst}

theorem major_of_halfOpen {m : MinorConnState} (h : m ∈ [.rstos0, .sh, .s0, .rej, .rstrh, .shr]) :
    m.major = .attempted := by
  simp only [List.mem_cons, List.not_mem_nil, or_false] at h
  rcases h with rfl | rfl | rfl | rfl | rfl | rfl <;> rfl

theorem rank_lt_closed (m : MinorConnState) : 2 < m.major.rank ↔ m.major = .closed := by
  cases m <;> decide

/-- Among the open flags only those that look open take a closed flow back, and only to S1. -/
theorem openState_falls :
    c.openState.major.rank < c.currentCState.major.rank ↔
      c.currentCState.major = .closed ∧ c.looksOpen = true ∧
        ¬ ((c.currentCState = .s2 ∨ c.currentCState = .s3) ∧ c.bothFin = true) := by
  unfold openState
  by_cases h1 : c.currentCState = .s1
  · rw [if_pos h1, h1]
    constructor
    · intro h
      exfalso
      revert h
      split_ifs <;> decide
    · rintro ⟨h, -⟩
      cases h
  rw [if_neg h1]
  by_cases h2 : (c.currentCState = .s2 ∨ c.currentCState = .s3) ∧ c.bothFin = true
  · rw [if_pos h2]
    constructor
    · intro h
      exact absurd h (not_lt_of_ge (by cases c.currentCState <;> decide))
    · rintro ⟨-, -, h⟩
      exact absurd h2 h
  rw [if_neg h2]
  by_cases hopen : c.looksOpen = true
  · rw [if_pos hopen]
    exact (rank_lt_closed _).trans ⟨fun h => ⟨h, hopen, h2⟩, fun h => h.1⟩
  · rw [if_neg hopen]
    exact ⟨fun h => absurd h (lt_irrefl _), fun h => absurd h.2.1 hopen⟩

theorem openState_closed (h : c.currentCState.major = .closed) :
    c.openState.major = .closed ∨ c.openState.major = .established := by
  have h1 : c.currentCState ≠ .s1 := by
    intro h1
    rw [h1] at h
    cases h
  unfold openState
  rw [if_neg h1]
  split
  · exact Or.inl rfl
  split
  · exact Or.inr rfl
  · exact Or.inl h

theorem no_syn_before (hsrc : (c.cumulate flags src2dst).src TH_SYN = false)
    (hdst : (c.cumulate flags src2dst).dst TH_SYN = false) : ¬ (c.src TH_SYN = true ∨ c.dst TH_SYN = true) := by
  intro h
  rcases @cumulate_syn _ flags src2dst h with h | h
  · rw [hsrc] at h
    cases h
  · rw [hdst] at h
    cases h

/-- A packet takes a closed flow back exactly if it reopens it. -/
theorem packet_reopens (h : c.Inv) (hclosed : c.getMajorConnState = .closed) :
    (c.packet flags src2dst).getMajorConnState ≠ .closed ↔ c.Reopens flags src2dst := by
  have hstate : (c.cumulate flags src2dst).currentCState = c.currentCState := cumulate_same.2.2
  have htcp : c.tcp = true := by
    by_contra ht
    have hno := h.noTcp (Bool.eq_false_iff.mpr ht)
    unfold getMajorConnState at hclosed
    rw [hno] at hclosed
    cases hclosed
  unfold Reopens
  dsimp only
  rcases @packet_state _ flags src2dst h htcp with ⟨hhalf, hmem⟩ | ⟨hhalf, ⟨hsrc, hdst⟩, -⟩ | ⟨hhalf, -, heq⟩
  · have hatt : (c.packet flags src2dst).getMajorConnState = .attempted := major_of_halfOpen hmem
    rw [hatt]
    exact ⟨fun _ => ⟨hclosed, Or.inl hhalf⟩, fun _ h => by cases h⟩
  · exfalso
    apply no_syn_before hsrc hdst
    apply h.syn
    · intro h0
      unfold getMajorConnState at hclosed
      rw [h0] at hclosed
      cases hclosed
    · intro h0
      unfold getMajorConnState at hclosed
      rw [h0] at hclosed
      cases hclosed
  · have hfalls := openState_falls (c := c.cumulate flags src2dst)
    have hto := openState_closed (c := c.cumulate flags src2dst) (by rw [hstate]; exact hclosed)
    have hcl : c.currentCState.major = .closed := hclosed
    rw [hstate, hcl] at hfalls
    unfold getMajorConnState
    rw [heq, hhalf, hcl]
    simp only [Bool.false_eq_true, false_or, true_and] at hfalls ⊢
    rw [← hfalls]
    rcases hto with hto | hto
    · rw [hto]
      exact ⟨fun h => absurd rfl h, fun h => absurd h (lt_irrefl _)⟩
    · rw [hto]
      exact ⟨fun _ => by decide, fun _ h => by cases h⟩

theorem rank_lt_three (m : MajorConnState) : m.rank < 3 ↔ m ≠ .closed := by
  cases m <;> decide

/-- The class falls with a packet exactly if the packet reopens the flow or it relapses. -/
theorem packet_falls (h : c.Inv) :
    (c.packet flags src2dst).getMajorConnState.rank < c.getMajorConnState.rank ↔
      c.Reopens flags src2dst ∨ c.Relapses flags src2dst := by
  by_cases hclosed : c.getMajorConnState = .closed
  · have hno : ¬ c.Relapses flags src2dst := by
      rintro ⟨hest, -⟩
      rw [hclosed] at hest
      cases hest
    rw [or_iff_left hno, ← packet_reopens h hclosed, hclosed]
    exact rank_lt_three _
  have hno : ¬ c.Reopens flags src2dst := fun hr => hclosed hr.1
  rw [or_iff_right hno]
  cases htcp : c.tcp with
  | false =>
    have h0 : c.getMajorConnState = .noState := by
      unfold getMajorConnState
      rw [h.noTcp htcp]
      rfl
    unfold Relapses
    rw [h0]
    exact ⟨fun h => absurd h (Nat.not_lt_zero _), fun h => by cases h.1⟩
  | true =>
    unfold Relapses
    rcases @packet_state _ flags src2dst h htcp with ⟨hhalf, hmem⟩ | ⟨hhalf, -, heq⟩ | ⟨hhalf, -, heq⟩
    · have hatt : (c.packet flags src2dst).getMajorConnState = .attempted := major_of_halfOpen hmem
      rw [hatt, hhalf]
      generalize c.getMajorConnState = m at hclosed
      cases m <;> simp_all [MajorConnState.rank]
    · have hoth : (c.packet flags src2dst).getMajorConnState = .established := by
        unfold getMajorConnState
        rw [heq]
        rfl
      rw [hoth, hhalf]
      generalize c.getMajorConnState = m at hclosed
      cases m <;> simp_all [MajorConnState.rank]
    · have hfalls := openState_falls (c := c.cumulate flags src2dst)
      rw [cumulate_same.2.2, ← heq] at hfalls
      rw [hhalf]
      constructor
      · intro hlt
        exact absurd (hfalls.mp hlt).1 hclosed
      · rintro ⟨-, h⟩
        cases h

theorem packet_hasState (h : c.Inv) (hne : c.currentCState ≠ .noState) :
    (c.packet flags src2dst).currentCState ≠ .noState := by
  have htcp : c.tcp = true := by
    by_contra ht
    exact hne (h.noTcp (Bool.eq_false_iff.mpr ht))
  rcases @packet_state _ flags src2dst h htcp with ⟨-, hmem⟩ | ⟨-, -, heq⟩ | ⟨-, -, heq⟩
  · intro h0
    rw [h0] at hmem
    exact absurd hmem (by decide)
  · rw [heq]
    decide
  · rw [heq]
    unfold openState
    rw [cumulate_same.2.2]
    split_ifs <;> first | decide | exact hne

end Conn

/-! ## Runs -/

theorem step_packet (s : State) (time : Timeval) (flags : UInt8) (src2dst : Bool) :
    (step s (.packet time flags src2dst)).conn = s.conn.packet flags src2dst := by
  unfold step State.updateTcpFlags
  dsimp only
  rw [(State.handshake_spec ..).1, State.track_conn, (s.count_spec time flags src2dst).1.conn]
  rfl

theorem step_swap (s : State) : (step s .swap).conn = s.conn.swap := (swap_same s).1

theorem inv_init (tcp : Bool) : (State.init tcp).conn.Inv where
  isTCP := rfl
  noTcp _ := rfl
  syn h := absurd rfl h

theorem inv_step (s : State) (e : Ev) (h : s.conn.Inv) : (step s e).conn.Inv := by
  cases e with
  | packet time flags src2dst =>
    rw [step_packet]
    exact Conn.inv_packet h
  | swap =>
    rw [step_swap]
    exact Conn.inv_swap h

theorem inv_after (tcp : Bool) (es : List Ev) : (after tcp es).conn.Inv :=
  @inv_run_all State Ev step (fun s => s.conn.Inv) inv_step (State.init tcp) (inv_init tcp) es

/-- The class after the events. -/
def classAfter (tcp : Bool) (es : List Ev) : MajorConnState := (after tcp es).conn.getMajorConnState

/-- The class never falls. -/
def NeverBackwards (tcp : Bool) (es : List Ev) : Prop :=
  ∀ as bs, as ++ bs <+: es → (classAfter tcp as).rank ≤ (classAfter tcp (as ++ bs)).rank

/-- Once closed, never again established or attempted. -/
def StaysClosed (tcp : Bool) (es : List Ev) : Prop :=
  ∀ as bs, as ++ bs <+: es → classAfter tcp as = .closed →
    classAfter tcp (as ++ bs) ≠ .established ∧ classAfter tcp (as ++ bs) ≠ .attempted

/-- The packet does not take a closed flow back. -/
def KeepsClosed (s : State) : Ev → Prop
  | .packet _ flags src2dst => ¬ s.conn.Reopens flags src2dst
  | .swap => True

/-- Nor an established one. -/
def KeepsClass (s : State) : Ev → Prop
  | .packet _ flags src2dst => ¬ s.conn.Reopens flags src2dst ∧ ¬ s.conn.Relapses flags src2dst
  | .swap => True

theorem neverBackwards_iff (tcp : Bool) (es : List Ev) :
    NeverBackwards tcp es ↔ Along step KeepsClass (State.init tcp) es := by
  unfold NeverBackwards classAfter after
  rw [mono_iff_along step (fun s : State => s.conn.getMajorConnState.rank)]
  refine along_iff_of_inv step (fun t e h _ => inv_step t e h) ?_ (inv_init tcp)
  intro s e h
  cases e with
  | packet time flags src2dst =>
    rw [step_packet, ← not_lt, Conn.packet_falls h, not_or]
    rfl
  | swap =>
    rw [step_swap]
    exact ⟨fun _ => trivial, fun _ => le_refl _⟩

theorem hasState_step (s : State) (e : Ev) (h : s.conn.Inv) (hne : s.conn.currentCState ≠ .noState) :
    (step s e).conn.currentCState ≠ .noState := by
  cases e with
  | packet time flags src2dst =>
    rw [step_packet]
    exact Conn.packet_hasState h hne
  | swap =>
    rw [step_swap]
    exact hne

theorem major_noState {c : Conn} (h : c.getMajorConnState = .noState) : c.currentCState = .noState := by
  unfold Conn.getMajorConnState at h
  generalize c.currentCState = m at h ⊢
  cases m <;> first | rfl | cases h

/-- A flow that was closed has a state for good. -/
theorem not_noState_after (tcp : Bool) {as : List Ev} (bs : List Ev) (h : classAfter tcp as = .closed) :
    classAfter tcp (as ++ bs) ≠ .noState := by
  have hne : (after tcp as).conn.currentCState ≠ .noState := by
    intro h0
    unfold classAfter Conn.getMajorConnState at h
    rw [h0] at h
    cases h
  have hrun := @inv_run_all State Ev step (fun s => s.conn.Inv ∧ s.conn.currentCState ≠ .noState)
    (fun s e hs => ⟨inv_step s e hs.1, hasState_step s e hs.1 hs.2⟩) (after tcp as) ⟨inv_after tcp as, hne⟩ bs
  intro h0
  apply hrun.2
  unfold classAfter after at h0
  rw [run_append] at h0
  exact major_noState h0

theorem staysClosed_iff (tcp : Bool) (es : List Ev) :
    StaysClosed tcp es ↔ Along step KeepsClosed (State.init tcp) es := by
  have hclass : StaysClosed tcp es ↔
      ∀ as bs, as ++ bs <+: es → (classAfter tcp as = .closed → classAfter tcp (as ++ bs) = .closed) := by
    constructor
    · intro h as bs hp hcl
      obtain ⟨hest, hatt⟩ := h as bs hp hcl
      have hno := not_noState_after tcp bs hcl
      generalize classAfter tcp (as ++ bs) = m at *
      cases m with
      | noState => exact absurd rfl hno
      | attempted => exact absurd rfl hatt
      | established => exact absurd rfl hest
      | closed => rfl
    · intro h as bs hp hcl
      rw [h as bs hp hcl]
      exact ⟨by decide, by decide⟩
  have hmono := @mono_iff_along _ _ step _ _ (fun s : State => s.conn.getMajorConnState = .closed) (State.init tcp) es
  rw [hclass]
  unfold classAfter after
  refine hmono.trans (along_iff_of_inv step (fun t e h _ => inv_step t e h) ?_ (inv_init tcp))
  intro s e h
  cases e with
  | packet time flags src2dst =>
    rw [step_packet]
    show _ ↔ ¬ s.conn.Reopens flags src2dst
    by_cases hcl : s.conn.getMajorConnState = .closed
    · rw [← Conn.packet_reopens h hcl, not_not]
      exact ⟨fun hle => hle hcl, fun hc _ => hc⟩
    · exact ⟨fun _ hr => hcl hr.1, fun _ hc => absurd hc hcl⟩
  | swap =>
    rw [step_swap]
    exact ⟨fun _ => trivial, fun _ => le_refl _⟩

/-! ## The FINs after a handshake -/

/-- The packets as the peers sent them: whether by the first client, and the flags. -/
structure Wire where
  /-- Whether the first client is now the server. -/
  swapped : Bool
  packets : List (Bool × UInt8)

def Wire.step (w : Wire) : Ev → Wire
  | .packet _ flags src2dst => { w with packets := w.packets ++ [(src2dst != w.swapped, flags)] }
  | .swap => { w with swapped := !w.swapped }

def wire (es : List Ev) : Wire := run Wire.step ⟨false, []⟩ es

/-- A SYN, the SYN-ACK of the other peer and an ACK of the first, in this order. -/
def Handshake (ps : List (Bool × UInt8)) : Prop :=
  ∃ peer syn synAck ack, [(peer, syn), (!peer, synAck), (peer, ack)].Sublist ps ∧
    isTCPFlagSet syn TH_SYN = true ∧ isTCPFlagSet synAck TH_SYN = true ∧ isTCPFlagSet synAck TH_ACK = true ∧
    isTCPFlagSet ack TH_ACK = true

/-- Both peers have sent a FIN after a handshake. -/
def Finished (ps : List (Bool × UInt8)) : Prop :=
  ∃ before rest, ps = before ++ rest ∧ Handshake before ∧
    ∀ peer, ∃ p ∈ rest, p.1 = peer ∧ isTCPFlagSet p.2 TH_FIN = true

/-- Once they have, the state is SF whatever follows. -/
def StaysSF (tcp : Bool) (es : List Ev) : Prop :=
  ∀ as, as <+: es → Finished (wire as).packets → (after tcp as).conn.currentCState = .sf

/-- The packet that brings the last FIN finds a state that can become SF, or SF. -/
def FinsFound (tcp : Bool) (es : List Ev) : Prop :=
  ∀ as e, as ++ [e] <+: es → ¬ Finished (wire as).packets → Finished (wire (as ++ [e])).packets →
    (after tcp as).conn.currentCState ∈ [.s1, .s2, .s3, .sf]

theorem wire_snoc (es : List Ev) (e : Ev) : wire (es ++ [e]) = (wire es).step e := run_snoc ..

theorem finished_snoc {ps : List (Bool × UInt8)} (h : Finished ps) (qs : List (Bool × UInt8)) : Finished (ps ++ qs) := by
  obtain ⟨before, rest, rfl, hshake, hfin⟩ := h
  refine ⟨before, rest ++ qs, List.append_assoc .., hshake, fun peer => ?_⟩
  obtain ⟨p, hp, hfin⟩ := hfin peer
  exact ⟨p, List.mem_append_left _ hp, hfin⟩

/-- The flags of a direction are those that the peer on its side has sent. -/
theorem flags_after (tcp : Bool) (es : List Ev) (flag : UInt8) :
    (after tcp es).conn.src flag = (wire es).packets.any (fun p => p.1 != (wire es).swapped && isTCPFlagSet p.2 flag) ∧
      (after tcp es).conn.dst flag =
        (wire es).packets.any (fun p => !(p.1 != (wire es).swapped) && isTCPFlagSet p.2 flag) := by
  induction es using List.reverseRecOn with
  | nil => exact ⟨isTCPFlagSet_zero flag, isTCPFlagSet_zero flag⟩
  | append_singleton es e ih =>
    have hstep : after tcp (es ++ [e]) = step (after tcp es) e := run_snoc ..
    rw [hstep, wire_snoc]
    cases e with
    | packet time flags src2dst =>
      rw [step_packet, Conn.packet_src, Conn.packet_dst, Conn.cumulate_src, Conn.cumulate_dst, ih.1, ih.2]
      unfold Wire.step
      simp only [List.any_append, List.any_cons, List.any_nil, Bool.or_false]
      have hside : ((src2dst != (wire es).swapped) != (wire es).swapped) = src2dst := by
        cases src2dst <;> cases (wire es).swapped <;> rfl
      rw [hside]
      exact ⟨rfl, rfl⟩
    | swap =>
      rw [step_swap]
      have hsrc : (after tcp es).conn.swap.src flag = (after tcp es).conn.dst flag := rfl
      have hdst : (after tcp es).conn.swap.dst flag = (after tcp es).conn.src flag := rfl
      rw [hsrc, hdst, ih.1, ih.2]
      unfold Wire.step
      dsimp only
      constructor
      · congr 1
        funext p
        cases p.1 <;> cases (wire es).swapped <;> rfl
      · congr 1
        funext p
        cases p.1 <;> cases (wire es).swapped <;> rfl

/-- After the FINs of a finished flow both directions have the flags of the handshake and the FIN. -/
theorem finished_peer {ps : List (Bool × UInt8)} (h : Finished ps) {flag : UInt8} (hflag : flag ∈ [TH_SYN, TH_ACK, TH_FIN])
    (peer : Bool) : ∃ p ∈ ps, p.1 = peer ∧ isTCPFlagSet p.2 flag = true := by
  obtain ⟨before, rest, rfl, ⟨a, syn, synAck, ack, hsub, hsyn, hsyn', hack, hack'⟩, hfin⟩ := h
  have hmem : ∀ p ∈ [(a, syn), (!a, synAck), (a, ack)], p ∈ before ++ rest :=
    fun p hp => List.mem_append_left _ (hsub.subset hp)
  simp only [List.mem_cons, List.not_mem_nil, or_false] at hflag
  rcases hflag with rfl | rfl | rfl
  · by_cases hp : a = peer
    · exact ⟨(a, syn), hmem _ (by simp), hp, hsyn⟩
    · exact ⟨(!a, synAck), hmem _ (by simp), Bool.not_eq.mpr hp, hsyn'⟩
  · by_cases hp : a = peer
    · exact ⟨(a, ack), hmem _ (by simp), hp, hack'⟩
    · exact ⟨(!a, synAck), hmem _ (by simp), Bool.not_eq.mpr hp, hack⟩
  · obtain ⟨p, hp, h⟩ := hfin peer
    exact ⟨p, List.mem_append_right _ hp, h⟩

theorem finished_flags (tcp : Bool) {es : List Ev} (h : Finished (wire es).packets) {flag : UInt8}
    (hflag : flag ∈ [TH_SYN, TH_ACK, TH_FIN]) :
    (after tcp es).conn.src flag = true ∧ (after tcp es).conn.dst flag = true := by
  obtain ⟨hsrc, hdst⟩ := flags_after tcp es flag
  rw [hsrc, hdst, List.any_eq_true, List.any_eq_true]
  obtain ⟨p, hp, hpeer, hset⟩ := finished_peer h hflag (!(wire es).swapped)
  obtain ⟨q, hq, hqeer, hqset⟩ := finished_peer h hflag (wire es).swapped
  refine ⟨⟨p, hp, ?_⟩, ⟨q, hq, ?_⟩⟩
  · rw [hpeer, hset]
    cases (wire es).swapped <;> rfl
  · rw [hqeer, hqset]
    cases (wire es).swapped <;> rfl

/-- With the handshake and both FINs among the flags, only S1, S2 and S3 move, and to SF. -/
theorem packet_finished {c : Conn} (h : c.Inv) (htcp : c.tcp = true) {flags : UInt8} {src2dst : Bool}
    (hflags : ∀ flag ∈ [TH_SYN, TH_ACK, TH_FIN],
      (c.packet flags src2dst).src flag = true ∧ (c.packet flags src2dst).dst flag = true) :
    (c.packet flags src2dst).currentCState = if c.currentCState ∈ [.s1, .s2, .s3] then .sf else c.currentCState := by
  have hsyn := hflags TH_SYN (by decide)
  have hack := hflags TH_ACK (by decide)
  have hfin := hflags TH_FIN (by decide)
  rw [Conn.packet_src, Conn.packet_dst] at hsyn hack hfin
  have hboth : (c.cumulate flags src2dst).bothFin = true := by
    unfold Conn.bothFin
    rw [hfin.1, hfin.2]
    rfl
  have hlooks : (c.cumulate flags src2dst).looksOpen = false := by
    unfold Conn.looksOpen
    simp [hfin.1, hack.1]
  rcases @Conn.packet_state _ flags src2dst h htcp with ⟨hhalf, -⟩ | ⟨-, ⟨hno, -⟩, -⟩ | ⟨-, -, heq⟩
  · unfold Conn.halfOpen at hhalf
    rw [hsyn.1, hsyn.2] at hhalf
    cases hhalf
  · rw [hsyn.1] at hno
    cases hno
  · rw [heq]
    unfold Conn.openState
    rw [hboth, hlooks, Conn.cumulate_same.2.2]
    cases c.currentCState <;> simp

/-- A state found by the last FIN becomes SF, and SF stays. -/
theorem sf_of_finished {tcp : Bool} {es : List Ev} {e : Ev} (hdone : Finished (wire (es ++ [e])).packets)
    (hfound : (after tcp es).conn.currentCState ∈ [.s1, .s2, .s3, .sf])
    (hswap : e = .swap → (after tcp es).conn.currentCState = .sf) :
    (after tcp (es ++ [e])).conn.currentCState = .sf := by
  have hstep : after tcp (es ++ [e]) = step (after tcp es) e := run_snoc ..
  have hinv := inv_after tcp es
  have htcp : (after tcp es).conn.tcp = true := by
    by_contra ht
    rw [hinv.noTcp (Bool.eq_false_iff.mpr ht)] at hfound
    exact absurd hfound (by decide)
  cases e with
  | swap =>
    rw [hstep, step_swap]
    exact hswap rfl
  | packet time flags src2dst =>
    have hflags := fun flag hflag => @finished_flags tcp _ hdone flag hflag
    rw [hstep, step_packet] at hflags ⊢
    rw [packet_finished hinv htcp hflags]
    simp only [List.mem_cons, List.not_mem_nil, or_false] at hfound ⊢
    rcases hfound with h | h | h | h <;> rw [h] <;> decide

theorem staysSF_iff (tcp : Bool) (es : List Ev) : StaysSF tcp es ↔ FinsFound tcp es := by
  constructor
  · intro h as e hp hnot hdone
    have hsf := h (as ++ [e]) hp hdone
    have hstep : after tcp (as ++ [e]) = step (after tcp as) e := run_snoc ..
    have hinv := inv_after tcp as
    cases e with
    | swap =>
      rw [wire_snoc] at hdone
      exact absurd hdone hnot
    | packet time flags src2dst =>
      have hflags := fun flag hflag => @finished_flags tcp _ hdone flag hflag
      rw [hstep, step_packet] at hsf hflags
      have htcp : (after tcp as).conn.tcp = true := by
        by_contra ht
        rw [Conn.packet_noTcp (Bool.eq_false_iff.mpr ht)] at hsf
        cases hsf
      rw [packet_finished hinv htcp hflags] at hsf
      revert hsf
      cases (after tcp as).conn.currentCState <;> decide
  · intro h as
    induction as using List.reverseRecOn with
    | nil =>
      rintro - ⟨before, rest, heq, -, hfin⟩
      obtain ⟨p, hp, -⟩ := hfin true
      have hnil : rest = [] := (List.append_eq_nil_iff.mp heq.symm).2
      rw [hnil] at hp
      cases hp
    | append_singleton as e ih =>
      intro hp hdone
      have hpre : as <+: es := (List.prefix_append ..).trans hp
      by_cases hbefore : Finished (wire as).packets
      · have hsf := ih hpre hbefore
        exact sf_of_finished hdone (by rw [hsf]; decide) (fun _ => hsf)
      · refine sf_of_finished hdone (h as e hp hbefore hdone) ?_
        rintro rfl
        rw [wire_snoc] at hdone
        exact absurd hdone hbefore

/-! ## The law -/

/-- With the class understood as an order, and for closed flows alone. -/
theorem conn_law_iff (tcp : Bool) (es : List Ev) :
    (NeverBackwards tcp es ∧ StaysSF tcp es ↔ Along step KeepsClass (State.init tcp) es ∧ FinsFound tcp es) ∧
      (StaysClosed tcp es ∧ StaysSF tcp es ↔ Along step KeepsClosed (State.init tcp) es ∧ FinsFound tcp es) := by
  constructor
  · exact and_congr (neverBackwards_iff tcp es) (staysSF_iff tcp es)
  · exact and_congr (staysClosed_iff tcp es) (staysSF_iff tcp es)

/-- A handshake, the FIN of the server and the ACK of the client: S3, then S1. -/
theorem not_conn_law : ¬ ∀ tcp es, StaysClosed tcp es ∧ StaysSF tcp es := by
  intro h
  obtain ⟨hclosed, -⟩ := h true
    [.packet ⟨1, 0⟩ TH_SYN true, .packet ⟨1, 10⟩ (TH_SYN ||| TH_ACK) false, .packet ⟨1, 20⟩ TH_ACK true,
      .packet ⟨2, 0⟩ (TH_FIN ||| TH_ACK) false, .packet ⟨2, 10⟩ TH_ACK true]
  have hback := hclosed
    [.packet ⟨1, 0⟩ TH_SYN true, .packet ⟨1, 10⟩ (TH_SYN ||| TH_ACK) false, .packet ⟨1, 20⟩ TH_ACK true,
      .packet ⟨2, 0⟩ (TH_FIN ||| TH_ACK) false]
    [.packet ⟨2, 10⟩ TH_ACK true] (List.prefix_refl _) (by decide)
  exact hback.1 (by decide)

end Ntopng.Flows.TcpFlags
