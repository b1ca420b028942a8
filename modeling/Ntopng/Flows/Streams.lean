/-
  Ntopng.Flows.Streams — what is counted for TCP streams that arrive whole and in order
  (`Flow::updateTcpSeqNum`, src/Flow.cpp).

  Each peer numbers what it sends: a segment starts at the number after the one before, and
  takes one number for SYN, one for each byte and one for FIN. In between it may probe with
  nothing or one byte at the last number already used.

  The number stored as the next one ignores FIN and follows the probes, so it lies one behind
  after a FIN or a probe without a byte (`behind`); a segment one ahead is passed.

  Proved: retransmissions, lost and reordered segments are never counted for such streams, and
  the keep-alive counters are the numbers of probes exactly when every probe is `Heard`: its
  peer has sent before, and last something that left the stored number in place, the number it
  sends next is not 0, and the counter has room (`counters_exact_iff`). The second of two
  probes without a byte is missed (`second_probe_uncounted`).
-/

import Ntopng.Flows.SeqNum

namespace Ntopng.Flows.Streams

open Ntopng.Lib.Run Ntopng.Flows.Swap Ntopng.Flows.SeqNum

/-! ## Two peers -/

/-- A probe has none of SYN, FIN and RST. -/
structure Probe where
  flags : UInt8
  plain : flags &&& (thSyn ||| thFin ||| thRst) = 0
  /-- With one byte of payload, else with none. -/
  byte : Bool
  deriving DecidableEq

inductive Ev where
  | segment (src2dst : Bool) (flags : UInt8) (window payloadLen : UInt16)
  | probe (src2dst : Bool) (window : UInt16) (p : Probe)
  deriving DecidableEq

/-- What a peer sent last, as far as the stored number depends on it. -/
inductive Sent where
  | segment (fin : Bool)
  | probe (byte : Bool)
  deriving DecidableEq, Repr

/-- The number stored as the next one is the peer's, less one. -/
def Sent.behind : Sent → Bool
  | segment fin => fin
  | probe byte => !byte

structure Peer where
  next : UInt32
  last : Option Sent
  probes : ℕ
  deriving DecidableEq, Repr

def one (b : Bool) : UInt32 := if b then 1 else 0

/-- The segment takes its numbers. -/
def Peer.send (p : Peer) (flags : UInt8) (payloadLen : UInt16) : Peer :=
  { p with
    next := p.next + one (flags &&& thSyn ≠ 0) + payloadLen.toUInt32 + one (flags &&& thFin ≠ 0)
    last := some (.segment (flags &&& thFin ≠ 0)) }

def Peer.probe (p : Peer) (byte : Bool) : Peer := { p with last := some (.probe byte), probes := p.probes + 1 }

variable {α : Type}

structure Sys (α : Type) where
  flow : Flow α
  /-- The client at `true`, which sends from source to destination. -/
  peer : Bool → Peer

def Ev.dir : Ev → Bool
  | segment d _ _ _ => d
  | probe d _ _ => d

/-- What arrives. -/
def Ev.wire (n : UInt32) : Ev → Segment
  | segment d flags window len => ⟨n, window, flags, len, d⟩
  | probe d window p => ⟨n - 1, window, p.flags, if p.byte then 1 else 0, d⟩

def Ev.act (p : Peer) : Ev → Peer
  | segment _ flags _ len => p.send flags len
  | probe _ _ q => p.probe q.byte

def step (s : Sys α) (e : Ev) : Sys α :=
  ⟨feed s.flow (e.wire (s.peer e.dir).next), fun d => if e.dir = d then e.act (s.peer d) else s.peer d⟩

/-- The peers start at any numbers. -/
def start (f : Flow α) (allocOk : Bool) (seq : Bool → UInt32) : Sys α := ⟨fresh f allocOk, fun d => ⟨seq d, none, 0⟩⟩

structure Quiet (c : FlowTCPPacketStats) : Prop where
  retr : c.pktRetr = 0
  ooo : c.pktOOO = 0
  lost : c.pktLost = 0

/-- Nothing but the probes is counted, and all of them. -/
def Law (s : Sys α) : Prop :=
  ∀ d, Quiet (counters s.flow d) ∧ (counters s.flow d).pktKeepAlive.toNat = (s.peer d).probes

/-- There is memory for the stored numbers, the probe comes after something that left them in place, its
    peer's next number is not 0, which stands for none, and the counter does not wrap. -/
def Heard (s : Sys α) : Ev → Prop
  | .segment .. => True
  | .probe d _ _ =>
    s.flow.tcp ≠ none ∧ (s.peer d).last.map Sent.behind = some false ∧ (s.peer d).next ≠ 0 ∧
      (s.peer d).probes + 1 < 2 ^ 32

/-! ## What is stored for a peer -/

/-- The numbers stored for a peer. -/
def Stored (x : TCPSeqNum) (p : Peer) : Prop :=
  match p.last with
  | none => x = ofNums 0 0
  | some k => ∃ last, x = ofNums last (p.next - one k.behind)

theorem sub_add_cancel32 (a b : UInt32) : a - b + b = a := UInt32.sub_add_cancel a b

theorem add_sub_cancel32 (a b : UInt32) : a + b - b = a := UInt32.add_sub_cancel a b

theorem sub_one_ne (n : UInt32) : n ≠ n - 1 := by
  intro h
  have h1 : n + 1 = n := by
    calc n + 1 = n - 1 + 1 := by rw [← h]
      _ = n := sub_add_cancel32 n 1
  have h2 : (1 : UInt32) = 0 := (UInt32.add_right_inj n).mp (h1.trans (UInt32.add_zero n).symm)
  exact absurd h2 (by decide)

theorem sub_one_ne_sub_one_sub_one (n : UInt32) : n ≠ n - 1 - 1 := by
  intro h
  have h1 : n + (1 + 1) = n := by
    calc n + (1 + 1) = n - 1 - 1 + (1 + 1) := by rw [← h]
      _ = n - 1 - 1 + 1 + 1 := (UInt32.add_assoc ..).symm
      _ = n := by rw [sub_add_cancel32, sub_add_cancel32]
  have h2 : (1 + 1 : UInt32) = 0 := (UInt32.add_right_inj n).mp (h1.trans (UInt32.add_zero n).symm)
  exact absurd h2 (by decide)

theorem after_passed {x : TCPSeqNum} {g : Segment} (h : verdict x g = .passed ∨ verdict x g = .keepAlive) :
    after x g = ofNums g.seqNum g.next := by
  rcases h with h | h
  all_goals
    rw [after, h]
    rfl

theorem verdict_expected {x : TCPSeqNum} {g : Segment} (h : Expected x g) : verdict x g = .passed := by
  rw [verdict, if_pos (.inr h)]

/-- A segment at the peer's next number is passed, whatever was sent before it. -/
theorem segment_passed {x : TCPSeqNum} {p : Peer} (h : Stored x p) {g : Segment} (hg : g.seqNum = p.next) :
    verdict x g = .passed := by
  unfold Stored at h
  split at h
  · rw [h]
    exact verdict_zero rfl
  · rename_i k _
    obtain ⟨last, rfl⟩ := h
    refine verdict_expected (expected_iff.mpr ?_)
    rw [hg]
    cases k.behind
    · exact .inl (UInt32.sub_zero _)
    · exact .inr rfl

/-- A probe is either passed, or taken for what it is. -/
theorem probe_verdict {x : TCPSeqNum} {p : Peer} (h : Stored x p) {g : Segment} (hg : g.seqNum = p.next - 1)
    (hlen : g.payloadLen = 0 ∨ g.payloadLen = 1) (hf : g.flags &&& (thSyn ||| thFin ||| thRst) = 0) :
    verdict x g = if p.last.map Sent.behind = some false ∧ p.next ≠ 0 then .keepAlive else .passed := by
  unfold Stored at h
  split at h
  · rename_i hl
    rw [h, hl, if_neg (by simp)]
    exact verdict_zero rfl
  · rename_i k hl
    obtain ⟨last, rfl⟩ := h
    rw [hl]
    cases hb : k.behind
    · have hone : p.next - one false = p.next := UInt32.sub_zero _
      rw [hone]
      by_cases h0 : p.next = 0
      · rw [if_neg (fun hc => hc.2 h0), h0]
        exact verdict_zero rfl
      · rw [if_pos ⟨by simp [hb], h0⟩]
        have hne : ¬ ((ofNums last p.next).next = 0 ∨ Expected (ofNums last p.next) g) := by
          rw [next_zero_iff, expected_iff, hg]
          rintro (h1 | h1 | h1)
          · exact h0 h1
          · exact sub_one_ne _ h1
          · exact sub_one_ne_sub_one_sub_one _ h1
        rw [verdict, if_neg hne, if_pos ((keepAlive_iff h0).mpr ⟨hg, hlen, hf⟩)]
    · rw [if_neg (by simp [hb])]
      exact verdict_expected (expected_iff.mpr (.inl hg.symm))

theorem send_stored (p : Peer) {g : Segment} (hg : g.seqNum = p.next) :
    Stored (ofNums g.seqNum g.next) (p.send g.flags g.payloadLen) := by
  refine ⟨g.seqNum, congrArg _ ?_⟩
  show getNextTcpSeq g.flags g.seqNum g.payloadLen.toUInt32 = _
  simp only [Peer.send, Sent.behind, add_sub_cancel32, hg]
  unfold getNextTcpSeq one
  simp only [decide_eq_true_eq]

theorem probe_stored (p : Peer) (q : Probe) {g : Segment} (hg : g.seqNum = p.next - 1) (hf : g.flags = q.flags)
    (hlen : g.payloadLen = if q.byte then 1 else 0) : Stored (ofNums g.seqNum g.next) (p.probe q.byte) := by
  have hsyn : g.flags &&& thSyn = 0 := by
    calc g.flags &&& thSyn = q.flags &&& ((thSyn ||| thFin ||| thRst) &&& thSyn) := by rw [hf]; rfl
      _ = 0 := by rw [← UInt8.and_assoc, q.plain, UInt8.zero_and]
  refine ⟨g.seqNum, congrArg _ ?_⟩
  show getNextTcpSeq g.flags g.seqNum g.payloadLen.toUInt32 = p.next - one (!q.byte)
  rw [getNextTcpSeq, if_neg (not_not_intro hsyn), hg, hlen, UInt32.add_zero]
  cases q.byte
  · exact UInt32.add_zero _
  · exact (sub_add_cancel32 _ _).trans (UInt32.sub_zero _).symm

/-! ## One step -/

theorem stored_none_iff (f : Flow α) (d : Bool) : stored f d = none ↔ f.tcp = none := by
  unfold stored
  cases f.tcp <;> simp

/-- What a peer and its direction of the flow have in common. -/
structure Tracked (f : Flow α) (d : Bool) (p : Peer) : Prop where
  quiet : Quiet (counters f d)
  seq : ∀ x, stored f d = some x → Stored x p

/-- The other direction is left alone. -/
theorem feed_other {f : Flow α} {g : Segment} {d : Bool} (hg : g.src2dst ≠ d) :
    stored (feed f g) d = stored f d ∧ counters (feed f g) d = counters f d := by
  obtain ⟨hs, hc⟩ := feed_spec f g d
  refine ⟨hs.trans (if_neg hg), hc.trans ?_⟩
  cases stored f d
  · rfl
  · exact if_neg hg

/-- Without memory for the numbers nothing is counted. -/
theorem feed_none {f : Flow α} {d : Bool} (hn : stored f d = none) (g : Segment) :
    stored (feed f g) d = none ∧ counters (feed f g) d = counters f d := by
  obtain ⟨hs, hc⟩ := feed_spec f g d
  rw [hn] at hs hc
  refine ⟨hs.trans ?_, hc⟩
  split <;> rfl

theorem feed_some {f : Flow α} {g : Segment} {x : TCPSeqNum} (hx : stored f g.src2dst = some x) :
    stored (feed f g) g.src2dst = some (after x g) ∧
      counters (feed f g) g.src2dst = (counters f g.src2dst).inc (verdict x g).issues.retx (verdict x g).issues.ooo
        (verdict x g).issues.lost (verdict x g).issues.keepAlive := by
  obtain ⟨hs, hc⟩ := feed_spec f g g.src2dst
  rw [hx] at hs hc
  exact ⟨hs.trans (if_pos rfl), hc.trans (if_pos rfl)⟩

theorem quiet_inc {c : FlowTCPPacketStats} (h : Quiet c) (k : UInt32) : Quiet (c.inc 0 0 0 k) :=
  ⟨(UInt32.add_zero _).trans h.retr, (UInt32.add_zero _).trans h.ooo, (UInt32.add_zero _).trans h.lost⟩

theorem tracked_other {f : Flow α} {d : Bool} {p : Peer} (h : Tracked f d p) {g : Segment} (hg : g.src2dst ≠ d) :
    Tracked (feed f g) d p := by
  obtain ⟨hs, hc⟩ := feed_other hg (f := f)
  exact ⟨hc ▸ h.quiet, fun x hx => h.seq x (hs ▸ hx)⟩

theorem tracked_send {f : Flow α} {p : Peer} {g : Segment} (h : Tracked f g.src2dst p) (hg : g.seqNum = p.next) :
    Tracked (feed f g) g.src2dst (p.send g.flags g.payloadLen) ∧
      (counters (feed f g) g.src2dst).pktKeepAlive = (counters f g.src2dst).pktKeepAlive := by
  cases hst : stored f g.src2dst with
  | none =>
    obtain ⟨hs, hc⟩ := feed_none hst g
    exact ⟨⟨hc ▸ h.quiet, fun x hx => by rw [hs] at hx; cases hx⟩, by rw [hc]⟩
  | some x =>
    obtain ⟨hs, hc⟩ := feed_some hst
    have hv := segment_passed (h.seq x hst) hg
    rw [hv] at hc
    refine ⟨⟨hc ▸ quiet_inc h.quiet 0, fun y hy => ?_⟩, ?_⟩
    · rw [hs, after_passed (.inl hv)] at hy
      cases hy
      exact send_stored p hg
    · rw [hc]
      exact UInt32.add_zero _

/-- The probe that is heard is counted, another is not. -/
theorem tracked_probe {f : Flow α} {p : Peer} {g : Segment} {q : Probe} (h : Tracked f g.src2dst p)
    (hg : g.seqNum = p.next - 1) (hf : g.flags = q.flags) (hlen : g.payloadLen = if q.byte then 1 else 0) :
    Tracked (feed f g) g.src2dst (p.probe q.byte) ∧
      (counters (feed f g) g.src2dst).pktKeepAlive = (counters f g.src2dst).pktKeepAlive +
        one (f.tcp ≠ none ∧ p.last.map Sent.behind = some false ∧ p.next ≠ 0) := by
  cases hst : stored f g.src2dst with
  | none =>
    obtain ⟨hs, hc⟩ := feed_none hst g
    refine ⟨⟨hc ▸ h.quiet, fun x hx => by rw [hs] at hx; cases hx⟩, ?_⟩
    rw [hc, one, if_neg (by simp [(stored_none_iff f _).mp hst]), UInt32.add_zero]
  | some x =>
    have htcp : f.tcp ≠ none := by
      intro hn
      rw [(stored_none_iff f _).mpr hn] at hst
      cases hst
    obtain ⟨hs, hc⟩ := feed_some hst
    have hlen01 : g.payloadLen = 0 ∨ g.payloadLen = 1 := by
      rw [hlen]
      cases q.byte
      · exact .inl rfl
      · exact .inr rfl
    have hv := probe_verdict (h.seq x hst) hg hlen01 (hf ▸ q.plain)
    by_cases hk : p.last.map Sent.behind = some false ∧ p.next ≠ 0
    · rw [if_pos hk] at hv
      rw [hv] at hc
      refine ⟨⟨hc ▸ quiet_inc h.quiet 1, fun y hy => ?_⟩, ?_⟩
      · rw [hs, after_passed (.inr hv)] at hy
        cases hy
        exact probe_stored p q hg hf hlen
      · rw [hc, one, if_pos (decide_eq_true ⟨htcp, hk⟩)]
        rfl
    · rw [if_neg hk] at hv
      rw [hv] at hc
      refine ⟨⟨hc ▸ quiet_inc h.quiet 0, fun y hy => ?_⟩, ?_⟩
      · rw [hs, after_passed (.inl hv)] at hy
        cases hy
        exact probe_stored p q hg hf hlen
      · rw [hc, one, if_neg (fun hh => hk (of_decide_eq_true hh).2)]
        rfl

/-! ## Runs -/

def Inv (s : Sys α) : Prop := ∀ d, Tracked s.flow d (s.peer d)

theorem inv_start (f : Flow α) (allocOk : Bool) (seq : Bool → UInt32) : Inv (start f allocOk seq) := by
  intro d
  constructor
  · cases allocOk <;> cases d <;> exact ⟨rfl, rfl, rfl⟩
  · intro x hx
    cases allocOk
    · cases hx
    · cases d <;> cases hx <;> rfl

theorem wire_dir (n : UInt32) (e : Ev) : (e.wire n).src2dst = e.dir := by cases e <;> rfl

theorem step_other (s : Sys α) {e : Ev} {d : Bool} (hd : e.dir ≠ d) :
    stored (step s e).flow d = stored s.flow d ∧ counters (step s e).flow d = counters s.flow d ∧
      (step s e).peer d = s.peer d := by
  obtain ⟨hs, hc⟩ := feed_other (f := s.flow) ((wire_dir (s.peer e.dir).next e).symm ▸ hd)
  exact ⟨hs, hc, if_neg hd⟩

/-- One more is counted for a probe that is heard, and nothing else. -/
def heardNow (s : Sys α) : Ev → UInt32
  | .segment .. => 0
  | .probe d _ _ => one (s.flow.tcp ≠ none ∧ (s.peer d).last.map Sent.behind = some false ∧ (s.peer d).next ≠ 0)

theorem step_self {s : Sys α} (h : Inv s) (e : Ev) :
    Tracked (step s e).flow e.dir (e.act (s.peer e.dir)) ∧
      (counters (step s e).flow e.dir).pktKeepAlive = (counters s.flow e.dir).pktKeepAlive + heardNow s e := by
  cases e with
  | segment d flags window len =>
    obtain ⟨ht, hk⟩ := @tracked_send α s.flow (s.peer d) ⟨(s.peer d).next, window, flags, len, d⟩ (h d) rfl
    exact ⟨ht, hk.trans (UInt32.add_zero _).symm⟩
  | probe d window q =>
    exact @tracked_probe α s.flow (s.peer d) ⟨(s.peer d).next - 1, window, q.flags, if q.byte then 1 else 0, d⟩ q
      (h d) rfl rfl rfl

theorem inv_step (s : Sys α) (e : Ev) (h : Inv s) : Inv (step s e) := by
  intro d
  by_cases hd : e.dir = d
  · subst hd
    rw [show (step s e).peer e.dir = e.act (s.peer e.dir) from if_pos rfl]
    exact (step_self h e).1
  · obtain ⟨hs, hc, hp⟩ := step_other s hd
    rw [hp]
    exact ⟨hc ▸ (h d).quiet, fun x hx => (h d).seq x (hs ▸ hx)⟩

/-- Whatever the run, no segment is taken for a retransmission, for reordered or for the one after a loss. -/
theorem quiet_always (f : Flow α) (allocOk : Bool) (seq : Bool → UInt32) (es : List Ev) :
    Always step (fun s => ∀ d, Quiet (counters s.flow d)) (start f allocOk seq) es :=
  always_of_inv step (fun s e h (_ : True) => inv_step s e h) (fun _ h d => (h d).quiet) (inv_start f allocOk seq)
    (along_of_forall step fun _ _ => trivial)

def Counted (s : Sys α) : Prop := ∀ d, (counters s.flow d).pktKeepAlive.toNat = (s.peer d).probes

/-- The counter of the probing direction keeps up with the probes exactly if the probe is heard. -/
theorem counted_step {s : Sys α} (h : Inv s) (hc : Counted s) (e : Ev) : Counted (step s e) ↔ Heard s e := by
  have hself := (step_self h e).2
  have hpeer : (step s e).peer e.dir = e.act (s.peer e.dir) := if_pos rfl
  have hall : Counted (step s e) ↔ (counters (step s e).flow e.dir).pktKeepAlive.toNat = (e.act (s.peer e.dir)).probes := by
    rw [← hpeer]
    refine ⟨fun hh => hh e.dir, fun hh d => ?_⟩
    by_cases hd : e.dir = d
    · exact hd ▸ hh
    · obtain ⟨-, hcd, hpd⟩ := step_other s hd
      rw [hcd, hpd]
      exact hc d
  rw [hall, hself]
  cases e with
  | segment d flags window len =>
    refine iff_of_true ?_ trivial
    rw [show heardNow s (.segment d flags window len) = 0 from rfl, UInt32.add_zero]
    exact hc d
  | probe d window q =>
    show _ = (s.peer d).probes + 1 ↔ _
    have hcd : (counters s.flow d).pktKeepAlive.toNat = (s.peer d).probes := hc d
    have hnow : heardNow s (.probe d window q) =
        one (s.flow.tcp ≠ none ∧ (s.peer d).last.map Sent.behind = some false ∧ (s.peer d).next ≠ 0) := rfl
    rw [hnow, one]
    by_cases hh : s.flow.tcp ≠ none ∧ (s.peer d).last.map Sent.behind = some false ∧ (s.peer d).next ≠ 0
    · rw [ if_pos (decide_eq_true hh), UInt32.toNat_add]
      show ((counters s.flow d).pktKeepAlive.toNat + 1) % 2 ^ 32 = _ ↔ _
      rw [hcd]
      refine ⟨fun he => ⟨hh.1, hh.2.1, hh.2.2, ?_⟩, fun he => Nat.mod_eq_of_lt he.2.2.2⟩
      rw [← he]
      exact Nat.mod_lt _ (Nat.two_pow_pos 32)
    · rw [if_neg (mt of_decide_eq_true hh), UInt32.add_zero]
      show (counters s.flow d).pktKeepAlive.toNat = _ ↔ _
      rw [hcd]
      exact iff_of_false (Nat.ne_of_lt (Nat.lt_succ_self _)) fun hx => hh ⟨hx.1, hx.2.1, hx.2.2.1⟩

/-- For every run of segments and probes of the two peers, from any numbers: nothing but the probes is
    counted and all of them, in every state, exactly when every probe is heard. -/
theorem counters_exact_iff (f : Flow α) (allocOk : Bool) (seq : Bool → UInt32) (es : List Ev) :
    Always step Law (start f allocOk seq) es ↔ Along step Heard (start f allocOk seq) es := by
  have h0 : Inv (start f allocOk seq) ∧ Counted (start f allocOk seq) := by
    refine ⟨inv_start f allocOk seq, fun d => ?_⟩
    cases allocOk <;> cases d <;> rfl
  refine always_iff_along step (fun s e (h : Inv s ∧ Counted s) hok => ⟨inv_step s e h.1, ?_⟩)
    (fun _ h d => ⟨(h.1 d).quiet, h.2 d⟩) (fun s e h hbad hlaw => hbad ?_) h0
  · exact (counted_step h.1 h.2 e).mpr hok
  · exact (counted_step h.1 h.2 e).mp fun d => (hlaw d).2

/-- The client sends one byte and then probes twice without a byte. -/
theorem second_probe_uncounted :
    ¬ ∀ (α : Type) (f : Flow α) (allocOk : Bool) (seq : Bool → UInt32) (es : List Ev),
      Always step Law (start f allocOk seq) es := by
  intro h
  let f : Flow Unit := newFlow ⟨(), fun _ _ => (), fun _ _ => none, fun _ => (0, none)⟩ ⟨1, 0, none⟩ ⟨2, 0, none⟩ 40000 443
    [] [] fun _ => none
  have hlast := always_last _ (h Unit f true (fun _ => 1000)
    [.segment true 0 512 1, .probe true 512 ⟨0, rfl, false⟩, .probe true 512 ⟨0, rfl, false⟩]) true
  have hkeep := hlast.2
  revert hkeep
  decide

end Ntopng.Flows.Streams
