/-
  Ntopng.Flows.SeqNum — what TCP sequence numbers say about lost, repeated and reordered
  segments (`Flow::updateTcpSeqNum`, src/Flow.cpp; its model is in `Ntopng.Flows.Swap`).

  A segment is judged by the numbers stored for its direction: that of the last segment and
  the one expected next, where 0 stands for none. The comparisons are plain ones on numbers
  that wrap at `2 ^ 32`.

  Two runs are compared, on the same segments, the second with one constant added to the
  client's numbers and another to the server's. Proved: both runs count the same all along
  exactly when no segment is disturbed, that is when neither 0 nor the wrap comes between
  the numbers a comparison looks at; and exchanging the direction of all segments always
  exchanges the counters (`counters_unchanged_iff`). A segment repeated across the wrap is
  missed (`repeat_at_wrap_uncounted`).
-/

import Ntopng.Flows.Swap

namespace Ntopng.Flows.SeqNum

open Ntopng.Lib.Run Ntopng.Flows.Swap

/-! ## Segments -/

structure Segment where
  seqNum : UInt32
  window : UInt16
  flags : UInt8
  payloadLen : UInt16
  src2dst : Bool
  deriving DecidableEq, Repr

namespace Segment

variable (g : Segment)

def next : UInt32 := getNextTcpSeq g.flags g.seqNum g.payloadLen.toUInt32

def add (k : UInt32) : Segment := { g with seqNum := g.seqNum + k }

/-- `a` is the client's constant, `b` the server's. -/
def shift (a b : UInt32) : Segment := g.add (if g.src2dst then a else b)

def exchange : Segment := { g with src2dst := !g.src2dst }

end Segment

variable {α : Type}

def feed (f : Flow α) (g : Segment) : Flow α := f.updateTcpSeqNum g.seqNum g.window g.flags g.payloadLen g.src2dst

/-- A flow before its first segment. -/
def fresh (f : Flow α) (allocOk : Bool) : Flow α :=
  ({ f with
    tcp := none
    stats := f.stats.update fun s => { s with cli2srvTcpStats := .zero, srv2cliTcpStats := .zero } }).allocTCPStats allocOk

/-- The anomalies counted in a direction. -/
def counters (f : Flow α) (src2dst : Bool) : FlowTCPPacketStats :=
  if src2dst then f.stats.cli2srvTcpStats else f.stats.srv2cliTcpStats

def stored (f : Flow α) (src2dst : Bool) : Option TCPSeqNum :=
  f.tcp.map fun t => if src2dst then t.tcpSeqS2D else t.tcpSeqD2S

/-! ## Two runs side by side -/

/-- The second flow gets the segments with the constants added. -/
def step (a b : UInt32) (s : Flow α × Flow α) (g : Segment) : Flow α × Flow α :=
  (feed s.1 g, feed s.2 (g.shift a b))

def Same (s : Flow α × Flow α) : Prop := ∀ d, counters s.1 d = counters s.2 d

/-- The segment continues the last one, or repeats its last byte's number. -/
def Expected (s : TCPSeqNum) (g : Segment) : Prop := s.next = g.seqNum.toUInt64 ∨ s.next = (g.seqNum - 1).toUInt64

def KeepAlive (s : TCPSeqNum) (g : Segment) : Prop :=
  g.seqNum.toUInt64 = s.next - 1 ∧ (g.payloadLen = 0 ∨ g.payloadLen = 1) ∧
    g.flags &&& (thSyn ||| thFin ||| thRst) = 0

/-- Nothing is counted for the segment: it is expected, or old while nothing came after the last one. -/
def Passed (s : TCPSeqNum) (g : Segment) : Prop :=
  Expected s g ∨ (¬ KeepAlive s g ∧ g.seqNum.toUInt64 ≤ s.last ∧ s.next = s.last)

/-- `s` and `g` are what one run stores and receives, `s'` and `g'` what the other does. If 0 is what one of
    them expects, the other counts nothing; otherwise a segment that is neither expected nor a keep-alive
    lies on the same side of the last number, and beyond it of the next one, in both. -/
def Undisturbed (s s' : TCPSeqNum) (g g' : Segment) : Prop :=
  if s.next = 0 then s'.next = 0 ∨ Passed s' g'
  else if s'.next = 0 then Passed s g
  else Expected s g ∨ KeepAlive s g ∨
    ((g.seqNum.toUInt64 ≤ s.last ↔ g'.seqNum.toUInt64 ≤ s'.last) ∧
      (s.last < g.seqNum.toUInt64 → (s.next < g.seqNum.toUInt64 ↔ s'.next < g'.seqNum.toUInt64)))

def Calm (a b : UInt32) (s : Flow α × Flow α) (g : Segment) : Prop :=
  ∀ x x', stored s.1 g.src2dst = some x → stored s.2 g.src2dst = some x' → Undisturbed x x' g (g.shift a b)

/-! ## The verdict on a segment -/

inductive Verdict where
  | passed
  | keepAlive
  | retransmitted
  | lost
  | outOfOrder
  deriving DecidableEq, Repr

instance (s : TCPSeqNum) (g : Segment) : Decidable (Expected s g) :=
  inferInstanceAs (Decidable (_ ∨ _))

instance (s : TCPSeqNum) (g : Segment) : Decidable (KeepAlive s g) :=
  inferInstanceAs (Decidable (_ ∧ _ ∧ _))

def verdict (s : TCPSeqNum) (g : Segment) : Verdict :=
  if s.next = 0 ∨ Expected s g then .passed
  else if KeepAlive s g then .keepAlive
  else if g.seqNum.toUInt64 ≤ s.last then (if s.next = s.last then .passed else .retransmitted)
  else if s.next < g.seqNum.toUInt64 then .lost
  else .outOfOrder

def Verdict.issues : Verdict → SeqIssues
  | passed => ⟨0, 0, 0, 0⟩
  | keepAlive => ⟨1, 0, 0, 0⟩
  | retransmitted => ⟨0, 0, 0, 1⟩
  | lost => ⟨0, 1, 0, 0⟩
  | outOfOrder => ⟨0, 0, 1, 0⟩

/-- The numbers stored after the segment. -/
def after (s : TCPSeqNum) (g : Segment) : TCPSeqNum :=
  match verdict s g with
  | .retransmitted => ⟨s.last, if g.seqNum.toUInt64 = s.last then g.next.toUInt64 else s.next⟩
  | .outOfOrder => ⟨if (g.seqNum - 1).toUInt64 > s.last then g.seqNum.toUInt64 else s.last, g.next.toUInt64⟩
  | _ => ⟨g.seqNum.toUInt64, g.next.toUInt64⟩

theorem segment_eq (s : TCPSeqNum) (g : Segment) :
    s.segment g.seqNum g.next g.flags g.payloadLen = (after s g, (verdict s g).issues) := by
  have hpos : s.next > 0 ↔ ¬ s.next = 0 := by
    rw [gt_iff_lt, UInt64.lt_iff_toNat_lt, ← UInt64.toNat_inj]
    exact Nat.pos_iff_ne_zero
  have hle : ∀ x : UInt64, (x = s.last ∨ x < s.last) ↔ x ≤ s.last := by
    intro x
    rw [← UInt64.toNat_inj, UInt64.lt_iff_toNat_lt, UInt64.le_iff_toNat_le]
    omega
  unfold TCPSeqNum.segment
  simp only [hpos, hle]
  by_cases h0 : s.next = 0 ∨ Expected s g
  · have hv : verdict s g = .passed := by rw [verdict, if_pos h0]
    rw [if_neg (fun h => h0.elim h.1 fun he => he.elim h.2.1 h.2.2), after, hv]
    rfl
  · simp only [not_or] at h0
    have hout : ¬ s.next = 0 ∧ s.next ≠ g.seqNum.toUInt64 ∧ s.next ≠ (g.seqNum - 1).toUInt64 :=
      ⟨h0.1, fun h => h0.2 (.inl h), fun h => h0.2 (.inr h)⟩
    have hno : ¬ (s.next = 0 ∨ Expected s g) := not_or.mpr h0
    rw [if_pos hout]
    by_cases hk : KeepAlive s g
    · have hv : verdict s g = .keepAlive := by rw [verdict, if_neg hno, if_pos hk]
      have hk' : g.seqNum.toUInt64 = s.next - 1 ∧ (g.payloadLen = 0 ∨ g.payloadLen = 1) ∧
        g.flags &&& (thSyn ||| thFin ||| thRst) = 0 := hk
      rw [if_pos hk', after, hv]
      rfl
    have hk' : ¬ (g.seqNum.toUInt64 = s.next - 1 ∧ (g.payloadLen = 0 ∨ g.payloadLen = 1) ∧
      g.flags &&& (thSyn ||| thFin ||| thRst) = 0) := hk
    rw [if_neg hk']
    by_cases hl : g.seqNum.toUInt64 ≤ s.last
    · rw [if_pos hl]
      by_cases hn : s.next = s.last
      · have hv : verdict s g = .passed := by rw [verdict, if_neg hno, if_neg hk, if_pos hl, if_pos hn]
        rw [if_neg (fun h => h hn), after, hv]
        rfl
      · have hv : verdict s g = .retransmitted := by rw [verdict, if_neg hno, if_neg hk, if_pos hl, if_neg hn]
        rw [if_pos hn, after, hv]
        rfl
    rw [if_neg hl]
    by_cases hn : s.next < g.seqNum.toUInt64
    · have hv : verdict s g = .lost := by rw [verdict, if_neg hno, if_neg hk, if_neg hl, if_pos hn]
      rw [if_pos hn, after, hv]
      rfl
    · have hv : verdict s g = .outOfOrder := by rw [verdict, if_neg hno, if_neg hk, if_neg hl, if_neg hn]
      rw [if_neg hn, after, hv]
      rfl

/-- A segment changes the numbers and the counters of its own direction only. -/
theorem feed_spec (f : Flow α) (g : Segment) (d : Bool) :
    stored (feed f g) d = (if g.src2dst = d then (stored f d).map (after · g) else stored f d) ∧
      counters (feed f g) d =
        match stored f d with
        | some s =>
          if g.src2dst = d then
            (counters f d).inc (verdict s g).issues.retx (verdict s g).issues.ooo (verdict s g).issues.lost
              (verdict s g).issues.keepAlive
          else counters f d
        | none => counters f d := by
  cases ht : f.tcp with
  | none =>
    have hf : feed f g = f := by simp only [feed, Flow.updateTcpSeqNum, ht]
    have hs : stored f d = none := by rw [stored, ht]; rfl
    rw [hf, hs]
    simp
  | some t =>
    have hnext : ∀ s : TCPSeqNum, s.segment g.seqNum (getNextTcpSeq g.flags g.seqNum g.payloadLen.toUInt32) g.flags
        g.payloadLen = (after s g, (verdict s g).issues) := fun s => segment_eq s g
    have hs : stored f d = some (if d then t.tcpSeqS2D else t.tcpSeqD2S) := by rw [stored, ht]; rfl
    rw [hs]
    simp only [stored, counters, feed, Flow.updateTcpSeqNum, ht, hnext, FlowTrafficStats.update,
      PartializableFlowTrafficStats.incTcpStats]
    cases d <;> cases g.src2dst <;> exact ⟨rfl, rfl⟩

/-! ## Moving the numbers -/

/-- What the code stores: 32-bit numbers. -/
def ofNums (last next : UInt32) : TCPSeqNum := ⟨last.toUInt64, next.toUInt64⟩

/-- Both have seen no segment, or the second has the first's numbers moved by `k`. -/
def Moved (k : UInt32) (s s' : TCPSeqNum) : Prop :=
  (s = ofNums 0 0 ∧ s' = ofNums 0 0) ∨ ∃ last next, s = ofNums last next ∧ s' = ofNums (last + k) (next + k)

theorem add_right_comm32 (a b c : UInt32) : a + b + c = a + c + b := by
  rw [UInt32.add_assoc, UInt32.add_comm b, UInt32.add_assoc]

theorem next_zero_iff {l n : UInt32} : (ofNums l n).next = 0 ↔ n = 0 :=
  (UInt32.toUInt64_inj (b := 0)).trans Iff.rfl

theorem expected_iff {l n : UInt32} {g : Segment} : Expected (ofNums l n) g ↔ n = g.seqNum ∨ n = g.seqNum - 1 := by
  simp only [Expected, ofNums, UInt32.toUInt64_inj]

theorem pred_next_iff {n x : UInt32} (h : n ≠ 0) : x.toUInt64 = n.toUInt64 - 1 ↔ x = n - 1 := by
  have hn : n.toNat ≠ 0 := fun h0 => h (UInt32.toNat_inj.mp (by simpa using h0))
  have h64 : (1 : UInt64) ≤ n.toUInt64 := by
    rw [UInt64.le_iff_toNat_le, UInt32.toNat_toUInt64]
    exact Nat.one_le_iff_ne_zero.mpr hn
  have h32 : (1 : UInt32) ≤ n := UInt32.le_iff_toNat_le.mpr (Nat.one_le_iff_ne_zero.mpr hn)
  rw [← UInt64.toNat_inj, ← UInt32.toNat_inj, UInt64.toNat_sub_of_le _ _ h64, UInt32.toNat_sub_of_le _ _ h32,
    UInt32.toNat_toUInt64, UInt32.toNat_toUInt64]
  rfl

/-- Moving both sides leaves an expected number expected. -/
theorem expected_add {n x k : UInt32} : (n + k = x + k ∨ n + k = x + k - 1) ↔ (n = x ∨ n = x - 1) := by
  rw [UInt32.add_left_inj, show x + k - 1 = x - 1 + k by rw [UInt32.sub_eq_add_neg, UInt32.sub_eq_add_neg, add_right_comm32],
    UInt32.add_left_inj]

theorem keepAlive_iff {l n : UInt32} {g : Segment} (h : n ≠ 0) :
    KeepAlive (ofNums l n) g ↔ g.seqNum = n - 1 ∧ (g.payloadLen = 0 ∨ g.payloadLen = 1) ∧
      g.flags &&& (thSyn ||| thFin ||| thRst) = 0 := by
  simp only [KeepAlive, ofNums, pred_next_iff h]

theorem keepAlive_add {l n k : UInt32} {g : Segment} (h : n ≠ 0) (h' : n + k ≠ 0) :
    KeepAlive (ofNums (l + k) (n + k)) (g.add k) ↔ KeepAlive (ofNums l n) g := by
  rw [keepAlive_iff h, keepAlive_iff h']
  simp only [Segment.add]
  rw [show n + k - 1 = n - 1 + k by rw [UInt32.sub_eq_add_neg, UInt32.sub_eq_add_neg, add_right_comm32],
    UInt32.add_left_inj]

theorem next_add (g : Segment) (k : UInt32) : (g.add k).next = g.next + k := by
  simp only [Segment.next, Segment.add, getNextTcpSeq]
  rw [add_right_comm32 g.seqNum k, add_right_comm32 _ k g.payloadLen.toUInt32]
  rfl

theorem passed_iff {s : TCPSeqNum} {g : Segment} (h : s.next ≠ 0) : verdict s g = .passed ↔ Passed s g := by
  unfold verdict Passed
  by_cases he : Expected s g
  · simp [he]
  by_cases hk : KeepAlive s g
  · simp [h, he, hk]
  by_cases hl : g.seqNum.toUInt64 ≤ s.last
  · by_cases hn : s.next = s.last
    · simp [hl, he, hk, hn]
    · simp [h, hl, he, hk, hn]
  · simp only [h, he, hk, hl, or_self, if_false, false_and, and_false, iff_false]
    split <;> exact Verdict.noConfusion

theorem verdict_zero {s : TCPSeqNum} {g : Segment} (h : s.next = 0) : verdict s g = .passed := by
  rw [verdict, if_pos (.inl h)]

/-- Past the tests for an expected segment and a keep-alive, the verdict is a matter of order. -/
theorem verdict_order {s : TCPSeqNum} {g : Segment} (h : s.next ≠ 0) (he : ¬ Expected s g) (hk : ¬ KeepAlive s g) :
    verdict s g =
      if g.seqNum.toUInt64 ≤ s.last then (if s.next = s.last then .passed else .retransmitted)
      else if s.next < g.seqNum.toUInt64 then .lost
      else .outOfOrder := by
  rw [verdict, if_neg (not_or.mpr ⟨h, he⟩), if_neg hk]

/-- Where the order decides, it decides alike exactly when each side of the last number agrees, and beyond it
    each side of the next one. -/
theorem order_iff {old old' above above' idle : Prop} [Decidable old] [Decidable old'] [Decidable above]
    [Decidable above'] [Decidable idle] :
    ((if old then (if idle then Verdict.passed else .retransmitted) else if above then .lost else .outOfOrder) =
      if old' then (if idle then Verdict.passed else .retransmitted) else if above' then .lost else .outOfOrder) ↔
      (old ↔ old') ∧ (¬ old → (above ↔ above')) := by
  by_cases ho : old <;> by_cases ho' : old' <;> by_cases ha : above <;> by_cases ha' : above' <;>
    by_cases hi : idle <;> simp [ho, ho', ha, ha', hi]

/-- A segment and its moved copy get the same verdict exactly when the move does not disturb it. -/
theorem verdict_eq_iff (last next k : UInt32) (g : Segment) :
    verdict (ofNums last next) g = verdict (ofNums (last + k) (next + k)) (g.add k) ↔
      Undisturbed (ofNums last next) (ofNums (last + k) (next + k)) g (g.add k) := by
  generalize hs : ofNums last next = s
  generalize hs' : ofNums (last + k) (next + k) = s'
  have hz : s.next = 0 ↔ next = 0 := hs ▸ next_zero_iff
  have hz' : s'.next = 0 ↔ next + k = 0 := hs' ▸ next_zero_iff
  unfold Undisturbed
  by_cases h0 : s.next = 0
  · rw [if_pos h0, verdict_zero h0]
    by_cases h0' : s'.next = 0
    · exact iff_of_true (verdict_zero h0').symm (.inl h0')
    · rw [eq_comm, passed_iff h0', or_iff_right h0']
  rw [if_neg h0]
  by_cases h0' : s'.next = 0
  · rw [if_pos h0', verdict_zero h0', passed_iff h0]
  rw [if_neg h0']
  have hexp : Expected s' (g.add k) ↔ Expected s g := by
    rw [← hs, ← hs', expected_iff, expected_iff]
    exact expected_add
  have hkeep : KeepAlive s' (g.add k) ↔ KeepAlive s g := by
    rw [← hs, ← hs']
    exact keepAlive_add (mt hz.mpr h0) (mt hz'.mpr h0')
  have hnl : s'.next = s'.last ↔ s.next = s.last := by
    rw [← hs, ← hs']
    simp only [ofNums, UInt32.toUInt64_inj, UInt32.add_left_inj]
  by_cases he : Expected s g
  · have hv : verdict s g = .passed := by rw [verdict, if_pos (.inr he)]
    have hv' : verdict s' (g.add k) = .passed := by rw [verdict, if_pos (.inr (hexp.mpr he))]
    exact iff_of_true (hv.trans hv'.symm) (.inl he)
  by_cases hk : KeepAlive s g
  · have hv : verdict s g = .keepAlive := by rw [verdict, if_neg (not_or.mpr ⟨h0, he⟩), if_pos hk]
    have hv' : verdict s' (g.add k) = .keepAlive := by
      rw [verdict, if_neg (not_or.mpr ⟨h0', mt hexp.mp he⟩), if_pos (hkeep.mpr hk)]
    exact iff_of_true (hv.trans hv'.symm) (.inr (.inl hk))
  rw [verdict_order h0 he hk, verdict_order h0' (mt hexp.mp he) (mt hkeep.mp hk)]
  simp only [he, hk, false_or, hnl]
  have hlt : s.last < g.seqNum.toUInt64 ↔ ¬ g.seqNum.toUInt64 ≤ s.last := by
    rw [UInt64.lt_iff_toNat_lt, UInt64.le_iff_toNat_le]
    omega
  rw [hlt]
  exact order_iff

theorem pred_lt_add {l x k : UInt32} (h : l < x) (h' : l + k < x + k) : l < x - 1 ↔ l + k < x + k - 1 := by
  have hl := l.toNat_lt
  have hx := x.toNat_lt
  have hk := k.toNat_lt
  rw [UInt32.lt_iff_toNat_lt] at h
  rw [UInt32.lt_iff_toNat_lt, UInt32.toNat_add, UInt32.toNat_add] at h'
  have h1 : (1 : UInt32) ≤ x := by
    rw [UInt32.le_iff_toNat_le]
    show 1 ≤ x.toNat
    omega
  have h1' : (1 : UInt32) ≤ x + k := by
    rw [UInt32.le_iff_toNat_le, UInt32.toNat_add]
    show 1 ≤ _
    omega
  rw [UInt32.lt_iff_toNat_lt, UInt32.lt_iff_toNat_lt, UInt32.toNat_sub_of_le _ _ h1, UInt32.toNat_sub_of_le _ _ h1',
    UInt32.toNat_add, UInt32.toNat_add]
  show l.toNat < x.toNat - 1 ↔ _ < _ - 1
  omega

/-- What is stored after an undisturbed segment and its moved copy is moved as well. -/
theorem after_moved {last next k : UInt32} {g : Segment}
    (h : verdict (ofNums last next) g = verdict (ofNums (last + k) (next + k)) (g.add k)) :
    Moved k (after (ofNums last next) g) (after (ofNums (last + k) (next + k)) (g.add k)) := by
  refine .inr ?_
  unfold after
  rw [← h, next_add]
  cases hv : verdict (ofNums last next) g with
  | passed => exact ⟨g.seqNum, g.next, rfl, rfl⟩
  | keepAlive => exact ⟨g.seqNum, g.next, rfl, rfl⟩
  | lost => exact ⟨g.seqNum, g.next, rfl, rfl⟩
  | retransmitted =>
    simp only [ofNums, Segment.add, UInt32.toUInt64_inj, UInt32.add_left_inj]
    by_cases hx : g.seqNum = last
    · simp only [hx, if_true]
      exact ⟨last, g.next, rfl, rfl⟩
    · simp only [hx, if_false]
      exact ⟨last, next, rfl, rfl⟩
  | outOfOrder =>
    have hbeyond : ∀ {l n : UInt32} {g : Segment}, verdict (ofNums l n) g = .outOfOrder → l < g.seqNum := by
      intro l n g hv
      by_contra hle
      have hle' : g.seqNum.toUInt64 ≤ (ofNums l n).last :=
        UInt32.toUInt64_le.mpr (UInt32.le_iff_toNat_le.mpr (Nat.le_of_not_lt fun hc => hle (UInt32.lt_iff_toNat_lt.mpr hc)))
      unfold verdict at hv
      split at hv
      · cases hv
      split at hv
      · cases hv
      split at hv <;> cases hv
    have hpred := pred_lt_add (hbeyond hv) (hbeyond (h ▸ hv))
    simp only [ofNums, Segment.add, gt_iff_lt, UInt32.toUInt64_lt]
    by_cases hx : last < g.seqNum - 1
    · rw [if_pos hx, if_pos (hpred.mp hx)]
      exact ⟨g.seqNum, g.next, rfl, rfl⟩
    · rw [if_neg hx, if_neg (mt hpred.mpr hx)]
      exact ⟨last, g.next, rfl, rfl⟩

/-! ## The two runs -/

/-- The two flows count the same, and what the second stores is moved. -/
def Inv (a b : UInt32) (s : Flow α × Flow α) : Prop :=
  ∀ d, counters s.1 d = counters s.2 d ∧
    ((stored s.1 d = none ∧ stored s.2 d = none) ∨
      ∃ x x', stored s.1 d = some x ∧ stored s.2 d = some x' ∧ Moved (if d then a else b) x x')

theorem inc_zero (t : FlowTCPPacketStats) : t.inc 0 0 0 0 = t := by
  simp [FlowTCPPacketStats.inc]

/-- Different verdicts are counted differently. -/
theorem issues_inj (t : FlowTCPPacketStats) {v v' : Verdict}
    (h : t.inc v.issues.retx v.issues.ooo v.issues.lost v.issues.keepAlive =
      t.inc v'.issues.retx v'.issues.ooo v'.issues.lost v'.issues.keepAlive) : v = v' := by
  have hr := congrArg FlowTCPPacketStats.pktRetr h
  have ho := congrArg FlowTCPPacketStats.pktOOO h
  have hl := congrArg FlowTCPPacketStats.pktLost h
  have hk := congrArg FlowTCPPacketStats.pktKeepAlive h
  simp only [FlowTCPPacketStats.inc] at hr ho hl hk
  cases v <;> cases v' <;> simp_all [Verdict.issues, eq_comm]

theorem unseen_verdict (g : Segment) : verdict (ofNums 0 0) g = .passed := verdict_zero rfl

/-- Two segments, moved or both the first of their direction: same verdict exactly if undisturbed, and then moved. -/
theorem moved_step {k : UInt32} {s s' : TCPSeqNum} (h : Moved k s s') (g : Segment) :
    (verdict s g = verdict s' (g.add k) ↔ Undisturbed s s' g (g.add k)) ∧
      (verdict s g = verdict s' (g.add k) → Moved k (after s g) (after s' (g.add k))) := by
  rcases h with ⟨rfl, rfl⟩ | ⟨last, next, rfl, rfl⟩
  · have hz : (ofNums 0 0).next = 0 := rfl
    refine ⟨iff_of_true ((unseen_verdict g).trans (unseen_verdict _).symm) ?_, fun _ => ?_⟩
    · rw [Undisturbed, if_pos hz]
      exact .inl hz
    · refine .inr ⟨g.seqNum, g.next, ?_, ?_⟩
      · rw [after, unseen_verdict]
        rfl
      · rw [after, unseen_verdict, next_add]
        rfl
  · exact ⟨verdict_eq_iff .., after_moved⟩

variable {a b : UInt32}

theorem inv_fresh (f : Flow α) (allocOk : Bool) : Inv a b (fresh f allocOk, fresh f allocOk) := by
  intro d
  refine ⟨rfl, ?_⟩
  cases allocOk with
  | false => exact .inl ⟨rfl, rfl⟩
  | true =>
    have hs : stored (fresh f true) d = some (ofNums 0 0) := by cases d <;> rfl
    exact .inr ⟨_, _, hs, hs, .inl ⟨rfl, rfl⟩⟩

theorem step_iff {s : Flow α × Flow α} (h : Inv a b s) (g : Segment) :
    (Calm a b s g → Inv a b (step a b s g)) ∧ (¬ Calm a b s g → ¬ Same (step a b s g)) := by
  obtain ⟨hc, hst⟩ := h g.src2dst
  have hdir : (g.shift a b).src2dst = g.src2dst := rfl
  rcases hst with ⟨hn, hn'⟩ | ⟨x, x', hx, hx', hmoved⟩
  · -- without memory for the numbers nothing is judged
    have hcalm : Calm a b s g := fun y y' hy _ => by rw [hn] at hy; cases hy
    refine ⟨fun _ d => ?_, fun hno => absurd hcalm hno⟩
    obtain ⟨h1, h2⟩ := feed_spec s.1 g d
    obtain ⟨h1', h2'⟩ := feed_spec s.2 (g.shift a b) d
    simp only [step, h1, h2, h1', h2', hdir]
    by_cases hd : g.src2dst = d
    · subst hd
      rw [hn, hn']
      exact ⟨hc, .inl ⟨by simp, by simp⟩⟩
    · simp only [hd, if_false]
      obtain ⟨hcd, hstd⟩ := h d
      rcases hstd with ⟨hnd, hnd'⟩ | ⟨y, y', hy, hy', hm⟩
      · rw [hnd, hnd']
        exact ⟨hcd, .inl ⟨rfl, rfl⟩⟩
      · rw [hy, hy']
        exact ⟨hcd, .inr ⟨y, y', rfl, rfl, hm⟩⟩
  · obtain ⟨hiff, hafter⟩ := moved_step hmoved g
    have hcalm : Calm a b s g ↔ verdict x g = verdict x' (g.shift a b) := by
      rw [Segment.shift, hiff]
      constructor
      · intro hcm
        exact hcm x x' hx hx'
      · intro hu y y' hy hy'
        rw [hx] at hy
        rw [hx'] at hy'
        cases hy
        cases hy'
        exact hu
    rw [hcalm]
    refine ⟨fun hv d => ?_, fun hv hsame => hv ?_⟩
    · obtain ⟨h1, h2⟩ := feed_spec s.1 g d
      obtain ⟨h1', h2'⟩ := feed_spec s.2 (g.shift a b) d
      simp only [step, h1, h2, h1', h2', hdir]
      by_cases hd : g.src2dst = d
      · subst hd
        rw [hx, hx']
        simp only [if_true, ← hv]
        refine ⟨by rw [hc], .inr ⟨_, _, rfl, rfl, hafter hv⟩⟩
      · simp only [hd, if_false]
        obtain ⟨hcd, hstd⟩ := h d
        rcases hstd with ⟨hnd, hnd'⟩ | ⟨y, y', hy, hy', hm⟩
        · rw [hnd, hnd']
          exact ⟨hcd, .inl ⟨rfl, rfl⟩⟩
        · rw [hy, hy']
          exact ⟨hcd, .inr ⟨y, y', rfl, rfl, hm⟩⟩
    · have hs := hsame g.src2dst
      simp only [step, (feed_spec s.1 g g.src2dst).2, (feed_spec s.2 (g.shift a b) g.src2dst).2, hdir, hx, hx', if_true,
        ← hc] at hs
      exact issues_inj _ hs

theorem same_of_inv {s : Flow α × Flow α} (h : Inv a b s) : Same s := fun d => (h d).1

/-! ## Exchanging the direction -/

/-- The counters and stored numbers of one flow are those of the other with the directions exchanged. -/
def Mirrored (f f' : Flow α) : Prop := ∀ d, counters f' d = counters f (!d) ∧ stored f' d = stored f (!d)

theorem mirrored_step {f f' : Flow α} (h : Mirrored f f') (g : Segment) : Mirrored (feed f g) (feed f' g.exchange) := by
  intro d
  have hdir : (g.exchange.src2dst = d) ↔ (g.src2dst = !d) := by
    show (!g.src2dst) = d ↔ _
    cases d <;> cases g.src2dst <;> decide
  obtain ⟨h1, h2⟩ := feed_spec f g (!d)
  obtain ⟨h1', h2'⟩ := feed_spec f' g.exchange d
  obtain ⟨hc, hs⟩ := h d
  rw [h1, h2, h1', h2', hc, hs]
  simp only [hdir]
  exact ⟨rfl, rfl⟩

theorem mirrored_run {f f' : Flow α} (h : Mirrored f f') (gs : List Segment) :
    Mirrored (run feed f gs) (run feed f' (gs.map Segment.exchange)) := by
  induction gs generalizing f f' with
  | nil => exact h
  | cons g gs ih => exact ih (mirrored_step h g)

theorem mirrored_fresh (f : Flow α) (allocOk : Bool) : Mirrored (fresh f allocOk) (fresh f allocOk) := by
  intro d
  cases allocOk <;> cases d <;> exact ⟨rfl, rfl⟩

/-- For every sequence of segments and every two constants: adding the constants leaves the counters of both
    directions as they are after each segment, and exchanging the directions exchanges them, exactly when no
    segment is disturbed. -/
theorem counters_unchanged_iff (f : Flow α) (allocOk : Bool) (a b : UInt32) (gs : List Segment) :
    (Always (step a b) Same (fresh f allocOk, fresh f allocOk) gs ∧
      ∀ d, counters (run feed (fresh f allocOk) (gs.map Segment.exchange)) d =
        counters (run feed (fresh f allocOk) gs) (!d)) ↔
      Along (step a b) (Calm a b) (fresh f allocOk, fresh f allocOk) gs := by
  have hmirror : ∀ d, counters (run feed (fresh f allocOk) (gs.map Segment.exchange)) d =
      counters (run feed (fresh f allocOk) gs) (!d) := fun d => (mirrored_run (mirrored_fresh f allocOk) gs d).1
  rw [and_iff_left hmirror]
  exact always_iff_along (step a b) (fun s g (h : Inv a b s) hok => (step_iff h g).1 hok) (fun s h => same_of_inv h)
    (fun s g h hbad => (step_iff h g).2 hbad) (inv_fresh f allocOk)

/-- Sixteen bytes sent and repeated, first from number 100, then up to the very end of the number space. -/
theorem repeat_at_wrap_uncounted :
    ¬ ∀ (α : Type) (f : Flow α) (allocOk : Bool) (a b : UInt32) (gs : List Segment),
      Always (step a b) Same (fresh f allocOk, fresh f allocOk) gs := by
  intro h
  let f : Flow Unit := newFlow ⟨(), fun _ _ => (), fun _ _ => none, fun _ => (0, none)⟩ ⟨1, 0, none⟩ ⟨2, 0, none⟩ 40000 443
    [] [] fun _ => none
  have hlast := always_last _ (h Unit f true 0xFFFFFF8C 0 [⟨100, 0, 0, 16, true⟩, ⟨100, 0, 0, 16, true⟩])
  have hretr := congrArg FlowTCPPacketStats.pktRetr (hlast true)
  revert hretr
  decide

end Ntopng.Flows.SeqNum
