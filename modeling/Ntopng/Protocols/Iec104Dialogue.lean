/-
  Ntopng.Protocols.Iec104Dialogue — lost and retransmitted APDUs of a dialogue
  (`IEC104Stats::processPacket`, src/IEC104Stats.cpp).

  Each side numbers its type-I APDUs consecutively modulo `2 ^ 15`, and says in every APDU how
  many of the other's it has received, maybe not the latest ones. Type-I APDUs may be removed
  from the capture; the dialogue itself loses nothing. A captured type-I APDU tells how many
  its sender has sent, and how many of the other's it has received: a removed APDU shows in
  the first one captured that goes beyond it, if one captured before does not.

  `Law`: nothing is counted as retransmitted, and as lost, for each side, every removed APDU.

  The code compares both numbers of an APDU with those of the APDU before it, whichever side
  sent that; so what a side acknowledges is taken for what the other one sends. And a new flow
  has seen the number 0 of both.

  Proved (`law_iff_told`): in every state the counters are right as far as removed APDUs have
  shown exactly when every captured APDU is `Told`: read on the lines of the two sides, its
  numbers follow those of the APDU before. The law holds then exactly when all have shown.
-/

import Ntopng.Lib.Run
import Ntopng.Protocols.Iec104

namespace Ntopng.Protocols.Iec104Dialogue

open Ntopng.Lib.Run Ntopng.Protocols.Iec104

/-! ## APDUs -/

/-- From the type id to the end. -/
structure Asdu where
  bytes : List UInt8
  long : 6 ≤ bytes.length
  short : bytes.length ≤ 249

/-- A number in the control field, the low bit 0. -/
def control (n : ℕ) : List UInt8 := [UInt8.ofNat (2 * n % 256), UInt8.ofNat (2 * n / 256)]

def apduI (sendSeq recvSeq : ℕ) (asdu : Asdu) : List UInt8 :=
  [0x68, UInt8.ofNat (4 + asdu.bytes.length)] ++ control sendSeq ++ control recvSeq ++ asdu.bytes

def apduS (recvSeq : ℕ) : List UInt8 := [0x68, 4, 1, 0] ++ control recvSeq

/-! ## Two sides and a capture -/

structure Side where
  /-- The number of its first type-I APDU. -/
  base : ℕ
  sent : ℕ
  /-- Of the other's, in its last APDU. -/
  acked : ℕ
  /-- How many of its the captured type-I APDUs tell of, since there is one. -/
  known : Option ℕ
  /-- Its removed ones, by their place. -/
  waiting : List ℕ
  shown : ℕ
  removed : ℕ
  deriving DecidableEq, Repr

variable {α : Type}

/-- `lag` is how many of the other's APDUs the sender has not received yet, if it has not acknowledged them. -/
inductive Ev (α : Type) where
  | i (client : Bool) (lag : ℕ) (asdu : Asdu) (env : Env α)
  | removed (client : Bool) (lag : ℕ)
  | s (client : Bool) (lag : ℕ) (env : Env α)

structure Sys (α : Type) where
  stats : Stats α
  /-- The client at `true`. -/
  side : Bool → Side
  /-- The numbers of the last captured type-I APDU on the client's and on the server's line; on the latter the
      next one if the server sent it. -/
  seen : ℕ × ℕ

def received (s : Sys α) (client : Bool) (lag : ℕ) : ℕ := max (s.side client).acked ((s.side !client).sent - lag)

def sendSeq (s : Sys α) (client : Bool) : ℕ := ((s.side client).base + (s.side client).sent) % 2 ^ 15

def recvSeq (s : Sys α) (client : Bool) (lag : ℕ) : ℕ := ((s.side !client).base + received s client lag) % 2 ^ 15

/-- The numbers of the APDU that is sent next, that on the client's line first. -/
def onLines (s : Sys α) (client : Bool) (lag : ℕ) : ℕ × ℕ :=
  if client then (sendSeq s client, recvSeq s client lag) else (recvSeq s client lag, sendSeq s client)

/-- How many of the APDUs of side `c` are told of by the one that `client` sends next. -/
def extent (s : Sys α) (client : Bool) (lag : ℕ) (c : Bool) : ℕ :=
  if c = client then (s.side c).sent + 1 else received s client lag

def update (side : Bool → Side) (client : Bool) (p : Side) : Bool → Side := fun c => if c = client then p else side c

def feed (env : Env α) (dir : Bool) (payload : List UInt8) (s : Stats α) : Stats α :=
  (processPacket env dir payload s).getD s

namespace Side

variable (p : Side)

/-- An APDU that is told of, and was not before. -/
def shows (extent i : ℕ) : Bool :=
  match p.known with
  | none => false
  | some k => decide (k ≤ i ∧ i < extent)

/-- How many removed ones show. -/
def showing (extent : ℕ) : ℕ := p.waiting.countP (p.shows extent)

/-- A captured type-I APDU tells of `extent` of its. -/
def see (extent : ℕ) : Side :=
  { p with
    known := some (max (p.known.getD 0) extent)
    waiting := p.waiting.filter fun i => !p.shows extent i
    shown := p.shown + p.showing extent }

/-- It sends one. -/
def send (acked : ℕ) : Side := { p with sent := p.sent + 1, acked := acked }

def remove (acked : ℕ) : Side :=
  { p with sent := p.sent + 1, acked := acked, waiting := p.waiting ++ [p.sent], removed := p.removed + 1 }

def ack (acked : ℕ) : Side := { p with acked := acked }

end Side

def step (s : Sys α) : Ev α → Sys α
  | .i client lag asdu env =>
    let l := onLines s client lag
    let seen (c : Bool) : Side := (s.side c).see (extent s client lag c)
    { stats := feed env client (apduI (sendSeq s client) (recvSeq s client lag) asdu) s.stats
      side := update seen client ((seen client).send (received s client lag))
      seen := (l.1, if client then l.2 else l.2 + 1) }
  | .removed client lag => { s with side := update s.side client ((s.side client).remove (received s client lag)) }
  | .s client lag env =>
    { s with
      stats := feed env client (apduS (recvSeq s client lag)) s.stats
      side := update s.side client ((s.side client).ack (received s client lag)) }

def start (analysis : α) (base : Bool → ℕ) : Sys α :=
  { stats := .new analysis, side := fun c => ⟨base c, 0, 0, none, [], 0, 0⟩, seen := (0, 0) }

structure Law (s : Sys α) : Prop where
  retransmitted : s.stats.retransmittedMsgs = 0
  tx : s.stats.pktLostTx.toNat = (s.side true).removed
  rx : s.stats.pktLostRx.toNat = (s.side false).removed

/-- As far as removed APDUs have shown. -/
structure Counted (s : Sys α) : Prop where
  retransmitted : s.stats.retransmittedMsgs = 0
  tx : s.stats.pktLostTx.toNat = (s.side true).shown
  rx : s.stats.pktLostRx.toNat = (s.side false).shown

/-- One never shows that no captured type-I APDU tells of, or already the first one. -/
def AllShown (s : Sys α) : Prop := ∀ c, (s.side c).waiting = []

/-- From the number expected, `gap` further on; a distance of 32768 is none. -/
def Reaches (expected value gap : ℕ) : Prop :=
  ((value : ℤ) - expected).natAbs = gap ∧ gap ≠ 32768 ∨ ((value : ℤ) - expected).natAbs = 32768 ∧ gap = 0

instance (e v m : ℕ) : Decidable (Reaches e v m) := inferInstanceAs (Decidable (_ ∨ _))

/-- The removed APDUs of a side that show in the next one captured. -/
def gap (s : Sys α) (client : Bool) (lag : ℕ) (c : Bool) : ℕ := (s.side c).showing (extent s client lag c)

/-- The APDU does not repeat both numbers of the one before. Unless those are 0, the number on the client's line
    is one more, and that on the server's line the one to come next, and beyond that only as far as removed
    APDUs show, and the counters have room; if they are 0, none shows. -/
def Told (s : Sys α) : Ev α → Prop
  | .i client lag _ _ =>
    let l := onLines s client lag
    l ≠ s.seen ∧
      (if s.seen = (0, 0) then gap s client lag true = 0
       else Reaches (s.seen.1 + 1) l.1 (gap s client lag true) ∧ (s.side true).shown + gap s client lag true < 2 ^ 32) ∧
      (if s.seen = (0, 0) then gap s client lag false = 0
       else Reaches s.seen.2 l.2 (gap s client lag false) ∧ (s.side false).shown + gap s client lag false < 2 ^ 32)
  | .removed .. => True
  | .s .. => True

/-! ## What an APDU does to the numbers -/

theorem length_apduI (n m : ℕ) (a : Asdu) : (apduI n m a).length = 6 + a.bytes.length := by
  simp only [apduI, control, List.length_append, List.length_cons, List.length_nil]

theorem seqNum_control {n : ℕ} (h : n < 2 ^ 15) :
    seqNum (UInt8.ofNat (2 * n % 256)) (UInt8.ofNat (2 * n / 256)) = UInt16.ofNat n := by
  have hlo : (UInt8.ofNat (2 * n % 256)).toNat = 2 * n % 256 := UInt8.toNat_ofNat_of_lt' (Nat.mod_lt _ (by omega))
  have hhi : (UInt8.ofNat (2 * n / 256)).toNat = 2 * n / 256 := UInt8.toNat_ofNat_of_lt' (by
    show _ < 256
    omega)
  apply UInt16.toNat_inj.mp
  unfold seqNum
  rw [UInt16.toNat_shiftRight, UInt16.toNat_add, UInt16.toNat_shiftLeft, UInt8.toNat_toUInt16, UInt8.toNat_toUInt16, hlo,
    hhi, UInt16.toNat_ofNat_of_lt' (by show n < 65536; omega)]
  show (((2 * n / 256) <<< 8 % 2 ^ 16 + 2 * n % 256) % 2 ^ 16) >>> 1 = n
  rw [Nat.shiftLeft_eq, Nat.shiftRight_eq_div_pow]
  omega

theorem numbersAt_apduI {n m : ℕ} (a : Asdu) (hn : n < 2 ^ 15) (hm : m < 2 ^ 15) :
    numbersAt (apduI n m a) 1 = (UInt16.ofNat n, UInt16.ofNat m) := by
  show (seqNum (UInt8.ofNat (2 * n % 256)) (UInt8.ofNat (2 * n / 256)),
    seqNum (UInt8.ofNat (2 * m % 256)) (UInt8.ofNat (2 * m / 256))) = _
  rw [seqNum_control hn, seqNum_control hm]

/-- A payload that is one APDU. -/
theorem processPacket_single {env : Env α} {dir : Bool} {payload : List UInt8} {s : Stats α} {t : Turn α}
    (hlen : 6 ≤ payload.length) (hstart : byteAt payload 0 = 0x68) (hne : byteAt payload 1 ≠ 0)
    (ht : turn env dir payload (s.countMsg dir) 1 (byteAt payload 1) = some t)
    (hnext : ∀ o, t.next = some o → payload.length ≤ o + 1) : processPacket env dir payload s = some t.stats := by
  unfold processPacket walk
  rw [if_pos ⟨hlen, by rw [get_byteAt (show 0 < payload.length by omega), hstart]⟩]
  obtain ⟨k, hk⟩ : ∃ k, payload.length = k + 2 := ⟨payload.length - 2, by omega⟩
  rw [show loop env dir payload payload.length = loop env dir payload (k + 1 + 1) by rw [hk]]
  unfold loop
  rw [if_pos (show 1 + 1 < payload.length by omega), get_byteAt (show 1 < payload.length by omega)]
  simp only [Option.bind_eq_bind, Option.bind_some, if_neg hne, ht]
  cases ho : t.next with
  | none => rfl
  | some o =>
    have := hnext o ho
    unfold loop
    dsimp only
    rw [if_neg (show ¬ o + 1 < payload.length by omega)]
    rfl

theorem feed_i (env : Env α) (dir : Bool) {n m : ℕ} (a : Asdu) (hn : n < 2 ^ 15) (hm : m < 2 ^ 15) (s : Stats α) :
    (feed env dir (apduI n m a) s).seq = s.seq.next dir (lines dir (UInt16.ofNat n, UInt16.ofNat m)) := by
  have hlen := length_apduI n m a
  have hlong := a.long
  have hshort := a.short
  have hlb : (byteAt (apduI n m a) 1).toNat = 4 + a.bytes.length := UInt8.toNat_ofNat_of_lt' (by
    show _ < 256
    omega)
  have hne : byteAt (apduI n m a) 1 ≠ 0 := by
    intro h0
    rw [h0] at hlb
    have : (0 : UInt8).toNat = 0 := rfl
    omega
  have hc : byteAt (apduI n m a) (1 + 1) &&& 0x01 = 0 := by
    show UInt8.ofNat (2 * n % 256) &&& 1 = 0
    apply UInt8.toNat_inj.mp
    rw [UInt8.toNat_and, UInt8.toNat_ofNat_of_lt' (show 2 * n % 256 < 256 by omega)]
    show 2 * n % 256 &&& 1 = 0
    rw [Nat.and_one_is_mod]
    omega
  obtain ⟨t, ht, hi⟩ := turn_i env dir (s.countMsg dir) (byteAt (apduI n m a) 1) (show 1 + 1 < _ by omega) hc
  rw [countMsg_seq] at hi
  have hnums := numbersAt_apduI a hn hm
  have hnext : ∀ o, t.next = some o → (apduI n m a).length ≤ o + 1 := by
    intro o ho
    cases hi with
    | short | retransmitted | cut => cases ho
    | read _ _ _ s' _ =>
      have ho' : nextAt (apduI n m a) 1 (byteAt (apduI n m a) 1) = some o := ho
      unfold nextAt at ho'
      split at ho'
      · omega
      · cases ho'
  have hone := processPacket_single (by omega) rfl hne ht hnext
  have hfeed : feed env dir (apduI n m a) s = t.stats := by
    unfold feed
    rw [hone]
    rfl
  rw [hfeed]
  unfold Seq.next
  cases hi with
  | short h => exact absurd ⟨by omega, by omega⟩ h
  | retransmitted _ hr s' hq =>
    rw [hnums] at hr
    rw [if_pos hr]
    exact hq
  | cut _ _ hcut => omega
  | read _ hr _ s' hq =>
    rw [hnums] at hr hq
    rw [if_neg hr]
    exact hq

theorem feed_s (env : Env α) (dir : Bool) (m : ℕ) (s : Stats α) : (feed env dir (apduS m) s).seq = s.seq := by
  have hlen : (apduS m).length = 6 := rfl
  obtain ⟨s', ht, hq⟩ := @turn_other α env dir (apduS m) (s.countMsg dir) 1 4
    (show 1 + 1 < 6 by decide) (show (1 : UInt8) &&& 1 ≠ 0 by decide)
  have hone := @processPacket_single α env dir (apduS m) s _ (Nat.le_of_eq hlen.symm) rfl
    (show (4 : UInt8) ≠ 0 by decide) ht
    (fun o ho => by rw [← Option.some.inj ho, hlen]; decide)
  unfold feed
  rw [hone]
  exact hq.trans (countMsg_seq s dir)

/-! ## What is counted between two APDUs -/

theorem toNat_lostBetween {v : UInt16} {e : ℕ} (he : e ≤ 65536) :
    (lostBetween v e).toNat =
      if ((v.toNat : ℤ) - e).natAbs = 32768 then 0 else ((v.toNat : ℤ) - e).natAbs := by
  have hv : v.toNat < 65536 := v.toNat_lt
  unfold lostBetween
  dsimp only
  split
  · rfl
  · exact UInt32.toNat_ofNat_of_lt' (show _ < 4294967296 by omega)

/-- A counter that was right stays right exactly if the distance is what has shown. -/
theorem lost_iff {c : UInt32} {v : UInt16} {e m g : ℕ} (hc : c.toNat = m) (he : e ≤ 65536) :
    (c + lostBetween v e).toNat = m + g ↔ Reaches e v.toNat g ∧ m + g < 2 ^ 32 := by
  have hv : v.toNat < 65536 := v.toNat_lt
  have hlt := c.toNat_lt
  rw [UInt32.toNat_add, toNat_lostBetween he, hc]
  unfold Reaches
  rw [hc] at hlt
  split
  · omega
  · omega

/-! ## One step -/

/-- The numbers last seen of the two directions are those of the last captured type-I APDU. -/
structure Tracked (s : Sys α) : Prop where
  tx : s.stats.seq.tx.toNat = s.seen.1
  rx : s.stats.seq.rx.toNat = s.seen.2

theorem seqs_lt (s : Sys α) (client : Bool) (lag : ℕ) :
    sendSeq s client < 2 ^ 15 ∧ recvSeq s client lag < 2 ^ 15 :=
  ⟨Nat.mod_lt _ (by decide), Nat.mod_lt _ (by decide)⟩

theorem onLines_lt (s : Sys α) (client : Bool) (lag : ℕ) :
    (onLines s client lag).1 < 2 ^ 15 ∧ (onLines s client lag).2 < 2 ^ 15 := by
  have h := seqs_lt s client lag
  cases client
  · exact ⟨h.2, h.1⟩
  · exact h

theorem lines_ofNat (s : Sys α) (client : Bool) (lag : ℕ) :
    lines client (UInt16.ofNat (sendSeq s client), UInt16.ofNat (recvSeq s client lag)) =
      (UInt16.ofNat (onLines s client lag).1, UInt16.ofNat (onLines s client lag).2) := by
  cases client <;> rfl

theorem numbers_iff {q : Seq} {a b : ℕ} (ha : a < 2 ^ 15) (hb : b < 2 ^ 15) :
    (UInt16.ofNat a, UInt16.ofNat b) = q.numbers ↔ (a, b) = (q.tx.toNat, q.rx.toNat) := by
  unfold Seq.numbers
  rw [Prod.mk.injEq, Prod.mk.injEq, ← UInt16.toNat_inj, ← UInt16.toNat_inj,
    UInt16.toNat_ofNat_of_lt' (show a < 65536 by omega), UInt16.toNat_ofNat_of_lt' (show b < 65536 by omega)]

theorem numbers_zero_iff {q : Seq} : q.numbers = (0, 0) ↔ (q.tx.toNat, q.rx.toNat) = (0, 0) := by
  have h := @numbers_iff q 0 0 (by decide) (by decide)
  rw [eq_comm, eq_comm (b := ((0, 0) : ℕ × ℕ))]
  exact h

theorem update_self (side : Bool → Side) (client : Bool) (p : Side) : update side client p client = p := if_pos rfl

/-- A captured type-I APDU is one step of the numbers. -/
theorem step_seq (s : Sys α) (client : Bool) (lag : ℕ) (asdu : Asdu) (env : Env α) :
    (step s (.i client lag asdu env)).stats.seq =
      s.stats.seq.next client (UInt16.ofNat (onLines s client lag).1, UInt16.ofNat (onLines s client lag).2) := by
  rw [← lines_ofNat]
  exact feed_i env client asdu (seqs_lt s client lag).1 (seqs_lt s client lag).2 s.stats

theorem repeated_iff {s : Sys α} (h : Tracked s) (client : Bool) (lag : ℕ) :
    (UInt16.ofNat (onLines s client lag).1, UInt16.ofNat (onLines s client lag).2) = s.stats.seq.numbers ↔
      onLines s client lag = s.seen := by
  obtain ⟨h1, h2⟩ := onLines_lt s client lag
  rw [numbers_iff h1 h2, h.tx, h.rx]

theorem toNat_line {n : ℕ} (h : n < 2 ^ 15) : (UInt16.ofNat n).toNat = n :=
  UInt16.toNat_ofNat_of_lt' (show n < 65536 by omega)

theorem tracked_i {s : Sys α} {client : Bool} {lag : ℕ} (asdu : Asdu) (env : Env α) (h : Tracked s)
    (hne : onLines s client lag ≠ s.seen) : Tracked (step s (.i client lag asdu env)) := by
  obtain ⟨h1, h2⟩ := onLines_lt s client lag
  have hq := step_seq s client lag asdu env
  rw [Seq.next, if_neg (mt (repeated_iff h client lag).mp hne)] at hq
  constructor
  · rw [hq]
    exact toNat_line h1
  · rw [hq]
    show (if client then _ else _ : UInt16).toNat = if client then _ else _
    cases client
    · show (UInt16.ofNat _ + 1).toNat = _ + 1
      rw [UInt16.toNat_add, toNat_line h2]
      show (_ + 1) % 65536 = _
      omega
    · exact toNat_line h2

/-- The counter of one side, which compares a number with the one expected, unless both seen last are 0. -/
theorem counter_iff {zero : Prop} [Decidable zero] {c : UInt32} {v : UInt16} {e m g : ℕ} (hc : c.toNat = m)
    (he : e ≤ 65536) :
    (if zero then c else c + lostBetween v e).toNat = m + g ↔
      (if zero then g = 0 else Reaches e v.toNat g ∧ m + g < 2 ^ 32) := by
  by_cases hz : zero
  · rw [if_pos hz, if_pos hz, hc]
    omega
  · rw [if_neg hz, if_neg hz]
    exact lost_iff hc he

theorem shown_step (s : Sys α) (client : Bool) (lag : ℕ) (asdu : Asdu) (env : Env α) (c : Bool) :
    ((step s (.i client lag asdu env)).side c).shown = (s.side c).shown + gap s client lag c := by
  unfold step update gap
  dsimp only
  split
  · rename_i hc
    rw [hc]
    rfl
  · rfl

theorem told_iff {s : Sys α} (client : Bool) (lag : ℕ) (asdu : Asdu) (env : Env α) :
    Told s (.i client lag asdu env) ↔
      onLines s client lag ≠ s.seen ∧
        (if s.seen = (0, 0) then gap s client lag true = 0
          else Reaches (s.seen.1 + 1) (onLines s client lag).1 (gap s client lag true) ∧
            (s.side true).shown + gap s client lag true < 2 ^ 32) ∧
        (if s.seen = (0, 0) then gap s client lag false = 0
          else Reaches s.seen.2 (onLines s client lag).2 (gap s client lag false) ∧
            (s.side false).shown + gap s client lag false < 2 ^ 32) := Iff.rfl

/-- What is right about the counters after a type-I APDU that is no repetition. -/
theorem counted_i {s : Sys α} {client : Bool} {lag : ℕ} (asdu : Asdu) (env : Env α) (h : Tracked s) (hcounted : Counted s)
    (hne : onLines s client lag ≠ s.seen) :
    Counted (step s (.i client lag asdu env)) ↔ Told s (.i client lag asdu env) := by
  obtain ⟨h1, h2⟩ := onLines_lt s client lag
  have hq := step_seq s client lag asdu env
  rw [Seq.next, if_neg (mt (repeated_iff h client lag).mp hne)] at hq
  have hzero : s.stats.seq.numbers = (0, 0) ↔ s.seen = (0, 0) := by rw [numbers_zero_iff, h.tx, h.rx]
  have htx : s.seen.1 + 1 ≤ 65536 := by
    have hlt : s.stats.seq.tx.toNat < 65536 := s.stats.seq.tx.toNat_lt
    rw [h.tx] at hlt
    omega
  have hrx : s.seen.2 ≤ 65536 := by
    have hlt : s.stats.seq.rx.toNat < 65536 := s.stats.seq.rx.toNat_lt
    rw [h.rx] at hlt
    omega
  have hretr : (step s (.i client lag asdu env)).stats.retransmittedMsgs = 0 :=
    (congrArg Seq.retransmitted hq).trans hcounted.retransmitted
  have hcount : ∀ (a b : UInt32), (if s.stats.seq.numbers = (0, 0) then a else b) = if s.seen = (0, 0) then a else b := by
    intro a b
    by_cases hz : s.seen = (0, 0)
    · rw [if_pos hz, if_pos (hzero.mpr hz)]
    · rw [if_neg hz, if_neg (mt hzero.mp hz)]
  have hlostTx : (step s (.i client lag asdu env)).stats.pktLostTx =
      if s.seen = (0, 0) then s.stats.pktLostTx
      else s.stats.pktLostTx + lostBetween (UInt16.ofNat (onLines s client lag).1) (s.seen.1 + 1) := by
    refine (congrArg Seq.lostTx hq).trans ?_
    show (if s.stats.seq.numbers = (0, 0) then _ else _ + lostBetween _ (s.stats.seq.tx.toNat + 1)) = _
    rw [hcount, h.tx]
    rfl
  have hlostRx : (step s (.i client lag asdu env)).stats.pktLostRx =
      if s.seen = (0, 0) then s.stats.pktLostRx
      else s.stats.pktLostRx + lostBetween (UInt16.ofNat (onLines s client lag).2) s.seen.2 := by
    refine (congrArg Seq.lostRx hq).trans ?_
    show (if s.stats.seq.numbers = (0, 0) then _ else _ + lostBetween _ s.stats.seq.rx.toNat) = _
    rw [hcount, h.rx]
    rfl
  have htxiff := @counter_iff (s.seen = (0, 0)) _ s.stats.pktLostTx (UInt16.ofNat (onLines s client lag).1) (s.seen.1 + 1)
    (s.side true).shown (gap s client lag true) hcounted.tx htx
  have hrxiff := @counter_iff (s.seen = (0, 0)) _ s.stats.pktLostRx (UInt16.ofNat (onLines s client lag).2) s.seen.2
    (s.side false).shown (gap s client lag false) hcounted.rx hrx
  rw [toNat_line h1, ← hlostTx] at htxiff
  rw [toNat_line h2, ← hlostRx] at hrxiff
  have hmTx := shown_step s client lag asdu env true
  have hmRx := shown_step s client lag asdu env false
  rw [told_iff, and_iff_right hne, ← htxiff, ← hrxiff]
  exact ⟨fun hl => ⟨hl.tx.trans hmTx, hl.rx.trans hmRx⟩, fun hl => ⟨hretr, hl.1.trans hmTx.symm, hl.2.trans hmRx.symm⟩⟩

theorem step_iff {s : Sys α} (h : Tracked s) (hcounted : Counted s) (e : Ev α) :
    (Told s e → Tracked (step s e) ∧ Counted (step s e)) ∧ (¬ Told s e → ¬ Counted (step s e)) := by
  have hother : ∀ (client : Bool) (p : Side), p.shown = (s.side client).shown →
      ∀ c, (update s.side client p c).shown = (s.side c).shown := by
    intro client p hp c
    unfold update
    split
    · rename_i hc
      rw [hp, hc]
    · rfl
  cases e with
  | removed client lag =>
    have hm := hother client ((s.side client).remove (received s client lag)) rfl
    refine ⟨fun _ => ⟨⟨h.tx, h.rx⟩, hcounted.retransmitted, ?_, ?_⟩, fun hn => absurd trivial hn⟩
    · exact hcounted.tx.trans (hm true).symm
    · exact hcounted.rx.trans (hm false).symm
  | s client lag env =>
    have hm := hother client ((s.side client).ack (received s client lag)) rfl
    have hq := feed_s env client (recvSeq s client lag) s.stats
    refine ⟨fun _ => ⟨⟨?_, ?_⟩, ?_, ?_, ?_⟩, fun hn => absurd trivial hn⟩
    · exact (congrArg (fun q : Seq => q.tx.toNat) hq).trans h.tx
    · exact (congrArg (fun q : Seq => q.rx.toNat) hq).trans h.rx
    · exact (congrArg Seq.retransmitted hq).trans hcounted.retransmitted
    · exact (congrArg (fun q : Seq => q.lostTx.toNat) hq).trans (hcounted.tx.trans (hm true).symm)
    · exact (congrArg (fun q : Seq => q.lostRx.toNat) hq).trans (hcounted.rx.trans (hm false).symm)
  | i client lag asdu env =>
    by_cases hne : onLines s client lag ≠ s.seen
    · have hiff := counted_i asdu env h hcounted hne
      exact ⟨fun ht => ⟨tracked_i asdu env h hne, hiff.mpr ht⟩, mt hiff.mp⟩
    · refine ⟨fun ht => absurd ht.1 hne, fun _ hl => ?_⟩
      have hq := step_seq s client lag asdu env
      rw [Seq.next, if_pos ((repeated_iff h client lag).mpr (not_not.mp hne))] at hq
      have hone := (congrArg Seq.retransmitted hq).symm.trans hl.retransmitted
      have hzero : s.stats.seq.retransmitted = 0 := hcounted.retransmitted
      rw [show Seq.retransmitted { s.stats.seq with retransmitted := s.stats.seq.retransmitted + 1 } =
        s.stats.seq.retransmitted + 1 from rfl, hzero] at hone
      exact absurd hone (by decide)

theorem counted_iff_told (analysis : α) (base : Bool → ℕ) (es : List (Ev α)) :
    Always step Counted (start analysis base) es ↔ Along step Told (start analysis base) es := by
  refine always_iff_along step (fun s e (h : Tracked s ∧ Counted s) ht => (step_iff h.1 h.2 e).1 ht) (fun _ h => h.2)
    (fun s e h hn => (step_iff h.1 h.2 e).2 hn) ⟨⟨rfl, rfl⟩, rfl, rfl, rfl⟩

/-! ## The removed ones -/

/-- A removed APDU has shown, or it has not. -/
def Side.Accounted (p : Side) : Prop := p.shown + p.waiting.length = p.removed

theorem see_accounted {p : Side} (extent : ℕ) (h : p.Accounted) : (p.see extent).Accounted := by
  have hsplit := List.length_eq_countP_add_countP (p.shows extent) (l := p.waiting)
  have hrest : (p.waiting.filter fun i => !p.shows extent i).length = p.waiting.countP (fun i => ¬ p.shows extent i) := by
    rw [List.countP_eq_length_filter]
    congr 2
    funext i
    cases p.shows extent i <;> rfl
  unfold Side.Accounted at h ⊢
  unfold Side.see Side.showing
  dsimp only
  rw [hrest]
  omega

theorem remove_accounted {p : Side} (acked : ℕ) (h : p.Accounted) : (p.remove acked).Accounted := by
  unfold Side.Accounted at h ⊢
  unfold Side.remove
  dsimp only
  rw [List.length_append, List.length_singleton]
  omega

theorem update_accounted {side : Bool → Side} {p : Side} (h : ∀ c, (side c).Accounted) (hp : p.Accounted) (client : Bool) :
    ∀ c, (update side client p c).Accounted := by
  intro c
  unfold update
  split
  · exact hp
  · exact h c

theorem step_accounted (s : Sys α) (e : Ev α) (h : ∀ c, (s.side c).Accounted) : ∀ c, ((step s e).side c).Accounted := by
  cases e with
  | i client lag asdu env =>
    have hsee : ∀ c, ((s.side c).see (extent s client lag c)).Accounted := fun c => see_accounted _ (h c)
    have hsend : (((s.side client).see (extent s client lag client)).send (received s client lag)).Accounted := hsee client
    exact update_accounted hsee hsend client
  | removed client lag => exact update_accounted h (remove_accounted _ (h client)) client
  | s client lag env =>
    have hack : ((s.side client).ack (received s client lag)).Accounted := h client
    exact update_accounted h hack client

theorem start_accounted (analysis : α) (base : Bool → ℕ) : ∀ c, ((start analysis base).side c).Accounted := fun _ => rfl

/-- For every dialogue, from any numbers, and whatever is removed from its capture: when every captured type-I APDU is
    told, the counters are right at the end exactly when all removed ones have shown; and every one is told exactly
    when in every state the counters are right as far as they have. -/
theorem law_iff_told (analysis : α) (base : Bool → ℕ) (es : List (Ev α)) :
    (Along step Told (start analysis base) es →
      (Law (run step (start analysis base) es) ↔ AllShown (run step (start analysis base) es))) ∧
      (Always step Counted (start analysis base) es ↔ Along step Told (start analysis base) es) := by
  have hiff := counted_iff_told analysis base es
  refine ⟨fun htold => ?_, hiff⟩
  have hcounted := always_last _ (hiff.mpr htold)
  have haccounted : ∀ c, ((run step (start analysis base) es).side c).Accounted :=
    @inv_run_all _ _ step (fun s : Sys α => ∀ c, (s.side c).Accounted) step_accounted _ (start_accounted analysis base) es
  generalize run step (start analysis base) es = s at hcounted haccounted ⊢
  constructor
  · intro hlaw c
    have hc : (s.side c).shown + (s.side c).waiting.length = (s.side c).removed := haccounted c
    apply List.eq_nil_of_length_eq_zero
    cases c
    · have := hcounted.rx.symm.trans hlaw.rx
      omega
    · have := hcounted.tx.symm.trans hlaw.tx
      omega
  · intro hall
    have hshown : ∀ c, (s.side c).shown = (s.side c).removed := by
      intro c
      have hc : (s.side c).shown + (s.side c).waiting.length = (s.side c).removed := haccounted c
      rw [hall c] at hc
      exact hc
    exact ⟨hcounted.retransmitted, hcounted.tx.trans (hshown true), hcounted.rx.trans (hshown false)⟩

def someAsdu : Asdu := ⟨[100, 1, 6, 0, 1, 0, 0, 0, 0, 20], by decide, by decide⟩

def someEnv : Env Unit := ⟨0, 0, false, false, false, false, ⟨1, 0⟩, fun _ _ _ => ()⟩

/-- The client sends its APDU 5, the server answers with its APDU 9, and the client's APDU 6, which acknowledges
    that, is taken for a repetition of the answer. -/
theorem answer_makes_repetition :
    ¬ ∀ (α : Type) (analysis : α) (base : Bool → ℕ) (es : List (Ev α)),
      AllShown (run step (start analysis base) es) → Law (run step (start analysis base) es) := by
  intro h
  have hlast := h Unit () (fun c => if c then 5 else 9)
    [.i true 0 someAsdu someEnv, .i false 0 someAsdu someEnv, .i true 0 someAsdu someEnv]
    (fun c => by cases c <;> decide)
  have hretr := hlast.retransmitted
  revert hretr
  decide

end Ntopng.Protocols.Iec104Dialogue
