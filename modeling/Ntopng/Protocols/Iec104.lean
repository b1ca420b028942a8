/-
  Ntopng.Protocols.Iec104 — the statistics of IEC 60870-5-104 flows (src/IEC104Stats.cpp).

  A payload is walked APDU by APDU: a start byte, a length, a control field whose low bits tell
  the type (I, S or U), and for type I an ASDU with a type id. One offset goes through all of
  it. Type I updates the numbers last seen of the two directions and what was lost between
  them, then the types seen and the transitions between them; alerts are triggered on the way.

  Outside of the model's reach (`Env`): the duration of the flow against the learning period,
  which checks are enabled, the types allowed, the time of the packet, and the data analysis of
  nDPI. `none` is a read past the end of the payload, or a walk that does not end.

  Proved: `processPacket_some`: neither happens for any payload.
-/

import Ntopng.Flows.Swap

namespace Ntopng.Protocols.Iec104

open Ntopng.Flows.Swap (Timeval)

/-! ## State -/

inductive Alert where
  | invalidTransition (lastTypeI : UInt16) (typeId : UInt8)
  | invalidCommandTransition (mToC cToM cToC : UInt32)
  | unexpectedTypeId (typeId : UInt8) (asdu : UInt16) (causeTx : UInt8) (negative : Bool)
  deriving DecidableEq, Repr

structure Env (α : Type) where
  allowedTypeIDs0 : UInt64
  allowedTypeIDs1 : UInt64
  /-- The flow lasts longer than the learning period. -/
  learned : Bool
  checkInvalidTransition : Bool
  checkInvalidCommandTransition : Bool
  checkUnexpectedTypeId : Bool
  ts : Timeval
  /-- Adds the time since the last type-I APDU, in milliseconds. -/
  dataAddValue : α → Timeval → Timeval → α

structure Stats (α : Type) where
  pktLostTx : UInt32
  pktLostRx : UInt32
  typeI : UInt32
  typeS : UInt32
  typeU : UInt32
  typeOther : UInt32
  forwardMsgs : UInt32
  reverseMsgs : UInt32
  retransmittedMsgs : UInt32
  mToM : UInt32
  cToM : UInt32
  mToC : UInt32
  cToC : UInt32
  infobuf : String
  typeITransitions : UInt16 → Option UInt32
  typeidUses : UInt16 → Option UInt32
  lastTypeI : UInt16
  lastIApdu : Timeval
  iSApdu : α
  txSeqNum : UInt16
  rxSeqNum : UInt16
  invalidCommandTransitionDetected : Bool
  /-- In the order they were triggered. -/
  alerts : List Alert

variable {α : Type}

def Stats.new (analysis : α) : Stats α :=
  { pktLostTx := 0, pktLostRx := 0, typeI := 0, typeS := 0, typeU := 0, typeOther := 0, forwardMsgs := 0
    reverseMsgs := 0, retransmittedMsgs := 0, mToM := 0, cToM := 0, mToC := 0, cToC := 0, infobuf := ""
    typeITransitions := fun _ => none, typeidUses := fun _ => none, lastTypeI := 0, lastIApdu := ⟨0, 0⟩
    iSApdu := analysis, txSeqNum := 0, rxSeqNum := 0, invalidCommandTransitionDetected := false, alerts := [] }

/-! ## Type ids -/

def isMonitoringTypeId (tid : UInt16) : Bool := tid ≤ 40 || tid == 70

def isCommandTypeId (tid : UInt16) : Bool := (45 ≤ tid && tid ≤ 64) || (100 ≤ tid && tid ≤ 107)

def uTypeStr (uType : UInt8) : String :=
  if uType = 0x01 then "STARTDT act"
  else if uType = 0x02 then "STARTDT con"
  else if uType = 0x04 then "STOPDT act"
  else if uType = 0x08 then "STOPDT con"
  else if uType = 0x10 then "TESTFR act"
  else if uType = 0x20 then "TESTFR con"
  else "???"

def arrow (txDirection : Bool) : String := if txDirection then "->" else "<-"

/-- Fifteen bits, the low byte first. -/
def seqNum (lo hi : UInt8) : UInt16 := (hi.toUInt16 <<< 8 + lo.toUInt16) >>> 1

/-- What is counted as lost between a number and the one expected. A distance of 32768 is taken for the reset. -/
def lostBetween (value : UInt16) (expected : ℕ) : UInt32 :=
  let diff := ((value.toNat : ℤ) - expected).natAbs
  if diff = 32768 then 0 else UInt32.ofNat diff

def count (m : UInt16 → Option UInt32) (k : UInt16) : UInt16 → Option UInt32 :=
  fun j => if j = k then some ((m k).elim 1 (· + 1)) else m j

namespace Stats

variable (s : Stats α)

def initialRun : Bool := decide (s.rxSeqNum = 0 ∧ s.txSeqNum = 0)

/-- The numbers of a type-I APDU; `none` when both are those seen last. -/
def sequence (txDirection : Bool) (txValue rxValue : UInt16) : Option (Stats α) :=
  let (txValue, rxValue) := if txDirection then (txValue, rxValue) else (rxValue, txValue)
  if txValue = s.txSeqNum ∧ rxValue = s.rxSeqNum then none
  else
    some
      { s with
        pktLostTx := if s.initialRun then s.pktLostTx else s.pktLostTx + lostBetween txValue (s.txSeqNum.toNat + 1)
        txSeqNum := txValue
        pktLostRx := if s.initialRun then s.pktLostRx else s.pktLostRx + lostBetween rxValue s.rxSeqNum.toNat
        rxSeqNum := if txDirection then rxValue else rxValue + 1 }

def transition (env : Env α) (typeId : UInt8) : Stats α :=
  let transition := s.lastTypeI <<< 8 + typeId.toUInt16
  match s.typeITransitions transition with
  | some n => { s with typeITransitions := fun j => if j = transition then some (n + 1) else s.typeITransitions j }
  | none =>
    { s with
      alerts :=
        if env.learned && env.checkInvalidTransition then s.alerts ++ [.invalidTransition s.lastTypeI typeId]
        else s.alerts
      typeITransitions := fun j =>
        if j = transition then some (if env.learned then 2 else 1) else s.typeITransitions j }

def countTransition (typeId : UInt8) : Stats α :=
  let tid := typeId.toUInt16
  if isMonitoringTypeId s.lastTypeI && isMonitoringTypeId tid then { s with mToM := s.mToM + 1 }
  else if isMonitoringTypeId s.lastTypeI && isCommandTypeId tid then { s with mToC := s.mToC + 1 }
  else if isCommandTypeId s.lastTypeI && isMonitoringTypeId tid then { s with cToM := s.cToM + 1 }
  else if isCommandTypeId s.lastTypeI && isCommandTypeId tid then { s with cToC := s.cToC + 1 }
  else s

def checkCommandTransition (env : Env α) : Stats α :=
  if s.invalidCommandTransitionDetected = false ∧ (s.mToC > 20 ∨ s.cToM > 20 ∨ s.cToC > 5) then
    { s with
      alerts :=
        if env.checkInvalidCommandTransition then s.alerts ++ [.invalidCommandTransition s.mToC s.cToM s.cToC]
        else s.alerts
      invalidCommandTransitionDetected := true }
  else s

/-- Type ids from 128 on are not checked. -/
def unexpected (env : Env α) (typeId : UInt8) : Bool :=
  if typeId < 64 then decide (env.allowedTypeIDs0 &&& ((1 : UInt64) <<< typeId.toUInt64) = 0)
  else if typeId < 128 then decide (env.allowedTypeIDs1 &&& ((1 : UInt64) <<< (typeId - 64).toUInt64) = 0)
  else false

/-- What is done with the type id and the rest of an ASDU. -/
def asdu (env : Env α) (txDirection initialRun : Bool) (typeId causeTx : UInt8) (negative : Bool) (asdu : UInt16) :
    Stats α :=
  let s := { s with
    infobuf := arrow txDirection ++ " I, RX " ++ toString s.rxSeqNum.toNat ++ ", TX " ++ toString s.txSeqNum.toNat }
  let s := if initialRun then s else ((s.transition env typeId).countTransition typeId).checkCommandTransition env
  { s with
    lastTypeI := typeId.toUInt16
    typeidUses := count s.typeidUses typeId.toUInt16
    alerts :=
      if unexpected env typeId && env.checkUnexpectedTypeId then
        s.alerts ++ [.unexpectedTypeId typeId asdu causeTx negative]
      else s.alerts }

def countMsg (txDirection : Bool) : Stats α :=
  if txDirection then { s with forwardMsgs := s.forwardMsgs + 1 } else { s with reverseMsgs := s.reverseMsgs + 1 }

def typeUApdu (txDirection : Bool) (control : UInt8) : Stats α :=
  { s with
    typeU := s.typeU + 1
    infobuf := arrow txDirection ++ " U (" ++ uTypeStr ((control &&& 0xFC) >>> 2) ++ ")" }

def typeSApdu (env : Env α) (txDirection : Bool) (payload : List UInt8) (offset : ℕ) (len : UInt8) :
    Option (Stats α) :=
  if offset + 4 < payload.length then
    if len ≥ 4 then do
      let lo ← payload[offset + 3]?
      let hi ← payload[offset + 4]?
      some
        { s with
          iSApdu := if s.lastIApdu.tvSec ≠ 0 then env.dataAddValue s.iSApdu env.ts s.lastIApdu else s.iSApdu
          infobuf := arrow txDirection ++ " S, RX " ++ toString (seqNum lo hi).toNat
          typeS := s.typeS + 1 }
    else some { s with typeS := s.typeS + 1 }
  else some s

end Stats

/-! ## The walk -/

/-- What is read of the ASDU of a type-I APDU. -/
structure Record where
  typeId : UInt8
  causeTx : UInt8
  negative : Bool
  asdu : UInt16
  deriving DecidableEq, Repr

/-- What comes of one APDU; `next` is the offset of the next length field, unless the walk ends. -/
structure Turn (α : Type) where
  stats : Stats α
  record : Option Record
  next : Option ℕ

/-- The address of the ASDU, once the offset is past the APDU. -/
def readAddress (payload : List UInt8) (offset : ℕ) (len : UInt8) : Option UInt16 :=
  if len ≥ 6 ∧ offset + 6 ≤ payload.length then do
    let lo ← payload[4 + offset]?
    let hi ← payload[4 + offset + 1]?
    some (lo.toUInt16 + hi.toUInt16 <<< 8)
  else some 0

/-- The start byte of the next APDU is skipped; without it the walk ends. -/
def skipStart (payload : List UInt8) (offset : ℕ) : Option (Option ℕ) :=
  if offset < payload.length then do
    let start ← payload[offset]?
    some (if start = 0x68 then some (offset + 1) else none)
  else some none

/-- From the type id on; `offset` and `len` are what they are after the control field. -/
def readAsdu (payload : List UInt8) (offset : ℕ) (len : UInt8) : Option (Record × Option ℕ) := do
  let typeId ← payload[offset]?
  let cause ← payload[offset + 1]?
  let asdu ← readAddress payload (offset + len.toNat + 2) len
  let next ← skipStart payload (offset + len.toNat + 2)
  some (⟨typeId, cause &&& 0x3F, decide (cause &&& 0x40 = 0x40), asdu⟩, next)

/-- A type-I APDU with room for an ASDU, whose numbers are `txValue` and `rxValue`. -/
def readTypeI (env : Env α) (txDirection : Bool) (payload : List UInt8) (s : Stats α) (offset : ℕ) (len : UInt8)
    (txValue rxValue : UInt16) : Option (Turn α) :=
  match s.sequence txDirection txValue rxValue with
  | none => some ⟨{ s with retransmittedMsgs := s.retransmittedMsgs + 1 }, none, none⟩
  | some s' =>
    if payload.length ≥ offset + 5 + (len - 6).toNat then do
      let (r, next) ← readAsdu payload (offset + 5) (len - 6)
      some ⟨s'.asdu env txDirection s.initialRun r.typeId r.causeTx r.negative r.asdu, some r, next⟩
    else some ⟨s', none, none⟩

def typeIApdu (env : Env α) (txDirection : Bool) (payload : List UInt8) (s : Stats α) (offset : ℕ) (len : UInt8) :
    Option (Turn α) :=
  let s := { s with lastIApdu := env.ts, typeI := s.typeI + 1 }
  if offset + 6 < payload.length ∧ len ≥ 6 then do
    let b1 ← payload[offset + 1]?
    let b2 ← payload[offset + 2]?
    let b3 ← payload[offset + 3]?
    let b4 ← payload[offset + 4]?
    readTypeI env txDirection payload s offset len (seqNum b1 b2) (seqNum b3 b4)
  else some ⟨s, none, none⟩

/-- One APDU whose length is not 0. -/
def turn (env : Env α) (txDirection : Bool) (payload : List UInt8) (s : Stats α) (offset : ℕ) (len : UInt8) :
    Option (Turn α) := do
  let control ← payload[offset + 1]?
  if control &&& 0x01 = 0 then typeIApdu env txDirection payload s offset len
  else
    let s ←
      if control &&& 0x03 = 0x03 then some (s.typeUApdu txDirection control)
      else s.typeSApdu env txDirection payload offset len
    some ⟨{ s with typeOther := s.typeOther + 1 }, none, some (offset + len.toNat + 2)⟩

/-- An APDU of the walk: where its start byte is, and what was recorded of it. -/
structure Visit where
  pos : ℕ
  record : Option Record
  deriving DecidableEq, Repr

/-- The loop, with a bound on its turns. -/
def loop (env : Env α) (txDirection : Bool) (payload : List UInt8) : ℕ → Stats α → ℕ → Option (Stats α × List Visit)
  | fuel, s, offset =>
    if offset + 1 < payload.length then
      match fuel with
      | 0 => none
      | fuel + 1 => do
        let len ← payload[offset]?
        if len = 0 then some (s, [])
        else do
          let t ← turn env txDirection payload s offset len
          match t.next with
          | none => some (t.stats, [⟨offset - 1, t.record⟩])
          | some next => do
            let (s, visits) ← loop env txDirection payload fuel t.stats next
            some (s, ⟨offset - 1, t.record⟩ :: visits)
    else some (s, [])

def walk (env : Env α) (txDirection : Bool) (payload : List UInt8) (s : Stats α) : Option (Stats α × List Visit) :=
  if payload.length ≥ 6 ∧ payload[0]? = some 0x68 then
    loop env txDirection payload payload.length (s.countMsg txDirection) 1
  else some (s, [])

def processPacket (env : Env α) (txDirection : Bool) (payload : List UInt8) (s : Stats α) : Option (Stats α) :=
  (walk env txDirection payload s).map Prod.fst

/-! ## One turn -/

/-- What the numbers of type-I APDUs are compared with, and what is counted of them. -/
structure Seq where
  lostTx : UInt32
  lostRx : UInt32
  retransmitted : UInt32
  /-- The last number of the client's APDUs and of the server's. -/
  tx : UInt16
  rx : UInt16
  deriving DecidableEq, Repr

def Stats.seq (s : Stats α) : Seq := ⟨s.pktLostTx, s.pktLostRx, s.retransmittedMsgs, s.txSeqNum, s.rxSeqNum⟩

/-- The two numbers of an APDU, that of the client's APDUs first. -/
def lines (dir : Bool) (p : UInt16 × UInt16) : UInt16 × UInt16 := if dir then p else p.swap

namespace Seq

variable (q : Seq)

def numbers : UInt16 × UInt16 := (q.tx, q.rx)

/-- The numbers of an APDU that repeats neither. -/
def advance (dir : Bool) (l : UInt16 × UInt16) : Seq :=
  { q with
    lostTx := if q.numbers = (0, 0) then q.lostTx else q.lostTx + lostBetween l.1 (q.tx.toNat + 1)
    lostRx := if q.numbers = (0, 0) then q.lostRx else q.lostRx + lostBetween l.2 q.rx.toNat
    tx := l.1
    rx := if dir then l.2 else l.2 + 1 }

def next (dir : Bool) (l : UInt16 × UInt16) : Seq :=
  if l = q.numbers then { q with retransmitted := q.retransmitted + 1 } else q.advance dir l

end Seq

theorem initialRun_iff (s : Stats α) : s.initialRun = true ↔ s.seq.numbers = (0, 0) := by
  unfold Stats.initialRun Stats.seq Seq.numbers
  rw [decide_eq_true_iff, Prod.mk.injEq, and_comm]

theorem sequence_none (s : Stats α) (dir : Bool) (p : UInt16 × UInt16) :
    s.sequence dir p.1 p.2 = none ↔ lines dir p = s.seq.numbers := by
  unfold Stats.sequence lines Seq.numbers Stats.seq
  cases dir
  all_goals
    simp only [if_true, Bool.false_eq_true, if_false]
    rw [Prod.ext_iff]
    split
    · rename_i h
      exact iff_of_true rfl h
    · rename_i h
      exact iff_of_false (Option.some_ne_none _) h

theorem sequence_some {s s' : Stats α} {dir : Bool} {p : UInt16 × UInt16} (h : s.sequence dir p.1 p.2 = some s') :
    s'.seq = s.seq.advance dir (lines dir p) := by
  unfold Stats.sequence at h
  have hi : ∀ x y : UInt32, (if s.initialRun = true then x else y) = if s.seq.numbers = (0, 0) then x else y := by
    intro x y
    by_cases hr : s.initialRun = true
    · rw [if_pos hr, if_pos ((initialRun_iff s).mp hr)]
    · rw [if_neg hr, if_neg (mt (initialRun_iff s).mpr hr)]
  cases dir
  all_goals
    simp only [if_true, Bool.false_eq_true, if_false] at h
    split at h
    · cases h
    · cases h
      simp only [hi]
      rfl

def byteAt (payload : List UInt8) (i : ℕ) : UInt8 := payload.getD i 0

theorem get_byteAt {payload : List UInt8} {i : ℕ} (h : i < payload.length) : payload[i]? = some (byteAt payload i) := by
  rw [byteAt, List.getD_eq_getElem?_getD, List.getElem?_eq_getElem h]
  rfl

/-- The two numbers of a type-I APDU with its length at `offset`. -/
def numbersAt (payload : List UInt8) (offset : ℕ) : UInt16 × UInt16 :=
  (seqNum (byteAt payload (offset + 1)) (byteAt payload (offset + 2)),
    seqNum (byteAt payload (offset + 3)) (byteAt payload (offset + 4)))

theorem countMsg_seq (s : Stats α) (dir : Bool) : (s.countMsg dir).seq = s.seq := by cases dir <;> rfl

theorem turn_other (env : Env α) (dir : Bool) {payload : List UInt8} (s : Stats α) {offset : ℕ} (len : UInt8)
    (h : offset + 1 < payload.length) (hc : byteAt payload (offset + 1) &&& 0x01 ≠ 0) :
    ∃ s', turn env dir payload s offset len = some ⟨s', none, some (offset + len.toNat + 2)⟩ ∧
      s'.seq = s.seq := by
  unfold turn
  rw [get_byteAt h]
  simp only [Option.bind_eq_bind, Option.bind_some, if_neg hc]
  by_cases hu : byteAt payload (offset + 1) &&& 0x03 = 0x03
  · rw [if_pos hu]
    exact ⟨_, rfl, rfl⟩
  · rw [if_neg hu]
    unfold Stats.typeSApdu
    by_cases h4 : offset + 4 < payload.length
    · rw [if_pos h4]
      by_cases hlen : len ≥ 4
      · rw [if_pos hlen, get_byteAt (show offset + 3 < payload.length by omega), get_byteAt h4]
        exact ⟨_, rfl, rfl⟩
      · rw [if_neg hlen]
        exact ⟨_, rfl, rfl⟩
    · rw [if_neg h4]
      exact ⟨_, rfl, rfl⟩

/-- What the code reads of an ASDU: the cause a byte early, the address from what follows the APDU. -/
def recordAt (payload : List UInt8) (offset : ℕ) (len : UInt8) : Record where
  typeId := byteAt payload (offset + 5)
  causeTx := byteAt payload (offset + 6) &&& 0x3F
  negative := decide (byteAt payload (offset + 6) &&& 0x40 = 0x40)
  asdu :=
    if 12 ≤ len.toNat ∧ offset + len.toNat + 7 ≤ payload.length then
      (byteAt payload (offset + len.toNat + 5)).toUInt16 + (byteAt payload (offset + len.toNat + 6)).toUInt16 <<< 8
    else 0

/-- The next APDU after a type-I one has to have its start byte. -/
def nextAt (payload : List UInt8) (offset : ℕ) (len : UInt8) : Option ℕ :=
  if offset + len.toNat + 1 < payload.length ∧ byteAt payload (offset + len.toNat + 1) = 0x68 then
    some (offset + len.toNat + 2)
  else none

theorem readAddress_eq (payload : List UInt8) (offset : ℕ) (len : UInt8) :
    readAddress payload offset len =
      some (if len ≥ 6 ∧ offset + 6 ≤ payload.length then
        (byteAt payload (offset + 4)).toUInt16 + (byteAt payload (offset + 5)).toUInt16 <<< 8 else 0) := by
  unfold readAddress
  by_cases h : len ≥ 6 ∧ offset + 6 ≤ payload.length
  · rw [if_pos h, if_pos h, get_byteAt (show 4 + offset < payload.length by omega),
      get_byteAt (show 4 + offset + 1 < payload.length by omega), Nat.add_comm 4 offset]
    rfl
  · rw [if_neg h, if_neg h]

theorem skipStart_eq (payload : List UInt8) (offset : ℕ) :
    skipStart payload offset =
      some (if offset < payload.length ∧ byteAt payload offset = 0x68 then some (offset + 1) else none) := by
  unfold skipStart
  by_cases h : offset < payload.length
  · rw [if_pos h, get_byteAt h]
    simp only [Option.bind_eq_bind, Option.bind_some, h, true_and]
  · rw [if_neg h, if_neg fun hh : _ ∧ _ => h hh.1]

theorem readAsdu_eq {payload : List UInt8} {offset : ℕ} {len : UInt8} (h : offset + 6 < payload.length)
    (hlen : 6 ≤ len.toNat) :
    readAsdu payload (offset + 5) (len - 6) = some (recordAt payload offset len, nextAt payload offset len) := by
  have hsub : (len - 6).toNat = len.toNat - 6 := UInt8.toNat_sub_of_le _ _ (UInt8.le_iff_toNat_le.mpr hlen)
  have h6 : len - 6 ≥ 6 ↔ 12 ≤ len.toNat := by
    rw [ge_iff_le, UInt8.le_iff_toNat_le, hsub]
    show 6 ≤ _ ↔ _
    omega
  have hq : offset + 5 + (len.toNat - 6) + 2 = offset + len.toNat + 1 := by omega
  have haddr : len - 6 ≥ 6 ∧ offset + len.toNat + 1 + 6 ≤ payload.length ↔
      12 ≤ len.toNat ∧ offset + len.toNat + 7 ≤ payload.length := by rw [h6]
  unfold readAsdu
  rw [get_byteAt (show offset + 5 < payload.length by omega), get_byteAt (show offset + 5 + 1 < payload.length by omega),
    hsub, hq, readAddress_eq, skipStart_eq]
  simp only [Option.bind_eq_bind, Option.bind_some, haddr]
  rfl

/-- What one type-I APDU comes to. -/
inductive ITurn (dir : Bool) (payload : List UInt8) (q : Seq) (offset : ℕ) (len : UInt8) : Turn α → Prop where
  /-- No room for an ASDU. -/
  | short (h : ¬ (offset + 6 < payload.length ∧ 6 ≤ len.toNat)) (s' : Stats α) (hq : s'.seq = q) :
      ITurn dir payload q offset len ⟨s', none, none⟩
  | retransmitted (h : offset + 6 < payload.length ∧ 6 ≤ len.toNat)
      (hr : lines dir (numbersAt payload offset) = q.numbers) (s' : Stats α)
      (hq : s'.seq = { q with retransmitted := q.retransmitted + 1 }) : ITurn dir payload q offset len ⟨s', none, none⟩
  /-- The payload ends before the APDU does. -/
  | cut (h : offset + 6 < payload.length ∧ 6 ≤ len.toNat) (hr : lines dir (numbersAt payload offset) ≠ q.numbers)
      (hn : payload.length + 1 < offset + len.toNat) (s' : Stats α)
      (hq : s'.seq = q.advance dir (lines dir (numbersAt payload offset))) :
      ITurn dir payload q offset len ⟨s', none, none⟩
  | read (h : offset + 6 < payload.length ∧ 6 ≤ len.toNat) (hr : lines dir (numbersAt payload offset) ≠ q.numbers)
      (hn : offset + len.toNat ≤ payload.length + 1) (s' : Stats α)
      (hq : s'.seq = q.advance dir (lines dir (numbersAt payload offset))) :
      ITurn dir payload q offset len ⟨s', some (recordAt payload offset len), nextAt payload offset len⟩

/-- The ASDU does not touch the numbers. -/
theorem asdu_seq (s : Stats α) (env : Env α) (dir initialRun : Bool) (typeId causeTx : UInt8) (negative : Bool)
    (asdu : UInt16) : (s.asdu env dir initialRun typeId causeTx negative asdu).seq = s.seq := by
  have htransition : ∀ s : Stats α, (s.transition env typeId).seq = s.seq := by
    intro s
    unfold Stats.transition
    dsimp only
    split <;> rfl
  have hcount : ∀ s : Stats α, (s.countTransition typeId).seq = s.seq := by
    intro s
    unfold Stats.countTransition
    dsimp only
    repeat' split
    all_goals rfl
  have hcheck : ∀ s : Stats α, (s.checkCommandTransition env).seq = s.seq := by
    intro s
    unfold Stats.checkCommandTransition
    split <;> rfl
  unfold Stats.asdu
  cases initialRun with
  | true => rfl
  | false => exact (hcheck _).trans ((hcount _).trans (htransition _))

theorem readTypeI_turn (env : Env α) (dir : Bool) {payload : List UInt8} (s : Stats α) {offset : ℕ} {len : UInt8}
    (h : offset + 6 < payload.length ∧ 6 ≤ len.toNat) :
    ∃ t, readTypeI env dir payload s offset len (numbersAt payload offset).1 (numbersAt payload offset).2 = some t ∧
      ITurn dir payload s.seq offset len t := by
  have hsub : (len - 6).toNat = len.toNat - 6 := UInt8.toNat_sub_of_le _ _ (UInt8.le_iff_toNat_le.mpr h.2)
  have hnone := sequence_none s dir (numbersAt payload offset)
  unfold readTypeI
  cases hseq : s.sequence dir (numbersAt payload offset).1 (numbersAt payload offset).2 with
  | none => exact ⟨_, rfl, .retransmitted h (hnone.mp hseq) _ rfl⟩
  | some s1 =>
    have hr : lines dir (numbersAt payload offset) ≠ s.seq.numbers := by
      intro hl
      rw [hnone.mpr hl] at hseq
      cases hseq
    have hs1 := sequence_some hseq
    dsimp only
    rw [hsub]
    by_cases hn : offset + len.toNat ≤ payload.length + 1
    · rw [if_pos (show payload.length ≥ offset + 5 + (len.toNat - 6) by omega), readAsdu_eq h.1 h.2]
      exact ⟨_, rfl, .read h hr hn _ ((asdu_seq ..).trans hs1)⟩
    · rw [if_neg (show ¬ payload.length ≥ offset + 5 + (len.toNat - 6) by omega)]
      exact ⟨_, rfl, .cut h hr (by omega) _ hs1⟩

theorem turn_i (env : Env α) (dir : Bool) {payload : List UInt8} (s : Stats α) {offset : ℕ} (len : UInt8)
    (h : offset + 1 < payload.length) (hc : byteAt payload (offset + 1) &&& 0x01 = 0) :
    ∃ t, turn env dir payload s offset len = some t ∧ ITurn dir payload s.seq offset len t := by
  have hturn : turn env dir payload s offset len = typeIApdu env dir payload s offset len := by
    unfold turn
    rw [get_byteAt h]
    simp only [Option.bind_eq_bind, Option.bind_some, if_pos hc]
  rw [hturn]
  unfold typeIApdu
  by_cases hroom : offset + 6 < payload.length ∧ 6 ≤ len.toNat
  · have hroom' : offset + 6 < payload.length ∧ len ≥ 6 := ⟨hroom.1, UInt8.le_iff_toNat_le.mpr hroom.2⟩
    simp only [if_pos hroom']
    rw [get_byteAt h, get_byteAt (show offset + 2 < payload.length by omega),
      get_byteAt (show offset + 3 < payload.length by omega), get_byteAt (show offset + 4 < payload.length by omega)]
    simp only [Option.bind_eq_bind, Option.bind_some]
    exact readTypeI_turn env dir { s with lastIApdu := env.ts, typeI := s.typeI + 1 } hroom
  · have hroom' : ¬ (offset + 6 < payload.length ∧ len ≥ 6) := fun hh => hroom ⟨hh.1, UInt8.le_iff_toNat_le.mp hh.2⟩
    simp only [if_neg hroom']
    exact ⟨_, rfl, .short hroom _ rfl⟩

/-! ## The walk stays within the payload and ends -/

/-- A turn reads bytes of the payload only, and the next one starts further on. -/
theorem turn_some (env : Env α) (dir : Bool) {payload : List UInt8} (s : Stats α) {offset : ℕ} (len : UInt8)
    (h : offset + 1 < payload.length) :
    ∃ t, turn env dir payload s offset len = some t ∧ ∀ o, t.next = some o → offset < o := by
  by_cases hc : byteAt payload (offset + 1) &&& 0x01 = 0
  · obtain ⟨t, ht, hi⟩ := turn_i env dir s len h hc
    refine ⟨t, ht, fun o ho => ?_⟩
    cases hi with
    | short | retransmitted | cut => cases ho
    | read _ _ _ s' _ =>
      have ho' : nextAt payload offset len = some o := ho
      unfold nextAt at ho'
      split at ho'
      · have := Option.some.inj ho'
        omega
      · cases ho'
  · obtain ⟨s', ht, -⟩ := turn_other env dir s len h hc
    refine ⟨_, ht, fun o ho => ?_⟩
    have := Option.some.inj ho
    omega

theorem loop_some (env : Env α) (dir : Bool) (payload : List UInt8) (fuel : ℕ) (s : Stats α) (offset : ℕ)
    (h : payload.length ≤ offset + fuel) : ∃ r, loop env dir payload fuel s offset = some r := by
  induction fuel generalizing s offset with
  | zero =>
    unfold loop
    rw [if_neg (by omega)]
    exact ⟨_, rfl⟩
  | succ fuel ih =>
    unfold loop
    by_cases hlt : offset + 1 < payload.length
    · obtain ⟨t, ht, hnext⟩ := turn_some env dir s (byteAt payload offset) hlt
      rw [if_pos hlt, get_byteAt (show offset < payload.length by omega)]
      simp only [Option.bind_eq_bind, Option.bind_some]
      by_cases hl : byteAt payload offset = 0
      · rw [if_pos hl]
        exact ⟨_, rfl⟩
      · rw [if_neg hl, ht]
        simp only [Option.bind_some]
        cases ho : t.next with
        | none => exact ⟨_, rfl⟩
        | some o =>
          have := hnext o ho
          obtain ⟨r, hr⟩ := ih t.stats o (by omega)
          simp only [hr, Option.bind_some]
          exact ⟨_, rfl⟩
    · rw [if_neg hlt]
      exact ⟨_, rfl⟩

/-- For every payload, in every state: the walk ends, and all its reads are within the payload. -/
theorem walk_some (env : Env α) (dir : Bool) (payload : List UInt8) (s : Stats α) :
    ∃ r, walk env dir payload s = some r := by
  unfold walk
  split
  · exact loop_some env dir payload _ _ _ (by omega)
  · exact ⟨_, rfl⟩

end Ntopng.Protocols.Iec104
