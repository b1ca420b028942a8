/-
  Ntopng.Collect.CollectedFlags — the TCP flags of a collected flow (`ParserInterface::processFlow`,
  src/ParserInterface.cpp; `Flow::updateTcpFlags` on an interface that reads no packets, src/Flow.cpp).

  A record brings cumulative flags, and the flags of its client and of its server, any of them 0.
  It is the first one of its flow, which then has its direction, or `getFlow` finds the flow in
  one of the two directions. With deduplication on, a record of another exporter than the flow's
  is only noted. Collected flows are never swapped after their first record.

  Proved, in `collected_law`, after every sequence of records:
  - each side has exactly the flags that the kept records carry for it (`sides_eq`);
  - the flow counts at most once for a RST, a FIN and a handshake (`counted_inv`);
  - the flow has seen all flags the records carry just if what they carry cumulatively, and what
    the records that were not kept carry, comes with a kept record for one of its sides
    (`seen_iff`): the branch for cumulative flags is inside of the one for the others.
-/

import Ntopng.Flows.TcpCounters

namespace Ntopng.Collect.Flags

open Ntopng.Lib.Run
open Ntopng.Flows.TcpFlags (TcpFlowStats AlertsCounter Timeval Conn isTCPFlagSet TH_FIN TH_RST TH_PUSH)
open Ntopng.Flows.Direction (TH_SYN TH_ACK)

/-! ## The flow -/

structure State where
  flow : Flows.TcpFlags.State
  newFlow : Bool
  /-- 0 before there is one. -/
  originalExporterIp : ℕ
  /-- Whether a host of a view interface stands for one of the peers. -/
  viewShared : Bool
  twhOverView : Bool

structure Record where
  tvSec : Int
  tcpFlags : UInt8
  clientTcpFlags : UInt8
  serverTcpFlags : UInt8
  exporterDeviceIp : ℕ
  src2dstDirection : Bool

section Update

variable (s : State) (tvSec : Int) (flags : UInt8) (src2dstDirection : Bool)

/-- A flag that was not observed before, and comes alone. -/
def observed (flag : UInt8) : Bool := flags == flag && s.flow.conn.seen &&& flag != flag

def tell (a : AlertsCounter) : State := { s with flow := s.flow.tell ⟨tvSec, 0⟩ src2dstDirection a }

def observeSyn : State := if observed s flags TH_SYN then tell s tvSec src2dstDirection .syn else s

def observeRst : State :=
  if observed s flags TH_RST then
    let s := { s with flow := { s.flow with tcpFlowStats := s.flow.tcpFlowStats.incReset } }
    if s.flow.conn.src2dstTcpFlags &&& TH_SYN != TH_SYN then tell s tvSec src2dstDirection .rst else s
  else s

def observeFin : State :=
  if observed s flags TH_FIN then
    let s := tell s tvSec src2dstDirection .fin
    { s with flow := { s.flow with tcpFlowStats := s.flow.tcpFlowStats.incFin } }
  else s

def establish : State :=
  if !s.flow.twhOver && flags &&& (TH_ACK ||| TH_PUSH ||| TH_RST ||| TH_FIN) != 0 then
    { s with
      flow := { s.flow with twhOver := true, tcpFlowStats := s.flow.tcpFlowStats.incEstablished }
      twhOverView := s.viewShared || s.twhOverView }
  else s

def updateTcpFlags : State :=
  let s := observeSyn s tvSec flags src2dstDirection
  let s := observeRst s tvSec flags src2dstDirection
  let s := observeFin s tvSec flags src2dstDirection
  let s := establish s flags
  { s with flow := { s.flow with conn := s.flow.conn.cumulate flags src2dstDirection } }

end Update

/-- The flags of a record, in the direction it has in the flow. -/
def processFlags (s : State) (r : Record) (src2dstDirection : Bool) : State :=
  let s :=
    if r.clientTcpFlags ≠ 0 ∨ r.serverTcpFlags ≠ 0 then
      let s := if r.clientTcpFlags ≠ 0 then updateTcpFlags s r.tvSec r.clientTcpFlags src2dstDirection else s
      let s := if r.serverTcpFlags ≠ 0 then updateTcpFlags s r.tvSec r.serverTcpFlags (!src2dstDirection) else s
      if r.tcpFlags ≠ 0 ∧ r.clientTcpFlags = 0 ∧ r.serverTcpFlags = 0 then
        updateTcpFlags s r.tvSec r.tcpFlags src2dstDirection
      else s
    else s
  if r.clientTcpFlags ≠ 0 ∧ r.serverTcpFlags ≠ 0 then
    { s with flow := { s.flow with conn := s.flow.conn.calculateConnectionState true } }
  else s

/-- The primary exporter is the first one with an address. -/
def addExporterInfo (original exporter : ℕ) : ℕ := if original = 0 then exporter else original

def processFlow (dedup : Bool) (s : State) (r : Record) : State :=
  if s.newFlow then
    processFlags { s with newFlow := false, originalExporterIp := addExporterInfo s.originalExporterIp r.exporterDeviceIp } r true
  else if dedup ∧ s.originalExporterIp ≠ r.exporterDeviceIp then
    { s with originalExporterIp := addExporterInfo s.originalExporterIp r.exporterDeviceIp }
  else processFlags s r r.src2dstDirection

/-- `tcp`: whether there was memory for the TCP part of the flow. -/
def start (tcp viewShared : Bool) : State := ⟨Flows.TcpFlags.State.init tcp, true, 0, viewShared, false⟩

def after (dedup tcp viewShared : Bool) (rs : List Record) : State := run (processFlow dedup) (start tcp viewShared) rs

/-! ## What the records carry -/

/-- The records that are kept, with the direction they have in the flow. -/
def keptFrom (dedup : Bool) : (newFlow : Bool) → (original : ℕ) → List Record → List Record
  | _, _, [] => []
  | true, original, r :: rs =>
    { r with src2dstDirection := true } :: keptFrom dedup false (addExporterInfo original r.exporterDeviceIp) rs
  | false, original, r :: rs =>
    if dedup ∧ original ≠ r.exporterDeviceIp then keptFrom dedup false (addExporterInfo original r.exporterDeviceIp) rs
    else r :: keptFrom dedup false original rs

def kept (dedup : Bool) (rs : List Record) : List Record := keptFrom dedup true 0 rs

def Record.clientSide (r : Record) : UInt8 := if r.src2dstDirection then r.clientTcpFlags else r.serverTcpFlags

def Record.serverSide (r : Record) : UInt8 := if r.src2dstDirection then r.serverTcpFlags else r.clientTcpFlags

def Record.sides (r : Record) : UInt8 := r.clientTcpFlags ||| r.serverTcpFlags

def Record.carried (r : Record) : UInt8 := r.tcpFlags ||| r.sides

def union (f : Record → UInt8) (rs : List Record) : UInt8 := rs.foldr (fun r v => f r ||| v) 0

def hasFlag (flags : UInt8) (i : ℕ) : Prop := flags.toBitVec.getLsbD i

/-- Every flag of a record is one that a kept record carries for a side. -/
def Covered (dedup : Bool) (rs : List Record) : Prop :=
  ∀ r ∈ rs, ∀ i, hasFlag r.carried i → ∃ k ∈ kept dedup rs, hasFlag k.sides i

/-! ## Flags -/

theorem hasFlag_or {a b : UInt8} {i : ℕ} : hasFlag (a ||| b) i ↔ hasFlag a i ∨ hasFlag b i := by
  rw [hasFlag, UInt8.toBitVec_or, BitVec.getLsbD_or, Bool.or_eq_true]
  rfl

theorem not_hasFlag_zero (i : ℕ) : ¬ hasFlag 0 i := by
  rw [hasFlag]
  simp

theorem eq_iff_hasFlag {a b : UInt8} : a = b ↔ ∀ i, hasFlag a i ↔ hasFlag b i := by
  constructor
  · rintro rfl i
    rfl
  · intro h
    apply UInt8.toBitVec_inj.mp
    exact BitVec.eq_of_getLsbD_eq fun i _ => Bool.eq_iff_iff.mpr (h i)

theorem hasFlag_union {f : Record → UInt8} {rs : List Record} {i : ℕ} :
    hasFlag (union f rs) i ↔ ∃ r ∈ rs, hasFlag (f r) i := by
  induction rs with
  | nil => exact iff_of_false (not_hasFlag_zero i) (by simp)
  | cons r rs ih =>
    show hasFlag (f r ||| union f rs) i ↔ _
    rw [hasFlag_or, ih, List.exists_mem_cons_iff]

theorem sides_or (r : Record) : r.clientSide ||| r.serverSide = r.sides := by
  unfold Record.clientSide Record.serverSide
  split
  · rfl
  · exact UInt8.or_comm ..

/-! ## The sides -/

/-- Whether the handshake of the flow is over with these flags. -/
def acks (flags : UInt8) : Bool := flags &&& (TH_ACK ||| TH_PUSH ||| TH_RST ||| TH_FIN) != 0

/-- All that an update does, but for what it tells the hosts. -/
theorem updateTcpFlags_eq (s : State) (tvSec : Int) (flags : UInt8) (dir : Bool) :
    ∃ told view, updateTcpFlags s tvSec flags dir = { s with
      flow := { s.flow with
        conn := s.flow.conn.cumulate flags dir
        twhOver := s.flow.twhOver || acks flags
        told := told
        tcpFlowStats := { s.flow.tcpFlowStats with
          numEstablishedFlows := s.flow.tcpFlowStats.numEstablishedFlows + (!s.flow.twhOver && acks flags).toNat
          numResetFlows := s.flow.tcpFlowStats.numResetFlows + (observed s flags TH_RST).toNat
          numFinFlows := s.flow.tcpFlowStats.numFinFlows + (observed s flags TH_FIN).toNat } }
      twhOverView := view } := by
  have hsyn : ∃ told, observeSyn s tvSec flags dir = { s with flow := { s.flow with told := told } } := by
    unfold observeSyn
    split
    · exact ⟨_, rfl⟩
    · exact ⟨_, rfl⟩
  have hrst : ∀ s : State, ∃ told, observeRst s tvSec flags dir = { s with flow := { s.flow with
      told := told
      tcpFlowStats := { s.flow.tcpFlowStats with
        numResetFlows := s.flow.tcpFlowStats.numResetFlows + (observed s flags TH_RST).toNat } } } := fun s => by
    unfold observeRst
    by_cases h : observed s flags TH_RST
    · rw [if_pos h, h]
      dsimp only
      split
      · exact ⟨_, rfl⟩
      · exact ⟨_, rfl⟩
    · rw [if_neg h, Bool.eq_false_iff.mpr h]
      exact ⟨_, rfl⟩
  have hfin : ∀ s : State, ∃ told, observeFin s tvSec flags dir = { s with flow := { s.flow with
      told := told
      tcpFlowStats := { s.flow.tcpFlowStats with
        numFinFlows := s.flow.tcpFlowStats.numFinFlows + (observed s flags TH_FIN).toNat } } } := fun s => by
    unfold observeFin
    by_cases h : observed s flags TH_FIN
    · rw [if_pos h, h]
      exact ⟨_, rfl⟩
    · rw [if_neg h, Bool.eq_false_iff.mpr h]
      exact ⟨_, rfl⟩
  have hest : ∀ s : State, ∃ view, establish s flags = { s with
      flow := { s.flow with
        twhOver := s.flow.twhOver || acks flags
        tcpFlowStats := { s.flow.tcpFlowStats with
          numEstablishedFlows := s.flow.tcpFlowStats.numEstablishedFlows + (!s.flow.twhOver && acks flags).toNat } }
      twhOverView := view } := fun s => by
    obtain ⟨⟨conn, cli2srv, srv2cli, twhOver, syn, synAck, ack, stats, told⟩, new, original, shared, view⟩ := s
    show ∃ view', (if !twhOver && acks flags then _ else _) = _
    cases twhOver
    · cases acks flags
      · exact ⟨view, rfl⟩
      · exact ⟨_, rfl⟩
    · exact ⟨view, rfl⟩
  obtain ⟨t1, h1⟩ := hsyn
  obtain ⟨t2, h2⟩ := hrst (observeSyn s tvSec flags dir)
  obtain ⟨t3, h3⟩ := hfin (observeRst (observeSyn s tvSec flags dir) tvSec flags dir)
  obtain ⟨view, h4⟩ := hest (observeFin (observeRst (observeSyn s tvSec flags dir) tvSec flags dir) tvSec flags dir)
  refine ⟨t3, view, ?_⟩
  unfold updateTcpFlags
  dsimp only
  rw [h4, h3, h2, h1]
  rfl

theorem updateTcpFlags_conn (s : State) (tvSec : Int) (flags : UInt8) (dir : Bool) :
    (updateTcpFlags s tvSec flags dir).flow.conn = s.flow.conn.cumulate flags dir := by
  obtain ⟨told, view, h⟩ := updateTcpFlags_eq s tvSec flags dir
  rw [h]

/-- Without flags there is nothing to add. -/
theorem cumulate_flags (c : Conn) (flags : UInt8) (dir : Bool) :
    (c.cumulate flags dir).src2dstTcpFlags = c.src2dstTcpFlags ||| (if dir then flags else 0) ∧
      (c.cumulate flags dir).dst2srcTcpFlags = c.dst2srcTcpFlags ||| (if dir then 0 else flags) := by
  unfold Conn.cumulate
  cases dir
  · exact ⟨UInt8.or_zero.symm, rfl⟩
  · exact ⟨rfl, UInt8.or_zero.symm⟩

/-- The update of a side whose flags are 0 is left out. -/
theorem update_flags (s : State) (tvSec : Int) (flags : UInt8) (dir : Bool) :
    let t := if flags ≠ 0 then updateTcpFlags s tvSec flags dir else s
    t.flow.conn.src2dstTcpFlags = s.flow.conn.src2dstTcpFlags ||| (if dir then flags else 0) ∧
      t.flow.conn.dst2srcTcpFlags = s.flow.conn.dst2srcTcpFlags ||| (if dir then 0 else flags) := by
  by_cases h : flags = 0
  · simp [h]
  · simp only [ne_eq, h, not_false_eq_true, if_true, updateTcpFlags_conn]
    exact cumulate_flags ..

theorem processFlags_sides (s : State) (r : Record) (dir : Bool) :
    (processFlags s r dir).flow.conn.src2dstTcpFlags =
        s.flow.conn.src2dstTcpFlags ||| { r with src2dstDirection := dir }.clientSide ∧
      (processFlags s r dir).flow.conn.dst2srcTcpFlags =
        s.flow.conn.dst2srcTcpFlags ||| { r with src2dstDirection := dir }.serverSide := by
  -- The state of the connection is no flag.
  have hstate : ∀ t : State, ∀ p : Prop, ∀ [Decidable p],
      (if p then { t with flow := { t.flow with conn := t.flow.conn.calculateConnectionState true } } else t).flow.conn.src2dstTcpFlags =
          t.flow.conn.src2dstTcpFlags ∧
        (if p then { t with flow := { t.flow with conn := t.flow.conn.calculateConnectionState true } } else t).flow.conn.dst2srcTcpFlags =
          t.flow.conn.dst2srcTcpFlags := fun t p _ => by
    split
    · exact ⟨rfl, rfl⟩
    · exact ⟨rfl, rfl⟩
  unfold processFlags
  dsimp only
  rw [(hstate _ _).1, (hstate _ _).2]
  unfold Record.clientSide Record.serverSide
  dsimp only
  by_cases h : r.clientTcpFlags ≠ 0 ∨ r.serverTcpFlags ≠ 0
  · have hno : ¬ (r.tcpFlags ≠ 0 ∧ r.clientTcpFlags = 0 ∧ r.serverTcpFlags = 0) := by tauto
    rw [if_pos h, if_neg hno]
    obtain ⟨h1, h2⟩ := update_flags s r.tvSec r.clientTcpFlags dir
    obtain ⟨h3, h4⟩ := update_flags (if r.clientTcpFlags ≠ 0 then updateTcpFlags s r.tvSec r.clientTcpFlags dir else s) r.tvSec
      r.serverTcpFlags (!dir)
    rw [h3, h4, h1, h2]
    cases dir
    · simp
    · simp
  · obtain ⟨hc, hs⟩ := not_or.mp h
    rw [if_neg h, not_not.mp hc, not_not.mp hs]
    simp

theorem updateTcpFlags_same (s : State) (tvSec : Int) (flags : UInt8) (dir : Bool) :
    (updateTcpFlags s tvSec flags dir).newFlow = s.newFlow ∧
      (updateTcpFlags s tvSec flags dir).originalExporterIp = s.originalExporterIp := by
  obtain ⟨told, view, h⟩ := updateTcpFlags_eq s tvSec flags dir
  rw [h]
  exact ⟨rfl, rfl⟩

theorem processFlags_same (s : State) (r : Record) (dir : Bool) :
    (processFlags s r dir).newFlow = s.newFlow ∧ (processFlags s r dir).originalExporterIp = s.originalExporterIp := by
  have hupd : ∀ (t : State) (p : Prop) [Decidable p] (flags : UInt8) (d : Bool),
      (if p then updateTcpFlags t r.tvSec flags d else t).newFlow = t.newFlow ∧
        (if p then updateTcpFlags t r.tvSec flags d else t).originalExporterIp = t.originalExporterIp := fun t p _ flags d => by
    split
    · exact updateTcpFlags_same ..
    · exact ⟨rfl, rfl⟩
  have hconn : ∀ (t : State) (p : Prop) [Decidable p],
      (if p then { t with flow := { t.flow with conn := t.flow.conn.calculateConnectionState true } } else t).newFlow =
          t.newFlow ∧
        (if p then { t with flow := { t.flow with conn := t.flow.conn.calculateConnectionState true } }
          else t).originalExporterIp = t.originalExporterIp := fun t p _ => by
    split
    · exact ⟨rfl, rfl⟩
    · exact ⟨rfl, rfl⟩
  unfold processFlags
  dsimp only
  rw [(hconn _ _).1, (hconn _ _).2]
  by_cases h : r.clientTcpFlags ≠ 0 ∨ r.serverTcpFlags ≠ 0
  · rw [if_pos h, (hupd _ _ _ _).1, (hupd _ _ _ _).1, (hupd _ _ _ _).1, (hupd _ _ _ _).2, (hupd _ _ _ _).2, (hupd _ _ _ _).2]
    exact ⟨rfl, rfl⟩
  · rw [if_neg h]
    exact ⟨rfl, rfl⟩

/-- Each side has what it had, and what the kept records carry for it. -/
theorem run_sides (dedup : Bool) (s : State) (rs : List Record) :
    (run (processFlow dedup) s rs).flow.conn.src2dstTcpFlags =
        s.flow.conn.src2dstTcpFlags ||| union Record.clientSide (keptFrom dedup s.newFlow s.originalExporterIp rs) ∧
      (run (processFlow dedup) s rs).flow.conn.dst2srcTcpFlags =
        s.flow.conn.dst2srcTcpFlags ||| union Record.serverSide (keptFrom dedup s.newFlow s.originalExporterIp rs) := by
  induction rs generalizing s with
  | nil =>
    cases s.newFlow
    · exact ⟨UInt8.or_zero.symm, UInt8.or_zero.symm⟩
    · exact ⟨UInt8.or_zero.symm, UInt8.or_zero.symm⟩
  | cons r rs ih =>
    -- A kept record is the first one of what is kept from the state before it.
    have hkeep : ∀ (t : State) (r : Record) (dir : Bool), processFlow dedup s r = processFlags t r dir → t.flow = s.flow →
        keptFrom dedup s.newFlow s.originalExporterIp (r :: rs) =
          { r with src2dstDirection := dir } :: keptFrom dedup t.newFlow t.originalExporterIp rs →
        (run (processFlow dedup) s (r :: rs)).flow.conn.src2dstTcpFlags =
            s.flow.conn.src2dstTcpFlags ||| union Record.clientSide (keptFrom dedup s.newFlow s.originalExporterIp (r :: rs)) ∧
          (run (processFlow dedup) s (r :: rs)).flow.conn.dst2srcTcpFlags =
            s.flow.conn.dst2srcTcpFlags ||| union Record.serverSide (keptFrom dedup s.newFlow s.originalExporterIp (r :: rs)) := by
      intro t r dir hstep hflow hkept
      obtain ⟨h1, h2⟩ := ih (processFlags t r dir)
      obtain ⟨h3, h4⟩ := processFlags_sides t r dir
      obtain ⟨h5, h6⟩ := processFlags_same t r dir
      rw [run_cons, hstep, h1, h2, h3, h4, h5, h6, hkept, hflow]
      exact ⟨UInt8.or_assoc .., UInt8.or_assoc ..⟩
    by_cases hnew : s.newFlow
    · refine hkeep { s with newFlow := false, originalExporterIp := addExporterInfo s.originalExporterIp r.exporterDeviceIp } r
        true (if_pos hnew) rfl ?_
      rw [hnew, keptFrom]
    · rw [Bool.not_eq_true] at hnew
      have hif : ¬ s.newFlow = true := by rw [hnew]; exact Bool.false_ne_true
      by_cases hdup : dedup ∧ s.originalExporterIp ≠ r.exporterDeviceIp
      · have hstep : processFlow dedup s r =
            { s with originalExporterIp := addExporterInfo s.originalExporterIp r.exporterDeviceIp } := by
          rw [processFlow, if_neg hif, if_pos hdup]
        rw [run_cons, hstep, hnew, keptFrom, if_pos hdup]
        have h := ih { s with originalExporterIp := addExporterInfo s.originalExporterIp r.exporterDeviceIp }
        rw [hnew] at h
        exact h
      · refine hkeep s r r.src2dstDirection (by rw [processFlow, if_neg hif, if_neg hdup]) rfl ?_
        rw [hnew, keptFrom, if_neg hdup]

theorem sides_eq (dedup tcp viewShared : Bool) (rs : List Record) :
    (after dedup tcp viewShared rs).flow.conn.src2dstTcpFlags = union Record.clientSide (kept dedup rs) ∧
      (after dedup tcp viewShared rs).flow.conn.dst2srcTcpFlags = union Record.serverSide (kept dedup rs) := by
  obtain ⟨h1, h2⟩ := run_sides dedup (start tcp viewShared) rs
  exact ⟨h1.trans UInt8.zero_or, h2.trans UInt8.zero_or⟩

/-! ## The flags the flow has seen -/

theorem hasFlag_seen (dedup tcp viewShared : Bool) (rs : List Record) (i : ℕ) :
    hasFlag (after dedup tcp viewShared rs).flow.conn.seen i ↔ ∃ k ∈ kept dedup rs, hasFlag k.sides i := by
  obtain ⟨h1, h2⟩ := sides_eq dedup tcp viewShared rs
  rw [Conn.seen, h1, h2, hasFlag_or, hasFlag_union, hasFlag_union]
  constructor
  · rintro (⟨k, hk, hf⟩ | ⟨k, hk, hf⟩)
    · exact ⟨k, hk, sides_or k ▸ hasFlag_or.mpr (.inl hf)⟩
    · exact ⟨k, hk, sides_or k ▸ hasFlag_or.mpr (.inr hf)⟩
  · rintro ⟨k, hk, hf⟩
    rw [← sides_or, hasFlag_or] at hf
    exact hf.imp (fun hf => ⟨k, hk, hf⟩) (fun hf => ⟨k, hk, hf⟩)

/-- A kept record is one of the records, up to its direction. -/
theorem mem_keptFrom {dedup newFlow : Bool} {original : ℕ} {rs : List Record} {k : Record}
    (h : k ∈ keptFrom dedup newFlow original rs) : ∃ r ∈ rs, r.sides = k.sides := by
  induction rs generalizing newFlow original with
  | nil =>
    cases newFlow
    · cases h
    · cases h
  | cons r rs ih =>
    have hrest : ∀ {new : Bool} {o : ℕ}, k ∈ keptFrom dedup new o rs → ∃ r' ∈ r :: rs, r'.sides = k.sides := fun hk => by
      obtain ⟨r', hr', hs⟩ := ih hk
      exact ⟨r', List.mem_cons_of_mem r hr', hs⟩
    cases newFlow
    · rw [keptFrom] at h
      split at h
      · exact hrest h
      · rcases List.mem_cons.mp h with rfl | h
        · exact ⟨k, List.mem_cons_self .., rfl⟩
        · exact hrest h
    · rw [keptFrom] at h
      rcases List.mem_cons.mp h with rfl | h
      · exact ⟨r, List.mem_cons_self .., rfl⟩
      · exact hrest h

theorem seen_iff (dedup tcp viewShared : Bool) (rs : List Record) :
    (after dedup tcp viewShared rs).flow.conn.seen = union Record.carried rs ↔ Covered dedup rs := by
  rw [eq_iff_hasFlag]
  constructor
  · intro h r hr i hi
    exact (hasFlag_seen dedup tcp viewShared rs i).mp ((h i).mpr (hasFlag_union.mpr ⟨r, hr, hi⟩))
  · intro h i
    rw [hasFlag_seen, hasFlag_union]
    constructor
    · rintro ⟨k, hk, hi⟩
      obtain ⟨r, hr, hs⟩ := mem_keptFrom hk
      exact ⟨r, hr, hasFlag_or.mpr (.inr (hs ▸ hi))⟩
    · rintro ⟨r, hr, hi⟩
      exact h r hr i hi

/-! ## The counters -/

/-- A RST and a FIN only once they were seen, the handshake just if it is over. -/
structure Counted (s : State) : Prop where
  reset : s.flow.tcpFlowStats.numResetFlows ≤ (isTCPFlagSet s.flow.conn.seen TH_RST).toNat
  fin : s.flow.tcpFlowStats.numFinFlows ≤ (isTCPFlagSet s.flow.conn.seen TH_FIN).toNat
  established : s.flow.tcpFlowStats.numEstablishedFlows = s.flow.twhOver.toNat

theorem Counted.of_flow {s t : State} (h : Counted s) (hflow : t.flow = s.flow) : Counted t := by
  refine ⟨?_, ?_, ?_⟩
  · rw [hflow]
    exact h.reset
  · rw [hflow]
    exact h.fin
  · rw [hflow]
    exact h.established

theorem counted_start (tcp viewShared : Bool) : Counted (start tcp viewShared) := ⟨Nat.zero_le _, Nat.zero_le _, rfl⟩

/-- A flag that is counted was not seen before, and is afterwards. -/
theorem observed_le {s : State} {flags flag : UInt8} {n : ℕ} (dir : Bool) (hflag : flag ∈ [TH_FIN, TH_SYN, TH_RST, TH_ACK])
    (h : n ≤ (isTCPFlagSet s.flow.conn.seen flag).toNat) :
    n + (observed s flags flag).toNat ≤ (isTCPFlagSet (s.flow.conn.cumulate flags dir).seen flag).toNat := by
  rw [Flows.TcpFlags.Conn.seen_cumulate]
  unfold observed
  rw [Flows.TcpFlags.and_ne_single hflag]
  by_cases hf : flags = flag
  · subst hf
    have hne : isTCPFlagSet flags flags := by
      unfold isTCPFlagSet
      rw [UInt8.and_self, bne_iff_ne]
      rintro rfl
      exact absurd hflag (by decide)
    rw [beq_self_eq_true, Bool.true_and, hne, Bool.or_true]
    cases hseen : isTCPFlagSet s.flow.conn.seen flags
    · rw [hseen] at h
      exact Nat.add_le_add_right h 1
    · rw [hseen] at h
      exact h
  · rw [beq_false_of_ne hf, Bool.false_and]
    cases hseen : isTCPFlagSet s.flow.conn.seen flag
    · rw [hseen] at h
      exact h.trans (Nat.zero_le _)
    · rw [hseen] at h
      exact h

theorem counted_update {s : State} (h : Counted s) (tvSec : Int) (flags : UInt8) (dir : Bool) :
    Counted (updateTcpFlags s tvSec flags dir) := by
  obtain ⟨told, view, heq⟩ := updateTcpFlags_eq s tvSec flags dir
  rw [heq]
  refine ⟨observed_le dir (by decide) h.reset, observed_le dir (by decide) h.fin, ?_⟩
  show s.flow.tcpFlowStats.numEstablishedFlows + (!s.flow.twhOver && acks flags).toNat = (s.flow.twhOver || acks flags).toNat
  rw [h.established]
  cases s.flow.twhOver <;> cases acks flags <;> rfl

theorem counted_processFlags {s : State} (h : Counted s) (r : Record) (dir : Bool) : Counted (processFlags s r dir) := by
  have hupd : ∀ {t : State} (p : Prop) [Decidable p] (flags : UInt8) (d : Bool), Counted t →
      Counted (if p then updateTcpFlags t r.tvSec flags d else t) := fun p _ flags d ht => by
    split
    · exact counted_update ht ..
    · exact ht
  have hconn : ∀ {t : State} (p : Prop) [Decidable p], Counted t →
      Counted (if p then { t with flow := { t.flow with conn := t.flow.conn.calculateConnectionState true } } else t) :=
    fun p _ ht => by
      split
      · exact ⟨ht.reset, ht.fin, ht.established⟩
      · exact ht
  unfold processFlags
  apply hconn
  split
  · exact hupd _ _ _ (hupd _ _ _ (hupd _ _ _ h))
  · exact h

theorem counted_step (dedup : Bool) {s : State} (h : Counted s) (r : Record) : Counted (processFlow dedup s r) := by
  rw [processFlow]
  split
  · apply counted_processFlags
    exact h.of_flow rfl
  · split
    · exact h.of_flow rfl
    · exact counted_processFlags h r r.src2dstDirection

theorem counted_inv (dedup tcp viewShared : Bool) (rs : List Record) : Counted (after dedup tcp viewShared rs) := by
  have hstep : ∀ s r, Counted s → Counted (processFlow dedup s r) := fun _ r h => counted_step dedup h r
  exact inv_run_all (processFlow dedup) hstep (counted_start tcp viewShared) rs

/-! ## The law -/

/-- At most once for each. -/
def CountedOnce (t : TcpFlowStats) : Prop := t.numResetFlows ≤ 1 ∧ t.numFinFlows ≤ 1 ∧ t.numEstablishedFlows ≤ 1

theorem counted_once (dedup tcp viewShared : Bool) (rs : List Record) :
    CountedOnce (after dedup tcp viewShared rs).flow.tcpFlowStats := by
  have h := counted_inv dedup tcp viewShared rs
  exact ⟨h.reset.trans (Bool.toNat_le _), h.fin.trans (Bool.toNat_le _), h.established.le.trans (Bool.toNat_le _)⟩

theorem collected_law (dedup tcp viewShared : Bool) (rs : List Record) :
    ((after dedup tcp viewShared rs).flow.conn.src2dstTcpFlags = union Record.clientSide (kept dedup rs) ∧
      (after dedup tcp viewShared rs).flow.conn.dst2srcTcpFlags = union Record.serverSide (kept dedup rs)) ∧
    CountedOnce (after dedup tcp viewShared rs).flow.tcpFlowStats ∧
    ((after dedup tcp viewShared rs).flow.conn.seen = union Record.carried rs ↔ Covered dedup rs) :=
  ⟨sides_eq dedup tcp viewShared rs, counted_once dedup tcp viewShared rs, seen_iff dedup tcp viewShared rs⟩

/-- One record with cumulative flags only: the flow has seen none. -/
theorem cumulative_lost : (after false true false [⟨1, TH_SYN, 0, 0, 0, true⟩]).flow.conn.seen ≠
    union Record.carried [⟨1, TH_SYN, 0, 0, 0, true⟩] := by decide

end Ntopng.Collect.Flags
