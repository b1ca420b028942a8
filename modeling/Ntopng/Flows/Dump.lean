/-
  Ntopng.Flows.Dump — flows on their way to the database (`NetworkInterface::dumpFlow`,
  `dequeueFlowsForDump` and `dumpFlowOut`, src/NetworkInterface.cpp; `Flow::dump` and
  `Flow::housekeep`, src/Flow.cpp).

  The packet thread puts a flow in the queue of the idle or of the active flows, and only
  then takes a use of it and sets its dump-in-progress flag. The dumper thread takes flows
  out of both queues, idle ones first, and for each updates the traffic statistics, dumps
  it, clears the flag and gives the use back. Both queues were allocated (there is no dumper
  otherwise). An event is one step of one thread; the answers of the outside (an allocation,
  the database, whether the flow is tiny or its dump not due) are in the event.

  Proved: when a run is orderly (the flag of a flow is not cleared before it is set, the
  statistics can be allocated, an idle flow's last dump finds its earlier one out of the
  queue) no flow is queued twice, no use count drops below zero, and with nothing in flight
  every flag is clear and every use given back (`orderly_dumps_settle`). The dumper can be
  faster than the packet thread (`overtaken_dump_never_settles`).
-/

import Ntopng.Hash.Generic
import Ntopng.Queue.Contents

namespace Ntopng.Flows.Dump

open Ntopng.Lib.Run Ntopng.Queue.Spsc
open Ntopng.Hash.Generic (HashEntryState)

/-! ## Flows -/

structure LastDbDump where
  inProgress : Bool
  isFirstDump : Bool
  /-- `partial != NULL`. -/
  partialAllocated : Bool
  deriving DecidableEq, Repr

structure Flow where
  state : HashEntryState
  numUses : Int
  lastDbDump : LastDbDump
  deriving DecidableEq, Repr

namespace Flow

variable (f : Flow)

def incUses : Flow := { f with numUses := f.numUses + 1 }
def decUses : Flow := { f with numUses := f.numUses - 1 }
def setDumpInProgress : Flow := { f with lastDbDump := { f.lastDbDump with inProgress := true } }
def setDumpDone : Flow := { f with lastDbDump := { f.lastDbDump with inProgress := false, isFirstDump := false } }

/-- `none` when the statistics cannot be allocated. -/
def updatePartialTrafficStatsDbDump (allocOk : Bool) : Option Flow :=
  if f.lastDbDump.partialAllocated || allocOk then
    some { f with lastDbDump := { f.lastDbDump with partialAllocated := true } }
  else none

end Flow

/-! ## The two threads -/

/-- The packet thread's next step. -/
inductive PacketThread where
  | ready
  | dumpFlow (f : Nat)
  | incUses (f : Nat)
  | setDumpInProgress (f : Nat)
  deriving DecidableEq, Repr

/-- The variables of `dequeueFlowsForDump`, and which of its two loops it is in. -/
structure Call where
  idleFlowsBudget : Nat
  activeFlowsBudget : Nat
  idleFlowsDone : Nat
  activeFlowsDone : Nat
  inIdle : Bool
  deriving DecidableEq, Repr

/-- The dumper's next step. -/
inductive Dumper where
  | returned (numDone : Nat)
  | test (c : Call)
  | dequeue (c : Call)
  | updatePartial (c : Call) (f : Nat)
  | dump (c : Call) (f : Nat)
  | setDumpDone (c : Call) (f : Nat)
  | decUses (c : Call) (f : Nat)
  deriving DecidableEq, Repr

structure Sys where
  flows : Nat → Flow
  idleFlowsToDump : SPSCQueue Nat
  activeFlowsToDump : SPSCQueue Nat
  packet : PacketThread
  dumper : Dumper
  numQueueDroppedFlows : Nat
  numDbDroppedFlows : Nat

def maxFlowQueueLen : UInt32 := 131072

def start (uses : Nat → Nat) : Sys :=
  { flows := fun f => ⟨.allocated, uses f, ⟨false, true, false⟩⟩
    idleFlowsToDump := .new maxFlowQueueLen
    activeFlowsToDump := .new maxFlowQueueLen
    packet := .ready
    dumper := .returned 0
    numQueueDroppedFlows := 0
    numDbDroppedFlows := 0 }

namespace Sys

variable (s : Sys)

def setFlow (f : Nat) (v : Flow) : Sys := { s with flows := Function.update s.flows f v }

def queue (idle : Bool) : SPSCQueue Nat := if idle then s.idleFlowsToDump else s.activeFlowsToDump

def setQueue (idle : Bool) (q : SPSCQueue Nat) : Sys :=
  if idle then { s with idleFlowsToDump := q } else { s with activeFlowsToDump := q }

/-! ## The packet thread -/

/-- `Flow::dump`, up to its call of `dumpFlow`. -/
def flowDump (f : Nat) (lastDumpBeforeFree tiny notDue : Bool) : Sys :=
  if tiny then s
  else if !lastDumpBeforeFree && (notDue || (s.flows f).lastDbDump.inProgress) then s
  else { s with packet := .dumpFlow f }

/-- `dumpFlow`, up to the enqueue. -/
def dumpFlow (f : Nat) : Sys :=
  let idle := (s.flows f).state == .idle
  let r := (s.queue idle).enqueue f true
  if r.1 then { s.setQueue idle r.2 with packet := .incUses f }
  else { s.setQueue idle r.2 with packet := .ready, numQueueDroppedFlows := s.numQueueDroppedFlows + 1 }

def packetStep : Sys :=
  match s.packet with
  | .ready => s
  | .dumpFlow f => s.dumpFlow f
  | .incUses f => { s.setFlow f (s.flows f).incUses with packet := .setDumpInProgress f }
  | .setDumpInProgress f => { s.setFlow f (s.flows f).setDumpInProgress with packet := .ready }

end Sys

/-! ## The dumper -/

/-- The rest of a loop's body after `dumpFlowOut`. -/
def Call.next (c : Call) (dumped : Bool) : Dumper :=
  if c.inIdle then
    let c := if dumped then { c with idleFlowsDone := c.idleFlowsDone + 1 } else c
    if c.idleFlowsBudget > 0 ∧ c.idleFlowsDone ≥ c.idleFlowsBudget then .test { c with inIdle := false } else .test c
  else
    let c := if dumped then { c with activeFlowsDone := c.activeFlowsDone + 1 } else c
    if c.activeFlowsBudget > 0 ∧ c.activeFlowsDone ≥ c.activeFlowsBudget then
      .returned (c.idleFlowsDone + c.activeFlowsDone)
    else .test c

/-- `dumpOk` is the database's answer; a flow without new bytes is not dumped, which is no failure. -/
def Sys.dumperStep (s : Sys) (allocOk dumpOk : Bool) : Sys :=
  match s.dumper with
  | .returned _ => s
  | .test c =>
    if (s.queue c.inIdle).isNotEmpty then { s with dumper := .dequeue c }
    else if c.inIdle then { s with dumper := .test { c with inIdle := false } }
    else { s with dumper := .returned (c.idleFlowsDone + c.activeFlowsDone) }
  | .dequeue c =>
    match (s.queue c.inIdle).dequeue with
    | .ok (some f, q) => { s.setQueue c.inIdle q with dumper := .updatePartial c f }
    | _ => s
  | .updatePartial c f =>
    match (s.flows f).updatePartialTrafficStatsDbDump allocOk with
    | some v => { s.setFlow f v with dumper := .dump c f }
    | none => { s with dumper := c.next false }
  | .dump c f =>
    { s with
      dumper := .setDumpDone c f
      numDbDroppedFlows := if dumpOk then s.numDbDroppedFlows else s.numDbDroppedFlows + 1 }
  | .setDumpDone c f => { s.setFlow f (s.flows f).setDumpDone with dumper := .decUses c f }
  | .decUses c f => { s.setFlow f (s.flows f).decUses with dumper := c.next true }

/-! ## Runs -/

inductive Ev where
  /-- The flow becomes active. -/
  | activate (f : Nat)
  /-- The periodic walk visits an active flow. -/
  | housekeep (f : Nat) (tiny notDue : Bool)
  /-- The walk takes the flow out of its hash table, sets it idle and visits it one last time. -/
  | retire (f : Nat) (tiny : Bool)
  | packetStep
  | dequeueFlowsForDump (idleFlowsBudget activeFlowsBudget : Nat)
  | dumperStep (allocOk dumpOk : Bool)

def step (s : Sys) : Ev → Sys
  | .activate f =>
    if s.packet = .ready ∧ (s.flows f).state ≠ .idle then s.setFlow f { s.flows f with state := .active } else s
  | .housekeep f tiny notDue =>
    if s.packet = .ready ∧ (s.flows f).state = .active then s.flowDump f false tiny notDue else s
  | .retire f tiny =>
    if s.packet = .ready ∧ (s.flows f).state ≠ .idle then
      (s.setFlow f { s.flows f with state := .idle }).flowDump f true tiny false
    else s
  | .packetStep => s.packetStep
  | .dequeueFlowsForDump idleFlowsBudget activeFlowsBudget =>
    match s.dumper with
    | .returned _ => { s with dumper := .test ⟨idleFlowsBudget, activeFlowsBudget, 0, 0, true⟩ }
    | _ => s
  | .dumperStep allocOk dumpOk => s.dumperStep allocOk dumpOk

/-- The flow that is queued and not yet marked. -/
def PacketThread.pending : PacketThread → Option Nat
  | .incUses f | .setDumpInProgress f => some f
  | _ => none

/-- The flow that is queued and whose use is not taken yet. -/
def PacketThread.untaken : PacketThread → Option Nat
  | .incUses f => some f
  | _ => none

/-- The flow the dumper has taken and not yet marked done. -/
def Dumper.held : Dumper → Option Nat
  | .updatePartial _ f | .dump _ f | .setDumpDone _ f => some f
  | _ => none

/-- The flow whose use the dumper has still to give back. -/
def Dumper.owed : Dumper → Option Nat
  | .decUses _ f => some f
  | d => d.held

/-- The flows in the two queues. -/
def Sys.queued (s : Sys) : List Nat := s.idleFlowsToDump.items ++ s.activeFlowsToDump.items

/-- What each step needs: the last dump of a flow finds its earlier one out of the queue, the
    statistics can be allocated, and the dump that is marked done is not one whose flow is still
    to be marked in progress. -/
def Orderly (s : Sys) : Ev → Prop
  | .packetStep =>
    match s.packet with
    | .dumpFlow f => (s.flows f).state = .idle → f ∉ s.queued
    | _ => True
  | .dumperStep allocOk _ =>
    match s.dumper with
    | .updatePartial _ f => (s.flows f).lastDbDump.partialAllocated = true ∨ allocOk = true
    | .setDumpDone _ f => s.packet.pending = some f → f ∈ s.queued
    | _ => True
  | _ => True

instance (s : Sys) : (e : Ev) → Decidable (Orderly s e)
  | .packetStep =>
    match h : s.packet with
    | .dumpFlow f => decidable_of_iff ((s.flows f).state = .idle → f ∉ s.queued) (by simp only [Orderly, h])
    | .ready | .incUses _ | .setDumpInProgress _ => isTrue (by simp only [Orderly, h])
  | .dumperStep allocOk _ =>
    match h : s.dumper with
    | .updatePartial _ f =>
      decidable_of_iff ((s.flows f).lastDbDump.partialAllocated = true ∨ allocOk = true) (by simp only [Orderly, h])
    | .setDumpDone _ f => decidable_of_iff (s.packet.pending = some f → f ∈ s.queued) (by simp only [Orderly, h])
    | .returned _ | .test _ | .dequeue _ | .dump _ _ | .decUses _ _ => isTrue (by simp only [Orderly, h])
  | .activate _ | .housekeep .. | .retire .. | .dequeueFlowsForDump .. => isTrue trivial

/-! ## The invariant -/

/-- 1 at the flow in question. -/
def owes (o : Option Nat) (f : Nat) : Int := if o = some f then 1 else 0

@[simp] theorem owes_none (f : Nat) : owes none f = 0 := rfl
@[simp] theorem owes_self (f : Nat) : owes (some f) f = 1 := if_pos rfl

theorem owes_ne {f g : Nat} (h : g ≠ f) : owes (some f) g = 0 := if_neg fun hc => h (Option.some.inj hc).symm

/-- What the two queues hold, the idle flows first. -/
def Sys.Stored (s : Sys) (l : List Nat) : Prop :=
  ∃ li la, Holds s.idleFlowsToDump li ∧ Holds s.activeFlowsToDump la ∧ l = li ++ la

/-- `l` is what the queues hold. A flow that is not idle has at most one dump, queued or in the
    dumper's hands, and its flag or the packet thread tells of it. -/
structure Inv (uses : Nat → Nat) (s : Sys) (l : List Nat) : Prop where
  stored : s.Stored l
  once : ∀ f, l.count f ≤ 1
  numUses : ∀ f, (s.flows f).numUses + owes s.packet.untaken f = uses f + l.count f + owes s.dumper.owed f
  oneDump : ∀ f, (s.flows f).state ≠ .idle → f ∈ l → s.dumper.held ≠ some f
  told : ∀ f, (s.flows f).state ≠ .idle → f ∈ l ∨ s.dumper.held = some f →
    s.packet.pending = some f ∨ (s.flows f).lastDbDump.inProgress = true
  flagged : ∀ f, (s.flows f).lastDbDump.inProgress = true → f ∈ l ∨ s.dumper.held = some f
  pending : ∀ f, s.packet.pending = some f → f ∈ l ∨ s.dumper.held = some f
  toDump : ∀ f, s.packet = .dumpFlow f → (s.flows f).state ≠ .idle → f ∉ l ∧ s.dumper.held ≠ some f

variable {uses : Nat → Nat} {s : Sys} {l : List Nat}

theorem queued_eq (h : s.Stored l) : s.queued = l := by
  obtain ⟨li, la, hi, ha, rfl⟩ := h
  rw [Sys.queued, items_eq hi, items_eq ha]

theorem stored_start : (start uses).Stored [] :=
  ⟨[], [], holds_new (by decide) (by decide), holds_new (by decide) (by decide), rfl⟩

theorem stored_enqueue (h : s.Stored l) (idle : Bool) (f : Nat) :
    ∃ l', (s.setQueue idle ((s.queue idle).enqueue f true).2).Stored l' ∧
      l'.Perm (if ((s.queue idle).enqueue f true).1 then f :: l else l) := by
  obtain ⟨li, la, hi, ha, rfl⟩ := h
  cases idle with
  | true =>
    refine ⟨_, ⟨_, la, holds_enqueue hi f, ha, rfl⟩, ?_⟩
    show ((if (s.idleFlowsToDump.enqueue f true).1 then li ++ [f] else li) ++ la).Perm
      (if (s.idleFlowsToDump.enqueue f true).1 then f :: (li ++ la) else li ++ la)
    split
    · rw [List.append_assoc]
      exact List.perm_middle
    · exact .refl _
  | false =>
    refine ⟨_, ⟨li, _, hi, holds_enqueue ha f, rfl⟩, ?_⟩
    show (li ++ if (s.activeFlowsToDump.enqueue f true).1 then la ++ [f] else la).Perm
      (if (s.activeFlowsToDump.enqueue f true).1 then f :: (li ++ la) else li ++ la)
    split
    · rw [← List.append_assoc]
      exact List.perm_append_singleton ..
    · exact .refl _

theorem stored_dequeue (h : s.Stored l) (idle : Bool) :
    (s.queue idle).dequeue = .error "Empty queue" ∨
      ∃ f q l', (s.queue idle).dequeue = .ok (some f, q) ∧ (s.setQueue idle q).Stored l' ∧ l.Perm (f :: l') := by
  obtain ⟨li, la, hi, ha, rfl⟩ := h
  cases idle with
  | true =>
    cases li with
    | nil => exact .inl (dequeue_nil hi)
    | cons f li =>
      obtain ⟨q, hd, hq⟩ := holds_dequeue hi
      exact .inr ⟨f, q, li ++ la, hd, ⟨li, la, hq, ha, rfl⟩, .refl _⟩
  | false =>
    cases la with
    | nil => exact .inl (dequeue_nil ha)
    | cons f la =>
      obtain ⟨q, hd, hq⟩ := holds_dequeue ha
      exact .inr ⟨f, q, li ++ la, hd, ⟨li, la, hi, hq, rfl⟩, List.perm_middle⟩

/-! ## What leaves the invariant alone -/

theorem Inv.setFlow (h : Inv uses s l) {f : Nat} {v : Flow} (hu : v.numUses = (s.flows f).numUses)
    (hd : v.lastDbDump.inProgress = (s.flows f).lastDbDump.inProgress)
    (hs : v.state ≠ .idle → (s.flows f).state ≠ .idle) : Inv uses (s.setFlow f v) l := by
  have hget : ∀ g, ((s.setFlow f v).flows g).numUses = (s.flows g).numUses ∧
      ((s.setFlow f v).flows g).lastDbDump.inProgress = (s.flows g).lastDbDump.inProgress ∧
      (((s.setFlow f v).flows g).state ≠ .idle → (s.flows g).state ≠ .idle) := by
    intro g
    by_cases hg : g = f
    · subst hg
      simpa only [Sys.setFlow, Function.update_self] using ⟨hu, hd, hs⟩
    · simp only [Sys.setFlow, Function.update_of_ne hg, true_and, imp_self]
  refine ⟨h.stored, h.once, fun g => ?_, fun g hg => h.oneDump g ((hget g).2.2 hg), fun g hg hm => ?_, fun g hg => ?_,
    h.pending, fun g hp hg => h.toDump g hp ((hget g).2.2 hg)⟩
  · rw [(hget g).1]
    exact h.numUses g
  · rw [(hget g).2.1]
    exact h.told g ((hget g).2.2 hg) hm
  · rw [(hget g).2.1] at hg
    exact h.flagged g hg

theorem Inv.moveDumper (h : Inv uses s l) {d : Dumper} (ho : d.owed = s.dumper.owed) (hh : d.held = s.dumper.held) :
    Inv uses { s with dumper := d } l := by
  refine ⟨h.stored, h.once, fun g => ?_, fun g => ?_, fun g => ?_, fun g => ?_, fun g => ?_, fun g => ?_⟩
  · rw [ho]
    exact h.numUses g
  · rw [hh]
    exact h.oneDump g
  · rw [hh]
    exact h.told g
  · rw [hh]
    exact h.flagged g
  · rw [hh]
    exact h.pending g
  · rw [hh]
    exact h.toDump g

theorem Inv.count_drops (h : Inv uses s l) (n m : Nat) :
    Inv uses { s with numQueueDroppedFlows := n, numDbDroppedFlows := m } l := { h with stored := h.stored }

/-! ## Steps of the packet thread -/

theorem start_inv : Inv uses (start uses) [] := by
  refine ⟨stored_start, fun f => ?_, fun f => ?_, fun f _ hm => ?_, fun f _ hm => ?_, fun f hf => ?_, fun f hf => ?_,
    fun f hf => ?_⟩
  · exact Nat.zero_le 1
  · simp [start, PacketThread.untaken, Dumper.owed, Dumper.held]
  · cases hm
  · rcases hm with hm | hm <;> cases hm
  · cases hf
  · cases hf
  · cases hf

theorem flowDump_inv (h : Inv uses s l) (hready : s.packet = .ready) (f : Nat) (last tiny notDue : Bool)
    (hlast : last = true → (s.flows f).state = .idle) : Inv uses (s.flowDump f last tiny notDue) l := by
  unfold Sys.flowDump
  split
  · exact h
  split
  · exact h
  · rename_i _ hgo
    refine ⟨h.stored, h.once, fun g => ?_, h.oneDump, fun g hs hm => ?_, h.flagged, fun g hg => ?_, fun g hg hs => ?_⟩
    · have := h.numUses g
      rw [hready] at this
      exact this
    · have := h.told g hs hm
      rw [hready] at this
      exact this.imp_left fun hp => by cases hp
    · cases hg
    · obtain rfl : f = g := by injection hg
      -- an active flow passed the check of its flag, so nothing of it is in flight
      have hnot : last = false := by
        cases last with
        | false => rfl
        | true => exact absurd (hlast rfl) hs
      have hclear : (s.flows f).lastDbDump.inProgress = false := by
        simp only [hnot, Bool.not_false, Bool.true_and, Bool.or_eq_true, not_or, Bool.not_eq_true] at hgo
        exact hgo.2
      have hno : ¬ (f ∈ l ∨ s.dumper.held = some f) := fun hm => by
        rcases h.told f hs hm with hp | hp
        · rw [hready] at hp
          cases hp
        · rw [hclear] at hp
          cases hp
      exact not_or.mp hno

theorem dumpFlow_inv (h : Inv uses s l) {f : Nat} (hp : s.packet = .dumpFlow f)
    (hok : (s.flows f).state = .idle → f ∉ s.queued) : ∃ l', Inv uses (s.dumpFlow f) l' := by
  have hnot : f ∉ l := by
    by_cases hs : (s.flows f).state = .idle
    · exact queued_eq h.stored ▸ hok hs
    · exact (h.toDump f hp hs).1
  obtain ⟨l', hst, hperm⟩ := stored_enqueue h.stored ((s.flows f).state == .idle) f
  have hnum : ∀ g, (s.flows g).numUses = uses g + l.count g + owes s.dumper.owed g := fun g => by
    have := h.numUses g
    rw [hp] at this
    simpa [PacketThread.untaken] using this
  have hfl : ∀ b q, (s.setQueue b q).flows = s.flows ∧ (s.setQueue b q).dumper = s.dumper := by
    intro b q
    cases b <;> exact ⟨rfl, rfl⟩
  unfold Sys.dumpFlow
  simp only []
  generalize hr : (s.queue ((s.flows f).state == .idle)).enqueue f true = r at hst hperm
  obtain ⟨hflows, hdumper⟩ := hfl ((s.flows f).state == .idle) r.2
  refine ⟨l', ?_⟩
  by_cases hin : r.1 = true
  · rw [if_pos hin] at hperm ⊢
    have hmem : ∀ g, g ∈ l' ↔ g = f ∨ g ∈ l := fun g => by rw [hperm.mem_iff, List.mem_cons]
    refine ⟨hst, fun g => ?_, fun g => ?_, fun g hs hm => ?_, fun g hs hm => ?_, fun g hg => ?_, fun g hg => ?_,
      fun g hg => ?_⟩ <;> simp only [hflows, hdumper] at *
    · rw [hperm.count_eq, List.count_cons]
      have := h.once g
      split
      · rename_i he
        rw [beq_iff_eq] at he
        rw [← he, List.count_eq_zero_of_not_mem hnot]
      · exact this
    · rw [hperm.count_eq, List.count_cons]
      have := hnum g
      by_cases hg : g = f
      · subst hg
        rw [PacketThread.untaken, owes_self, if_pos (beq_self_eq_true g)]
        omega
      · rw [PacketThread.untaken, owes_ne hg, if_neg (by simpa using Ne.symm hg)]
        omega
    · rcases (hmem g).mp hm with rfl | hm
      · exact (h.toDump g hp hs).2
      · exact h.oneDump g hs hm
    · by_cases hg : g = f
      · exact .inl (congrArg some hg.symm)
      · have := h.told g hs (hm.imp_left fun hm => ((hmem g).mp hm).resolve_left hg)
        rw [hp] at this
        exact .inr (this.resolve_left fun hc => by cases hc)
    · exact (h.flagged g hg).imp_left fun hm => (hmem g).mpr (.inr hm)
    · exact .inl ((hmem g).mpr (.inl (Option.some.inj hg).symm))
    · cases hg
  · rw [if_neg hin] at hperm ⊢
    have hmem : ∀ g, g ∈ l' ↔ g ∈ l := fun g => hperm.mem_iff
    refine ⟨hst, fun g => ?_, fun g => ?_, fun g hs hm => ?_, fun g hs hm => ?_, fun g hg => ?_, fun g hg => ?_,
      fun g hg => ?_⟩ <;> simp only [hflows, hdumper, hmem] at *
    · rw [hperm.count_eq]
      exact h.once g
    · rw [hperm.count_eq]
      simpa [PacketThread.untaken] using hnum g
    · exact h.oneDump g hs hm
    · have := h.told g hs hm
      rw [hp] at this
      exact .inr (this.resolve_left fun hc => by cases hc)
    · exact h.flagged g hg
    · cases hg
    · cases hg

theorem incUses_inv (h : Inv uses s l) {f : Nat} (hp : s.packet = .incUses f) :
    Inv uses { s.setFlow f (s.flows f).incUses with packet := .setDumpInProgress f } l := by
  have hget : ∀ g, (Function.update s.flows f (s.flows f).incUses g).lastDbDump = (s.flows g).lastDbDump ∧
      (Function.update s.flows f (s.flows f).incUses g).state = (s.flows g).state := by
    intro g
    by_cases hg : g = f
    · subst hg
      rw [Function.update_self]
      exact ⟨rfl, rfl⟩
    · rw [Function.update_of_ne hg]
      exact ⟨rfl, rfl⟩
  have hpend : s.packet.pending = (PacketThread.setDumpInProgress f).pending := by rw [hp]; rfl
  refine ⟨h.stored, h.once, fun g => ?_, fun g hs => ?_, fun g hs hm => ?_, fun g hg => ?_, fun g hg => ?_,
    fun g hg => ?_⟩ <;> simp only [Sys.setFlow, hget] at *
  · have := h.numUses g
    rw [hp, show (PacketThread.incUses f).untaken = some f from rfl] at this
    rw [show (PacketThread.setDumpInProgress f).untaken = none from rfl, owes_none, Int.add_zero]
    by_cases hg : g = f
    · subst hg
      rw [owes_self] at this
      rw [Function.update_self]
      exact this
    · rw [owes_ne hg, Int.add_zero] at this
      rw [Function.update_of_ne hg]
      exact this
  · exact h.oneDump g hs
  · rw [← hpend]
    exact h.told g hs hm
  · exact h.flagged g hg
  · exact h.pending g (by rw [hpend]; exact hg)
  · cases hg

theorem setDumpInProgress_inv (h : Inv uses s l) {f : Nat} (hp : s.packet = .setDumpInProgress f) :
    Inv uses { s.setFlow f (s.flows f).setDumpInProgress with packet := .ready } l := by
  have hget : ∀ g, (Function.update s.flows f (s.flows f).setDumpInProgress g).numUses = (s.flows g).numUses ∧
      (Function.update s.flows f (s.flows f).setDumpInProgress g).state = (s.flows g).state ∧
      (Function.update s.flows f (s.flows f).setDumpInProgress g).lastDbDump.inProgress =
        (decide (g = f) || (s.flows g).lastDbDump.inProgress) := by
    intro g
    by_cases hg : g = f
    · subst hg
      rw [Function.update_self]
      exact ⟨rfl, rfl, by simp [Flow.setDumpInProgress]⟩
    · rw [Function.update_of_ne hg]
      exact ⟨rfl, rfl, by simp [hg]⟩
  have hpend : s.packet.pending = some f := by rw [hp]; rfl
  refine ⟨h.stored, h.once, fun g => ?_, fun g hs => ?_, fun g hs hm => ?_, fun g hg => ?_, fun g hg => ?_,
    fun g hg => ?_⟩ <;> simp only [Sys.setFlow, hget] at *
  · have := h.numUses g
    rw [hp] at this
    exact this
  · exact h.oneDump g hs
  · refine .inr ?_
    rcases h.told g hs hm with ht | ht
    · rw [hpend] at ht
      simp [Option.some.inj ht]
    · simp [ht]
  · simp only [Bool.or_eq_true, decide_eq_true_eq] at hg
    rcases hg with rfl | hg
    · exact h.pending g hpend
    · exact h.flagged g hg
  · cases hg
  · cases hg

/-! ## Steps of the dumper -/

theorem next_owed (c : Call) (dumped : Bool) : (c.next dumped).owed = none ∧ (c.next dumped).held = none := by
  unfold Call.next
  simp only []
  split <;> split <;> split <;> exact ⟨rfl, rfl⟩

theorem dequeue_inv (h : Inv uses s l) {c : Call} (hd : s.dumper = .dequeue c) {f : Nat} {q : SPSCQueue Nat}
    {l' : List Nat} (hst : (s.setQueue c.inIdle q).Stored l') (hperm : l.Perm (f :: l')) :
    Inv uses { s.setQueue c.inIdle q with dumper := .updatePartial c f } l' := by
  have hfl : (s.setQueue c.inIdle q).flows = s.flows ∧ (s.setQueue c.inIdle q).packet = s.packet := by
    unfold Sys.setQueue
    split <;> exact ⟨rfl, rfl⟩
  have howed : s.dumper.owed = none ∧ s.dumper.held = none := by rw [hd]; exact ⟨rfl, rfl⟩
  have hmem : ∀ g, g ∈ l ↔ g = f ∨ g ∈ l' := fun g => by rw [hperm.mem_iff, List.mem_cons]
  have hcount : ∀ g, l.count g = l'.count g + if f = g then 1 else 0 := fun g => by
    rw [hperm.count_eq, List.count_cons]
    simp only [beq_iff_eq]
  have hout : f ∉ l' := fun hm => by
    have h1 := h.once f
    have h2 := List.count_pos_iff.mpr hm
    rw [hcount f, if_pos rfl] at h1
    omega
  have hplace : ∀ g, (g ∈ l ∨ s.dumper.held = some g) → g ∈ l' ∨ (Dumper.updatePartial c f).held = some g := by
    intro g hg
    rcases hg with hg | hg
    · rcases (hmem g).mp hg with rfl | hg
      · exact .inr rfl
      · exact .inl hg
    · rw [howed.2] at hg
      cases hg
  have hback : ∀ g, (g ∈ l' ∨ (Dumper.updatePartial c f).held = some g) → g ∈ l := by
    intro g hg
    rcases hg with hg | hg
    · exact (hmem g).mpr (.inr hg)
    · exact (hmem g).mpr (.inl (Option.some.inj hg).symm)
  refine ⟨hst, fun g => ?_, fun g => ?_, fun g hs hm => ?_, fun g hs hm => ?_, fun g hg => ?_, fun g hg => ?_,
    fun g hg hs => ?_⟩ <;> simp only [hfl] at *
  · have := h.once g
    rw [hcount g] at this
    omega
  · have := h.numUses g
    rw [hcount g, howed.1, owes_none, Int.add_zero] at this
    rw [this]
    show _ = _ + owes (some f) g
    by_cases hg : g = f
    · rw [hg, if_pos rfl, owes_self]
      omega
    · rw [if_neg (Ne.symm hg), owes_ne hg]
      omega
  · intro hc
    exact hout (Option.some.inj hc ▸ hm)
  · exact h.told g hs (.inl (hback g hm))
  · exact hplace g (h.flagged g hg)
  · exact hplace g (h.pending g hg)
  · have hno := (h.toDump g hg hs).1
    exact ⟨fun hm => hno (hback g (.inl hm)), fun hh => hno (hback g (.inr hh))⟩

theorem setDumpDone_inv (h : Inv uses s l) {c : Call} {f : Nat} (hd : s.dumper = .setDumpDone c f)
    (hok : s.packet.pending = some f → f ∈ s.queued) :
    Inv uses { s.setFlow f (s.flows f).setDumpDone with dumper := .decUses c f } l := by
  have hget : ∀ g, (Function.update s.flows f (s.flows f).setDumpDone g).numUses = (s.flows g).numUses ∧
      (Function.update s.flows f (s.flows f).setDumpDone g).state = (s.flows g).state ∧
      (Function.update s.flows f (s.flows f).setDumpDone g).lastDbDump.inProgress =
        (!decide (g = f) && (s.flows g).lastDbDump.inProgress) := by
    intro g
    by_cases hg : g = f
    · subst hg
      rw [Function.update_self]
      exact ⟨rfl, rfl, by simp [Flow.setDumpDone]⟩
    · rw [Function.update_of_ne hg]
      exact ⟨rfl, rfl, by simp [hg]⟩
  have hheld : s.dumper.held = some f := by rw [hd]; rfl
  have howed : s.dumper.owed = some f := by rw [hd]; rfl
  -- whatever is not the flow at hand can only be in the queues
  have hplace : ∀ g, g ≠ f → g ∈ l ∨ s.dumper.held = some g → g ∈ l := by
    intro g hg hm
    rcases hm with hm | hm
    · exact hm
    · exact absurd (Option.some.inj (hheld.symm.trans hm)).symm hg
  refine ⟨h.stored, h.once, fun g => ?_, fun g _ _ hc => ?_, fun g hs hm => ?_, fun g hg => ?_, fun g hg => ?_,
    fun g hg hs => ?_⟩ <;> simp only [Sys.setFlow, hget] at *
  · have := h.numUses g
    rw [howed] at this
    exact this
  · cases hc
  · have hm' : g ∈ l := hm.resolve_right fun hc => by cases hc
    by_cases hg : g = f
    · subst hg
      exact absurd hheld (h.oneDump g hs hm')
    · simpa [hg] using h.told g hs (.inl hm')
  · simp only [Bool.and_eq_true, Bool.not_eq_true', decide_eq_false_iff_not] at hg
    exact .inl (hplace g hg.1 (h.flagged g hg.2))
  · by_cases hgf : g = f
    · subst hgf
      exact .inl (queued_eq h.stored ▸ hok hg)
    · exact .inl (hplace g hgf (h.pending g hg))
  · exact ⟨(h.toDump g hg hs).1, fun hc => by cases hc⟩

theorem decUses_inv (h : Inv uses s l) {c : Call} {f : Nat} (hd : s.dumper = .decUses c f) :
    Inv uses { s.setFlow f (s.flows f).decUses with dumper := c.next true } l := by
  obtain ⟨ho, hh⟩ := next_owed c true
  have hheld : s.dumper.held = none := by rw [hd]; rfl
  have howed : s.dumper.owed = some f := by rw [hd]; rfl
  have hget : ∀ g, (Function.update s.flows f (s.flows f).decUses g).lastDbDump = (s.flows g).lastDbDump ∧
      (Function.update s.flows f (s.flows f).decUses g).state = (s.flows g).state := by
    intro g
    by_cases hg : g = f
    · subst hg
      rw [Function.update_self]
      exact ⟨rfl, rfl⟩
    · rw [Function.update_of_ne hg]
      exact ⟨rfl, rfl⟩
  refine ⟨h.stored, h.once, fun g => ?_, fun g _ _ => ?_, fun g => ?_, fun g => ?_, fun g => ?_, fun g => ?_⟩ <;>
    simp only [Sys.setFlow, hget, hh]
  · have := h.numUses g
    rw [ho, owes_none, Int.add_zero]
    by_cases hg : g = f
    · subst hg
      rw [howed, owes_self] at this
      rw [Function.update_self]
      show (s.flows g).numUses - 1 + _ = _
      omega
    · rw [howed, owes_ne hg, Int.add_zero] at this
      rw [Function.update_of_ne hg]
      exact this
  · exact (Option.some_ne_none g).symm
  · have := h.told g
    rwa [hheld] at this
  · have := h.flagged g
    rwa [hheld] at this
  · have := h.pending g
    rwa [hheld] at this
  · have := h.toDump g
    rwa [hheld] at this

theorem dumperStep_inv (h : Inv uses s l) {allocOk dumpOk : Bool} (hok : Orderly s (.dumperStep allocOk dumpOk)) :
    ∃ l', Inv uses (s.dumperStep allocOk dumpOk) l' := by
  cases hd : s.dumper with
  | returned n =>
    simp only [Sys.dumperStep, hd]
    exact ⟨l, h⟩
  | test c =>
    have hmove : ∀ d : Dumper, d.owed = none → d.held = none → Inv uses { s with dumper := d } l := fun d ho hh =>
      h.moveDumper (by rw [hd]; exact ho) (by rw [hd]; exact hh)
    simp only [Sys.dumperStep, hd]
    split
    · exact ⟨l, hmove _ rfl rfl⟩
    · split
      · exact ⟨l, hmove _ rfl rfl⟩
      · exact ⟨l, hmove _ rfl rfl⟩
  | dequeue c =>
    simp only [Sys.dumperStep, hd]
    rcases stored_dequeue h.stored c.inIdle with he | ⟨f, q, l', hq, hst, hperm⟩
    · rw [he]
      exact ⟨l, h⟩
    · rw [hq]
      exact ⟨l', dequeue_inv h hd hst hperm⟩
  | updatePartial c f =>
    simp only [Orderly, hd] at hok
    have halloc : ((s.flows f).lastDbDump.partialAllocated || allocOk) = true := by simpa using hok
    simp only [Sys.dumperStep, hd, Flow.updatePartialTrafficStatsDbDump, if_pos halloc]
    have hset := h.setFlow (f := f)
      (v := { s.flows f with lastDbDump := { (s.flows f).lastDbDump with partialAllocated := true } }) rfl rfl fun hs => hs
    exact ⟨l, hset.moveDumper (by rw [Sys.setFlow, hd]; rfl) (by rw [Sys.setFlow, hd]; rfl)⟩
  | dump c f =>
    simp only [Sys.dumperStep, hd]
    have hcount := h.count_drops s.numQueueDroppedFlows (if dumpOk then s.numDbDroppedFlows else s.numDbDroppedFlows + 1)
    exact ⟨l, hcount.moveDumper (by rw [hd]; rfl) (by rw [hd]; rfl)⟩
  | setDumpDone c f =>
    simp only [Orderly, hd] at hok
    simp only [Sys.dumperStep, hd]
    exact ⟨l, setDumpDone_inv h hd hok⟩
  | decUses c f =>
    simp only [Sys.dumperStep, hd]
    exact ⟨l, decUses_inv h hd⟩

/-! ## Runs -/

theorem step_inv (h : Inv uses s l) (e : Ev) (hok : Orderly s e) : ∃ l', Inv uses (step s e) l' := by
  cases e with
  | activate f =>
    simp only [step]
    split
    · rename_i hs
      exact ⟨l, h.setFlow rfl rfl fun _ => hs.2⟩
    · exact ⟨l, h⟩
  | housekeep f tiny notDue =>
    simp only [step]
    split
    · rename_i hs
      exact ⟨l, flowDump_inv h hs.1 f false tiny notDue (fun hl => by cases hl)⟩
    · exact ⟨l, h⟩
  | retire f tiny =>
    simp only [step]
    split
    · rename_i hs
      have hset := h.setFlow (f := f) (v := { s.flows f with state := .idle }) rfl rfl fun _ => hs.2
      refine ⟨l, flowDump_inv hset hs.1 f true tiny false fun _ => ?_⟩
      simp only [Sys.setFlow, Function.update_self]
    · exact ⟨l, h⟩
  | packetStep =>
    cases hp : s.packet with
    | ready =>
      simp only [step, Sys.packetStep, hp]
      exact ⟨l, h⟩
    | dumpFlow f =>
      simp only [Orderly, hp] at hok
      simp only [step, Sys.packetStep, hp]
      exact dumpFlow_inv h hp hok
    | incUses f =>
      simp only [step, Sys.packetStep, hp]
      exact ⟨l, incUses_inv h hp⟩
    | setDumpInProgress f =>
      simp only [step, Sys.packetStep, hp]
      exact ⟨l, setDumpInProgress_inv h hp⟩
  | dequeueFlowsForDump idleFlowsBudget activeFlowsBudget =>
    cases hd : s.dumper with
    | returned n =>
      simp only [step, hd]
      exact ⟨l, h.moveDumper (by rw [hd]; rfl) (by rw [hd]; rfl)⟩
    | _ => simp only [step, hd]; exact ⟨l, h⟩
  | dumperStep allocOk dumpOk => exact dumperStep_inv h hok

end Ntopng.Flows.Dump
