/-
  Ntopng.Collect.Counters — packets and bytes of the records of one flow
  (`ParserInterface::processFlow`, `Flow::addFlowStats`).

  A run is a sequence of records of one flow, each with the direction in which it relates to
  the client of the flow, and what nDPI, the allocations and the time decide for it. The flow
  starts without traffic. The traffic due to a direction is the sum of the scaled counters of
  delta records; an absolute record raises it to its own counter.

  Proved: delta records make up a sum (`due_delta`), absolute ones a maximum
  (`due_absolute_le_iff`). A record misses `Ok` when a product or a counter is too wide, an
  absolute record is scaled, bytes come without packets, or a TX record has packets without
  bytes on its way out; that this is exact is in CountersProofs.
-/

import Ntopng.Collect.ProcessFlow

namespace Ntopng.Collect

open Ntopng.Lib.Run Ntopng.Flows

/-! ## The counters -/

inductive Counter where
  | pkts
  | bytes
  deriving DecidableEq, Repr

/-- The flow counts packets in 32 bits and bytes in 64. -/
def Counter.limit : Counter → Nat
  | .pkts => 2 ^ 32
  | .bytes => 2 ^ 64

/-- The in or the out counter of the record. -/
def ParsedFlow.counter (z : ParsedFlow) : Counter → Bool → UInt32
  | .pkts, true => z.inPkts
  | .pkts, false => z.outPkts
  | .bytes, true => z.inBytes
  | .bytes, false => z.outBytes

def EthStats.total (i : EthStats) : Counter → Nat
  | .pkts => i.ingressPkts + i.egressPkts
  | .bytes => i.ingressBytes + i.egressBytes

section

variable {α : Type}

def Flow.counter (f : Flow α) : Counter → Bool → UInt64
  | .pkts, cli2srv => f.getPackets cli2srv
  | .bytes, cli2srv => f.getBytes cli2srv

/-- A new flow has no traffic. -/
def Flow.withoutTraffic (f : Flow α) : Flow α :=
  { f with acct := { f.acct with stats := f.acct.stats.update fun _ => .zero } }

/-! ## Runs -/

/-- A record that was received, and whether its source is the client of the flow. -/
structure Received (α : Type) where
  env : Env α
  src2dstDirection : Bool
  record : ParsedFlow

structure Sys (α : Type) where
  flow : Flow α
  /-- What was added to the interface. -/
  iface : EthStats
  /-- The records, the last one first. -/
  received : List (Received α)

def start (f : Flow α) : Sys α := ⟨f.withoutTraffic, ⟨0, 0, 0, 0⟩, []⟩

def step (s : Sys α) (e : Received α) : Sys α :=
  let (flow, iface, _) := process e.env s.flow s.iface e.src2dstDirection e.record
  ⟨flow, iface, e :: s.received⟩

/-! ## What is due -/

/-- The traffic of a direction, by the records; the in counters belong to the source. -/
def due (c : Counter) (cli2srv : Bool) : List (Received α) → Nat
  | [] => 0
  | e :: earlier =>
    let v := (e.record.counter c (e.src2dstDirection == cli2srv)).toNat
    if e.record.absolutePacketOctetCounters then max (due c cli2srv earlier) v
    else due c cli2srv earlier + e.record.pktSamplingRate.toNat * v

/-- The flow has what is due to each direction, and the interface has what the flow has. -/
structure CountsDue (s : Sys α) : Prop where
  flow : ∀ c cli2srv, (s.flow.counter c cli2srv).toNat = due c cli2srv s.received
  iface : ∀ c, s.iface.total c = (s.flow.counter c true).toNat + (s.flow.counter c false).toNat

theorem due_delta (c : Counter) (cli2srv : Bool) (es : List (Received α))
    (h : ∀ e ∈ es, e.record.absolutePacketOctetCounters = false) :
    due c cli2srv es = (es.map fun e =>
      e.record.pktSamplingRate.toNat * (e.record.counter c (e.src2dstDirection == cli2srv)).toNat).sum := by
  induction es with
  | nil => rfl
  | cons e es ih =>
    have he := h e (List.mem_cons_self ..)
    simp only [due, he, Bool.false_eq_true, if_false, List.map_cons, List.sum_cons]
    rw [ih fun x hx => h x (List.mem_cons_of_mem _ hx)]
    exact Nat.add_comm _ _

/-- Neither the order nor duplicates matter. -/
theorem due_absolute_le_iff (c : Counter) (cli2srv : Bool) (es : List (Received α))
    (h : ∀ e ∈ es, e.record.absolutePacketOctetCounters = true) (n : Nat) :
    due c cli2srv es ≤ n ↔ ∀ e ∈ es, (e.record.counter c (e.src2dstDirection == cli2srv)).toNat ≤ n := by
  induction es with
  | nil => simp [due]
  | cons e es ih =>
    have he := h e (List.mem_cons_self ..)
    simp only [due, he, if_true, Nat.max_le, List.forall_mem_cons]
    rw [ih fun x hx => h x (List.mem_cons_of_mem _ hx)]
    exact And.comm

/-! ## The condition -/

/-- What a counter `v` of the record has to add to a flow that has `cur`. -/
def ParsedFlow.news (z : ParsedFlow) (v cur : Nat) : Nat :=
  if z.absolutePacketOctetCounters then v - cur else z.pktSamplingRate.toNat * v

/-- Scaling in 32 bits gives a delta as it is due, and leaves what is new of an absolute counter as it is. -/
def ParsedFlow.Scales (z : ParsedFlow) (v cur : Nat) : Prop :=
  if z.absolutePacketOctetCounters then z.pktSamplingRate.toNat * (v - cur) ≡ v - cur [MOD 2 ^ 32]
  else z.pktSamplingRate.toNat * v < 2 ^ 32

/-- The flow has room for one side of the record, and bytes come with packets. -/
structure SideOk (z : ParsedFlow) (cur v : Counter → Nat) : Prop where
  pkts : z.Scales (v .pkts) (cur .pkts) ∧ cur .pkts + z.news (v .pkts) (cur .pkts) < 2 ^ 32
  bytes : if z.news (v .pkts) (cur .pkts) = 0 then z.news (v .bytes) (cur .bytes) = 0
    else z.Scales (v .bytes) (cur .bytes) ∧ cur .bytes + z.news (v .bytes) (cur .bytes) < 2 ^ 64

/-- What one side of a record has to add to the flow. -/
def sideNews (f : Flow α) (e : Received α) (c : Counter) (inSide : Bool) : Nat :=
  e.record.news (e.record.counter c inSide).toNat (f.counter c (e.src2dstDirection == inSide)).toNat

structure Ok (s : Sys α) (e : Received α) : Prop where
  sides : ∀ inSide, SideOk e.record (fun c => (s.flow.counter c (e.src2dstDirection == inSide)).toNat)
    fun c => (e.record.counter c inSide).toNat
  /-- The interface looks for bytes before it counts the way out of a TX record. -/
  tx : (e.record.setDirection e.env s.flow).direction ≠ 0 →
    sideNews s.flow e .bytes false = 0 → sideNews s.flow e .pkts false = 0

end

end Ntopng.Collect
