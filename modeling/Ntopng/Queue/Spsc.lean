/-
  Ntopng.Queue.Spsc — the single-producer single-consumer queue (`SPSCQueue`,
  include/SPSCQueue.h).

  The ring has `queue_size` slots, a power of two taken from the constructor's `size`
  (`pow2`). The producer writes at `shadow_head` and publishes it as `head` on a flush or
  when it reaches a multiple of the watermark; the consumer reads after `shadow_tail` and
  publishes it as `tail` at multiples of the watermark only. The producer compares its own
  index with the published `tail`, the consumer its own with the published `head`.

  `Sys` is a queue with its two histories: the items whose `enqueue()` returned true, and
  what `dequeue()` returned. An event is one call of one of the two threads.
-/

import Ntopng.Lib.Run

namespace Ntopng.Queue.Spsc

open Ntopng.Lib.Run

/-- `Utils::pow2`: `v` rounded up to a power of two; 0 for 0 and above `2 ^ 31`. -/
def pow2 (v : UInt32) : UInt32 :=
  let v := v - 1
  let v := v ||| (v >>> 1)
  let v := v ||| (v >>> 2)
  let v := v ||| (v >>> 4)
  let v := v ||| (v >>> 8)
  let v := v ||| (v >>> 16)
  v + 1

def queueWatermark : Nat := 8

def queueWatermarkMask : Nat := queueWatermark - 1

structure SPSCQueue (α : Type) where
  numFailedEnqueues : UInt32
  shadowHead : Nat
  head : Nat
  tail : Nat
  shadowTail : Nat
  queue : List α
  queueSize : UInt32
  deriving Repr

variable {α : Type}

namespace SPSCQueue

/-- The constructor. -/
def new [Inhabited α] (size : UInt32) : SPSCQueue α :=
  let queueSize := pow2 size
  { numFailedEnqueues := 0
    shadowHead := 0
    head := 0
    tail := (queueSize - 1).toNat
    shadowTail := (queueSize - 1).toNat
    queue := List.replicate queueSize.toNat default
    queueSize := queueSize }

/-- `(i + 1) & (queue_size - 1)`, the slot after `i`. -/
def next (q : SPSCQueue α) (i : Nat) : Nat := (i + 1) &&& (q.queueSize - 1).toNat

def isNotEmpty (q : SPSCQueue α) : Bool := q.next q.shadowTail != q.head

def isEmpty (q : SPSCQueue α) : Bool := !q.isNotEmpty

def isFull (q : SPSCQueue α) : Bool := q.tail == q.next q.shadowHead

/-- The outer result is the exception; an item read outside the vector is `none`. -/
def dequeue (q : SPSCQueue α) : Except String (Option α × SPSCQueue α) :=
  let nextTail := q.next q.shadowTail
  if nextTail = q.head then .error "Empty queue"
  else
    let item := q.queue[nextTail]?
    let tail := if nextTail &&& queueWatermarkMask = 0 then nextTail else q.tail
    .ok (item, { q with shadowTail := nextTail, tail := tail })

def enqueue (q : SPSCQueue α) (item : α) (flush : Bool) : Bool × SPSCQueue α :=
  let nextHead := q.next q.shadowHead
  if q.tail ≠ nextHead then
    let head := if flush || nextHead &&& queueWatermarkMask = 0 then nextHead else q.head
    (true, { q with queue := q.queue.set q.shadowHead item, shadowHead := nextHead, head := head })
  else (false, { q with numFailedEnqueues := q.numFailedEnqueues + 1 })

end SPSCQueue

/-! ## The two threads -/

structure Sys (α : Type) where
  q : SPSCQueue α
  /-- The items whose `enqueue()` returned true, in order. -/
  accepted : List α
  /-- What `dequeue()` returned, in order. -/
  taken : List (Option α)

inductive Ev (α : Type) where
  | isFull
  | enqueue (item : α) (flush : Bool)
  | isNotEmpty
  | dequeue

def step (s : Sys α) : Ev α → Sys α
  | .isFull => s
  | .enqueue item flush =>
    let r := s.q.enqueue item flush
    { s with q := r.2, accepted := if r.1 then s.accepted ++ [item] else s.accepted }
  | .isNotEmpty => s
  | .dequeue =>
    match s.q.dequeue with
    | .ok (item, q) => { s with q := q, taken := s.taken ++ [item] }
    | .error _ => s

def start [Inhabited α] (size : UInt32) : Sys α := ⟨.new size, [], []⟩

/-- How the producer uses `flush`: on every item, on none, or as it likes. -/
inductive Discipline where
  | always
  | never
  | mixed
  deriving DecidableEq, Repr

def Discipline.allows : Discipline → Bool → Bool
  | .always, flush => flush
  | .never, flush => !flush
  | .mixed, _ => true

def Follows (d : Discipline) : Ev α → Prop
  | .enqueue _ flush => d.allows flush = true
  | _ => True

/-! ## What the queue promises -/

/-- No loss, duplication or reordering, and no read of an unwritten or overwritten slot. -/
def Fifo (s : Sys α) : Prop := s.taken <+: s.accepted.map some

/-- The producer is told the queue is full and the consumer that it is empty. -/
def Wedged (s : Sys α) : Prop := s.q.isFull = true ∧ s.q.isNotEmpty = false

end Ntopng.Queue.Spsc
