/-
  Ntopng.Queue.Fifo — the bounded queue with counters (include/FifoQueue.h,
  include/AlertFifoQueue.h).

  `Logged f accepted taken` ties a queue to what went in and what came out of it.

  Proved: `new`, `enqueue` and `dequeue` keep the log, so what was accepted is what was
  taken followed by what waits, in order, and the counters count both.
-/

import Mathlib

namespace Ntopng.Queue.Fifo

structure FifoQueue (α : Type) where
  q : List α
  maxSize : Nat
  numEnqueued : Nat
  numNotEnqueued : Nat
  numDequeued : Nat
  deriving DecidableEq, Repr

namespace FifoQueue

variable {α : Type} (f : FifoQueue α)

def new (queueSize : Nat) : FifoQueue α := ⟨[], queueSize, 0, 0, 0⟩

def getLength : Nat := f.q.length
def canEnqueue : Bool := decide (f.getLength < f.maxSize)
def empty : Bool := f.q.isEmpty

def enqueue (item : α) : FifoQueue α × Bool :=
  if f.canEnqueue then ({ f with q := f.q ++ [item], numEnqueued := f.numEnqueued + 1 }, true)
  else ({ f with numNotEnqueued := f.numNotEnqueued + 1 }, false)

def dequeue : FifoQueue α × Option α :=
  match f.q with
  | [] => (f, none)
  | item :: rest => ({ f with q := rest, numDequeued := f.numDequeued + 1 }, some item)

end FifoQueue

/-- What a queue accepted and what was taken from it. -/
structure Logged {α : Type} (f : FifoQueue α) (accepted taken : List α) : Prop where
  order : accepted = taken ++ f.q
  enqueued : f.numEnqueued = accepted.length
  dequeued : f.numDequeued = taken.length
  room : f.q.length ≤ f.maxSize

variable {α : Type} {f f' : FifoQueue α} {accepted taken : List α} {item : α}

theorem logged_new (queueSize : Nat) : Logged (FifoQueue.new queueSize : FifoQueue α) [] [] :=
  ⟨rfl, rfl, rfl, Nat.zero_le _⟩

theorem logged_enqueue (h : Logged f accepted taken) (he : f.enqueue item = (f', true)) :
    Logged f' (accepted ++ [item]) taken := by
  unfold FifoQueue.enqueue at he
  split at he
  · rename_i hroom
    cases he
    have hlt : f.q.length < f.maxSize := of_decide_eq_true hroom
    refine ⟨?_, ?_, h.dequeued, ?_⟩
    · rw [h.order, List.append_assoc]
    · rw [List.length_append, ← h.enqueued]
      rfl
    · rw [List.length_append]
      exact hlt
  · cases he

theorem logged_refuse (h : Logged f accepted taken) (he : f.enqueue item = (f', false)) : Logged f' accepted taken := by
  unfold FifoQueue.enqueue at he
  split at he
  · cases he
  · cases he
    exact ⟨h.order, h.enqueued, h.dequeued, h.room⟩

theorem logged_dequeue (h : Logged f accepted taken) (hd : f.dequeue = (f', some item)) :
    Logged f' accepted (taken ++ [item]) := by
  unfold FifoQueue.dequeue at hd
  split at hd
  · cases hd
  · rename_i rest hq
    cases hd
    refine ⟨?_, h.enqueued, ?_, ?_⟩
    · rw [h.order, hq, List.append_assoc]
      rfl
    · rw [List.length_append, ← h.dequeued]
      rfl
    · have hroom := h.room
      rw [hq] at hroom
      exact Nat.le_of_succ_le hroom

theorem dequeue_none (hd : f.dequeue = (f', none)) : f' = f ∧ f.q = [] := by
  unfold FifoQueue.dequeue at hd
  split at hd
  · rename_i hq
    cases hd
    exact ⟨rfl, hq⟩
  · cases hd

end Ntopng.Queue.Fifo
