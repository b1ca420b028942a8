/-
  Ntopng.Alerts.Recipients — who gets the notifications (src/Recipients.cpp,
  src/RecipientQueue.cpp, include/AlertFifoItem.h, include/Bitmap.h).

  A caller makes a notification and hands it to one recipient or to all of them. Each
  recipient filters it and queues a copy. When every recipient concerned is content the
  notification is deleted, otherwise the caller still has it: `callerOwns` is what the
  caller makes of the results, `freed` is who deleted an object.

  What the outside decides is in the event: allocations, the time, and whether the flows
  are dumped on ClickHouse. Ghost fields: `accepted`, `taken` and `counted` of a queue, and
  `past`, `pastTaken`, `pass` and `freed` of the recipients.
-/

import Ntopng.Queue.Fifo
import Ntopng.Lib.Run

namespace Ntopng.Alerts

open Ntopng.Queue.Fifo
open Ntopng.Lib.Run

/-! ## Notifications -/

/-- `Bitmap<N>`. A bit that is out of range is not set. -/
abbrev Bitmap (n : Nat) := BitVec (64 * n)

/-- The identifier is an `u_int16_t`. -/
def Bitmap.isSetBit {n : Nat} (b : Bitmap n) (id : Int) : Bool := b.getLsbD (id % 2 ^ 16).toNat

/-- The bits below `k`. -/
def Bitmap.firstBits (n k : Nat) : Bitmap n := BitVec.ofNat _ (2 ^ k - 1)

def maxNumRecipients : Nat := 64
def alertsNotificationsQueueSize : Nat := 8192
def otherBaseKey : Int := 4096
def maxNumScriptCategories : Nat := 6
def alertEntityMaxNumEntities : Nat := 16
def alertEntityHost : Int := 1
def alertEntityFlow : Int := 4

structure AlertFifoItem where
  alertEntity : Int
  alertSeverity : Int
  alertCategory : Int
  alert : String
  score : Nat
  alertId : Nat
  tagsBitmap : BitVec 64
  hostPool : Nat
  cliHostPool : Nat
  srvHostPool : Nat
  deriving DecidableEq, Repr

/-- A copy of the notification `of`. -/
structure Copy where
  of : Nat
  item : AlertFifoItem
  deriving DecidableEq, Repr

/-! ## A recipient -/

structure Filters where
  minimumSeverity : Int
  enabledCategories : Bitmap 2
  enabledHostPools : Bitmap 64
  enabledEntities : Bitmap 2
  enabledFlowAlertTypes : Bitmap 2
  enabledHostAlertTypes : Bitmap 2
  enabledOtherAlertTypes : Bitmap 2
  matchAlertId : Bool
  skipAlerts : Bool
  enabledTags : BitVec 64
  deriving DecidableEq, Repr

structure RecipientQueue where
  recipientId : Nat
  filters : Filters
  queue : Option (FifoQueue Copy)
  enqueued : Nat
  drops : Nat
  delivered : Nat
  lastUse : Int
  accepted : List Copy
  taken : List Copy
  counted : Nat
  deriving DecidableEq, Repr

/-- What the outside decides in an `enqueue`: the allocations of each recipient and a preference. -/
structure Env where
  doDumpFlowsOnClickhouse : Bool
  queueOk : Nat → Bool
  itemOk : Nat → Bool

/-- For the recipient `id` the two are the same. -/
structure Env.Agree (e e' : Env) (id : Nat) : Prop where
  doDumpFlowsOnClickhouse : e'.doDumpFlowsOnClickhouse = e.doDumpFlowsOnClickhouse
  queueOk : e'.queueOk id = e.queueOk id
  itemOk : e'.itemOk id = e.itemOk id

/-- What the filters say of a notification. -/
inductive Verdict where
  | filteredOut
  | countOnly
  | queue
  deriving DecidableEq, Repr

namespace RecipientQueue

/-- All the categories and the entities are enabled by default. -/
def new (recipientId : Nat) : RecipientQueue :=
  { recipientId := recipientId
    filters :=
      { minimumSeverity := 0, enabledCategories := .firstBits 2 maxNumScriptCategories, enabledHostPools := 0
        enabledEntities := .firstBits 2 alertEntityMaxNumEntities, enabledFlowAlertTypes := 0
        enabledHostAlertTypes := 0, enabledOtherAlertTypes := 0, matchAlertId := false, skipAlerts := false
        enabledTags := 0 }
    queue := none, enqueued := 0, drops := 0, delivered := 0, lastUse := 0, accepted := [], taken := [], counted := 0 }

variable (r : RecipientQueue)

/-- By the alert type, or by severity, category and entity. -/
def typeEnabled (n : AlertFifoItem) : Bool :=
  if r.filters.matchAlertId then
    if n.alertEntity = alertEntityFlow then r.filters.enabledFlowAlertTypes.isSetBit n.alertId
    else if n.alertEntity = alertEntityHost then r.filters.enabledHostAlertTypes.isSetBit n.alertId
    else r.filters.enabledOtherAlertTypes.isSetBit (n.alertId - otherBaseKey)
  else
    decide (¬ n.alertSeverity < r.filters.minimumSeverity) && r.filters.enabledCategories.isSetBit n.alertCategory &&
      r.filters.enabledEntities.isSetBit n.alertEntity

def hostPoolEnabled (n : AlertFifoItem) : Bool :=
  if n.alertEntity = alertEntityFlow then
    r.filters.enabledHostPools.isSetBit n.cliHostPool || r.filters.enabledHostPools.isSetBit n.srvHostPool
  else if n.alertEntity = alertEntityHost then r.filters.enabledHostPools.isSetBit n.hostPool
  else true

/-- A recipient without tags takes them all. -/
def tagEnabled (n : AlertFifoItem) : Bool :=
  r.filters.enabledTags == 0 || n.tagsBitmap &&& r.filters.enabledTags != 0

/-- The default recipient does not filter by host, and flow alerts are not stored on ClickHouse. -/
def verdict (doDumpFlowsOnClickhouse : Bool) (n : AlertFifoItem) : Verdict :=
  if r.filters.skipAlerts then
    if n.score > 0 then .filteredOut else .queue
  else if !r.typeEnabled n then .filteredOut
  else if r.recipientId = 0 ∧ n.alertEntity = alertEntityFlow ∧ doDumpFlowsOnClickhouse then .countOnly
  else if r.recipientId = 0 then .queue
  else if r.hostPoolEnabled n && r.tagEnabled n then .queue
  else .filteredOut

/-- The queue is made with the first notification. -/
def push (queueOk itemOk : Bool) (c : Copy) : RecipientQueue × Bool :=
  match r.queue, queueOk with
  | none, false => ({ r with drops := r.drops + 1 }, false)
  | queue, _ =>
    let f := queue.getD (.new alertsNotificationsQueueSize)
    let r := { r with queue := some f }
    if itemOk then
      match f.enqueue c with
      | (f, true) =>
        ({ r with queue := some f, enqueued := r.enqueued + 1, accepted := r.accepted ++ [c] }, true)
      | (f, false) => ({ r with queue := some f, drops := r.drops + 1 }, false)
    else ({ r with drops := r.drops + 1 }, false)

/-- A notification that is filtered out is none that failed. -/
def enqueue (e : Env) (c : Copy) : RecipientQueue × Bool :=
  match r.verdict e.doDumpFlowsOnClickhouse c.item with
  | .filteredOut => (r, true)
  | .countOnly =>
    ({ r with enqueued := r.enqueued + 1, delivered := r.delivered + 1, counted := r.counted + 1 }, true)
  | .queue => r.push (e.queueOk r.recipientId) (e.itemOk r.recipientId) c

def dequeue (now : Int) : RecipientQueue × Option Copy :=
  match r.queue with
  | none => (r, none)
  | some f =>
    match f.dequeue with
    | (f, some c) => ({ r with queue := some f, lastUse := now, taken := r.taken ++ [c] }, some c)
    | (f, none) => ({ r with queue := some f }, none)

def empty : Bool :=
  match r.queue with
  | none => true
  | some f => f.empty

/-- What is still queued. -/
def waiting : List Copy := (r.queue.map (·.q)).getD []

end RecipientQueue

/-! ## The recipients -/

inductive Owner where
  | caller
  | recipients
  deriving DecidableEq, Repr

structure Sys where
  recipientQueues : Nat → Option RecipientQueue
  dequeued : Nat → Bool
  defaultRecipientMinimumSeverity : Int
  created : Nat
  item : Nat → Option AlertFifoItem
  callerOwns : Nat → Bool
  freed : Nat → List Owner
  past : Nat → List Nat
  pastTaken : Nat → List Nat
  pass : Nat → List Nat

def start : Sys :=
  { recipientQueues := fun _ => none, dequeued := fun _ => false, defaultRecipientMinimumSeverity := 0, created := 0
    item := fun _ => none, callerOwns := fun _ => false, freed := fun _ => [], past := fun _ => []
    pastTaken := fun _ => [], pass := fun _ => [] }

namespace Sys

variable (s : Sys)

def setQueue (id : Nat) (r : Option RecipientQueue) : Sys :=
  { s with recipientQueues := Function.update s.recipientQueues id r }

/-- `delete`. -/
def free (o : Nat) (who : Owner) : Sys := { s with freed := Function.update s.freed o (s.freed o ++ [who]) }

def dequeue (id : Nat) (now : Int) : Sys × Option Copy :=
  if id ≥ maxNumRecipients then (s, none)
  else
    match s.recipientQueues id with
    | none => (s, none)
    | some r =>
      match r.dequeue now with
      | (r, none) => (s.setQueue id (some r), none)
      | (r, some c) =>
        ({ s.setQueue id (some r) with
            dequeued := Function.update s.dequeued id true
            pass := Function.update s.pass id (s.pass id ++ [c.of]) }, some c)

/-- To one recipient. -/
def enqueue (id : Nat) (notification : Option Copy) (e : Env) : Sys × Bool :=
  match notification with
  | none => (s, false)
  | some c =>
    if id ≥ maxNumRecipients then (s, false)
    else
      match s.recipientQueues id with
      | none => (s, false)
      | some r =>
        match r.enqueue e c with
        | (r, true) => ((s.setQueue id (some r)).free c.of .recipients, true)
        | (r, false) => (s.setQueue id (some r), false)

/-- One recipient of the loop over them all. -/
def enqueueOne (e : Env) (c : Copy) (x : Sys × Bool) (id : Nat) : Sys × Bool :=
  match x.1.recipientQueues id with
  | none => x
  | some r => (x.1.setQueue id (some (r.enqueue e c).1), x.2 && (r.enqueue e c).2)

/-- To all the recipients. When none is responsible, that is no failure. -/
def enqueueAll (notification : Option Copy) (e : Env) : Sys × Bool :=
  match notification with
  | none => (s, false)
  | some c =>
    match (List.range maxNumRecipients).foldl (enqueueOne e c) (s, true) with
    | (s, true) => (s.free c.of .recipients, true)
    | (s, false) => (s, false)

/-- The queue of the recipient, or a new one. -/
def queueOrNew (id : Nat) (allocOk : Bool) : Option RecipientQueue :=
  match s.recipientQueues id with
  | some r => some r
  | none => if allocOk then some (.new id) else none

def registerRecipient (id : Nat) (filters : Filters) (allocOk : Bool) : Sys :=
  if id ≥ maxNumRecipients then s
  else
    let s := s.setQueue id ((s.queueOrNew id allocOk).map fun r => { r with filters := filters })
    if id = 0 then { s with defaultRecipientMinimumSeverity := filters.minimumSeverity } else s

def deleteRecipient (id : Nat) : Sys :=
  if id ≥ maxNumRecipients then s
  else
    match s.recipientQueues id with
    | none => s
    | some r =>
      { s.setQueue id none with
          past := Function.update s.past id (s.past id ++ r.accepted.map (·.of))
          pastTaken := Function.update s.pastTaken id (s.pastTaken id ++ r.taken.map (·.of)) }

/-- The beginning of a new pass. -/
def lastUse (id : Nat) : Sys × Int :=
  if id ≥ maxNumRecipients then (s, 0)
  else
    ({ s with dequeued := Function.update s.dequeued id false, pass := Function.update s.pass id [] },
      match s.recipientQueues id with
      | none => 0
      | some r => r.lastUse)

/-- Not empty also while dequeued notifications are being processed. -/
def empty : Bool :=
  (List.range maxNumRecipients).all fun id =>
    !s.dequeued id && match s.recipientQueues id with
      | none => true
      | some r => r.empty

/-! ## The callers -/

/-- The notification `o`, as the caller hands it over. -/
def handed (o : Nat) : Option Copy := (s.item o).map fun n => ⟨o, n⟩

/-- `new`. -/
def create (n : AlertFifoItem) : Sys :=
  { s with
      created := s.created + 1
      item := Function.update s.item s.created (some n)
      callerOwns := Function.update s.callerOwns s.created true }

/-- On success the notification is not the caller's any more. -/
def learn (o : Nat) (x : Sys × Bool) : Sys :=
  { x.1 with callerOwns := Function.update x.1.callerOwns o (!x.2) }

end Sys

/-! ## Runs -/

inductive Ev where
  | registerRecipient (id : Nat) (filters : Filters) (allocOk : Bool)
  | deleteRecipient (id : Nat)
  | create (n : AlertFifoItem)
  | enqueue (id o : Nat) (e : Env)
  | enqueueAll (o : Nat) (e : Env)
  /-- The caller deletes what was refused. -/
  | delete (o : Nat)
  | dequeue (id : Nat) (now : Int)
  | lastUse (id : Nat)

/-- A caller uses no notification that it handed over with success, or deleted. -/
def step (s : Sys) : Ev → Sys
  | .registerRecipient id filters allocOk => s.registerRecipient id filters allocOk
  | .deleteRecipient id => s.deleteRecipient id
  | .create n => s.create n
  | .enqueue id o e => if s.callerOwns o then Sys.learn o (s.enqueue id (s.handed o) e) else s
  | .enqueueAll o e => if s.callerOwns o then Sys.learn o (s.enqueueAll (s.handed o) e) else s
  | .delete o =>
    if s.callerOwns o then { s.free o .caller with callerOwns := Function.update s.callerOwns o false } else s
  | .dequeue id now => (s.dequeue id now).1
  | .lastUse id => (s.lastUse id).1

/-! ## The books -/

/-- The notifications that the recipient took a copy of, the oldest first. -/
def Sys.copied (s : Sys) (id : Nat) : List Nat :=
  s.past id ++ (((s.recipientQueues id).map fun r => r.accepted.map (·.of)).getD [])

/-- The notifications that were dequeued from the recipient. -/
def Sys.received (s : Sys) (id : Nat) : List Nat :=
  s.pastTaken id ++ (((s.recipientQueues id).map fun r => r.taken.map (·.of)).getD [])

/-- What a queue accepted was dequeued, in order, or is still queued. -/
structure QueueBooks (r : RecipientQueue) : Prop where
  order : r.accepted = r.taken ++ r.waiting
  count : r.accepted.length = r.taken.length + r.waiting.length
  enqueued : r.enqueued = r.accepted.length + r.counted
  room : r.waiting.length ≤ alertsNotificationsQueueSize

/-- The caller has a notification until exactly one of the two has deleted it. -/
structure Owned (s : Sys) (o : Nat) : Prop where
  held : s.callerOwns o = true → o < s.created ∧ s.freed o = []
  once : o < s.created → s.callerOwns o = false → ∃ w, s.freed o = [w]

structure Books (s : Sys) : Prop where
  queues : ∀ id r, s.recipientQueues id = some r → QueueBooks r
  owned : ∀ o, Owned s o

/-- No notification is dequeued from a recipient twice. -/
def AtMostOnce (s : Sys) : Prop := ∀ id, (s.received id).Nodup

/-- Some registered recipient has a notification queued, or one that was dequeued in its current pass. -/
def Busy (s : Sys) : Prop :=
  ∃ id < maxNumRecipients, ∃ r ∈ s.recipientQueues id, r.waiting ≠ [] ∨ s.pass id ≠ []

instance instDecidableBusy (s : Sys) : Decidable (Busy s) :=
  inferInstanceAs (Decidable (∃ id < maxNumRecipients, ∃ r ∈ s.recipientQueues id, r.waiting ≠ [] ∨ s.pass id ≠ []))

def EmptyExact (s : Sys) : Prop := s.empty = false ↔ Busy s

/-- A notification that a recipient took a copy of is not offered to it again. -/
def Fresh (s : Sys) : Ev → Prop
  | .enqueue id o _ => o ∉ s.copied id
  | .enqueueAll o _ => ∀ id, o ∉ s.copied id
  | _ => True

/-- A recipient is not deleted in a pass in which it dequeued. -/
def PassOver (s : Sys) : Ev → Prop
  | .deleteRecipient id => s.pass id = []
  | _ => True

end Ntopng.Alerts
