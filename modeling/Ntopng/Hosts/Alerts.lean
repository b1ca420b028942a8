/-
  Ntopng.Hosts.Alerts — the engaged alerts of one host (src/Host.cpp,
  src/HostAlertableEntity.cpp, src/NetworkInterface.cpp).

  A check triggers an alert, which is engaged in the slot of the check, and releases it
  later; `storeAlert` does both at once. Each time a pair (alert, released) is enqueued for
  the recipients. The pair of an engaged alert borrows it from its slot. The pair of a
  released alert hands it over to the consumer, who deletes it after delivery; if it cannot
  be enqueued the producer deletes it.

  The queue is shared with the other hosts. The consumer works in two steps per item: it
  takes the pair, then it delivers it. What the outside decides is in the event: whether an
  enqueue succeeds (there is a queue with a free slot and `dontEmitHostAlerts` is off at
  that moment), the preference that the trigger reads, the exclusions, and an allocation.
  Ghost field: `holders` (the uses that other threads have).
-/

import Ntopng.Lib.Run
import Ntopng.Lib.Heap
import Ntopng.Flows.TrafficStats
import Ntopng.Flows.Alerts

namespace Ntopng.Hosts.Alerts

open Ntopng.Lib.Run Ntopng.Lib.Heap
open Ntopng.Flows (ScoreCategory)
open Ntopng.Flows.Alerts (AlertCategory mapAlertToScoreCategory)

/-! ## Alerts -/

/-- `NUM_DEFINED_HOST_CHECKS` is 28. -/
abbrev HostCheckID := Fin 28

/-- What a `HostAlertBitmap` holds. -/
abbrev HostAlertTypeEnum := Fin 32

structure HostAlert where
  checkId : HostCheckID
  alertType : HostAlertTypeEnum
  category : AlertCategory
  alertScore : Nat
  cliPctg : Nat
  rowid : Nat
  released : Bool
  expiring : Bool
  lastReleased : Bool
  deriving DecidableEq, Repr

namespace HostAlert

variable (a : HostAlert)

/-- The constructor. -/
def new (checkId : HostCheckID) (alertType : HostAlertTypeEnum) (category : AlertCategory)
    (alertScore cliPctg : Nat) : HostAlert :=
  { checkId := checkId, alertType := alertType, category := category, alertScore := alertScore, cliPctg := cliPctg
    rowid := 0, released := false, expiring := false, lastReleased := false }

def getCliScore : Nat := a.cliPctg * a.alertScore / 100
def getSrvScore : Nat := a.alertScore - a.getCliScore
def setEngaged (rowid : Nat) : HostAlert := { a with expiring := false, released := false, rowid := rowid }
def setExpiring : HostAlert := { a with expiring := true }
def release : HostAlert := { a with released := true }
def setLastReleased : HostAlert := { a with lastReleased := true }

end HostAlert

/-! ## The state -/

structure Pair where
  alert : Nat
  released : Bool
  deriving DecidableEq, Repr

inductive QueueItem where
  | ours (p : Pair)
  | other
  deriving DecidableEq, Repr

def QueueItem.pair : QueueItem → Option Pair
  | .ours p => some p
  | .other => none

/-- Where the consumer is in `dequeueHostAlerts`. -/
inductive Consumer where
  | returned (numDone : Nat)
  | loop (budget numDone : Nat)
  | busy (budget numDone : Nat) (item : QueueItem)
  deriving DecidableEq, Repr

structure Sys where
  alerts : Nat → HostAlert
  mem : Mem
  /-- `alerts != NULL`. -/
  slotsAllocated : Bool
  engagedAlerts : HostCheckID → Option Nat
  engagedAlertsMap : HostAlertTypeEnum → Bool
  numEngagedAlerts : Int
  cliScore : ScoreCategory → Int
  srvScore : ScoreCategory → Int
  alertSerial : Nat
  numUses : Int
  queue : List QueueItem
  consumer : Consumer
  delivered : List Pair
  destroyed : Bool
  holders : Nat

def start : Sys :=
  { alerts := fun _ => HostAlert.new 0 0 .other 0 0
    mem := .empty, slotsAllocated := false, engagedAlerts := fun _ => none, engagedAlertsMap := fun _ => false
    numEngagedAlerts := 0, cliScore := fun _ => 0, srvScore := fun _ => 0, alertSerial := 0, numUses := 0
    queue := [], consumer := .returned 0, delivered := [], destroyed := false, holders := 0 }

namespace Sys

variable (s : Sys)

def setAlert (id : Nat) (a : HostAlert) : Sys := { s with alerts := Function.update s.alerts id a }

def touch (id : Nat) : Sys := { s with mem := s.mem.touch (some id) }

def delete (id : Nat) : Sys := { s with mem := s.mem.delete id }

/-! ## The slots -/

def addEngagedAlert (id : Nat) (callocOk : Bool) : Sys :=
  let a := s.alerts id
  let s := if s.slotsAllocated then s else { s with slotsAllocated := callocOk }
  if s.slotsAllocated ∧ (s.engagedAlerts a.checkId).isNone then
    { s with
      engagedAlerts := Function.update s.engagedAlerts a.checkId (some id)
      engagedAlertsMap := Function.update s.engagedAlertsMap a.alertType true
      numEngagedAlerts := s.numEngagedAlerts + 1 }
  else s

def removeEngagedAlert (id : Nat) : Sys :=
  let a := s.alerts id
  if s.engagedAlerts a.checkId = some id then
    { s with
      engagedAlerts := Function.update s.engagedAlerts a.checkId none
      engagedAlertsMap := Function.update s.engagedAlertsMap a.alertType false
      numEngagedAlerts := s.numEngagedAlerts - 1 }
  else s

def addScore (a : HostAlert) (d : Int) : Sys :=
  let c := mapAlertToScoreCategory a.category
  { s with
    cliScore := Function.update s.cliScore c (s.cliScore c + d * a.getCliScore)
    srvScore := Function.update s.srvScore c (s.srvScore c + d * a.getSrvScore) }

/-! ## The producer -/

/-- `ok` is whether the pair finds its place in the queue. -/
def enqueueHostAlert (id : Nat) (ok : Bool) : Sys :=
  let s := s.touch id
  let released := (s.alerts id).released
  if ok then { s with queue := s.queue ++ [.ours ⟨id, released⟩], numUses := s.numUses + 1 }
  else if released then s.delete id
  else s

def triggerAlert (id : Nat) (dontEmit disabled callocOk ok : Bool) : Bool × Sys :=
  let s := s.touch id
  let a := s.alerts id
  if dontEmit || disabled then
    if s.engagedAlerts a.checkId = some id then (false, s.setAlert id a.setExpiring) else (false, s.delete id)
  else
    let s := if a.rowid = 0 then { s with alertSerial := s.alertSerial + 1 } else s
    let s := s.setAlert id (a.setEngaged (if a.rowid = 0 then s.alertSerial else a.rowid))
    match s.engagedAlerts a.checkId with
    | some other => if other = id then (true, s) else (false, s.delete id)
    | none => (true, ((s.addScore a 1).addEngagedAlert id callocOk).enqueueHostAlert id ok)

def releaseAlert (id : Nat) (ok : Bool) : Sys :=
  let s := s.touch id
  let s := s.setAlert id (s.alerts id).release
  let s := s.removeEngagedAlert id
  let s := if s.numEngagedAlerts = 0 then s.setAlert id (s.alerts id).setLastReleased else s
  (s.addScore (s.alerts id) (-1)).enqueueHostAlert id ok

/-- `firstOk` and `ok` are the outcomes of its two enqueues. -/
def storeAlert (id : Nat) (dontEmit disabled firstOk ok : Bool) : Bool × Sys :=
  let s := s.touch id
  if dontEmit || disabled then (false, s.delete id)
  else
    let s := s.enqueueHostAlert id firstOk
    let s := s.setAlert id (s.alerts id).release
    let s := if s.numEngagedAlerts = 0 then s.setAlert id (s.alerts id).setLastReleased else s
    (true, s.enqueueHostAlert id ok)

/-- A check creates an alert. -/
def newAlert (a : HostAlert) : Sys := { s.setAlert s.mem.created a with mem := s.mem.new }

/-- The alert engaged by a check is released, if there is one. -/
def releaseCheck (t : HostCheckID) (ok : Bool) : Sys :=
  match s.engagedAlerts t with
  | some id => s.releaseAlert id ok
  | none => s

def releaseAllEngagedAlerts (ok : HostCheckID → Bool) : Sys :=
  (List.finRange 28).foldl (fun s t => s.releaseCheck t (ok t)) s

/-! ## The consumer -/

/-- The loop takes the next item, or ends. -/
def dequeueNext (budget numDone : Nat) : Sys :=
  match s.queue with
  | [] => { s with consumer := .returned numDone }
  | item :: rest => { s with queue := rest, consumer := .busy budget numDone item }

/-- The pair is passed on to the recipients, a released alert is deleted, and the use given back. -/
def deliver (budget numDone : Nat) (item : QueueItem) : Sys :=
  let s :=
    match item with
    | .other => s
    | .ours p =>
      let s := { s.touch p.alert with delivered := s.delivered ++ [p] }
      let s := if p.released then s.delete p.alert else s
      { s with numUses := s.numUses - 1 }
  { s with consumer :=
      if budget > 0 ∧ numDone + 1 ≥ budget then .returned (numDone + 1) else .loop budget (numDone + 1) }

/-! ## The end of the host -/

/-- `~HostAlertableEntity`: `clearEngagedAlerts`. -/
def destroy : Sys :=
  { s with
    mem := { s.mem with freed := ((List.finRange 28).filterMap s.engagedAlerts).reverse ++ s.mem.freed }
    engagedAlerts := fun _ => none
    destroyed := true }

end Sys

/-! ## Runs -/

inductive Ev where
  /-- A check triggers a new alert. -/
  | trigger (checkId : HostCheckID) (alertType : HostAlertTypeEnum) (category : AlertCategory)
      (alertScore cliPctg : Nat) (dontEmit disabled callocOk ok : Bool)
  /-- A check triggers again the alert that it has engaged. -/
  | refresh (checkId : HostCheckID) (dontEmit disabled : Bool)
  /-- The executor marks an engaged alert before it runs its check. -/
  | setExpiring (checkId : HostCheckID)
  | release (checkId : HostCheckID) (ok : Bool)
  | store (checkId : HostCheckID) (alertType : HostAlertTypeEnum) (category : AlertCategory)
      (alertScore cliPctg : Nat) (dontEmit disabled firstOk ok : Bool)
  /-- Another host finds room in the queue. -/
  | otherAlert
  | dequeueHostAlerts (budget : Nat)
  | consumerStep
  | incUses
  | decUses
  /-- The hash table deletes the host: unused, or at shutdown whatever its uses. -/
  | delete (shutdown : Bool)

def step (s : Sys) : Ev → Sys
  | .trigger checkId alertType category alertScore cliPctg dontEmit disabled callocOk ok =>
    if s.destroyed then s
    else
      let id := s.mem.created
      ((s.newAlert (.new checkId alertType category alertScore cliPctg)).triggerAlert
        id dontEmit disabled callocOk ok).2
  | .refresh checkId dontEmit disabled =>
    match s.engagedAlerts checkId with
    | some id => (s.triggerAlert id dontEmit disabled true true).2
    | none => s
  | .setExpiring checkId =>
    match s.engagedAlerts checkId with
    | some id => (s.touch id).setAlert id (s.alerts id).setExpiring
    | none => s
  | .release checkId ok => s.releaseCheck checkId ok
  | .store checkId alertType category alertScore cliPctg dontEmit disabled firstOk ok =>
    if s.destroyed then s
    else
      let id := s.mem.created
      ((s.newAlert (.new checkId alertType category alertScore cliPctg)).storeAlert
        id dontEmit disabled firstOk ok).2
  | .otherAlert => { s with queue := s.queue ++ [.other] }
  | .dequeueHostAlerts budget =>
    match s.consumer with
    | .returned _ => { s with consumer := .loop budget 0 }
    | _ => s
  | .consumerStep =>
    match s.consumer with
    | .returned _ => s
    | .loop budget numDone => s.dequeueNext budget numDone
    | .busy budget numDone item => s.deliver budget numDone item
  | .incUses => if s.destroyed then s else { s with holders := s.holders + 1, numUses := s.numUses + 1 }
  | .decUses =>
    if s.destroyed || s.holders == 0 then s else { s with holders := s.holders - 1, numUses := s.numUses - 1 }
  | .delete shutdown => if s.destroyed || (!shutdown && s.numUses != 0) then s else s.destroy

/-! ## Pairs in flight -/

namespace Sys

variable (s : Sys)

/-- The pair in the consumer's hands. -/
def inHand : List Pair :=
  match s.consumer with
  | .busy _ _ item => item.pair.toList
  | _ => []

/-- The pairs that were enqueued and are not delivered yet, the oldest first. -/
def pending : List Pair := s.inHand ++ s.queue.filterMap QueueItem.pair

/-- All pairs ever enqueued, in order. -/
def stream : List Pair := s.delivered ++ s.pending

end Sys

/-- In this order no release comes before its engage. -/
def Ordered (l : List Pair) : Prop := ∀ pre a post, l = pre ++ ⟨a, true⟩ :: post → ⟨a, false⟩ ∈ pre

structure HostAlertsOk (s : Sys) : Prop where
  freedOnce : s.mem.freed.Nodup
  /-- An alert that is not freed has an owner: its slot, or a released pair. -/
  kept : ∀ id, id < s.mem.created → id ∈ s.mem.freed ∨ (∃ t, s.engagedAlerts t = some id) ∨ ⟨id, true⟩ ∈ s.pending
  slotLive : ∀ t id, s.engagedAlerts t = some id → id ∉ s.mem.freed
  queueLive : ∀ p ∈ s.pending, p.alert ∉ s.mem.freed
  order : Ordered s.delivered
  noBadRead : s.mem.badReads = []

/-- What each step needs. A release that is enqueued follows its engage; one that is not enqueued finds
    no pair of its alert in flight; the slots can be allocated; the two enqueues of a stored alert have
    the same outcome; no shutdown deletes the host with a pair of it in flight. -/
def Fine (s : Sys) : Ev → Prop
  | .trigger checkId _ _ _ _ dontEmit disabled callocOk _ =>
    s.destroyed = false → dontEmit = false → disabled = false → s.engagedAlerts checkId = none →
      s.slotsAllocated = true ∨ callocOk = true
  | .release checkId ok =>
    ∀ id, s.engagedAlerts checkId = some id →
      (ok = true → ⟨id, false⟩ ∈ s.stream) ∧ (ok = false → ⟨id, false⟩ ∉ s.pending)
  | .store _ _ _ _ _ dontEmit disabled firstOk ok =>
    s.destroyed = false → dontEmit = false → disabled = false → firstOk = ok
  | .delete shutdown => shutdown = true → s.destroyed = false → s.pending = []
  | _ => True

end Ntopng.Hosts.Alerts
