/-
  Ntopng.Flows.Alerts — the alerts of one flow (src/Flow.cpp, src/NetworkInterface.cpp).

  A check passes a new `FlowAlert` to `triggerAlert`. It is kept in `triggered_alerts`, or
  discarded (and freed) by `setAlertsMap`. `flushAlerts` enqueues the predominant one, whose
  owner stays the flow; an enqueue that fails frees it. `dequeueFlowAlerts` delivers to the
  recipients, and the destructor frees what `triggered_alerts` holds. Each accepted alert
  is accounted to the two hosts and to the interface; `decAllFlowScores` takes the account
  back when the flow ends. The flow may be swapped in between.

  The queue is shared with other flows: an item is an alert of this flow or another's. What
  the outside decides is in the event: whether an enqueue finds room, the preferences, the
  host filter, and what other holders of the flow do.

  Alert objects are numbered; `mem` is the log of what was freed. Ghost fields: `holders`
  (the uses that other threads have), `swaps` (whether the flow was swapped an odd number of
  times) and `accepted` (each accepted alert and `swaps` then).
-/

import Ntopng.Lib.Run
import Ntopng.Lib.Heap
import Ntopng.Flows.TrafficStats

namespace Ntopng.Flows.Alerts

open Ntopng.Lib.Run Ntopng.Lib.Heap

/-! ## Scores and severities -/

inductive AlertCategory where
  | other
  | security
  | internals
  | network
  | system
  | idsIps
  deriving DecidableEq, Repr

def mapAlertToScoreCategory (c : AlertCategory) : ScoreCategory :=
  if c = .security then .security else .network

inductive AlertLevel where
  | none
  | debug
  | info
  | notice
  | warning
  | error
  | critical
  | alert
  | emergency
  deriving DecidableEq, Repr

inductive AlertLevelGroup where
  | none
  | noticeOrLower
  | warning
  | error
  | critical
  | emergency
  deriving DecidableEq, Repr

def mapScoreToSeverity (score : Nat) : AlertLevel :=
  if score < 1 then .none
  else if score < 10 then .info
  else if score < 50 then .notice
  else if score < 100 then .warning
  else if score < 200 then .error
  else if score < 250 then .critical
  else .emergency

def mapAlertLevelToGroup : AlertLevel → AlertLevelGroup
  | .debug => .noticeOrLower
  | .info => .noticeOrLower
  | .notice => .noticeOrLower
  | .warning => .warning
  | .error => .error
  | .critical => .critical
  | .alert => .critical
  | .emergency => .emergency
  | .none => .none

/-- `MAX_FLOW_ALERT_TYPE` is 127: what a `Bitmap128` holds. -/
abbrev FlowAlertTypeEnum := Fin 128

def flowAlertNormal : FlowAlertTypeEnum := 0

def flowAlertBlacklisted : FlowAlertTypeEnum := 1

structure FlowAlert where
  id : FlowAlertTypeEnum
  category : AlertCategory
  cliScore : Nat
  srvScore : Nat
  isCliAttacker : Bool
  isCliVictim : Bool
  isSrvAttacker : Bool
  isSrvVictim : Bool
  autoAck : Bool
  score_le : cliScore + srvScore ≤ scoreMaxValue

/-- The only way in which an alert gets its scores. -/
def FlowAlert.setCliSrvScores (a : FlowAlert) (c s : Nat) : FlowAlert :=
  let cli := min c scoreMaxValue
  let srv := min s scoreMaxValue
  { a with
    cliScore := cli
    srvScore := if cli + srv > scoreMaxValue then scoreMaxValue - cli else srv
    score_le := by split <;> omega }

/-! ## The state -/

structure AlertInfo where
  isCliAttacker : Bool
  isCliVictim : Bool
  isSrvAttacker : Bool
  isSrvVictim : Bool
  autoAcknowledge : Bool
  deriving DecidableEq, Repr

structure Flow where
  cliHost : Option Nat
  srvHost : Option Nat
  numUses : Int
  swapRequested : Bool
  swapDone : Bool
  flowScore : Nat
  alertsMap : FlowAlertTypeEnum → Bool
  triggeredAlerts : FlowAlertTypeEnum → Option Nat
  predominantAlert : FlowAlertTypeEnum
  predominantAlertScore : Nat
  alertInfo : AlertInfo
  pendingAlerts : Bool
  refreshTriggeredAlerts : Bool
  stats : PartializableFlowTrafficStats

/-- What the flow passed to its hosts (by host, role and score category) and to the interface. -/
structure Counters where
  incScore : Nat → Bool → ScoreCategory → Nat
  decScore : Nat → Bool → ScoreCategory → Nat
  incAlerted : Nat → Bool → Nat
  decAlerted : Nat → Bool → Nat
  totalAlerts : Nat → Nat
  /-- `num_active_alerted_flows_notice`, `_warning` and `_error`. -/
  activeNotice : Int
  activeWarning : Int
  activeError : Int

inductive QueueItem where
  | ours (alert : Nat)
  | other
  deriving DecidableEq, Repr

structure Sys where
  flow : Flow
  mem : Mem
  refreshed : Nat → Bool
  queue : List QueueItem
  delivered : List Nat
  counters : Counters
  ended : Bool
  destroyed : Bool
  holders : Nat
  swaps : Bool
  accepted : List (Bool × FlowAlert)

/-- A new flow between two hosts, of an interface with these counters. -/
def start (cliHost srvHost : Option Nat) (counters : Counters) : Sys :=
  { flow :=
      { cliHost := cliHost, srvHost := srvHost, numUses := 0, swapRequested := false, swapDone := false
        flowScore := 0, alertsMap := fun _ => false, triggeredAlerts := fun _ => none
        predominantAlert := flowAlertNormal, predominantAlertScore := 0
        alertInfo := ⟨false, false, false, false, true⟩, pendingAlerts := false
        refreshTriggeredAlerts := false, stats := .zero }
    mem := .empty, refreshed := fun _ => false, queue := [], delivered := [], counters := counters
    ended := false, destroyed := false, holders := 0, swaps := false, accepted := [] }

/-! ## What the flow does to its hosts and to the interface -/

namespace Counters

variable (k : Counters)

def addScore (f : Nat → Bool → ScoreCategory → Nat) (host : Nat) (asClient : Bool) (category : ScoreCategory)
    (score : Nat) : Nat → Bool → ScoreCategory → Nat :=
  fun h r c => f h r c + if h = host ∧ r = asClient ∧ c = category then score else 0

def addOne (f : Nat → Bool → Nat) (host : Nat) (asClient : Bool) : Nat → Bool → Nat :=
  fun h r => f h r + if h = host ∧ r = asClient then 1 else 0

def incScoreValue (host : Option Nat) (score : Nat) (category : ScoreCategory) (asClient : Bool) : Counters :=
  match host with
  | none => k
  | some h => { k with incScore := addScore k.incScore h asClient category score }

/-- Called with a score that is not 0. -/
def decScoreValue (host : Option Nat) (score : Nat) (category : ScoreCategory) (asClient : Bool) : Counters :=
  match host with
  | none => k
  | some h => if score = 0 then k else { k with decScore := addScore k.decScore h asClient category score }

/-- `Host::incNumAlertedFlows` and `incTotalAlerts`. -/
def incNumAlertedFlowsHost (host : Option Nat) (asClient : Bool) : Counters :=
  match host with
  | none => k
  | some h =>
    { k with
      incAlerted := addOne k.incAlerted h asClient
      totalAlerts := Function.update k.totalAlerts h (k.totalAlerts h + 1) }

def decNumAlertedFlowsHost (host : Option Nat) (asClient : Bool) : Counters :=
  match host with
  | none => k
  | some h => { k with decAlerted := addOne k.decAlerted h asClient }

/-- `NetworkInterface::incNumAlertedFlows` (`d` is 1) and `decNumAlertedFlows` (`d` is -1). -/
def addNumAlertedFlows (severity : AlertLevel) (d : Int) : Counters :=
  match mapAlertLevelToGroup severity with
  | .noticeOrLower => { k with activeNotice := k.activeNotice + d }
  | .warning => { k with activeWarning := k.activeWarning + d }
  | .error => { k with activeError := k.activeError + d }
  | _ => k

end Counters

namespace Sys

variable (s : Sys)

def isFlowAlerted : Bool := s.flow.predominantAlert != flowAlertNormal

def setNormalToAlertedCounters : Sys :=
  { s with
    counters := (s.counters.incNumAlertedFlowsHost s.flow.cliHost true).incNumAlertedFlowsHost s.flow.srvHost false
    flow := { s.flow with stats := s.flow.stats.setFlowAlerted } }

def setPredominantAlert (alertType : FlowAlertTypeEnum) (score : Nat) : Sys :=
  let counters :=
    if s.flow.predominantAlertScore ≠ 0 then
      s.counters.addNumAlertedFlows (mapScoreToSeverity s.flow.predominantAlertScore) (-1)
    else s.counters
  { s with
    counters := counters.addNumAlertedFlows (mapScoreToSeverity score) 1
    flow := { s.flow with predominantAlert := alertType, predominantAlertScore := score } }

/-- The bookkeeping of an alert that is kept: bitmap, map, `setAlertInfo` and the scores. -/
def account (alert : Nat) (a : FlowAlert) : Sys :=
  let category := mapAlertToScoreCategory a.category
  let info := s.flow.alertInfo
  { s with
    accepted := s.accepted ++ [(s.swaps, a)]
    counters := (s.counters.incScoreValue s.flow.cliHost a.cliScore category true).incScoreValue
      s.flow.srvHost a.srvScore category false
    flow := { s.flow with
      alertsMap := Function.update s.flow.alertsMap a.id true
      triggeredAlerts := Function.update s.flow.triggeredAlerts a.id (some alert)
      alertInfo :=
        { isCliAttacker := info.isCliAttacker || a.isCliAttacker
          isCliVictim := info.isCliVictim || a.isCliVictim
          isSrvAttacker := info.isSrvAttacker || a.isSrvAttacker
          isSrvVictim := info.isSrvVictim || a.isSrvVictim
          autoAcknowledge := info.autoAcknowledge && a.autoAck }
      flowScore := (s.flow.flowScore + (a.cliScore + a.srvScore)) % 2 ^ 16
      stats := (s.flow.stats.incScore a.cliScore category true).incScore a.srvScore category false } }

/-- The result is `false`, and the alert freed, when it is discarded. -/
def setAlertsMap (alert : Nat) (a : FlowAlert) (hostDisabled : Bool) : Bool × Sys :=
  let flowInc := a.cliScore + a.srvScore
  if a.id = flowAlertNormal then (false, { s with mem := s.mem.delete alert })
  else if s.flow.alertsMap a.id then (false, { s with mem := s.mem.delete alert })
  else if hostDisabled then (false, { s with mem := s.mem.delete alert })
  else
    let s := if s.isFlowAlerted then s else s.setNormalToAlertedCounters
    let s := s.account alert a
    if !s.isFlowAlerted || s.flow.predominantAlertScore < flowInc then (true, s.setPredominantAlert a.id flowInc)
    else (true, s)

/-! ## Flushing and the queue -/

/-- Every triggered alert is read to build the JSON. -/
def updateAlertsJSON : Sys :=
  { s with mem := s.mem.touchAll ((List.finRange 128).filterMap s.flow.triggeredAlerts) }

/-- `alert` may be NULL; `room` is whether there is a queue with a free slot. -/
def enqueueFlowAlert (alert : Option Nat) (room : Bool) : Sys :=
  let s := { s with mem := s.mem.touch alert }
  match alert with
  | none => s
  | some id =>
    if room then
      { s with queue := s.queue ++ [.ours id], flow := { s.flow with numUses := s.flow.numUses + 1 } }
    else { s with mem := s.mem.delete id }

def flushAlerts (dontEmitFlowAlerts room : Bool) : Sys :=
  if !s.flow.pendingAlerts && !s.flow.refreshTriggeredAlerts then s
  else
    let s := s.updateAlertsJSON
    let s :=
      if s.flow.pendingAlerts && !dontEmitFlowAlerts then
        s.enqueueFlowAlert (s.flow.triggeredAlerts s.flow.predominantAlert) room
      else s
    { s with flow := { s.flow with pendingAlerts := false, refreshTriggeredAlerts := false } }

/-- A check triggers an alert that it has just created. -/
def triggerAlert (a : FlowAlert) (sync hostDisabled dontEmitFlowAlerts room : Bool) : Sys :=
  let alert := s.mem.created
  let s := { s with mem := s.mem.new }
  let (res, s) := s.setAlertsMap alert a hostDisabled
  if res then
    let s := { s with flow := { s.flow with pendingAlerts := true } }
    if sync then s.flushAlerts dontEmitFlowAlerts room else s
  else s

def refreshAlert (alertType : FlowAlertTypeEnum) : Sys :=
  match s.flow.triggeredAlerts alertType with
  | none => s
  | some id =>
    { s with
      mem := s.mem.touch (some id)
      refreshed := Function.update s.refreshed id true
      flow := { s.flow with refreshTriggeredAlerts := true } }

/-- One turn of the loop of `dequeueFlowAlerts`: the alert is read for its flow and its JSON. -/
def deliver : QueueItem → Sys
  | .other => s
  | .ours id =>
    { s with
      mem := s.mem.touch (some id)
      delivered := s.delivered ++ [id]
      flow := { s.flow with numUses := s.flow.numUses - 1 } }

def dequeueLoop (budget : Nat) : List QueueItem → Nat → Sys → Sys
  | [], _, s => { s with queue := [] }
  | item :: rest, numDone, s =>
    let s := { s with queue := rest }.deliver item
    if budget > 0 ∧ numDone + 1 ≥ budget then s else dequeueLoop budget rest (numDone + 1) s

def dequeueFlowAlerts (budget : Nat) : Sys := dequeueLoop budget s.queue 0 s

/-! ## Swap and end -/

/-- The part of `Flow::swap` that the alerts depend on. -/
def swap (flowSwapHeuristic : Bool) : Sys :=
  if !flowSwapHeuristic then s
  else
    let f := s.flow
    let both := f.cliHost.isSome && f.srvHost.isSome
    { s with
      swaps := !s.swaps
      flow := { f with
        cliHost := if both then f.srvHost else f.cliHost
        srvHost := if both then f.cliHost else f.srvHost
        stats := f.stats.swap
        alertInfo := { f.alertInfo with
          isCliAttacker := f.alertInfo.isSrvAttacker, isCliVictim := f.alertInfo.isSrvVictim
          isSrvAttacker := f.alertInfo.isCliAttacker, isSrvVictim := f.alertInfo.isCliVictim }
        swapDone := true
        swapRequested := false } }

def decFlowScores (k : Counters) (f : Flow) (category : ScoreCategory) : Counters :=
  (k.decScoreValue f.cliHost (f.stats.cliHostScore category) category true).decScoreValue
    f.srvHost (f.stats.srvHostScore category) category false

def decAllFlowScores : Sys :=
  let f := s.flow
  let k := decFlowScores (decFlowScores s.counters f .network) f .security
  if s.isFlowAlerted then
    { s with counters :=
        ((k.addNumAlertedFlows (mapScoreToSeverity f.predominantAlertScore) (-1)).decNumAlertedFlowsHost
          f.cliHost true).decNumAlertedFlowsHost f.srvHost false }
  else { s with counters := k }

/-- `~Flow`. -/
def destroy : Sys :=
  { s with
    mem := { s.mem with freed := ((List.finRange 128).filterMap s.flow.triggeredAlerts).reverse ++ s.mem.freed }
    flow := { s.flow with triggeredAlerts := fun _ => none }
    destroyed := true }

end Sys

/-! ## Runs -/

inductive Ev where
  | triggerAlert (a : FlowAlert) (sync hostDisabled dontEmitFlowAlerts room : Bool)
  | refreshAlert (alertType : FlowAlertTypeEnum)
  | flushAlerts (dontEmitFlowAlerts room : Bool)
  /-- Another flow finds room in the queue. -/
  | otherAlert
  | dequeueFlowAlerts (budget : Nat)
  /-- Another holder of the flow (a walker, the dump). -/
  | incUses
  | decUses
  | requestSwap
  /-- A requested swap is performed, by a packet or at the end. -/
  | swap (flowSwapHeuristic : Bool)
  /-- The housekeeping of an idle flow, after its last checks. -/
  | housekeepIdle
  /-- The hash table deletes the flow: unused, or at shutdown whatever its uses. -/
  | delete (shutdown : Bool)

/-- Nothing happens to a flow that is gone, and an idle flow is not checked or swapped any more. -/
def step (s : Sys) : Ev → Sys
  | .triggerAlert a sync hostDisabled dontEmit room =>
    if s.destroyed || s.ended then s else s.triggerAlert a sync hostDisabled dontEmit room
  | .refreshAlert alertType => if s.destroyed || s.ended then s else s.refreshAlert alertType
  | .flushAlerts dontEmit room => if s.destroyed || s.ended then s else s.flushAlerts dontEmit room
  | .otherAlert => { s with queue := s.queue ++ [.other] }
  | .dequeueFlowAlerts budget => s.dequeueFlowAlerts budget
  | .incUses =>
    if s.destroyed then s
    else { s with holders := s.holders + 1, flow := { s.flow with numUses := s.flow.numUses + 1 } }
  | .decUses =>
    if s.destroyed || s.holders == 0 then s
    else { s with holders := s.holders - 1, flow := { s.flow with numUses := s.flow.numUses - 1 } }
  | .requestSwap => if s.destroyed || s.ended then s else { s with flow := { s.flow with swapRequested := true } }
  | .swap flowSwapHeuristic =>
    if s.destroyed || s.ended || !s.flow.swapRequested then s else s.swap flowSwapHeuristic
  | .housekeepIdle => if s.destroyed || s.ended then s else { s.decAllFlowScores with ended := true }
  | .delete shutdown => if s.destroyed || (!shutdown && s.flow.numUses != 0) then s else s.destroy

end Ntopng.Flows.Alerts
