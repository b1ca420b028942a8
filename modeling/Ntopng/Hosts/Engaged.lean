/-
  Ntopng.Hosts.Engaged — the books of a host's engaged alerts
  (src/HostAlertableEntity.cpp, src/Host.cpp, src/HostChecksExecutor.cpp, src/Score.cpp).

  An engaged alert sits in the slot of its check. Three things are kept beside the slots: a
  bitmap with one bit for each alert type, the number of engaged alerts, and the score of
  the host by category, as client and as server. `execChecks` runs in the thread that
  processes the packets: it releases what has no check or has been engaged for too long,
  then runs each check that is due and releases what the check did not refresh. While a
  check runs its handler may trigger and release as it likes, and so may a script in
  between; the executor is therefore at one place of its loops between two events.

  The alerts are held by value: each is owned by its slot until it is handed over to the
  recipients. Who deletes it then is the matter of Ntopng.Hosts.Alerts. `ScoreCounter::get`
  approaches the value kept here within the decay time.
-/

import Ntopng.Lib.Run
import Ntopng.Lib.Slots
import Ntopng.Hosts.Alerts

namespace Ntopng.Hosts.Engaged

open Ntopng.Lib.Run Ntopng.Lib.Slots
open Ntopng.Flows (ScoreCategory)
open Ntopng.Flows.Alerts (AlertCategory mapAlertToScoreCategory)
open Ntopng.Hosts.Alerts (HostAlert HostCheckID HostAlertTypeEnum)

/-! ## Alerts and checks -/

/-- `CONST_MAX_ALERT_ENGAGE_TIME`. -/
def maxAlertEngageTime : Int := 60 * 60 * 24

/-- A `HostAlert` with what the executor reads of it. -/
structure EngagedAlert extends HostAlert where
  hasAutoRelease : Bool
  engageTime : Int
  timeoutTime : Int
  forcedRelease : Bool
  deriving DecidableEq, Repr

namespace EngagedAlert

variable (a : EngagedAlert)

def setEngaged (rowid : Nat) : EngagedAlert := { a with toHostAlert := a.toHostAlert.setEngaged rowid }
def setExpiring : EngagedAlert := { a with toHostAlert := a.toHostAlert.setExpiring }
def release : EngagedAlert := { a with toHostAlert := a.toHostAlert.release }
def setLastReleased : EngagedAlert := { a with toHostAlert := a.toHostAlert.setLastReleased }
def setForcedRelease : EngagedAlert := { a with forcedRelease := true }
def setTimeout (t : Int) : EngagedAlert := { a with timeoutTime := t }

end EngagedAlert

structure HostCheck where
  id : HostCheckID
  isMinCheck : Bool
  is5MinCheck : Bool
  deriving DecidableEq, Repr

/-! ## The score -/

structure ScoreStats where
  cliScore : ScoreCategory → Nat
  srvScore : ScoreCategory → Nat

namespace ScoreStats

def new : ScoreStats := ⟨fun _ => 0, fun _ => 0⟩

/-- `ScoreCounter::dec`: never below zero. -/
def dec (value score : Nat) : Nat := if value ≥ score then value - score else 0

def incValue (s : ScoreStats) (score : Nat) (c : ScoreCategory) (asClient : Bool) : ScoreStats :=
  if asClient then { s with cliScore := Function.update s.cliScore c (s.cliScore c + score) }
  else { s with srvScore := Function.update s.srvScore c (s.srvScore c + score) }

def decValue (s : ScoreStats) (score : Nat) (c : ScoreCategory) (asClient : Bool) : ScoreStats :=
  if asClient then { s with cliScore := Function.update s.cliScore c (dec (s.cliScore c) score) }
  else { s with srvScore := Function.update s.srvScore c (dec (s.srvScore c) score) }

end ScoreStats

/-! ## The host -/

structure EngagedAlertsInfo where
  engagedAlertsMap : HostAlertTypeEnum → Bool
  engagedAlerts : HostCheckID → Option EngagedAlert

def EngagedAlertsInfo.calloc : EngagedAlertsInfo := ⟨fun _ => false, fun _ => none⟩

/-- Where `execChecks` is: before slot `i` of `releaseAllDisabledAlerts`, before the next check, or in the
    handler of a check. -/
inductive Executor where
  | idle
  | releasing (now : Int) (checks : List HostCheck) (i : Nat)
  | checking (now : Int) (runMinCbs run5MinCbs : Bool) (checks : List HostCheck)
  | handler (now : Int) (runMinCbs run5MinCbs : Bool) (cb : HostCheck) (checks : List HostCheck)
  deriving DecidableEq, Repr

structure Host where
  alerts : Option EngagedAlertsInfo
  numEngagedAlerts : Nat
  score : Option ScoreStats
  alertSerial : Nat
  lastCallMin : Int
  lastCall5Min : Int
  executor : Executor
  /-- What was handed over to `enqueueHostAlert`, in order. -/
  enqueued : List EngagedAlert

def Host.new : Host :=
  { alerts := none, numEngagedAlerts := 0, score := none, alertSerial := 0, lastCallMin := 0, lastCall5Min := 0
    executor := .idle, enqueued := [] }

namespace Host

variable (h : Host)

def getCheckEngagedAlert (t : HostCheckID) : Option EngagedAlert := h.alerts.bind (·.engagedAlerts t)

def isEngagedAlert (ty : HostAlertTypeEnum) : Bool := h.alerts.elim false (·.engagedAlertsMap ty)

def cliScore (c : ScoreCategory) : Nat := h.score.elim 0 (·.cliScore c)

def srvScore (c : ScoreCategory) : Nat := h.score.elim 0 (·.srvScore c)

/-- `ok` is whether a `ScoreStats` can be allocated. -/
def incScoreValue (score : Nat) (c : ScoreCategory) (asClient ok : Bool) : Host :=
  match h.score with
  | some s => { h with score := some (s.incValue score c asClient) }
  | none => if ok then { h with score := some (ScoreStats.new.incValue score c asClient) } else h

def decScoreValue (score : Nat) (c : ScoreCategory) (asClient : Bool) : Host :=
  match h.score with
  | some s => { h with score := some (s.decValue score c asClient) }
  | none => h

def addEngagedAlert (a : EngagedAlert) (callocOk : Bool) : Bool × Host :=
  match (if h.alerts.isNone && callocOk then some .calloc else h.alerts) with
  | none => (false, h)
  | some info =>
    if (info.engagedAlerts a.checkId).isNone then
      (true,
        { h with
          alerts := some
            { engagedAlerts := Function.update info.engagedAlerts a.checkId (some a)
              engagedAlertsMap := Function.update info.engagedAlertsMap a.alertType true }
          numEngagedAlerts := h.numEngagedAlerts + 1 })
    else (false, { h with alerts := some info })

/-- Of the alert in slot `t`. -/
def removeEngagedAlert (t : HostCheckID) : Host :=
  match h.alerts with
  | none => h
  | some info =>
    match info.engagedAlerts t with
    | none => h
    | some a =>
      { h with
        alerts := some
          { engagedAlerts := Function.update info.engagedAlerts t none
            engagedAlertsMap := Function.update info.engagedAlertsMap a.alertType false }
        numEngagedAlerts := h.numEngagedAlerts - 1 }

/-- A field of the alert in slot `t` is written. -/
def modifyAlert (t : HostCheckID) (f : EngagedAlert → EngagedAlert) : Host :=
  { h with alerts := h.alerts.map fun info =>
      { info with engagedAlerts := Function.update info.engagedAlerts t ((info.engagedAlerts t).map f) } }

def enqueueHostAlert (a : EngagedAlert) : Host := { h with enqueued := h.enqueued ++ [a] }

/-! ## Trigger and release -/

def newRowid (rowid : Nat) : Host := if rowid = 0 then { h with alertSerial := h.alertSerial + 1 } else h

/-- `triggerAlert` of an alert that a check has allocated. `cliOk` and `srvOk` are for the allocation in the
    two `incScoreValue`. -/
def triggerAlert (a : EngagedAlert) (dontEmit disabled callocOk cliOk srvOk : Bool) : Bool × Host :=
  if dontEmit || disabled then (false, h)
  else
    let h := h.newRowid a.rowid
    let a := a.setEngaged (if a.rowid = 0 then h.alertSerial else a.rowid)
    match h.getCheckEngagedAlert a.checkId with
    | some _ => (false, h)
    | none =>
      let c := mapAlertToScoreCategory a.category
      let h := h.incScoreValue a.getCliScore c true cliOk
      let h := h.incScoreValue a.getSrvScore c false srvOk
      let h := (h.addEngagedAlert a callocOk).2
      (true, h.enqueueHostAlert a)

/-- `triggerAlert` of the alert engaged in slot `t`. -/
def refreshAlert (t : HostCheckID) (dontEmit disabled : Bool) : Bool × Host :=
  match h.getCheckEngagedAlert t with
  | none => (false, h)
  | some a =>
    if dontEmit || disabled then (false, h.modifyAlert t EngagedAlert.setExpiring)
    else
      let h := h.newRowid a.rowid
      (true, h.modifyAlert t fun a => a.setEngaged (if a.rowid = 0 then h.alertSerial else a.rowid))

/-- `releaseAlert` of the alert engaged in slot `t`. -/
def releaseAlert (t : HostCheckID) : Host :=
  match h.getCheckEngagedAlert t with
  | none => h
  | some a =>
    let a := a.release
    let h := h.removeEngagedAlert t
    let a := if h.numEngagedAlerts = 0 then a.setLastReleased else a
    let c := mapAlertToScoreCategory a.category
    let h := h.decScoreValue a.getCliScore c true
    let h := h.decScoreValue a.getSrvScore c false
    h.enqueueHostAlert a

def releaseAllEngagedAlerts : Host := (List.finRange 28).foldl releaseAlert h

/-! ## The executor -/

/-- The alert is disabled: its check is gone, its own timeout is over, and nobody else would release it. -/
def isDisabled (checks : List HostCheck) (now : Int) (t : HostCheckID) (a : EngagedAlert) (dontEmit : Bool) : Bool :=
  !checks.any (·.id = t) && (a.timeoutTime = 0 || decide (now > a.timeoutTime)) && (a.hasAutoRelease || dontEmit)

def isTooLong (now : Int) (a : EngagedAlert) : Bool := decide (now - a.engageTime > maxAlertEngageTime)

/-- One slot of `releaseAllDisabledAlerts`. -/
def releaseDisabled (checks : List HostCheck) (now : Int) (t : HostCheckID) (dontEmit : Bool) : Host :=
  match h.getCheckEngagedAlert t with
  | none => h
  | some a =>
    if isTooLong now a || isDisabled checks now t a dontEmit then
      (if isDisabled checks now t a dontEmit then h else h.modifyAlert t EngagedAlert.setForcedRelease).releaseAlert t
    else h

def isTimeToRunMinChecks (now : Int) : Bool := decide (h.lastCallMin + 60 ≤ now)

def isTimeToRun5MinChecks (now : Int) : Bool := decide (h.lastCall5Min + 300 ≤ now)

/-- Before the handler of a check that is due: what it has engaged is to be refreshed. -/
def beforeHandler (t : HostCheckID) : Host :=
  match h.getCheckEngagedAlert t with
  | none => h
  | some a => if a.hasAutoRelease then h.modifyAlert t EngagedAlert.setExpiring else h

/-- After it. `disabled` is `isHostAlertDisabled` of the alert's type. -/
def afterHandler (t : HostCheckID) (disabled : Bool) : Host :=
  match h.getCheckEngagedAlert t with
  | none => h
  | some a => if a.expiring || disabled then h.releaseAlert t else h

/-- `execChecks` goes on. -/
def executorStep (dontEmit disabled : Bool) : Host :=
  match h.executor with
  | .idle => h
  | .releasing now checks i =>
    if hi : i < 28 then
      { h.releaseDisabled checks now ⟨i, hi⟩ dontEmit with executor := .releasing now checks (i + 1) }
    else { h with executor := .checking now (h.isTimeToRunMinChecks now) (h.isTimeToRun5MinChecks now) checks }
  | .checking now runMinCbs run5MinCbs [] =>
    { h with
      lastCallMin := if runMinCbs then now else h.lastCallMin
      lastCall5Min := if run5MinCbs then now else h.lastCall5Min
      executor := .idle }
  | .checking now runMinCbs run5MinCbs (cb :: checks) =>
    if runMinCbs && cb.isMinCheck || run5MinCbs && cb.is5MinCheck then
      { h.beforeHandler cb.id with executor := .handler now runMinCbs run5MinCbs cb checks }
    else { h with executor := .checking now runMinCbs run5MinCbs checks }
  | .handler now runMinCbs run5MinCbs cb checks =>
    { h.afterHandler cb.id disabled with executor := .checking now runMinCbs run5MinCbs checks }

end Host

/-! ## Runs -/

inductive Ev where
  /-- A handler or a script triggers a new alert. -/
  | triggerAlert (a : EngagedAlert) (dontEmit disabled callocOk cliOk srvOk : Bool)
  /-- It triggers again the alert that is engaged. -/
  | refreshAlert (t : HostCheckID) (dontEmit disabled : Bool)
  | setTimeout (t : HostCheckID) (timeout : Int)
  /-- A handler releases the alert of its check. -/
  | releaseAlert (t : HostCheckID)
  /-- The housekeeping of an active host. -/
  | execChecks (checks : List HostCheck) (now : Int)
  | executorStep (dontEmit disabled : Bool)
  /-- The housekeeping of an idle host. -/
  | releaseAllEngagedAlerts

def step (h : Host) : Ev → Host
  | .triggerAlert a dontEmit disabled callocOk cliOk srvOk => (h.triggerAlert a dontEmit disabled callocOk cliOk srvOk).2
  | .refreshAlert t dontEmit disabled => (h.refreshAlert t dontEmit disabled).2
  | .setTimeout t timeout => h.modifyAlert t (·.setTimeout timeout)
  | .releaseAlert t => h.releaseAlert t
  | .execChecks checks now => if h.executor = .idle then { h with executor := .releasing now checks 0 } else h
  | .executorStep dontEmit disabled => h.executorStep dontEmit disabled
  | .releaseAllEngagedAlerts => if h.executor = .idle then h.releaseAllEngagedAlerts else h

/-! ## The books -/

def cliPart (c : ScoreCategory) (a : EngagedAlert) : Nat :=
  if mapAlertToScoreCategory a.category = c then a.getCliScore else 0

def srvPart (c : ScoreCategory) (a : EngagedAlert) : Nat :=
  if mapAlertToScoreCategory a.category = c then a.getSrvScore else 0

/-- The number of engaged alerts and the scores are those of the slots. -/
structure Counted (h : Host) : Prop where
  numEngaged : h.numEngagedAlerts = tally (fun _ => 1) h.getCheckEngagedAlert
  cliScore : ∀ c, h.cliScore c = tally (cliPart c) h.getCheckEngagedAlert
  srvScore : ∀ c, h.srvScore c = tally (srvPart c) h.getCheckEngagedAlert

/-- And a bit of the map is set when some slot holds an alert of the type. -/
structure EngagedOk (h : Host) : Prop extends Counted h where
  bitmap : Indexed (fun a => a.alertType) h.getCheckEngagedAlert h.isEngagedAlert

/-- No other slot holds an alert of the type that slot `t` holds. -/
def OwnBit (h : Host) (t : HostCheckID) : Prop :=
  ∀ a, h.getCheckEngagedAlert t = some a → Sole (fun b => b.alertType) h.getCheckEngagedAlert t a.alertType

/-- The score that the host gains is the score of what its slots gain: nothing is lost for want of a `ScoreStats`,
    nothing is added for want of the slots. -/
def Afforded (h : Host) (a : EngagedAlert) (callocOk cliOk srvOk : Bool) : Prop :=
  let slots := h.alerts.isSome || callocOk
  let cli := h.score.isSome || cliOk
  let srv := h.score.isSome || cliOk || srvOk
  (a.getCliScore = 0 ∨ cli = slots) ∧ (a.getSrvScore = 0 ∨ srv = slots)

/-- What each step needs: a new alert is afforded, and a release clears a bit that is its own. -/
def Fine (h : Host) : Ev → Prop
  | .triggerAlert a dontEmit disabled callocOk cliOk srvOk =>
    dontEmit = false → disabled = false → h.getCheckEngagedAlert a.checkId = none → Afforded h a callocOk cliOk srvOk
  | .releaseAlert t => OwnBit h t
  | .executorStep dontEmit disabled =>
    match h.executor with
    | .releasing now checks i =>
      ∀ (hi : i < 28) a, h.getCheckEngagedAlert ⟨i, hi⟩ = some a →
        (Host.isTooLong now a || Host.isDisabled checks now ⟨i, hi⟩ a dontEmit) = true → OwnBit h ⟨i, hi⟩
    | .handler _ _ _ cb _ =>
      ∀ a, h.getCheckEngagedAlert cb.id = some a → (a.expiring || disabled) = true → OwnBit h cb.id
    | _ => True
  | _ => True

end Ntopng.Hosts.Engaged
