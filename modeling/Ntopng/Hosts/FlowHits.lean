/-
  Ntopng.Hosts.FlowHits — the alert on too many hits of a host, as attacker or as victim
  (src/host_checks/FlowHits.cpp, ICMPFlood.cpp, FlowFlood.cpp; src/HostChecksExecutor.cpp,
  src/Host.cpp).

  `execChecks` marks an engaged alert as expiring, calls the check, and releases the alert if the
  check did not trigger it anew. An alert engaged for more than a day is released before. The
  check compares the hits as attacker to its threshold, and only where these do not exceed it
  the hits as victim. It allocates an alert where none is engaged; an engaged one it gives the new hits
  only in the role that the alert has, and triggers it anew in either role.

  Here the host is the slot of this check, and an event is one `execChecks`, in which the check may
  not be due. Scores and recipients are in Ntopng.Hosts.Engaged and Ntopng.Hosts.Alerts.

  Proved for all sequences of events (`engaged_law`), of an update of a host whose alerts are
  enabled:
  - the alert is engaged exactly if one of the counters exceeds the threshold,
  - it has the role it was engaged in, and the hits of the last update since in which the check
    called for this role.
  Its role can be one whose counter is at 0 (`role_stays`).
-/

import Ntopng.Lib.Run

namespace Ntopng.Hosts.FlowHits

open Ntopng.Lib.Run

/-! ## The code -/

/-- `CONST_MAX_ALERT_ENGAGE_TIME` -/
def maxAlertEngageTime : ℤ := 60 * 60 * 24

structure FlowHitsAlert where
  hits : UInt64
  hitsThreshold : UInt64
  isAttacker : Bool
  expiring : Bool
  rowid : UInt64
  engageTime : ℤ
  deriving DecidableEq, Repr

structure Host where
  /-- The engaged alert of the check. -/
  engaged : Option FlowHitsAlert
  alertSerial : UInt64
  deriving DecidableEq, Repr

/-- What one `execChecks` meets. -/
structure Update where
  now : ℤ
  /-- `time(NULL)` while the check runs. -/
  clock : ℤ
  /-- It is time for the check. -/
  due : Bool
  /-- The alerts of hosts are not emitted, or this one is excluded for the host. -/
  disabled : Bool
  threshold : UInt64
  attackerHits : UInt16
  victimHits : UInt16
  deriving DecidableEq, Repr

/-- `allocAlert` -/
def allocAlert (e : Update) (hits : UInt16) (attacker : Bool) : FlowHitsAlert :=
  { hits := hits.toUInt64, hitsThreshold := e.threshold, isAttacker := attacker, expiring := false, rowid := 0,
    engageTime := e.clock }

/-- The id of 64 bits is read as one of 32, and a new one taken if that is 0. -/
def setEngaged (h : Host) (alert : FlowHitsAlert) : FlowHitsAlert × UInt64 :=
  if alert.rowid.toUInt32 = 0 then ({ alert with expiring := false, rowid := h.alertSerial }, h.alertSerial + 1)
  else ({ alert with expiring := false, rowid := alert.rowid.toUInt32.toUInt64 }, h.alertSerial)

/-- `Host::triggerAlert` of the engaged alert: a refresh. -/
def refreshAlert (e : Update) (h : Host) (alert : FlowHitsAlert) : Host :=
  if e.disabled then { h with engaged := some { alert with expiring := true } }
  else { engaged := some (setEngaged h alert).1, alertSerial := (setEngaged h alert).2 }

/-- `Host::triggerAlert` of a new alert. -/
def triggerAlert (e : Update) (h : Host) (alert : FlowHitsAlert) : Host :=
  if e.disabled then h
  else match h.engaged with
    | some _ => { h with alertSerial := (setEngaged h alert).2 }
    | none => { engaged := some (setEngaged h alert).1, alertSerial := (setEngaged h alert).2 }

def triggerFlowHitsAlert (e : Update) (h : Host) (attacker : Bool) (hits : UInt16) : Host :=
  match h.engaged with
  | none => triggerAlert e h (allocAlert e hits attacker)
  | some alert =>
    refreshAlert e h (if alert.isAttacker = attacker then { alert with hits := hits.toUInt64 } else alert)

/-- `ICMPFlood::periodicUpdate`, and `FlowFlood::periodicUpdate` with the other counters. -/
def periodicUpdate (e : Update) (h : Host) : Host :=
  if e.attackerHits.toUInt64 > e.threshold then triggerFlowHitsAlert e h true e.attackerHits
  else if e.victimHits.toUInt64 > e.threshold then triggerFlowHitsAlert e h false e.victimHits
  else h

def releaseAlert (h : Host) : Host := { h with engaged := none }

/-- `releaseAllDisabledAlerts`; the check is there. -/
def releaseOld (e : Update) (h : Host) : Host :=
  match h.engaged with
  | some alert => if e.now - alert.engageTime > maxAlertEngageTime then releaseAlert h else h
  | none => h

def setExpiring (h : Host) : Host := { h with engaged := h.engaged.map fun a => { a with expiring := true } }

/-- The alert is released if it was not refreshed, or if it has been disabled. -/
def releaseExpired (e : Update) (h : Host) : Host :=
  match h.engaged with
  | some alert => if alert.expiring || e.disabled then releaseAlert h else h
  | none => h

def execChecks (h : Host) (e : Update) : Host :=
  let h := releaseOld e h
  if e.due then releaseExpired e (periodicUpdate e (setExpiring h)) else h

def Host.new : Host := ⟨none, 1⟩

/-! ## What is expected -/

def Update.counter (e : Update) (attacker : Bool) : UInt16 := if attacker then e.attackerHits else e.victimHits

/-- The counter exceeds the threshold. -/
def Update.Exceeds (e : Update) (attacker : Bool) : Prop := e.threshold < (e.counter attacker).toUInt64

instance (e : Update) (attacker : Bool) : Decidable (e.Exceeds attacker) := inferInstanceAs (Decidable (_ < _))

/-- The role that the check calls for; that of the attacker comes first. -/
def Update.role (e : Update) : Option Bool :=
  if e.due && !e.disabled then
    if e.Exceeds true then some true else if e.Exceeds false then some false else none
  else none

/-- The alert has a role whose counter exceeds the threshold now, and its hits. -/
structure Current (e : Update) (h : Host) : Prop where
  engaged : h.engaged.isSome ↔ ∃ attacker, e.Exceeds attacker
  role : ∀ a, h.engaged = some a → e.Exceeds a.isAttacker ∧ a.hits = (e.counter a.isAttacker).toUInt64

/-- The alert was engaged in its role by an update since which every one called for a role, and has
    the hits of the last one that called for its own. -/
def Since (es : List Update) (a : FlowHitsAlert) : Prop :=
  ∃ pre e₀ post, es = pre ++ e₀ :: post ∧ e₀.role = some a.isAttacker ∧ a.engageTime = e₀.clock ∧
    (∀ e ∈ post, e.due → e.role.isSome) ∧
    ∃ mid e₁ rest, e₀ :: post = mid ++ e₁ :: rest ∧ e₁.role = some a.isAttacker ∧
      a.hits = (e₁.counter a.isAttacker).toUInt64 ∧ ∀ e ∈ rest, e.role ≠ some a.isAttacker

/-- What holds after the update `e` that came after `es`. -/
structure Right (es : List Update) (e : Update) (h : Host) : Prop where
  engaged : h.engaged.isSome ↔ ∃ attacker, e.Exceeds attacker
  role : ∀ a, h.engaged = some a → Since (es ++ [e]) a

/-! ## One update -/

theorem role_isSome (e : Update) (hdue : e.due) (henabled : e.disabled = false) :
    e.role.isSome ↔ ∃ attacker, e.Exceeds attacker := by
  rw [Update.role, hdue, henabled, Bool.not_false, Bool.and_true, if_pos rfl, Bool.exists_bool]
  by_cases hattacker : e.Exceeds true
  · simp [hattacker]
  · by_cases hvictim : e.Exceeds false
    · simp [hattacker, hvictim]
    · simp [hattacker, hvictim]

theorem role_not_due {e : Update} (h : e.due = false) : e.role = none := by
  rw [Update.role, h, Bool.false_and, if_neg Bool.false_ne_true]

/-- The check as the role it calls for. -/
theorem periodicUpdate_eq {e : Update} (hdue : e.due = true) (henabled : e.disabled = false) (h : Host) :
    periodicUpdate e h = match e.role with
      | some attacker => triggerFlowHitsAlert e h attacker (e.counter attacker)
      | none => h := by
  rw [periodicUpdate, Update.role, hdue, henabled, Bool.not_false, Bool.and_true, if_pos rfl]
  by_cases hattacker : e.Exceeds true
  · rw [if_pos hattacker, if_pos (show e.attackerHits.toUInt64 > e.threshold from hattacker)]
    rfl
  · rw [if_neg hattacker, if_neg (show ¬ e.attackerHits.toUInt64 > e.threshold from hattacker)]
    by_cases hvictim : e.Exceeds false
    · rw [if_pos hvictim, if_pos (show e.victimHits.toUInt64 > e.threshold from hvictim)]
      rfl
    · rw [if_neg hvictim, if_neg (show ¬ e.victimHits.toUInt64 > e.threshold from hvictim)]

/-- What an engaged alert is before a check that is due, if it is not too old. -/
theorem releaseOld_cases (e : Update) (h : Host) : (releaseOld e h).engaged = none ∨ releaseOld e h = h := by
  rw [releaseOld]
  cases hslot : h.engaged with
  | none => exact Or.inl hslot
  | some a =>
    simp only
    split
    · exact Or.inl rfl
    · exact Or.inr rfl

theorem setEngaged_alert (h : Host) (a : FlowHitsAlert) : (setEngaged h a).1.hits = a.hits ∧
    (setEngaged h a).1.isAttacker = a.isAttacker ∧ (setEngaged h a).1.expiring = false ∧
    (setEngaged h a).1.engageTime = a.engageTime := by
  rw [setEngaged]
  split
  · exact ⟨rfl, rfl, rfl, rfl⟩
  · exact ⟨rfl, rfl, rfl, rfl⟩

theorem releaseExpired_disabled {e : Update} (h : e.disabled = true) (s : Host) : (releaseExpired e s).engaged = none := by
  rw [releaseExpired]
  cases hslot : s.engaged with
  | none => exact hslot
  | some a =>
    simp only
    rw [h, Bool.or_true, if_pos rfl]
    rfl

/-- An alert that was refreshed or is new stays. -/
theorem releaseExpired_fresh {e : Update} (henabled : e.disabled = false) {s : Host} {a : FlowHitsAlert}
    (hs : s.engaged = some a) (ha : a.expiring = false) : releaseExpired e s = s := by
  rw [releaseExpired, hs]
  simp only
  rw [ha, henabled, Bool.or_false, if_neg Bool.false_ne_true]

/-- An update that is due with the alerts enabled, on a slot that is empty. -/
theorem due_empty {e : Update} (hdue : e.due = true) (henabled : e.disabled = false) {h : Host}
    (hs : (releaseOld e h).engaged = none) : match e.role with
      | none => (execChecks h e).engaged = none
      | some attacker => ∃ a, (execChecks h e).engaged = some a ∧ a.isAttacker = attacker ∧
          a.hits = (e.counter attacker).toUInt64 ∧ a.engageTime = e.clock := by
  have hslot : (setExpiring (releaseOld e h)).engaged = none := by
    rw [setExpiring, hs]
    rfl
  rw [execChecks, if_pos hdue, periodicUpdate_eq hdue henabled]
  cases hrole : e.role with
  | none =>
    simp only
    rw [releaseExpired, hslot]
    exact hslot
  | some attacker =>
    obtain ⟨hhits, hattacker, hexpiring, htime⟩ := setEngaged_alert (setExpiring (releaseOld e h))
      (allocAlert e (e.counter attacker) attacker)
    have htrigger : triggerFlowHitsAlert e (setExpiring (releaseOld e h)) attacker (e.counter attacker) =
        { engaged := some (setEngaged (setExpiring (releaseOld e h)) (allocAlert e (e.counter attacker) attacker)).1,
          alertSerial := (setEngaged (setExpiring (releaseOld e h)) (allocAlert e (e.counter attacker) attacker)).2 } := by
      rw [triggerFlowHitsAlert, hslot]
      simp only
      rw [triggerAlert, henabled, if_neg Bool.false_ne_true, hslot]
    simp only
    rw [htrigger, releaseExpired_fresh henabled rfl hexpiring]
    exact ⟨_, rfl, hattacker, hhits, htime⟩

/-- The same on a slot with an alert. -/
theorem due_engaged {e : Update} (hdue : e.due = true) (henabled : e.disabled = false) {h : Host} {a : FlowHitsAlert}
    (hs : (releaseOld e h).engaged = some a) : match e.role with
      | none => (execChecks h e).engaged = none
      | some attacker => ∃ a', (execChecks h e).engaged = some a' ∧ a'.isAttacker = a.isAttacker ∧
          a'.engageTime = a.engageTime ∧
          a'.hits = if a.isAttacker = attacker then (e.counter attacker).toUInt64 else a.hits := by
  have hslot : (setExpiring (releaseOld e h)).engaged = some { a with expiring := true } := by
    rw [setExpiring, hs]
    rfl
  rw [execChecks, if_pos hdue, periodicUpdate_eq hdue henabled]
  cases hrole : e.role with
  | none =>
    simp only
    rw [releaseExpired, hslot]
    simp only
    rw [Bool.true_or, if_pos rfl]
    rfl
  | some attacker =>
    simp only
    rw [triggerFlowHitsAlert, hslot]
    simp only
    rw [refreshAlert, henabled, if_neg Bool.false_ne_true]
    obtain ⟨hhits, hattacker, hexpiring, htime⟩ := setEngaged_alert (setExpiring (releaseOld e h))
      (if a.isAttacker = attacker then { a with expiring := true, hits := (e.counter attacker).toUInt64 }
        else { a with expiring := true })
    rw [releaseExpired_fresh henabled rfl hexpiring]
    refine ⟨_, rfl, ?_, ?_, ?_⟩
    · rw [hattacker]
      split <;> rfl
    · rw [htime]
      split <;> rfl
    · rw [hhits]
      split <;> rfl

theorem due_disabled {e : Update} (hdue : e.due = true) (hdisabled : e.disabled = true) (h : Host) :
    (execChecks h e).engaged = none := by
  rw [execChecks, if_pos hdue, releaseExpired_disabled hdisabled]

/-! ## Many updates -/

/-- The alert that stays in an update that does not change its hits. -/
theorem Since.kept {es : List Update} {a a' : FlowHitsAlert} {e : Update} (h : Since es a)
    (hsame : a'.isAttacker = a.isAttacker) (htime : a'.engageTime = a.engageTime) (hhits : a'.hits = a.hits)
    (hcalled : e.due → e.role.isSome) (hother : e.role ≠ some a.isAttacker) : Since (es ++ [e]) a' := by
  obtain ⟨pre, e₀, post, hes, hrole, hclock, hpost, mid, e₁, rest, hmid, hrole₁, hhits₁, hrest⟩ := h
  refine ⟨pre, e₀, post ++ [e], ?_, ?_, ?_, ?_, mid, e₁, rest ++ [e], ?_, ?_, ?_, ?_⟩
  · rw [hes, List.append_assoc, List.cons_append]
  · rw [hrole, hsame]
  · rw [htime, hclock]
  · intro x hx
    rcases List.mem_append.mp hx with hx | hx
    · exact hpost x hx
    · rw [List.mem_singleton.mp hx]
      exact hcalled
  · rw [← List.cons_append, hmid, List.append_assoc, List.cons_append]
  · rw [hrole₁, hsame]
  · rw [hhits, hhits₁, hsame]
  · intro x hx
    rw [hsame]
    rcases List.mem_append.mp hx with hx | hx
    · exact hrest x hx
    · rw [List.mem_singleton.mp hx]
      exact hother

/-- The alert whose hits an update has set. -/
theorem Since.updated {es : List Update} {a a' : FlowHitsAlert} {e : Update} (h : Since es a)
    (hsame : a'.isAttacker = a.isAttacker) (htime : a'.engageTime = a.engageTime) (hrole : e.role = some a.isAttacker)
    (hhits : a'.hits = (e.counter a.isAttacker).toUInt64) : Since (es ++ [e]) a' := by
  obtain ⟨pre, e₀, post, hes, hrole₀, hclock, hpost, -⟩ := h
  refine ⟨pre, e₀, post ++ [e], ?_, ?_, ?_, ?_, e₀ :: post, e, [], rfl, ?_, ?_, fun x hx => by cases hx⟩
  · rw [hes, List.append_assoc, List.cons_append]
  · rw [hrole₀, hsame]
  · rw [htime, hclock]
  · intro x hx
    rcases List.mem_append.mp hx with hx | hx
    · exact hpost x hx
    · rw [List.mem_singleton.mp hx, hrole]
      exact fun _ => rfl
  · rw [hrole, hsame]
  · rw [hhits, hsame]

/-- The alert that an update has engaged. -/
theorem since_new {es : List Update} {a : FlowHitsAlert} {e : Update} (hrole : e.role = some a.isAttacker)
    (hhits : a.hits = (e.counter a.isAttacker).toUInt64) (htime : a.engageTime = e.clock) : Since (es ++ [e]) a := by
  refine ⟨es, e, [], rfl, hrole, htime, ?_, [], e, [], rfl, hrole, hhits, ?_⟩
  · intro x hx
    cases hx
  · intro x hx
    cases hx

/-- What one `execChecks` keeps of the alert. -/
theorem step_since {es : List Update} {h : Host} (hs : ∀ a, h.engaged = some a → Since es a) (e : Update) :
    ∀ a, (execChecks h e).engaged = some a → Since (es ++ [e]) a := by
  intro a' ha'
  by_cases hdue : e.due = true
  · by_cases hdisabled : e.disabled = true
    · rw [due_disabled hdue hdisabled] at ha'
      cases ha'
    · have henabled : e.disabled = false := by simpa using hdisabled
      cases hslot : (releaseOld e h).engaged with
      | none =>
        have hspec := due_empty hdue henabled hslot
        cases hrole : e.role with
        | none =>
          rw [hrole] at hspec
          rw [hspec] at ha'
          cases ha'
        | some attacker =>
          rw [hrole] at hspec
          obtain ⟨a, ha, hattacker, hhits, htime⟩ := hspec
          rw [ha, Option.some.injEq] at ha'
          subst ha'
          subst hattacker
          exact since_new hrole hhits htime
      | some a =>
        have hold : Since es a := by
          rcases releaseOld_cases e h with hnone | hsame
          · rw [hnone] at hslot
            cases hslot
          · rw [hsame] at hslot
            exact hs a hslot
        have hspec := due_engaged hdue henabled hslot
        cases hrole : e.role with
        | none =>
          rw [hrole] at hspec
          rw [hspec] at ha'
          cases ha'
        | some attacker =>
          rw [hrole] at hspec
          obtain ⟨b, hb, hattacker, htime, hhits⟩ := hspec
          rw [hb, Option.some.injEq] at ha'
          subst ha'
          by_cases hsame : a.isAttacker = attacker
          · rw [if_pos hsame] at hhits
            subst hsame
            exact hold.updated hattacker htime hrole hhits
          · rw [if_neg hsame] at hhits
            refine hold.kept hattacker htime hhits (fun _ => by rw [hrole]; rfl) fun heq => hsame ?_
            rw [hrole, Option.some.injEq] at heq
            exact heq.symm
  · have hnot : e.due = false := by simpa using hdue
    rw [execChecks, if_neg hdue] at ha'
    rcases releaseOld_cases e h with hnone | hsame
    · rw [hnone] at ha'
      cases ha'
    · rw [hsame] at ha'
      refine (hs a' ha').kept rfl rfl rfl (fun hd => absurd hd hdue) ?_
      rw [role_not_due hnot]
      exact fun heq => by cases heq

theorem run_since (es : List Update) : ∀ a, (run execChecks Host.new es).engaged = some a → Since es a :=
  run_history execChecks (P := fun es h => ∀ a, h.engaged = some a → Since es a) (fun _ ha => by cases ha)
    (fun _ _ e hs => step_since hs e) es

theorem engaged_iff {e : Update} (hdue : e.due = true) (henabled : e.disabled = false) (h : Host) :
    (execChecks h e).engaged.isSome ↔ ∃ attacker, e.Exceeds attacker := by
  rw [← role_isSome e hdue henabled]
  cases hslot : (releaseOld e h).engaged with
  | none =>
    have hspec := due_empty hdue henabled hslot
    cases hrole : e.role with
    | none =>
      rw [hrole] at hspec
      rw [hspec]
      rfl
    | some attacker =>
      rw [hrole] at hspec
      obtain ⟨a, ha, -⟩ := hspec
      rw [ha]
      exact iff_of_true rfl rfl
  | some a =>
    have hspec := due_engaged hdue henabled hslot
    cases hrole : e.role with
    | none =>
      rw [hrole] at hspec
      rw [hspec]
      rfl
    | some attacker =>
      rw [hrole] at hspec
      obtain ⟨a, ha, -⟩ := hspec
      rw [ha]
      exact iff_of_true rfl rfl

/-- After any update of a host with its alerts enabled, whatever came before. -/
theorem engaged_law (es : List Update) (e : Update) (hdue : e.due = true) (henabled : e.disabled = false) :
    Right es e (run execChecks Host.new (es ++ [e])) := by
  refine ⟨?_, run_since (es ++ [e])⟩
  rw [run_snoc]
  exact engaged_iff hdue henabled _

/-- 100 hits as attacker, over a threshold of 50. -/
def asAttacker (now : ℤ) : Update := ⟨now, now, true, false, 50, 100, 0⟩

/-- And 200 as victim, with none as attacker. -/
def asVictim (now : ℤ) : Update := ⟨now, now, true, false, 50, 0, 200⟩

theorem engaged_law_victim : Right [asAttacker 60] (asVictim 120) (run execChecks Host.new ([asAttacker 60] ++ [asVictim 120])) :=
  engaged_law [asAttacker 60] (asVictim 120) rfl rfl

/-- The alert is still that of an attacker with 100 hits. -/
theorem role_stays : ¬ ∀ (es : List Update) (e : Update), (∀ x ∈ es ++ [e], x.due = true ∧ x.disabled = false) →
    Current e (run execChecks Host.new (es ++ [e])) := by
  intro hall
  have h := (hall [asAttacker 60] (asVictim 120) (by decide)).role ⟨100, 50, true, false, 1, 60⟩ (by decide)
  exact absurd h.1 (by decide)

end Ntopng.Hosts.FlowHits
