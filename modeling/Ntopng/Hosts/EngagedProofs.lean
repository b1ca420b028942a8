/-
  Ntopng.Hosts.EngagedProofs — when the books of a host's engaged alerts are right.

  Every step keeps them or misses its condition, and a step that misses it leaves them
  wrong at once: a score added for an alert that no slot took, or a bit cleared while
  another slot holds an alert of the type. The release of all alerts needs no condition:
  the bits that it clears too early belong to slots that it empties next.

  Proved:
  - `triggerAlert_iff`, `releaseAlert_iff`: what each of them does to the books.
  - `releaseAllEngagedAlerts_ok`: over all slots, whatever they share.
  - `books_right_iff`: over every run.
-/

import Ntopng.Hosts.Engaged

namespace Ntopng.Hosts.Engaged

open Ntopng.Lib.Run Ntopng.Lib.Slots
open Ntopng.Flows (ScoreCategory)
open Ntopng.Flows.Alerts (AlertCategory mapAlertToScoreCategory)
open Ntopng.Hosts.Alerts (HostAlert HostCheckID HostAlertTypeEnum)

variable {h h' : Host} {t : HostCheckID} {a : EngagedAlert}

/-! ## What the operations do to the slots, the bits and the scores -/

namespace Host

@[simp] theorem cliScore_incScoreValue (score : Nat) (c d : ScoreCategory) (asClient ok : Bool) :
    (h.incScoreValue score c asClient ok).cliScore d =
      h.cliScore d + if asClient ∧ c = d ∧ (h.score.isSome || ok) then score else 0 := by
  unfold incScoreValue cliScore
  cases hs : h.score with
  | none => cases ok <;> cases asClient <;> by_cases hc : c = d <;>
      simp [ScoreStats.incValue, ScoreStats.new, eq_comm, hs, hc]
  | some s => cases asClient <;> by_cases hc : c = d <;>
      simp [ScoreStats.incValue, eq_comm, hc]

@[simp] theorem srvScore_incScoreValue (score : Nat) (c d : ScoreCategory) (asClient ok : Bool) :
    (h.incScoreValue score c asClient ok).srvScore d =
      h.srvScore d + if asClient = false ∧ c = d ∧ (h.score.isSome || ok) then score else 0 := by
  unfold incScoreValue srvScore
  cases hs : h.score with
  | none => cases ok <;> cases asClient <;> by_cases hc : c = d <;>
      simp [ScoreStats.incValue, ScoreStats.new, eq_comm, hs, hc]
  | some s => cases asClient <;> by_cases hc : c = d <;>
      simp [ScoreStats.incValue, eq_comm, hc]

@[simp] theorem isSome_incScoreValue (score : Nat) (c : ScoreCategory) (asClient ok : Bool) :
    (h.incScoreValue score c asClient ok).score.isSome = (h.score.isSome || ok) := by
  unfold incScoreValue
  cases hs : h.score <;> cases ok <;> simp [hs]

@[simp] theorem cliScore_decScoreValue (score : Nat) (c d : ScoreCategory) (asClient : Bool) :
    (h.decScoreValue score c asClient).cliScore d = h.cliScore d - if asClient ∧ c = d then score else 0 := by
  unfold decScoreValue cliScore
  cases hs : h.score with
  | none => simp [hs]
  | some s =>
    cases asClient <;> by_cases hc : c = d <;>
      simp [ScoreStats.decValue, ScoreStats.dec, eq_comm, hc]
    omega

@[simp] theorem srvScore_decScoreValue (score : Nat) (c d : ScoreCategory) (asClient : Bool) :
    (h.decScoreValue score c asClient).srvScore d = h.srvScore d - if asClient = false ∧ c = d then score else 0 := by
  unfold decScoreValue srvScore
  cases hs : h.score with
  | none => simp [hs]
  | some s =>
    cases asClient <;> by_cases hc : c = d <;>
      simp [ScoreStats.decValue, ScoreStats.dec, eq_comm, hc]
    omega

/-- The score is beside the slots. -/
theorem alerts_incScoreValue (score : Nat) (c : ScoreCategory) (asClient ok : Bool) :
    (h.incScoreValue score c asClient ok).alerts = h.alerts ∧
      (h.incScoreValue score c asClient ok).numEngagedAlerts = h.numEngagedAlerts := by
  unfold incScoreValue
  cases h.score <;> cases ok <;> exact ⟨rfl, rfl⟩

theorem alerts_decScoreValue (score : Nat) (c : ScoreCategory) (asClient : Bool) :
    (h.decScoreValue score c asClient).alerts = h.alerts ∧
      (h.decScoreValue score c asClient).numEngagedAlerts = h.numEngagedAlerts := by
  unfold decScoreValue
  cases h.score <;> exact ⟨rfl, rfl⟩

theorem slots_modifyAlert (f : EngagedAlert → EngagedAlert) :
    (h.modifyAlert t f).getCheckEngagedAlert =
      Function.update h.getCheckEngagedAlert t ((h.getCheckEngagedAlert t).map f) := by
  funext j
  unfold modifyAlert getCheckEngagedAlert
  cases h.alerts with
  | none => by_cases hj : j = t <;> simp [hj]
  | some info => by_cases hj : j = t <;> simp [hj]

theorem bits_modifyAlert (f : EngagedAlert → EngagedAlert) :
    (h.modifyAlert t f).isEngagedAlert = h.isEngagedAlert := by
  funext ty
  unfold modifyAlert isEngagedAlert
  cases h.alerts <;> rfl

theorem removeEngagedAlert_spec (hs : h.getCheckEngagedAlert t = some a) :
    (h.removeEngagedAlert t).getCheckEngagedAlert = Function.update h.getCheckEngagedAlert t none ∧
      (h.removeEngagedAlert t).isEngagedAlert = Function.update h.isEngagedAlert a.alertType false ∧
      (h.removeEngagedAlert t).numEngagedAlerts = h.numEngagedAlerts - 1 ∧
      (h.removeEngagedAlert t).score = h.score := by
  unfold getCheckEngagedAlert at hs
  cases hal : h.alerts with
  | none => rw [hal] at hs; cases hs
  | some info =>
    rw [hal] at hs
    have hi : info.engagedAlerts t = some a := hs
    unfold removeEngagedAlert
    rw [hal]
    simp only [hi]
    refine ⟨?_, ?_, trivial, trivial⟩
    · funext j
      simp [getCheckEngagedAlert, hal, Function.update_apply]
    · funext ty
      simp [isEngagedAlert, hal, Function.update_apply]

/-- With the slots there, or allocated now, a free slot takes the alert. -/
theorem addEngagedAlert_fits {callocOk : Bool} (hs : h.getCheckEngagedAlert a.checkId = none)
    (hc : (h.alerts.isSome || callocOk) = true) :
    (h.addEngagedAlert a callocOk).2.getCheckEngagedAlert =
        Function.update h.getCheckEngagedAlert a.checkId (some a) ∧
      (h.addEngagedAlert a callocOk).2.isEngagedAlert = Function.update h.isEngagedAlert a.alertType true ∧
      (h.addEngagedAlert a callocOk).2.numEngagedAlerts = h.numEngagedAlerts + 1 ∧
      (h.addEngagedAlert a callocOk).2.score = h.score := by
  unfold addEngagedAlert
  cases hal : h.alerts with
  | none =>
    rw [hal] at hc
    have hc' : callocOk = true := hc
    subst hc'
    simp only [Option.isNone_none, Bool.and_self, if_true, EngagedAlertsInfo.calloc]
    refine ⟨?_, ?_, trivial, trivial⟩
    · funext j
      simp [getCheckEngagedAlert, hal, Function.update_apply]
    · funext ty
      simp [isEngagedAlert, hal, Function.update_apply]
  | some info =>
    unfold getCheckEngagedAlert at hs
    rw [hal] at hs
    have hi : info.engagedAlerts a.checkId = none := hs
    simp only [Option.isNone_some, Bool.false_and, Bool.false_eq_true, if_false, hi, Option.isNone_none, if_true]
    refine ⟨?_, ?_, trivial, trivial⟩
    · funext j
      simp [getCheckEngagedAlert, hal, Function.update_apply]
    · funext ty
      simp [isEngagedAlert, hal, Function.update_apply]

theorem addEngagedAlert_lost {callocOk : Bool} (hc : (h.alerts.isSome || callocOk) = false) :
    (h.addEngagedAlert a callocOk).2 = h := by
  obtain ⟨hal, rfl⟩ := Bool.or_eq_false_iff.mp hc
  rw [Option.isSome_eq_false_iff, Option.isNone_iff_eq_none] at hal
  simp [addEngagedAlert, hal]

end Host

/-! ## The books -/

/-- The books are about the slots, the bits, the number and the scores, and nothing else. -/
theorem engagedOk_congr (hs : h'.getCheckEngagedAlert = h.getCheckEngagedAlert)
    (hb : h'.isEngagedAlert = h.isEngagedAlert) (hn : h'.numEngagedAlerts = h.numEngagedAlerts)
    (hsc : h'.score = h.score) : EngagedOk h' ↔ EngagedOk h := by
  have hcli : h'.cliScore = h.cliScore := by funext c; unfold Host.cliScore; rw [hsc]
  have hsrv : h'.srvScore = h.srvScore := by funext c; unfold Host.srvScore; rw [hsc]
  constructor
  · intro ⟨⟨h1, h2, h3⟩, h4⟩
    rw [hs, hn] at h1; rw [hs, hcli] at h2; rw [hs, hsrv] at h3; rw [hs, hb] at h4
    exact ⟨⟨h1, h2, h3⟩, h4⟩
  · intro ⟨⟨h1, h2, h3⟩, h4⟩
    rw [← hs, ← hn] at h1; rw [← hs, ← hcli] at h2; rw [← hs, ← hsrv] at h3; rw [← hs, ← hb] at h4
    exact ⟨⟨h1, h2, h3⟩, h4⟩

theorem ok_new : EngagedOk Host.new := by
  have hslots : Host.new.getCheckEngagedAlert = fun _ => none := rfl
  refine ⟨⟨?_, fun c => ?_, fun c => ?_⟩, ?_⟩
  · rw [hslots, tally_empty]; rfl
  · rw [hslots, tally_empty]; rfl
  · rw [hslots, tally_empty]; rfl
  · rw [hslots]; exact indexed_empty

/-- What the books see of an alert. -/
def SameForBooks (a b : EngagedAlert) : Prop :=
  b.alertType = a.alertType ∧ b.category = a.category ∧ b.getCliScore = a.getCliScore ∧ b.getSrvScore = a.getSrvScore

theorem modifyAlert_ok {f : EngagedAlert → EngagedAlert} (hok : EngagedOk h) (hf : ∀ a, SameForBooks a (f a)) :
    EngagedOk (h.modifyAlert t f) := by
  cases hs : h.getCheckEngagedAlert t with
  | none =>
    refine (engagedOk_congr ?_ (Host.bits_modifyAlert f) rfl rfl).mpr hok
    rw [Host.slots_modifyAlert, hs, Option.map_none, ← hs, Function.update_eq_self]
  | some a =>
    obtain ⟨hty, hcat, hcli, hsrv⟩ := hf a
    have hslots := Host.slots_modifyAlert (h := h) (t := t) f
    rw [hs] at hslots
    refine ⟨⟨?_, ?_, ?_⟩, ?_⟩
    · rw [hslots, Option.map_some, tally_change (f := fun _ => 1) (b := f a) hs rfl]
      exact hok.numEngaged
    · intro c
      have hpart : cliPart c (f a) = cliPart c a := by unfold cliPart; rw [hcat, hcli]
      rw [hslots, Option.map_some, tally_change hs hpart]
      exact hok.cliScore c
    · intro c
      have hpart : srvPart c (f a) = srvPart c a := by unfold srvPart; rw [hcat, hsrv]
      rw [hslots, Option.map_some, tally_change hs hpart]
      exact hok.srvScore c
    · rw [hslots, Host.bits_modifyAlert]
      exact indexed_change hok.bitmap hs hty

theorem slots_eq_of_alerts (hal : h'.alerts = h.alerts) :
    h'.getCheckEngagedAlert = h.getCheckEngagedAlert ∧ h'.isEngagedAlert = h.isEngagedAlert := by
  constructor
  · funext j; unfold Host.getCheckEngagedAlert; rw [hal]
  · funext ty; unfold Host.isEngagedAlert; rw [hal]

/-! ## Trigger -/

theorem newRowid_ok (rowid : Nat) : EngagedOk (h.newRowid rowid) ↔ EngagedOk h := by
  unfold Host.newRowid
  by_cases hr : rowid = 0
  · rw [if_pos hr]
    exact engagedOk_congr rfl rfl rfl rfl
  · rw [if_neg hr]

theorem enqueueHostAlert_ok (a : EngagedAlert) : EngagedOk (h.enqueueHostAlert a) ↔ EngagedOk h :=
  engagedOk_congr rfl rfl rfl rfl

theorem refreshAlert_ok (hok : EngagedOk h) (dontEmit disabled : Bool) :
    EngagedOk (h.refreshAlert t dontEmit disabled).2 := by
  unfold Host.refreshAlert
  cases h.getCheckEngagedAlert t with
  | none => exact hok
  | some a =>
    by_cases hd : (dontEmit || disabled) = true
    · simp only [hd, if_true]
      exact modifyAlert_ok hok fun _ => ⟨rfl, rfl, rfl, rfl⟩
    · simp only [hd]
      exact modifyAlert_ok ((newRowid_ok a.rowid).mpr hok) fun _ => ⟨rfl, rfl, rfl, rfl⟩

/-- What a trigger adds to the score, whether or not the alert finds its slot. -/
theorem triggered_scores (a : EngagedAlert) (cliOk srvOk : Bool) (c : ScoreCategory) :
    let d := mapAlertToScoreCategory a.category
    let h' := (h.incScoreValue a.getCliScore d true cliOk).incScoreValue a.getSrvScore d false srvOk
    h'.cliScore c = h.cliScore c + (if h.score.isSome || cliOk then cliPart c a else 0) ∧
      h'.srvScore c = h.srvScore c + (if h.score.isSome || cliOk || srvOk then srvPart c a else 0) := by
  intro d h'
  constructor
  · rw [Host.cliScore_incScoreValue, Host.cliScore_incScoreValue]
    cases (h.score.isSome || cliOk) <;> simp [cliPart, d]
  · rw [Host.srvScore_incScoreValue, Host.srvScore_incScoreValue, Host.isSome_incScoreValue]
    cases (h.score.isSome || cliOk || srvOk) <;> simp [srvPart, d]

/-- Of the gain of one category: it is given and due, neither, or nothing. -/
theorem gain_iff (d : ScoreCategory) (v : Nat) (given due : Bool) :
    (∀ c, (if given then (if d = c then v else 0) else 0) = if due then (if d = c then v else 0) else 0) ↔
      v = 0 ∨ given = due := by
  constructor
  · intro hall
    have hd := hall d
    rw [if_pos rfl] at hd
    cases given <;> cases due <;> simp_all
  · rintro (rfl | rfl) c
    · simp
    · rfl

/-- The alert finds its slot, if there are slots. -/
theorem engage_slots (hb : Indexed (fun a => a.alertType) h.getCheckEngagedAlert h.isEngagedAlert) (hs : h.getCheckEngagedAlert a.checkId = none)
    (callocOk : Bool) :
    let h' := (h.addEngagedAlert a callocOk).2
    let kept := h.alerts.isSome || callocOk
    (∀ f : EngagedAlert → Nat,
        tally f h'.getCheckEngagedAlert = tally f h.getCheckEngagedAlert + if kept then f a else 0) ∧
      h'.numEngagedAlerts = h.numEngagedAlerts + (if kept then 1 else 0) ∧
      Indexed (fun a => a.alertType) h'.getCheckEngagedAlert h'.isEngagedAlert ∧ h'.score = h.score := by
  intro h' kept
  cases hc : kept with
  | true =>
    obtain ⟨hs', hb', hn', hsc'⟩ := Host.addEngagedAlert_fits hs hc
    refine ⟨fun f => ?_, hn', ?_, hsc'⟩
    · rw [hs', tally_fill hs, if_pos rfl]
    · rw [hs', hb']
      exact indexed_fill hb hs
  | false =>
    have hsame : h' = h := Host.addEngagedAlert_lost hc
    rw [hsame]
    exact ⟨fun f => by simp, by simp, hb, rfl⟩

/-- A new alert whose slot is free keeps the books exactly when it is afforded. -/
theorem engage_iff (hok : EngagedOk h) (hs : h.getCheckEngagedAlert a.checkId = none) (callocOk cliOk srvOk : Bool) :
    let d := mapAlertToScoreCategory a.category
    let h' := (h.incScoreValue a.getCliScore d true cliOk).incScoreValue a.getSrvScore d false srvOk
    EngagedOk (h'.addEngagedAlert a callocOk).2 ↔ Afforded h a callocOk cliOk srvOk := by
  intro d h'
  have hal : h'.alerts = h.alerts := (Host.alerts_incScoreValue ..).1.trans (Host.alerts_incScoreValue ..).1
  have hnum : h'.numEngagedAlerts = h.numEngagedAlerts :=
    (Host.alerts_incScoreValue ..).2.trans (Host.alerts_incScoreValue ..).2
  obtain ⟨hslots, hbits⟩ := slots_eq_of_alerts hal
  have hidx : Indexed (fun a => a.alertType) h'.getCheckEngagedAlert h'.isEngagedAlert := by
    rw [hslots, hbits]; exact hok.bitmap
  obtain ⟨htally, hn, hidx', hscore⟩ := engage_slots hidx (hslots ▸ hs) callocOk
  have hsc := triggered_scores (h := h) a cliOk srvOk
  rw [hal, hslots] at htally
  rw [hal, hnum] at hn
  generalize (h'.addEngagedAlert a callocOk).2 = h'' at htally hn hidx' hscore ⊢
  have hcli : ∀ c, h''.cliScore c = h.cliScore c + if h.score.isSome || cliOk then cliPart c a else 0 := by
    intro c
    rw [← (hsc c).1]
    unfold Host.cliScore
    rw [hscore]
  have hsrv : ∀ c, h''.srvScore c = h.srvScore c + if h.score.isSome || cliOk || srvOk then srvPart c a else 0 := by
    intro c
    rw [← (hsc c).2]
    unfold Host.srvScore
    rw [hscore]
  have hcliIff := gain_iff d a.getCliScore (h.score.isSome || cliOk) (h.alerts.isSome || callocOk)
  have hsrvIff := gain_iff d a.getSrvScore (h.score.isSome || cliOk || srvOk) (h.alerts.isSome || callocOk)
  refine Iff.trans ?_ (and_congr hcliIff hsrvIff)
  constructor
  · intro hok'
    constructor
    · intro c
      have := hok'.cliScore c
      rw [hcli, htally, hok.cliScore c] at this
      exact Nat.add_left_cancel this
    · intro c
      have := hok'.srvScore c
      rw [hsrv, htally, hok.srvScore c] at this
      exact Nat.add_left_cancel this
  · rintro ⟨h1, h2⟩
    refine ⟨⟨?_, fun c => ?_, fun c => ?_⟩, hidx'⟩
    · rw [hn, htally, hok.numEngaged]
    · rw [hcli, htally, hok.cliScore c]
      exact congrArg (tally (cliPart c) h.getCheckEngagedAlert + ·) (h1 c)
    · rw [hsrv, htally, hok.srvScore c]
      exact congrArg (tally (srvPart c) h.getCheckEngagedAlert + ·) (h2 c)

/-- A trigger keeps the books exactly when it meets its condition. -/
theorem triggerAlert_iff (hok : EngagedOk h) (a : EngagedAlert) (dontEmit disabled callocOk cliOk srvOk : Bool) :
    EngagedOk (h.triggerAlert a dontEmit disabled callocOk cliOk srvOk).2 ↔
      Fine h (.triggerAlert a dontEmit disabled callocOk cliOk srvOk) := by
  unfold Host.triggerAlert Fine
  by_cases hd : (dontEmit || disabled) = true
  · rw [if_pos hd]
    refine iff_of_true hok fun h1 h2 => ?_
    subst h1 h2
    cases hd
  · rw [if_neg hd]
    obtain ⟨rfl, rfl⟩ : dontEmit = false ∧ disabled = false := by simpa using hd
    have hok' := (newRowid_ok (h := h) a.rowid).mpr hok
    have hal : (h.newRowid a.rowid).alerts = h.alerts := by unfold Host.newRowid; split <;> rfl
    have hscore : (h.newRowid a.rowid).score = h.score := by unfold Host.newRowid; split <;> rfl
    obtain ⟨hslots, -⟩ := slots_eq_of_alerts hal
    simp only [hslots]
    generalize hrow : (if a.rowid = 0 then (h.newRowid a.rowid).alertSerial else a.rowid) = rowid
    have hid : (a.setEngaged rowid).checkId = a.checkId := rfl
    rw [hid]
    cases hs : h.getCheckEngagedAlert a.checkId with
    | some b => exact iff_of_true hok' fun _ _ hf => by cases hf
    | none =>
      have he := engage_iff (a := a.setEngaged rowid) hok' (by rw [hid, hslots, hs]) callocOk cliOk srvOk
      have hsame : Afforded (h.newRowid a.rowid) (a.setEngaged rowid) callocOk cliOk srvOk ↔
          Afforded h a callocOk cliOk srvOk := by
        unfold Afforded
        rw [hal, hscore]
        exact Iff.rfl
      refine (enqueueHostAlert_ok _).trans (he.trans (hsame.trans ?_))
      exact ⟨fun hf _ _ _ => hf, fun hf => hf trivial trivial rfl⟩

/-! ## Release -/

/-- What a release does, with an alert in the slot. -/
theorem releaseAlert_spec (hs : h.getCheckEngagedAlert t = some a) :
    (h.releaseAlert t).getCheckEngagedAlert = Function.update h.getCheckEngagedAlert t none ∧
      (h.releaseAlert t).isEngagedAlert = Function.update h.isEngagedAlert a.alertType false ∧
      (h.releaseAlert t).numEngagedAlerts = h.numEngagedAlerts - 1 ∧
      (∀ c, (h.releaseAlert t).cliScore c = h.cliScore c - cliPart c a) ∧
      ∀ c, (h.releaseAlert t).srvScore c = h.srvScore c - srvPart c a := by
  obtain ⟨h1, h2, h3, h4⟩ := Host.removeEngagedAlert_spec hs
  unfold Host.releaseAlert
  rw [hs]
  simp only
  generalize hlast : (if (h.removeEngagedAlert t).numEngagedAlerts = 0 then a.release.setLastReleased else a.release) = b
  have hb : SameForBooks a b := by
    rw [← hlast]
    split <;> exact ⟨rfl, rfl, rfl, rfl⟩
  obtain ⟨hty, hcat, hcli, hsrv⟩ := hb
  generalize hdec : ((h.removeEngagedAlert t).decScoreValue b.getCliScore (mapAlertToScoreCategory b.category)
    true).decScoreValue b.getSrvScore (mapAlertToScoreCategory b.category) false = h'
  have hal : h'.alerts = (h.removeEngagedAlert t).alerts := by
    rw [← hdec]
    exact (Host.alerts_decScoreValue ..).1.trans (Host.alerts_decScoreValue ..).1
  obtain ⟨hslots, hbits⟩ := slots_eq_of_alerts hal
  refine ⟨hslots.trans h1, hbits.trans h2, ?_, fun c => ?_, fun c => ?_⟩
  · show h'.numEngagedAlerts = _
    rw [← hdec, ← h3]
    exact (Host.alerts_decScoreValue ..).2.trans (Host.alerts_decScoreValue ..).2
  · show h'.cliScore c = _
    rw [← hdec, Host.cliScore_decScoreValue, Host.cliScore_decScoreValue, hcat, hcli]
    simp [cliPart, Host.cliScore, h4]
  · show h'.srvScore c = _
    rw [← hdec, Host.srvScore_decScoreValue, Host.srvScore_decScoreValue, hcat, hsrv]
    simp [srvPart, Host.srvScore, h4]

theorem releaseAlert_none (hs : h.getCheckEngagedAlert t = none) : h.releaseAlert t = h := by
  unfold Host.releaseAlert
  rw [hs]

/-- The number and the scores need no condition. -/
theorem releaseAlert_counted (hc : Counted h) : Counted (h.releaseAlert t) := by
  cases hs : h.getCheckEngagedAlert t with
  | none => rw [releaseAlert_none hs]; exact hc
  | some a =>
    obtain ⟨h1, -, h3, h4, h5⟩ := releaseAlert_spec hs
    refine ⟨?_, fun c => ?_, fun c => ?_⟩
    · rw [h1, h3, hc.numEngaged, tally_clear hs, Nat.add_sub_cancel]
    · rw [h1, h4, hc.cliScore, tally_clear hs, Nat.add_sub_cancel]
    · rw [h1, h5, hc.srvScore, tally_clear hs, Nat.add_sub_cancel]

/-- A release keeps the books exactly when the bit it clears is its own. -/
theorem releaseAlert_iff (hok : EngagedOk h) : EngagedOk (h.releaseAlert t) ↔ OwnBit h t := by
  cases hs : h.getCheckEngagedAlert t with
  | none =>
    rw [releaseAlert_none hs]
    refine iff_of_true hok fun a ha => ?_
    rw [hs] at ha
    cases ha
  | some a =>
    obtain ⟨h1, h2, -⟩ := releaseAlert_spec hs
    have hclear := indexed_clear_iff hok.bitmap hs
    constructor
    · intro hok' b hb
      rw [hs] at hb
      cases hb
      have hidx := hok'.bitmap
      rw [h1, h2] at hidx
      exact hclear.mp hidx
    · intro hown
      refine ⟨releaseAlert_counted hok.toCounted, ?_⟩
      rw [h1, h2]
      exact hclear.mpr (hown a hs)

/-- A field that is not the type can be written first. -/
theorem ownBit_modifyAlert {f : EngagedAlert → EngagedAlert} (hf : ∀ a, (f a).alertType = a.alertType) :
    OwnBit (h.modifyAlert t f) t ↔ OwnBit h t := by
  unfold OwnBit
  rw [Host.slots_modifyAlert, Function.update_self]
  cases h.getCheckEngagedAlert t with
  | none => exact iff_of_true (fun _ hb => by cases hb) fun _ hb => by cases hb
  | some a =>
    constructor
    · intro hown b hb
      cases hb
      have := (sole_update _ _).mp (hown (f a) rfl)
      rwa [hf a] at this
    · intro hown b hb
      cases hb
      rw [sole_update, hf a]
      exact hown a rfl

/-! ## Release of all -/

/-- A bit survives the releases when no released slot holds its type. -/
theorem releaseAll_slots (l : List HostCheckID) (h : Host) :
    (∀ t, (l.foldl Host.releaseAlert h).getCheckEngagedAlert t = if t ∈ l then none else h.getCheckEngagedAlert t) ∧
      ∀ ty, (l.foldl Host.releaseAlert h).isEngagedAlert ty = true →
        h.isEngagedAlert ty = true ∧ ∀ t ∈ l, ∀ a, h.getCheckEngagedAlert t = some a → a.alertType ≠ ty := by
  induction l generalizing h with
  | nil => exact ⟨fun t => by simp, fun ty hty => ⟨hty, fun t ht => absurd ht (List.not_mem_nil)⟩⟩
  | cons t l ih =>
    obtain ⟨ih1, ih2⟩ := ih (h.releaseAlert t)
    rw [List.foldl_cons]
    cases hs : h.getCheckEngagedAlert t with
    | none =>
      rw [releaseAlert_none hs] at ih1 ih2 ⊢
      constructor
      · intro j
        rw [ih1 j]
        by_cases hj : j = t
        · subst hj; simp [hs]
        · simp [hj]
      · intro ty hty
        obtain ⟨hb, hl⟩ := ih2 ty hty
        refine ⟨hb, fun j hj a ha => ?_⟩
        rcases List.mem_cons.mp hj with rfl | hj'
        · rw [hs] at ha; cases ha
        · exact hl j hj' a ha
    | some a =>
      obtain ⟨h1, h2, -⟩ := releaseAlert_spec hs
      constructor
      · intro j
        rw [ih1 j, h1]
        by_cases hj : j = t
        · subst hj; simp
        · simp [hj]
      · intro ty hty
        obtain ⟨hb, hl⟩ := ih2 ty hty
        rw [h2] at hb
        by_cases hta : ty = a.alertType
        · subst hta
          rw [Function.update_self] at hb
          cases hb
        · rw [Function.update_of_ne hta] at hb
          refine ⟨hb, fun j hj b hjb => ?_⟩
          by_cases hjt : j = t
          · subst hjt
            rw [hs] at hjb
            cases hjb
            exact fun he => hta he.symm
          · rcases List.mem_cons.mp hj with rfl | hj'
            · exact absurd rfl hjt
            · exact hl j hj' b (by rw [h1, Function.update_of_ne hjt]; exact hjb)

/-- Nothing is left engaged, so no bit that was cleared is missed. -/
theorem releaseAllEngagedAlerts_ok (hok : EngagedOk h) : EngagedOk h.releaseAllEngagedAlerts := by
  have hcounted : Counted h.releaseAllEngagedAlerts := by
    unfold Host.releaseAllEngagedAlerts
    exact List.foldlRecOn _ _ hok.toCounted fun _ hc _ _ => releaseAlert_counted hc
  obtain ⟨hslots, hbits⟩ := releaseAll_slots (List.finRange 28) h
  refine ⟨hcounted, fun ty => ⟨fun hty => ?_, ?_⟩⟩
  · obtain ⟨hb, hnone⟩ := hbits ty hty
    obtain ⟨t, a, ha, hta⟩ := (hok.bitmap ty).mp hb
    exact absurd hta (hnone t (List.mem_finRange t) a ha)
  · rintro ⟨t, a, ha, -⟩
    have := hslots t
    rw [if_pos (List.mem_finRange t)] at this
    rw [Host.releaseAllEngagedAlerts, this] at ha
    cases ha

/-! ## The executor -/

/-- The books do not see where the executor is. -/
theorem executor_ok (x : Executor) (m n : Int) :
    EngagedOk { h with lastCallMin := m, lastCall5Min := n, executor := x } ↔ EngagedOk h :=
  engagedOk_congr rfl rfl rfl rfl

theorem releaseDisabled_iff (hok : EngagedOk h) (checks : List HostCheck) (now : Int) (dontEmit : Bool) :
    EngagedOk (h.releaseDisabled checks now t dontEmit) ↔
      ∀ a, h.getCheckEngagedAlert t = some a →
        (Host.isTooLong now a || Host.isDisabled checks now t a dontEmit) = true → OwnBit h t := by
  unfold Host.releaseDisabled
  cases hs : h.getCheckEngagedAlert t with
  | none => exact iff_of_true hok fun a ha => by cases ha
  | some a =>
    by_cases hdue : (Host.isTooLong now a || Host.isDisabled checks now t a dontEmit) = true
    · simp only [hdue, if_true]
      have hown : EngagedOk
          ((if Host.isDisabled checks now t a dontEmit = true then h
            else h.modifyAlert t EngagedAlert.setForcedRelease).releaseAlert t) ↔ OwnBit h t := by
        by_cases hdis : Host.isDisabled checks now t a dontEmit = true
        · rw [if_pos hdis]
          exact releaseAlert_iff hok
        · rw [if_neg hdis]
          have hmod : EngagedOk (h.modifyAlert t EngagedAlert.setForcedRelease) :=
            modifyAlert_ok hok fun _ => ⟨rfl, rfl, rfl, rfl⟩
          exact (releaseAlert_iff hmod).trans (ownBit_modifyAlert fun _ => rfl)
      refine hown.trans ⟨fun ho b _ _ => ho, fun hall => hall a rfl hdue⟩
    · simp only [hdue]
      refine iff_of_true hok fun b hb hdue' => ?_
      cases hb
      exact absurd hdue' hdue

theorem beforeHandler_ok (hok : EngagedOk h) : EngagedOk (h.beforeHandler t) := by
  unfold Host.beforeHandler
  cases h.getCheckEngagedAlert t with
  | none => exact hok
  | some a =>
    simp only
    split
    · exact modifyAlert_ok hok fun _ => ⟨rfl, rfl, rfl, rfl⟩
    · exact hok

theorem afterHandler_iff (hok : EngagedOk h) (disabled : Bool) :
    EngagedOk (h.afterHandler t disabled) ↔
      ∀ a, h.getCheckEngagedAlert t = some a → (a.expiring || disabled) = true → OwnBit h t := by
  unfold Host.afterHandler
  cases hs : h.getCheckEngagedAlert t with
  | none => exact iff_of_true hok fun a ha => by cases ha
  | some a =>
    by_cases hdue : (a.expiring || disabled) = true
    · simp only [hdue, if_true]
      refine (releaseAlert_iff hok).trans ⟨fun ho b _ _ => ho, fun hall => hall a rfl hdue⟩
    · simp only [hdue]
      refine iff_of_true hok fun b hb hdue' => ?_
      cases hb
      exact absurd hdue' hdue

theorem executorStep_iff (hok : EngagedOk h) (dontEmit disabled : Bool) :
    EngagedOk (h.executorStep dontEmit disabled) ↔ Fine h (.executorStep dontEmit disabled) := by
  unfold Host.executorStep Fine
  cases hx : h.executor with
  | idle => exact iff_of_true hok trivial
  | releasing now checks i =>
    simp only
    by_cases hi : i < 28
    · rw [dif_pos hi]
      refine (executor_ok _ _ _).trans ((releaseDisabled_iff hok checks now dontEmit).trans ?_)
      exact ⟨fun hall _ => hall, fun hall => hall hi⟩
    · rw [dif_neg hi]
      exact iff_of_true ((executor_ok _ _ _).mpr hok) fun hi' => absurd hi' hi
  | checking now runMinCbs run5MinCbs checks =>
    cases checks with
    | nil => exact iff_of_true ((executor_ok _ _ _).mpr hok) trivial
    | cons cb checks =>
      simp only
      refine iff_of_true ?_ trivial
      split
      · exact (executor_ok _ _ _).mpr (beforeHandler_ok hok)
      · exact (executor_ok _ _ _).mpr hok
  | handler now runMinCbs run5MinCbs cb checks =>
    exact (executor_ok _ _ _).trans (afterHandler_iff hok disabled)

/-! ## Runs -/

theorem step_iff (hok : EngagedOk h) (e : Ev) : EngagedOk (step h e) ↔ Fine h e := by
  cases e with
  | triggerAlert a dontEmit disabled callocOk cliOk srvOk =>
    exact triggerAlert_iff hok a dontEmit disabled callocOk cliOk srvOk
  | refreshAlert t dontEmit disabled => exact iff_of_true (refreshAlert_ok hok dontEmit disabled) trivial
  | setTimeout t timeout => exact iff_of_true (modifyAlert_ok hok fun _ => ⟨rfl, rfl, rfl, rfl⟩) trivial
  | releaseAlert t => exact releaseAlert_iff hok
  | execChecks checks now =>
    refine iff_of_true ?_ trivial
    by_cases hx : h.executor = .idle
    · rw [step, if_pos hx]
      exact (executor_ok _ _ _).mpr hok
    · rw [step, if_neg hx]
      exact hok
  | executorStep dontEmit disabled => exact executorStep_iff hok dontEmit disabled
  | releaseAllEngagedAlerts =>
    refine iff_of_true ?_ trivial
    by_cases hx : h.executor = .idle
    · rw [step, if_pos hx]
      exact releaseAllEngagedAlerts_ok hok
    · rw [step, if_neg hx]
      exact hok

/-- Over every run of triggers, releases, checks and housekeeping, from a new host: the bits, the number and the
    scores are those of the slots in every state, exactly when every new alert is afforded and every release
    clears a bit of its own. -/
theorem books_right_iff (es : List Ev) : Always step EngagedOk Host.new es ↔ Along step Fine Host.new es :=
  always_iff_along step (fun _ e hok hf => (step_iff hok e).mpr hf) (fun _ hok => hok)
    (fun _ e hok hbad hok' => hbad ((step_iff hok e).mp hok')) ok_new

/-- The first alert of a host when the slots cannot be allocated: its score is added, no slot takes it. -/
theorem unslotted_alert_scored : ¬ ∀ es, Always step EngagedOk Host.new es := by
  intro hall
  let a : EngagedAlert := { HostAlert.new 12 12 .security 100 100 with
    hasAutoRelease := true, engageTime := 0, timeoutTime := 0, forcedRelease := false }
  have hlast := always_last step (hall [.triggerAlert a false false false true true])
  have hcli := hlast.cliScore .security
  revert hcli
  decide

end Ntopng.Hosts.Engaged
