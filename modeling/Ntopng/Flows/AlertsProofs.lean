/-
  Ntopng.Flows.AlertsProofs — who frees the alerts of a flow.

  The flow owns what `triggered_alerts` holds; the queue only borrows. Proved: as long as
  every enqueue that is tried succeeds, and the flow is not deleted at shutdown with one of
  its alerts queued, every alert is freed exactly once and nothing freed can be reached
  (`alerts_freed_once_iff`). Each of the two breaks it at once.
-/

import Ntopng.Flows.Alerts

namespace Ntopng.Flows.Alerts

open Ntopng.Lib.Run Ntopng.Lib.Heap

/-! ## The property and its condition -/

/-- Alerts are freed once, and what is freed is out of reach. -/
structure AlertsFreedOnce (s : Sys) : Prop where
  freedOnce : s.mem.freed.Nodup
  kept : ∀ id, id < s.mem.created → id ∈ s.mem.freed ∨ ∃ t, s.flow.triggeredAlerts t = some id
  atEnd : s.destroyed = true → ∀ id, id < s.mem.created → id ∈ s.mem.freed
  mapLive : ∀ t id, s.flow.triggeredAlerts t = some id → id ∉ s.mem.freed
  queueLive : ∀ id, .ours id ∈ s.queue → id ∉ s.mem.freed
  noBadRead : s.mem.badReads = []

/-- `setAlertsMap` does not discard the alert. -/
def Kept (s : Sys) (a : FlowAlert) (hostDisabled : Bool) : Prop :=
  a.id ≠ flowAlertNormal ∧ s.flow.alertsMap a.id = false ∧ hostDisabled = false

/-- An enqueue that is tried finds room, and no shutdown takes the flow with an alert of it queued. -/
def Fine (s : Sys) : Ev → Prop
  | .triggerAlert a sync hostDisabled dontEmit room =>
    s.destroyed = false → s.ended = false → sync = true → dontEmit = false → Kept s a hostDisabled → room = true
  | .flushAlerts dontEmit room =>
    s.destroyed = false → s.ended = false → dontEmit = false → s.flow.pendingAlerts = true → room = true
  | .delete shutdown => shutdown = true → s.destroyed = false → ∀ id, .ours id ∉ s.queue
  | _ => True

/-! ## The invariant -/

def QueueItem.isOurs : QueueItem → Bool
  | .ours _ => true
  | .other => false

namespace Sys

/-- The alerts that the flow owns. -/
def owned (s : Sys) : List Nat := (List.finRange 128).filterMap s.flow.triggeredAlerts

end Sys

structure Inv (s : Sys) : Prop where
  owned : Owned s.mem s.owned
  queued : ∀ id, .ours id ∈ s.queue → ∃ t, s.flow.triggeredAlerts t = some id
  gone : s.destroyed = true → ∀ t, s.flow.triggeredAlerts t = none
  bits : s.destroyed = false → ∀ t, s.flow.alertsMap t = (s.flow.triggeredAlerts t).isSome
  predominant : s.destroyed = false → s.flow.predominantAlert ≠ flowAlertNormal →
    (s.flow.triggeredAlerts s.flow.predominantAlert).isSome
  pending : s.flow.pendingAlerts = true → s.flow.predominantAlert ≠ flowAlertNormal
  uses : s.destroyed = false → s.flow.numUses = s.holders + s.queue.countP QueueItem.isOurs

variable {s : Sys}

theorem mem_owned {t : FlowAlertTypeEnum} {id : Nat} (h : s.flow.triggeredAlerts t = some id) : id ∈ s.owned :=
  mem_slots (List.mem_finRange t) h

theorem alertsFreedOnce_of_inv (s : Sys) (h : Inv s) : AlertsFreedOnce s where
  freedOnce := h.owned.freed_nodup
  kept := by
    intro id hid
    rcases h.owned.owned_or_freed.mp hid with ho | hf
    · obtain ⟨t, -, ht⟩ := List.mem_filterMap.mp ho
      exact .inr ⟨t, ht⟩
    · exact .inl hf
  atEnd := by
    intro hd id hid
    rcases h.owned.owned_or_freed.mp hid with ho | hf
    · obtain ⟨t, -, ht⟩ := List.mem_filterMap.mp ho
      rw [h.gone hd t] at ht; cases ht
    · exact hf
  mapLive := fun t id ht => h.owned.not_freed (mem_owned ht)
  queueLive := by
    intro id hid
    obtain ⟨t, ht⟩ := h.queued id hid
    exact h.owned.not_freed (mem_owned ht)
  noBadRead := h.owned.clean

theorem start_inv (c v : Option Nat) (k : Counters) : Inv (start c v k) := by
  constructor <;> simp [start, flowAlertNormal, Sys.owned]
  exact owned_empty

/-! ## What the functions do to the memory -/

/-- `s'` is `s` with the alert kept, up to the accounts. -/
structure KeptAs (s s' : Sys) (alert : Nat) (a : FlowAlert) : Prop where
  mem : s'.mem = s.mem
  queue : s'.queue = s.queue
  destroyed : s'.destroyed = s.destroyed
  holders : s'.holders = s.holders
  numUses : s'.flow.numUses = s.flow.numUses
  alertsMap : s'.flow.alertsMap = Function.update s.flow.alertsMap a.id true
  triggeredAlerts : s'.flow.triggeredAlerts = Function.update s.flow.triggeredAlerts a.id (some alert)
  predominant : s'.flow.predominantAlert = a.id ∨
    s'.flow.predominantAlert = s.flow.predominantAlert ∧ s.flow.predominantAlert ≠ flowAlertNormal

theorem setAlertsMap_discard (alert : Nat) {a : FlowAlert} {hostDisabled : Bool} (h : ¬ Kept s a hostDisabled) :
    s.setAlertsMap alert a hostDisabled = (false, { s with mem := s.mem.delete alert }) := by
  unfold Sys.setAlertsMap
  by_cases h1 : a.id = flowAlertNormal
  · rw [if_pos h1]
  rw [if_neg h1]
  by_cases h2 : s.flow.alertsMap a.id = true
  · rw [if_pos h2]
  rw [if_neg h2]
  by_cases h3 : hostDisabled = true
  · rw [if_pos h3]
  exact absurd ⟨h1, by simpa using h2, by simpa using h3⟩ h

theorem setAlertsMap_keep (alert : Nat) {a : FlowAlert} {hostDisabled : Bool} (h : Kept s a hostDisabled) :
    ∃ s', s.setAlertsMap alert a hostDisabled = (true, s') ∧ KeptAs s s' alert a := by
  obtain ⟨h1, h2, h3⟩ := h
  unfold Sys.setAlertsMap
  rw [if_neg h1, if_neg (by simp [h2]), if_neg (by simp [h3])]
  by_cases hal : s.isFlowAlerted = true
  · have hne : s.flow.predominantAlert ≠ flowAlertNormal := by simpa [Sys.isFlowAlerted] using hal
    rw [if_pos hal]
    dsimp only
    split
    · exact ⟨_, rfl, ⟨rfl, rfl, rfl, rfl, rfl, rfl, rfl, .inl rfl⟩⟩
    · exact ⟨_, rfl, ⟨rfl, rfl, rfl, rfl, rfl, rfl, rfl, .inr ⟨rfl, hne⟩⟩⟩
  · rw [if_neg hal]
    dsimp only
    rw [if_pos (by
      have : (s.setNormalToAlertedCounters.account alert a).isFlowAlerted = s.isFlowAlerted := rfl
      simp [this, hal])]
    exact ⟨_, rfl, ⟨rfl, rfl, rfl, rfl, rfl, rfl, rfl, .inl rfl⟩⟩

theorem Inv.empty_slot (h : Inv s) (hd : s.destroyed = false) {a : FlowAlert} {hostDisabled : Bool}
    (hk : Kept s a hostDisabled) : s.flow.triggeredAlerts a.id = none := by
  have := h.bits hd a.id
  rw [hk.2.1] at this
  exact Option.not_isSome_iff_eq_none.mp (by rw [← this]; decide)

/-- The new alert of a check is kept: the flow owns one object more. -/
theorem keep_inv (h : Inv s) (hd : s.destroyed = false) {a : FlowAlert} {hostDisabled : Bool}
    (hk : Kept s a hostDisabled) {s' : Sys} (hs : KeptAs { s with mem := s.mem.new } s' s.mem.created a) :
    Inv { s' with flow := { s'.flow with pendingAlerts := true } } := by
  have hslot := h.empty_slot hd hk
  have htrig : s'.flow.triggeredAlerts = Function.update s.flow.triggeredAlerts a.id (some s.mem.created) :=
    hs.triggeredAlerts
  have hgrow : ∀ t id, s.flow.triggeredAlerts t = some id → s'.flow.triggeredAlerts t = some id := by
    intro t id ht
    have hne : t ≠ a.id := by
      rintro rfl
      rw [hslot] at ht; cases ht
    rw [htrig, Function.update_of_ne hne]
    exact ht
  have hpred : (s'.flow.triggeredAlerts s'.flow.predominantAlert).isSome := by
    rcases hs.predominant with hp | ⟨hp, hne⟩
    · rw [hp, htrig, Function.update_self]; rfl
    · rw [hp]
      obtain ⟨id, hid⟩ := Option.isSome_iff_exists.mp (h.predominant hd hne)
      rw [hgrow _ id hid]; rfl
  have hdest : s'.destroyed = false := hs.destroyed.trans hd
  refine ⟨?_, ?_, ?_, ?_, fun _ _ => hpred, ?_, ?_⟩
  · have hmem : s'.mem = s.mem.new := hs.mem
    have howned := h.owned.new.of_perm (slots_insert (List.nodup_finRange 128) (List.mem_finRange a.id) hslot _)
    simp only [Sys.owned, hmem, htrig]
    exact howned
  · intro id hid
    rw [show s'.queue = s.queue from hs.queue] at hid
    obtain ⟨t, ht⟩ := h.queued id hid
    exact ⟨t, hgrow t id ht⟩
  · intro hd'
    exact absurd (hd'.symm.trans hdest) (by simp)
  · intro _ t
    have hbits : s'.flow.alertsMap = Function.update s.flow.alertsMap a.id true := hs.alertsMap
    simp only [hbits, htrig]
    by_cases ht : t = a.id
    · rw [ht, Function.update_self, Function.update_self]; rfl
    · rw [Function.update_of_ne ht, Function.update_of_ne ht]
      exact h.bits hd t
  · intro _ hn
    rcases hs.predominant with hp | ⟨hp, hne⟩
    · exact hk.1 (hp ▸ hn)
    · exact hne (hp ▸ hn)
  · intro _
    have hq : s'.queue = s.queue := hs.queue
    have hu : s'.flow.numUses = s.flow.numUses := hs.numUses
    have hh : s'.holders = s.holders := hs.holders
    simp only [hq, hu, hh]
    exact h.uses hd

/-- The alert of a check is discarded: it is freed at once and nothing else changes. -/
theorem discard_inv (h : Inv s) : Inv { s with mem := s.mem.new.delete s.mem.created } :=
  ⟨h.owned.new.delete, h.queued, h.gone, h.bits, h.predominant, h.pending, h.uses⟩

theorem Inv.predominant_owned (h : Inv s) (hd : s.destroyed = false) (hp : s.flow.pendingAlerts = true) :
    ∃ id, s.flow.triggeredAlerts s.flow.predominantAlert = some id :=
  Option.isSome_iff_exists.mp (h.predominant hd (h.pending hp))

theorem Inv.updateAlertsJSON_eq (h : Inv s) : s.updateAlertsJSON = s := by
  have heq : s.mem.touchAll s.owned = s.mem := h.owned.touchAll_eq fun _ hid => hid
  simp only [Sys.updateAlertsJSON]
  rw [← Sys.owned, heq]

/-- What `flushAlerts` leaves behind it when it is done. -/
def settled (s : Sys) : Sys := { s with flow := { s.flow with pendingAlerts := false, refreshTriggeredAlerts := false } }

theorem settled_inv (h : Inv s) : Inv (settled s) :=
  ⟨h.owned, h.queued, h.gone, h.bits, h.predominant, fun hp => (by cases hp), h.uses⟩

theorem flush_eq (h : Inv s) (hd : s.destroyed = false) (hp : s.flow.pendingAlerts = true) (room : Bool) :
    ∃ id, s.flow.triggeredAlerts s.flow.predominantAlert = some id ∧ s.flushAlerts false room =
      settled (if room then
        { s with queue := s.queue ++ [.ours id], flow := { s.flow with numUses := s.flow.numUses + 1 } }
        else { s with mem := s.mem.delete id }) := by
  obtain ⟨id, hid⟩ := h.predominant_owned hd hp
  refine ⟨id, hid, ?_⟩
  simp only [Sys.flushAlerts, hp, h.updateAlertsJSON_eq, Sys.enqueueFlowAlert, hid, h.owned.touch_eq (mem_owned hid),
    Bool.not_true, Bool.false_and, Bool.false_eq_true, if_false, Bool.not_false, Bool.and_true, if_true]
  rfl

theorem flush_inv (h : Inv s) (hd : s.destroyed = false) {dontEmit room : Bool}
    (hok : dontEmit = false → s.flow.pendingAlerts = true → room = true) : Inv (s.flushAlerts dontEmit room) := by
  by_cases htry : dontEmit = false ∧ s.flow.pendingAlerts = true
  · obtain ⟨id, hid, heq⟩ := flush_eq h hd htry.2 room
    rw [htry.1, heq, hok htry.1 htry.2, if_pos rfl]
    refine settled_inv ⟨h.owned, ?_, h.gone, h.bits, h.predominant, h.pending, ?_⟩
    · intro i hi
      rcases List.mem_append.mp hi with hi | hi
      · exact h.queued i hi
      · cases List.mem_singleton.mp hi
        exact ⟨_, hid⟩
    · intro _
      have := h.uses hd
      simp only [List.countP_append, List.countP_singleton, QueueItem.isOurs, if_true]
      omega
  · unfold Sys.flushAlerts
    split
    · exact h
    · have hno : (s.flow.pendingAlerts && !dontEmit) = false := by
        simp only [Bool.and_eq_false_iff, Bool.not_eq_false']
        cases hp : s.flow.pendingAlerts with
        | false => exact .inl rfl
        | true => exact .inr (by simpa [hp] using htry)
      rw [h.updateAlertsJSON_eq]
      dsimp only
      rw [if_neg (by simp [hno])]
      exact settled_inv h

/-- The enqueue fails: the alert is freed, and the flow still has it. -/
theorem flush_bad (h : Inv s) (hd : s.destroyed = false) (hp : s.flow.pendingAlerts = true) :
    ¬ AlertsFreedOnce (s.flushAlerts false false) := by
  intro hbad
  obtain ⟨id, hid, heq⟩ := flush_eq h hd hp false
  rw [heq] at hbad
  exact hbad.mapLive s.flow.predominantAlert id hid (List.mem_cons_self ..)

/-! ## triggerAlert -/

theorem trigger_inv (h : Inv s) (hd : s.destroyed = false) {a : FlowAlert} {sync hostDisabled dontEmit room : Bool}
    (hok : sync = true → dontEmit = false → Kept s a hostDisabled → room = true) :
    Inv (s.triggerAlert a sync hostDisabled dontEmit room) := by
  unfold Sys.triggerAlert
  by_cases hk : Kept s a hostDisabled
  · obtain ⟨s', heq, hs⟩ := setAlertsMap_keep (s := { s with mem := s.mem.new }) s.mem.created hk
    have hkeep := keep_inv h hd hk hs
    simp only [heq, if_true]
    cases sync with
    | false => exact hkeep
    | true =>
      have hd' : s'.destroyed = false := hs.destroyed.trans hd
      exact flush_inv hkeep hd' fun he _ => hok rfl he hk
  · have heq := setAlertsMap_discard (s := { s with mem := s.mem.new }) s.mem.created hk
    simp only [heq]
    exact discard_inv h

theorem trigger_bad (h : Inv s) (hd : s.destroyed = false) {a : FlowAlert} {hostDisabled : Bool}
    (hk : Kept s a hostDisabled) : ¬ AlertsFreedOnce (s.triggerAlert a true hostDisabled false false) := by
  obtain ⟨s', heq, hs⟩ := setAlertsMap_keep (s := { s with mem := s.mem.new }) s.mem.created hk
  have hd' : s'.destroyed = false := hs.destroyed.trans hd
  have hbad := flush_bad (keep_inv h hd hk hs) hd' rfl
  simpa only [Sys.triggerAlert, heq, if_true] using hbad

theorem refreshAlert_inv (h : Inv s) (t : FlowAlertTypeEnum) : Inv (s.refreshAlert t) := by
  cases ht : s.flow.triggeredAlerts t with
  | none => simpa only [Sys.refreshAlert, ht] using h
  | some id =>
    simp only [Sys.refreshAlert, ht, h.owned.touch_eq (mem_owned ht)]
    exact ⟨h.owned, h.queued, h.gone, h.bits, h.predominant, h.pending, h.uses⟩

/-! ## The consumer -/

theorem deliver_inv {item : QueueItem} {rest : List QueueItem} (h : Inv s) (hq : s.queue = item :: rest) :
    Inv ({ s with queue := rest }.deliver item) := by
  have hrest : ∀ id, .ours id ∈ rest → ∃ t, s.flow.triggeredAlerts t = some id :=
    fun id hid => h.queued id (hq ▸ List.mem_cons_of_mem _ hid)
  cases item with
  | other =>
    refine ⟨h.owned, hrest, h.gone, h.bits, h.predominant, h.pending, fun hd => ?_⟩
    have := h.uses hd
    simp only [hq, List.countP_cons, QueueItem.isOurs] at this
    exact this
  | ours id =>
    obtain ⟨t, ht⟩ := h.queued id (hq ▸ List.mem_cons_self ..)
    simp only [Sys.deliver, h.owned.touch_eq (mem_owned ht)]
    refine ⟨h.owned, hrest, h.gone, h.bits, h.predominant, h.pending, fun hd => ?_⟩
    have := h.uses hd
    simp only [hq, List.countP_cons, QueueItem.isOurs, if_true] at this
    simp only
    omega

theorem dequeueLoop_inv (budget : Nat) : ∀ (q : List QueueItem) (numDone : Nat) (s : Sys), Inv s → s.queue = q →
    Inv (Sys.dequeueLoop budget q numDone s) := by
  intro q
  induction q with
  | nil =>
    intro numDone s h hq
    have : ({ s with queue := [] } : Sys) = s := by rw [← hq]
    simpa only [Sys.dequeueLoop, this] using h
  | cons item rest ih =>
    intro numDone s h hq
    have hone := deliver_inv h hq
    have hqueue : ({ s with queue := rest }.deliver item).queue = rest := by cases item <;> rfl
    unfold Sys.dequeueLoop
    dsimp only
    split
    · exact hone
    · exact ih (numDone + 1) _ hone hqueue

/-! ## The end of the flow -/

theorem Inv.no_ours (h : Inv s) (hd : s.destroyed = false) (hu : s.flow.numUses = 0) : ∀ id, .ours id ∉ s.queue := by
  intro id hid
  have := h.uses hd
  have hpos : 0 < s.queue.countP QueueItem.isOurs := List.countP_pos_iff.mpr ⟨_, hid, rfl⟩
  omega

theorem destroy_inv (h : Inv s) (hq : ∀ id, .ours id ∉ s.queue) : Inv s.destroy := by
  refine ⟨?_, fun id hid => absurd hid (hq id), fun _ _ => rfl, fun hd => (by cases hd), fun hd => (by cases hd), h.pending,
    fun hd => (by cases hd)⟩
  have hnone : s.destroy.owned = [] := by
    simp [Sys.owned, Sys.destroy]
  rw [hnone]
  have howned : Owned s.mem (s.owned ++ []) := by simpa using h.owned
  exact howned.deleteAll

theorem destroy_bad (h : Inv s) {id : Nat} (hid : .ours id ∈ s.queue) : ¬ AlertsFreedOnce s.destroy := by
  intro hbad
  obtain ⟨t, ht⟩ := h.queued id hid
  refine hbad.queueLive id hid (List.mem_append_left _ (List.mem_reverse.mpr ?_))
  exact mem_owned ht

/-! ## Runs -/

theorem step_inv (s : Sys) (e : Ev) (h : Inv s) (hok : Fine s e) : Inv (step s e) := by
  cases e with
  | triggerAlert a sync hostDisabled dontEmit room =>
    simp only [step]
    split
    · exact h
    · rename_i hl
      obtain ⟨hd, he⟩ : s.destroyed = false ∧ s.ended = false := by simpa using hl
      exact trigger_inv h hd (hok hd he)
  | refreshAlert t =>
    simp only [step]
    split
    · exact h
    · exact refreshAlert_inv h t
  | flushAlerts dontEmit room =>
    simp only [step]
    split
    · exact h
    · rename_i hl
      obtain ⟨hd, he⟩ : s.destroyed = false ∧ s.ended = false := by simpa using hl
      exact flush_inv h hd (hok hd he)
  | otherAlert =>
    refine ⟨h.owned, ?_, h.gone, h.bits, h.predominant, h.pending, ?_⟩
    · intro id hid
      exact h.queued id (by simpa [step] using hid)
    · intro hd
      simpa [step, QueueItem.isOurs] using h.uses hd
  | dequeueFlowAlerts budget => exact dequeueLoop_inv budget s.queue 0 s h rfl
  | incUses =>
    simp only [step]
    split
    · exact h
    · refine ⟨h.owned, h.queued, h.gone, h.bits, h.predominant, h.pending, fun hd => ?_⟩
      have := h.uses hd
      simp only
      omega
  | decUses =>
    simp only [step]
    split
    · exact h
    · rename_i hl
      obtain ⟨-, hh⟩ : s.destroyed = false ∧ s.holders ≠ 0 := by simpa using hl
      refine ⟨h.owned, h.queued, h.gone, h.bits, h.predominant, h.pending, fun hd => ?_⟩
      have := h.uses hd
      simp only
      omega
  | requestSwap =>
    simp only [step]
    split
    · exact h
    · exact ⟨h.owned, h.queued, h.gone, h.bits, h.predominant, h.pending, h.uses⟩
  | swap flowSwapHeuristic =>
    simp only [step, Sys.swap]
    split
    · exact h
    · split
      · exact h
      · exact ⟨h.owned, h.queued, h.gone, h.bits, h.predominant, h.pending, h.uses⟩
  | housekeepIdle =>
    simp only [step, Sys.decAllFlowScores]
    split
    · exact h
    · split <;> exact ⟨h.owned, h.queued, h.gone, h.bits, h.predominant, h.pending, h.uses⟩
  | delete shutdown =>
    simp only [step]
    split
    · exact h
    · rename_i hl
      have hd : s.destroyed = false := by
        cases hd : s.destroyed with
        | false => rfl
        | true => simp [hd] at hl
      cases shutdown with
      | true => exact destroy_inv h (hok rfl hd)
      | false => exact destroy_inv h (h.no_ours hd (by simpa [hd] using hl))

theorem step_bad (s : Sys) (e : Ev) (h : Inv s) (hbad : ¬ Fine s e) : ¬ AlertsFreedOnce (step s e) := by
  cases e with
  | triggerAlert a sync hostDisabled dontEmit room =>
    simp only [Fine, Classical.not_imp] at hbad
    obtain ⟨hd, he, rfl, rfl, hk, hr⟩ := hbad
    have hroom : room = false := by simpa using hr
    subst hroom
    simpa only [step, hd, he, Bool.or_self, Bool.false_eq_true, if_false] using trigger_bad h hd hk
  | flushAlerts dontEmit room =>
    simp only [Fine, Classical.not_imp] at hbad
    obtain ⟨hd, he, rfl, hp, hr⟩ := hbad
    have hroom : room = false := by simpa using hr
    subst hroom
    simpa only [step, hd, he, Bool.or_self, Bool.false_eq_true, if_false] using flush_bad h hd hp
  | delete shutdown =>
    simp only [Fine, Classical.not_imp, not_forall, not_not] at hbad
    obtain ⟨rfl, hd, id, hid⟩ := hbad
    simpa [step, hd] using destroy_bad h hid
  | _ => exact absurd trivial hbad

/-- In a run of a flow every alert is freed exactly once, and nothing freed is in reach of the flow, of the
    queue or of a reader, exactly when no enqueue that is tried fails and no shutdown deletes the flow while
    an alert of it is queued. -/
theorem alerts_freed_once_iff (cliHost srvHost : Option Nat) (counters : Counters) (evs : List Ev) :
    Always step AlertsFreedOnce (start cliHost srvHost counters) evs ↔
      Along step Fine (start cliHost srvHost counters) evs :=
  always_iff_along step step_inv alertsFreedOnce_of_inv step_bad (start_inv cliHost srvHost counters)

def noCounters : Counters :=
  { incScore := fun _ _ _ => 0, decScore := fun _ _ _ => 0, incAlerted := fun _ _ => 0, decAlerted := fun _ _ => 0
    totalAlerts := fun _ => 0, activeNotice := 0, activeWarning := 0, activeError := 0 }

def blacklisted : FlowAlert :=
  { id := flowAlertBlacklisted, category := .security, cliScore := 100, srvScore := 5, isCliAttacker := false, isCliVictim := false
    isSrvAttacker := true, isSrvVictim := false, autoAck := true, score_le := by decide }

/-- One alert, triggered with `sync` while the queue is full. -/
theorem full_queue_frees_triggered_alert :
    ¬ ∀ (cliHost srvHost : Option Nat) (counters : Counters) (evs : List Ev),
      Always step AlertsFreedOnce (start cliHost srvHost counters) evs := by
  intro hall
  have hlast := always_last _ (hall (some 1) (some 2) noCounters [.triggerAlert blacklisted true false false false])
  have hkept : Kept (start (some 1) (some 2) noCounters) blacklisted false := ⟨by decide, rfl, rfl⟩
  exact trigger_bad (start_inv (some 1) (some 2) noCounters) rfl hkept hlast

end Ntopng.Flows.Alerts
