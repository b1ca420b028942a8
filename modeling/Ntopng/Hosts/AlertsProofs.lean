/-
  Ntopng.Hosts.AlertsProofs — who frees the alerts of a host, and in which order the
  recipients hear of them.

  An alert is owned by its slot or by a released pair in flight; an engaged pair in flight
  borrows it. Proved: a run whose steps are `Fine` frees every alert once, never while a
  pair or a slot has it, and delivers no release before its engage (`host_alerts_ok`).
-/

import Ntopng.Hosts.Alerts

namespace Ntopng.Hosts.Alerts

open Ntopng.Lib.Run Ntopng.Lib.Heap

/-! ## Order -/

theorem ordered_nil : Ordered [] := by
  intro pre a post h
  simp at h

theorem Ordered.of_append {l m : List Pair} (h : Ordered (l ++ m)) : Ordered l := by
  intro pre a post hl
  exact h pre a (post ++ m) (by rw [hl]; simp)

/-- A pair goes to the end: an engage always, a release when its engage is there. -/
theorem Ordered.snoc {l : List Pair} {p : Pair} (h : Ordered l)
    (hp : p.released = true → ⟨p.alert, false⟩ ∈ l) : Ordered (l ++ [p]) := by
  intro pre a post heq
  rcases List.eq_nil_or_concat post with rfl | ⟨post', q, rfl⟩
  · obtain ⟨hl, hpa⟩ := List.append_inj' heq rfl
    cases List.singleton_inj.mp hpa
    rw [← hl]
    exact hp rfl
  · have heq' : l ++ [p] = (pre ++ ⟨a, true⟩ :: post') ++ [q] := by rw [heq]; simp
    exact h pre a post' (List.append_inj' heq' rfl).1

/-! ## The invariant -/

namespace Sys

variable (s : Sys)

/-- The alerts that the slots own. -/
def slots : List Nat := (List.finRange 28).filterMap s.engagedAlerts

/-- The alerts that the released pairs in flight own. -/
def handed : List Nat := (s.pending.filter (·.released)).map (·.alert)

end Sys

/-- `extra` are the alerts that a call in progress holds. -/
structure Inv (extra : List Nat) (s : Sys) : Prop where
  owned : Owned s.mem (extra ++ s.slots ++ s.handed)
  slotCheck : ∀ t id, s.engagedAlerts t = some id → (s.alerts id).checkId = t
  borrowed : ∀ p ∈ s.pending, p.alert ∈ extra ++ s.slots ++ s.handed
  last : s.pending.Pairwise fun p q => p.released = true → p.alert ≠ q.alert
  order : Ordered s.stream
  uses : s.destroyed = false → s.numUses = s.holders + s.pending.length
  gone : s.destroyed = true → s.pending = [] ∧ ∀ t, s.engagedAlerts t = none

variable {extra : List Nat} {s : Sys} {id : Nat}

theorem start_inv : Inv [] start := by
  constructor <;>
    simp [start, Sys.pending, Sys.inHand, Sys.slots, Sys.handed, Sys.stream, owned_empty, ordered_nil]

theorem mem_slots_of {t : HostCheckID} (h : s.engagedAlerts t = some id) : id ∈ s.slots :=
  mem_slots (List.mem_finRange t) h

theorem mem_handed {p : Pair} (hp : p ∈ s.pending) (hr : p.released = true) : p.alert ∈ s.handed :=
  List.mem_map_of_mem (List.mem_filter.mpr ⟨hp, hr⟩)

theorem hostAlertsOk_of_inv (s : Sys) (h : Inv [] s) : HostAlertsOk s where
  freedOnce := h.owned.freed_nodup
  kept := by
    intro i hi
    rcases h.owned.owned_or_freed.mp hi with ho | hf
    · refine .inr ?_
      simp only [List.nil_append, List.mem_append] at ho
      rcases ho with ho | ho
      · obtain ⟨t, -, ht⟩ := List.mem_filterMap.mp ho
        exact .inl ⟨t, ht⟩
      · obtain ⟨p, hp, rfl⟩ := List.mem_map.mp ho
        obtain ⟨hp, hr⟩ := List.mem_filter.mp hp
        refine .inr ?_
        rw [← hr]; exact hp
    · exact .inl hf
  slotLive := fun t i ht => h.owned.not_freed (List.mem_append_left _ (List.mem_append_right _ (mem_slots_of ht)))
  queueLive := fun p hp => h.owned.not_freed (h.borrowed p hp)
  order := h.order.of_append
  noBadRead := h.owned.clean

theorem Inv.touch_eq (h : Inv extra s) (id : Nat) (hid : id ∈ extra ++ s.slots ++ s.handed) : s.touch id = s := by
  simp only [Sys.touch, h.owned.touch_eq hid]

theorem Inv.not_handed (h : Inv extra s) (hid : id ∈ extra ++ s.slots) : id ∉ s.handed :=
  fun hh => (List.nodup_append.mp (List.nodup_append.mp h.owned.nodup).1).2.2 id hid id hh rfl

/-- A released pair in flight is the only owner of its alert. -/
theorem Inv.pending_ne (h : Inv extra s) (hid : id ∈ extra ++ s.slots) {p : Pair} (hp : p ∈ s.pending)
    (hr : p.released = true) : p.alert ≠ id := by
  rintro rfl
  exact h.not_handed hid (mem_handed hp hr)

/-- The content of an alert may change, but not its check. -/
theorem Inv.setAlert (h : Inv extra s) (id : Nat) {a : HostAlert} (ha : a.checkId = (s.alerts id).checkId) :
    Inv extra (s.setAlert id a) := by
  refine ⟨h.owned, ?_, h.borrowed, h.last, h.order, h.uses, h.gone⟩
  intro t i ht
  simp only [Sys.setAlert]
  by_cases hi : i = id
  · rw [hi, Function.update_self, ha, ← hi]
    exact h.slotCheck t i ht
  · rw [Function.update_of_ne hi]
    exact h.slotCheck t i ht

theorem Inv.addScore (h : Inv extra s) (a : HostAlert) (d : Int) : Inv extra (s.addScore a d) :=
  ⟨h.owned, h.slotCheck, h.borrowed, h.last, h.order, h.uses, h.gone⟩

/-! ## Enqueues -/

/-- The state after a pair went to the queue. -/
def pushed (s : Sys) (p : Pair) : Sys := { s with queue := s.queue ++ [.ours p], numUses := s.numUses + 1 }

@[simp] theorem pushed_pending (s : Sys) (p : Pair) : (pushed s p).pending = s.pending ++ [p] := by
  simp [pushed, Sys.pending, Sys.inHand, QueueItem.pair]

@[simp] theorem pushed_stream (s : Sys) (p : Pair) : (pushed s p).stream = s.stream ++ [p] := by
  simp only [Sys.stream, pushed_pending, List.append_assoc]
  rfl

@[simp] theorem pushed_slots (s : Sys) (p : Pair) : (pushed s p).slots = s.slots := rfl

theorem pushed_handed (s : Sys) (p : Pair) :
    (pushed s p).handed = s.handed ++ if p.released then [p.alert] else [] := by
  cases hr : p.released <;> simp [Sys.handed, hr]

/-- An alert in the hands of a call or engaged: its pair borrows it. -/
theorem push_engaged (h : Inv extra s) (hd : s.destroyed = false) (hid : id ∈ extra ++ s.slots) :
    Inv extra (pushed s ⟨id, false⟩) := by
  have hh : (pushed s ⟨id, false⟩).handed = s.handed := by simp [pushed_handed]
  refine ⟨?_, h.slotCheck, ?_, ?_, ?_, ?_, fun hd' => ?_⟩
  · rw [hh]; exact h.owned
  · intro p hp
    rw [hh]
    rw [pushed_pending] at hp
    rcases List.mem_append.mp hp with hp | hp
    · exact h.borrowed p hp
    · cases List.mem_singleton.mp hp
      exact List.mem_append_left _ hid
  · rw [pushed_pending, List.pairwise_append]
    refine ⟨h.last, List.pairwise_singleton .., ?_⟩
    intro p hp q hq hr
    cases List.mem_singleton.mp hq
    exact h.pending_ne hid hp hr
  · rw [pushed_stream]
    exact h.order.snoc (by simp)
  · intro _
    have := h.uses hd
    rw [pushed_pending, List.length_append]
    simp only [pushed, List.length_singleton]
    omega
  · exact absurd (hd.symm.trans hd') (by simp)

/-- A released alert goes from the call that holds it to its pair. -/
theorem push_released (h : Inv [id] s) (hd : s.destroyed = false) (hengaged : ⟨id, false⟩ ∈ s.stream) :
    Inv [] (pushed s ⟨id, true⟩) := by
  have hh : (pushed s ⟨id, true⟩).handed = s.handed ++ [id] := by simp [pushed_handed]
  have hperm : (s.slots ++ (s.handed ++ [id])).Perm ([id] ++ s.slots ++ s.handed) := by
    rw [← List.append_assoc]
    exact List.perm_append_comm.trans (by simp)
  refine ⟨?_, h.slotCheck, ?_, ?_, ?_, ?_, fun hd' => ?_⟩
  · rw [hh]; exact h.owned.of_perm hperm
  · intro p hp
    rw [hh, pushed_slots, List.nil_append]
    refine hperm.mem_iff.mpr ?_
    rw [pushed_pending] at hp
    rcases List.mem_append.mp hp with hp | hp
    · exact h.borrowed p hp
    · cases List.mem_singleton.mp hp
      simp
  · rw [pushed_pending, List.pairwise_append]
    refine ⟨h.last, List.pairwise_singleton .., ?_⟩
    intro p hp q hq hr
    cases List.mem_singleton.mp hq
    exact h.pending_ne (by simp) hp hr
  · rw [pushed_stream]
    exact h.order.snoc fun _ => hengaged
  · intro _
    have := h.uses hd
    rw [pushed_pending, List.length_append]
    simp only [pushed, List.length_singleton]
    omega
  · exact absurd (hd.symm.trans hd') (by simp)

/-- The call that holds a released alert deletes it. -/
theorem drop_released (h : Inv [id] s) (hfree : ⟨id, false⟩ ∉ s.pending) : Inv [] (s.delete id) := by
  have howned : Owned s.mem (id :: (s.slots ++ s.handed)) := by simpa using h.owned
  refine ⟨howned.delete, h.slotCheck, ?_, h.last, h.order, h.uses, h.gone⟩
  intro p hp
  have hne : p.alert ≠ id := by
    cases hr : p.released with
    | true => exact h.pending_ne (by simp) hp hr
    | false =>
      rintro rfl
      exact hfree (by rw [← hr]; exact hp)
  have hb := h.borrowed p hp
  simp only [List.cons_append, List.mem_cons, List.nil_append] at hb ⊢
  exact hb.resolve_left hne

theorem enqueue_engaged (h : Inv extra s) (hid : id ∈ extra ++ s.slots)
    (hr : (s.alerts id).released = false) (ok : Bool) :
    s.enqueueHostAlert id ok = if ok then pushed s ⟨id, false⟩ else s := by
  have ht := h.touch_eq id (List.mem_append_left _ hid)
  cases ok <;> simp [Sys.enqueueHostAlert, ht, hr, pushed]

theorem enqueue_released (h : Inv [id] s) (hr : (s.alerts id).released = true) (ok : Bool) :
    s.enqueueHostAlert id ok = if ok then pushed s ⟨id, true⟩ else s.delete id := by
  have ht := h.touch_eq id (by simp)
  cases ok <;> simp [Sys.enqueueHostAlert, ht, hr, pushed]

/-! ## The producer -/

theorem Inv.drop (h : Inv [id] s) (hfree : ∀ p ∈ s.pending, p.alert ≠ id) : Inv [] (s.delete id) :=
  drop_released h fun hp => hfree _ hp rfl

/-- A check creates an alert and holds it; no pair knows it. -/
theorem newAlert_inv (h : Inv [] s) (a : HostAlert) :
    Inv [s.mem.created] (s.newAlert a) ∧ ∀ p ∈ (s.newAlert a).pending, p.alert ≠ s.mem.created := by
  have hlt : ∀ i ∈ s.slots ++ s.handed, i < s.mem.created := fun i hi => h.owned.lt_created (by simpa using hi)
  constructor
  · refine ⟨?_, ?_, ?_, h.last, h.order, h.uses, h.gone⟩
    · exact h.owned.new
    · intro t i ht
      have hne : i ≠ s.mem.created := Nat.ne_of_lt (hlt i (List.mem_append_left _ (mem_slots_of ht)))
      simp only [Sys.newAlert, Sys.setAlert, Function.update_of_ne hne]
      exact h.slotCheck t i ht
    · intro p hp
      exact List.mem_cons_of_mem _ (h.borrowed p hp)
  · intro p hp
    exact Nat.ne_of_lt (hlt _ (h.borrowed p hp))

/-- An alert that a call holds goes into the empty slot of its check. -/
theorem addEngagedAlert_inv (h : Inv [id] s) (hd : s.destroyed = false)
    (hslot : s.engagedAlerts (s.alerts id).checkId = none) {callocOk : Bool}
    (hok : s.slotsAllocated = true ∨ callocOk = true) :
    Inv [] (s.addEngagedAlert id callocOk) ∧ id ∈ (s.addEngagedAlert id callocOk).slots ∧
      (s.addEngagedAlert id callocOk).destroyed = false ∧ (s.addEngagedAlert id callocOk).alerts = s.alerts := by
  generalize halloc : (if s.slotsAllocated then s else { s with slotsAllocated := callocOk } : Sys) = s₁
  have h₁ : s₁.slotsAllocated = true ∧ s₁.mem = s.mem ∧ s₁.engagedAlerts = s.engagedAlerts ∧ s₁.alerts = s.alerts ∧
      s₁.queue = s.queue ∧ s₁.consumer = s.consumer ∧ s₁.delivered = s.delivered ∧ s₁.destroyed = s.destroyed ∧
      s₁.numUses = s.numUses ∧ s₁.holders = s.holders := by
    rw [← halloc]
    cases hsa : s.slotsAllocated with
    | true => simp [hsa]
    | false => simpa [hsa] using hok
  obtain ⟨hsa, hmem, heng, hal, hq, hc, hdel, hde, hu, hho⟩ := h₁
  generalize hs' : s.addEngagedAlert id callocOk = s'
  have hs'' : s' = { s₁ with
      engagedAlerts := Function.update s₁.engagedAlerts (s.alerts id).checkId (some id)
      engagedAlertsMap := Function.update s₁.engagedAlertsMap (s.alerts id).alertType true
      numEngagedAlerts := s₁.numEngagedAlerts + 1 } := by
    rw [← hs', Sys.addEngagedAlert, halloc, if_pos ⟨hsa, by rw [heng, hslot]; rfl⟩]
  have hpending : s'.pending = s.pending := by
    rw [hs'']; simp only [Sys.pending, Sys.inHand, hq, hc]
  have hhanded : s'.handed = s.handed := by simp only [Sys.handed, hpending]
  have heng' : s'.engagedAlerts = Function.update s.engagedAlerts (s.alerts id).checkId (some id) := by
    rw [hs'', heng]
  have hslots : s'.slots.Perm (id :: s.slots) := by
    rw [Sys.slots, heng']
    exact slots_insert (List.nodup_finRange 28) (List.mem_finRange _) hslot id
  have hperm : (s'.slots ++ s'.handed).Perm ([id] ++ s.slots ++ s.handed) := by
    rw [hhanded]
    simpa using hslots.append_right s.handed
  refine ⟨⟨?_, ?_, ?_, ?_, ?_, ?_, ?_⟩, hslots.mem_iff.mpr (List.mem_cons_self ..), by rw [hs'']; exact hde.trans hd,
    by rw [hs'', hal]⟩
  · rw [hs'']; rw [hs''] at hperm
    exact (hmem ▸ h.owned).of_perm hperm
  · intro t i ht
    have hal' : s'.alerts = s.alerts := by rw [hs'', hal]
    rw [hal']
    rw [heng'] at ht
    by_cases htc : t = (s.alerts id).checkId
    · rw [htc, Function.update_self] at ht
      cases ht
      exact htc.symm
    · rw [Function.update_of_ne htc] at ht
      exact h.slotCheck t i ht
  · intro p hp
    rw [List.nil_append]
    exact hperm.mem_iff.mpr (h.borrowed p (hpending ▸ hp))
  · rw [hpending]; exact h.last
  · have hst : s'.stream = s.stream := by
      simp only [Sys.stream, hpending]
      rw [hs'', hdel]
    rw [hst]; exact h.order
  · intro _
    rw [hpending]
    rw [hs'', hu, hho]
    exact h.uses hd
  · intro hd'
    rw [hs''] at hd'
    exact absurd (hd.symm.trans (hde.symm.trans hd')) (by simp)

/-- `triggerAlert` of an alert that the check holds and no slot and no pair knows. -/
theorem trigger_held (h : Inv [id] s) (hd : s.destroyed = false) (hfree : ∀ p ∈ s.pending, p.alert ≠ id)
    (hnot : ∀ t, s.engagedAlerts t ≠ some id) {dontEmit disabled callocOk : Bool} (ok : Bool)
    (hok : dontEmit = false → disabled = false → s.engagedAlerts (s.alerts id).checkId = none →
      s.slotsAllocated = true ∨ callocOk = true) :
    Inv [] (s.triggerAlert id dontEmit disabled callocOk ok).2 := by
  have htouch := h.touch_eq id (by simp)
  generalize ha : s.alerts id = a at hok
  simp only [Sys.triggerAlert, htouch, ha, if_neg (hnot a.checkId)]
  by_cases hdis : (dontEmit || disabled) = true
  · rw [if_pos hdis]
    exact h.drop hfree
  rw [if_neg hdis]
  obtain ⟨he, hdi⟩ : dontEmit = false ∧ disabled = false := by simpa using hdis
  generalize hserial : (if a.rowid = 0 then { s with alertSerial := s.alertSerial + 1 } else s : Sys) = s₁
  generalize (if a.rowid = 0 then s₁.alertSerial else a.rowid) = row
  have h₁ : Inv [id] s₁ ∧ s₁.alerts id = a ∧ s₁.engagedAlerts = s.engagedAlerts ∧
      s₁.destroyed = false ∧ s₁.slotsAllocated = s.slotsAllocated ∧ s₁.pending = s.pending := by
    rw [← hserial]
    split
    · exact ⟨⟨h.owned, h.slotCheck, h.borrowed, h.last, h.order, h.uses, h.gone⟩, ha, rfl, hd, rfl, rfl⟩
    · exact ⟨h, ha, rfl, hd, rfl, rfl⟩
  obtain ⟨hinv, hal, heng₁, hd₁, hsa, hpend⟩ := h₁
  have h₂ := hinv.setAlert id (a := a.setEngaged row) (by rw [hal]; rfl)
  have heng₂ : (s₁.setAlert id (a.setEngaged row)).engagedAlerts a.checkId = s.engagedAlerts a.checkId := by
    simp only [Sys.setAlert, heng₁]
  cases hslot : s.engagedAlerts a.checkId with
  | some other =>
    simp only [heng₂, hslot]
    have hne : other ≠ id := fun heq => hnot a.checkId (heq ▸ hslot)
    rw [if_neg hne]
    refine h₂.drop fun p hp => hfree p ?_
    rw [← hpend]; exact hp
  | none =>
    simp only [heng₂, hslot]
    generalize hs₃ : (s₁.setAlert id (a.setEngaged row)).addScore a 1 = s₃
    have h₃ : Inv [id] s₃ := hs₃ ▸ h₂.addScore a 1
    have hal₃ : s₃.alerts id = a.setEngaged row := by
      rw [← hs₃]; exact Function.update_self ..
    have hslot₃ : s₃.engagedAlerts (s₃.alerts id).checkId = none := by
      rw [hal₃, ← hs₃]
      exact heng₂.trans hslot
    have hok₃ : s₃.slotsAllocated = true ∨ callocOk = true := by
      have : s₃.slotsAllocated = s.slotsAllocated := by rw [← hs₃]; exact hsa
      rw [this]; exact hok he hdi hslot
    obtain ⟨h₄, hmem, hd₄, hal₄⟩ := addEngagedAlert_inv h₃ (by rw [← hs₃]; exact hd₁) hslot₃ hok₃
    rw [enqueue_engaged h₄ (by simpa using hmem) (by rw [hal₄, hal₃]; rfl) ok]
    split
    · exact push_engaged h₄ hd₄ (by simpa using hmem)
    · exact h₄

theorem trigger_inv (h : Inv [] s) (hd : s.destroyed = false) (a : HostAlert)
    {dontEmit disabled callocOk : Bool} (ok : Bool)
    (hok : dontEmit = false → disabled = false → s.engagedAlerts a.checkId = none →
      s.slotsAllocated = true ∨ callocOk = true) :
    Inv [] ((s.newAlert a).triggerAlert s.mem.created dontEmit disabled callocOk ok).2 := by
  obtain ⟨hnew, hfree⟩ := newAlert_inv h a
  have hself : (s.newAlert a).alerts s.mem.created = a := Function.update_self ..
  refine trigger_held hnew hd hfree ?_ ok (by rw [hself]; exact hok)
  intro t ht
  have hslot : s.mem.created ∈ s.slots := mem_slots_of (t := t) ht
  exact absurd (h.owned.lt_created (List.mem_append_left _ hslot)) (lt_irrefl _)

/-- The alert that its check has engaged is triggered again: it stays where it is. -/
theorem refresh_inv (h : Inv [] s) {t : HostCheckID} (ht : s.engagedAlerts t = some id)
    (dontEmit disabled callocOk ok : Bool) : Inv [] (s.triggerAlert id dontEmit disabled callocOk ok).2 := by
  have hcheck := h.slotCheck t id ht
  have htouch := h.touch_eq id (List.mem_append_left _ (by simpa using mem_slots_of ht))
  simp only [Sys.triggerAlert, htouch, hcheck, ht, if_true]
  by_cases hdis : (dontEmit || disabled) = true
  · rw [if_pos hdis]
    exact h.setAlert id rfl
  rw [if_neg hdis]
  generalize hserial : (if (s.alerts id).rowid = 0 then { s with alertSerial := s.alertSerial + 1 } else s : Sys) = s₁
  have h₁ : Inv [] s₁ ∧ s₁.alerts = s.alerts ∧ s₁.engagedAlerts t = some id := by
    rw [← hserial]
    split
    · exact ⟨⟨h.owned, h.slotCheck, h.borrowed, h.last, h.order, h.uses, h.gone⟩, rfl, ht⟩
    · exact ⟨h, rfl, ht⟩
  obtain ⟨hinv, hal, heng⟩ := h₁
  simp only [Sys.setAlert, heng, if_true]
  exact hinv.setAlert id (by rw [hal]; rfl)

/-- The slot of an engaged alert is emptied: the call holds the alert. -/
theorem removeEngagedAlert_inv (h : Inv [] s) (ht : s.engagedAlerts (s.alerts id).checkId = some id) :
    Inv [id] (s.removeEngagedAlert id) ∧ (s.removeEngagedAlert id).pending = s.pending ∧
      (s.removeEngagedAlert id).stream = s.stream ∧ (s.removeEngagedAlert id).alerts = s.alerts ∧
      (s.removeEngagedAlert id).destroyed = s.destroyed := by
  generalize hs' : s.removeEngagedAlert id = s'
  have hs'' : s' = { s with
      engagedAlerts := Function.update s.engagedAlerts (s.alerts id).checkId none
      engagedAlertsMap := Function.update s.engagedAlertsMap (s.alerts id).alertType false
      numEngagedAlerts := s.numEngagedAlerts - 1 } := by
    rw [← hs', Sys.removeEngagedAlert, if_pos ht]
  have heng : s'.engagedAlerts = Function.update s.engagedAlerts (s.alerts id).checkId none := by rw [hs'']
  have hpending : s'.pending = s.pending := by rw [hs'']; rfl
  have hhanded : s'.handed = s.handed := by simp only [Sys.handed, hpending]
  have hslots : (id :: s'.slots).Perm s.slots := by
    rw [Sys.slots, heng]
    exact slots_erase (List.nodup_finRange 28) (List.mem_finRange _) ht
  have hperm : ([id] ++ s'.slots ++ s'.handed).Perm ([] ++ s.slots ++ s.handed) := by
    rw [hhanded]
    simpa using hslots.append_right s.handed
  have hal : s'.alerts = s.alerts := by rw [hs'']
  refine ⟨⟨?_, ?_, ?_, by rw [hpending]; exact h.last, ?_, ?_, ?_⟩, hpending, ?_, hal, by rw [hs'']⟩
  · have hmem : s'.mem = s.mem := by rw [hs'']
    rw [hmem]; exact h.owned.of_perm hperm
  · intro t i hti
    rw [hal]
    rw [heng] at hti
    by_cases htc : t = (s.alerts id).checkId
    · rw [htc, Function.update_self] at hti; cases hti
    · rw [Function.update_of_ne htc] at hti
      exact h.slotCheck t i hti
  · intro p hp
    exact hperm.mem_iff.mpr (h.borrowed p (hpending ▸ hp))
  · rw [Sys.stream, hpending, hs'']; exact h.order
  · rw [hpending, hs'']; exact h.uses
  · intro hd
    have hd' : s.destroyed = true := by rw [hs''] at hd; exact hd
    rw [(h.gone hd').2] at ht; cases ht
  · rw [Sys.stream, hpending, hs'']; rfl

theorem release_inv (h : Inv [] s) {t : HostCheckID} (ht : s.engagedAlerts t = some id) {ok : Bool}
    (hin : ok = true → ⟨id, false⟩ ∈ s.stream) (hout : ok = false → ⟨id, false⟩ ∉ s.pending) :
    Inv [] (s.releaseAlert id ok) := by
  have hd : s.destroyed = false := by
    cases hd : s.destroyed with
    | false => rfl
    | true => rw [(h.gone hd).2] at ht; cases ht
  have hcheck := h.slotCheck t id ht
  have htouch := h.touch_eq id (List.mem_append_left _ (by simpa using mem_slots_of ht))
  have h₁ := h.setAlert id (a := (s.alerts id).release) rfl
  have hself : ∀ a, (s.setAlert id a).alerts id = a := fun _ => Function.update_self ..
  obtain ⟨h₂, hpend, hstream, hal, hdest⟩ := removeEngagedAlert_inv h₁
    (by rw [hself]; simpa [HostAlert.release, hcheck, Sys.setAlert] using ht)
  simp only [Sys.releaseAlert, htouch]
  generalize hs₂ : (s.setAlert id (s.alerts id).release).removeEngagedAlert id = s₂ at h₂ hpend hstream hal hdest
  have hrel₂ : (s₂.alerts id).released = true := by rw [hal, hself]; rfl
  generalize hs₃ : (if s₂.numEngagedAlerts = 0 then s₂.setAlert id (s₂.alerts id).setLastReleased else s₂) = s₃
  have h₃ : Inv [id] s₃ ∧ (s₃.alerts id).released = true ∧ s₃.pending = s₂.pending ∧ s₃.stream = s₂.stream ∧
      s₃.destroyed = s₂.destroyed := by
    rw [← hs₃]
    split
    · refine ⟨h₂.setAlert id rfl, ?_, rfl, rfl, rfl⟩
      simpa [Sys.setAlert, HostAlert.setLastReleased] using hrel₂
    · exact ⟨h₂, hrel₂, rfl, rfl, rfl⟩
  obtain ⟨hinv, hrel, hp₃, hst₃, hd₃⟩ := h₃
  have h₄ := hinv.addScore (s₃.alerts id) (-1)
  rw [enqueue_released h₄ hrel ok]
  have hpend' : (s₃.addScore (s₃.alerts id) (-1)).pending = s.pending := hp₃.trans hpend
  have hstream' : (s₃.addScore (s₃.alerts id) (-1)).stream = s.stream := hst₃.trans hstream
  cases ok with
  | true => exact push_released h₄ (hd₃.trans (hdest.trans hd)) (by rw [hstream']; exact hin rfl)
  | false => exact drop_released h₄ (by rw [hpend']; exact hout rfl)

theorem store_inv (h : Inv [] s) (hd : s.destroyed = false) (a : HostAlert) (hnew : a.released = false)
    {dontEmit disabled firstOk ok : Bool} (hok : dontEmit = false → disabled = false → firstOk = ok) :
    Inv [] ((s.newAlert a).storeAlert s.mem.created dontEmit disabled firstOk ok).2 := by
  obtain ⟨hinv, hfree⟩ := newAlert_inv h a
  have hself : (s.newAlert a).alerts s.mem.created = a := Function.update_self ..
  have htouch := hinv.touch_eq s.mem.created (by simp)
  simp only [Sys.storeAlert, htouch]
  by_cases hdis : (dontEmit || disabled) = true
  · rw [if_pos hdis]
    exact hinv.drop hfree
  rw [if_neg hdis]
  obtain ⟨he, hdi⟩ : dontEmit = false ∧ disabled = false := by simpa using hdis
  have hd₀ : (s.newAlert a).destroyed = false := hd
  obtain rfl := hok he hdi
  rw [enqueue_engaged hinv (by simp) (by rw [hself]; exact hnew) firstOk]
  generalize hs₁ : (if firstOk then pushed (s.newAlert a) ⟨s.mem.created, false⟩ else s.newAlert a) = s₁
  have h₁ : Inv [s.mem.created] s₁ ∧ s₁.destroyed = false ∧
      (firstOk = true → ⟨s.mem.created, false⟩ ∈ s₁.stream) ∧
      (firstOk = false → ⟨s.mem.created, false⟩ ∉ s₁.pending) := by
    rw [← hs₁]
    cases firstOk with
    | true =>
      refine ⟨push_engaged hinv hd₀ (by simp), hd, fun _ => ?_, fun hf => (by cases hf)⟩
      rw [if_pos rfl, pushed_stream]
      exact List.mem_append_right _ (List.mem_singleton.mpr rfl)
    | false => exact ⟨hinv, hd, fun hf => (by cases hf), fun _ hp => hfree _ hp rfl⟩
  obtain ⟨hinv₁, hd₁, hin, hout⟩ := h₁
  generalize hs₂ : (if (s₁.setAlert s.mem.created (s₁.alerts s.mem.created).release).numEngagedAlerts = 0 then
    (s₁.setAlert s.mem.created (s₁.alerts s.mem.created).release).setAlert s.mem.created
      ((s₁.setAlert s.mem.created (s₁.alerts s.mem.created).release).alerts s.mem.created).setLastReleased
    else s₁.setAlert s.mem.created (s₁.alerts s.mem.created).release) = s₂
  have h₂ : Inv [s.mem.created] s₂ ∧ (s₂.alerts s.mem.created).released = true ∧ s₂.pending = s₁.pending ∧
      s₂.stream = s₁.stream ∧ s₂.destroyed = s₁.destroyed := by
    have hr := hinv₁.setAlert s.mem.created (a := (s₁.alerts s.mem.created).release) rfl
    rw [← hs₂]
    split
    · refine ⟨hr.setAlert s.mem.created rfl, ?_, rfl, rfl, rfl⟩
      simp [Sys.setAlert, HostAlert.setLastReleased, HostAlert.release]
    · exact ⟨hr, by simp [Sys.setAlert, HostAlert.release], rfl, rfl, rfl⟩
  obtain ⟨hinv₂, hrel, hp₂, hst₂, hd₂⟩ := h₂
  rw [enqueue_released hinv₂ hrel firstOk]
  cases hf : firstOk with
  | true => exact push_released hinv₂ (hd₂.trans hd₁) (by rw [hst₂]; exact hin hf)
  | false => exact drop_released hinv₂ (by rw [hp₂]; exact hout hf)

/-! ## The consumer and the end of the host -/

@[simp] theorem pair_ours (p : Pair) : (QueueItem.ours p).pair = some p := rfl
@[simp] theorem pair_other : QueueItem.other.pair = none := rfl

theorem inHand_busy {budget numDone : Nat} {item : QueueItem} (hc : s.consumer = .busy budget numDone item) :
    s.inHand = item.pair.toList := by
  simp [Sys.inHand, hc]

theorem inHand_free (hc : ∀ budget numDone item, s.consumer ≠ .busy budget numDone item) : s.inHand = [] := by
  unfold Sys.inHand
  split
  · exact absurd ‹_› (hc _ _ _)
  · rfl

theorem dequeueNext_inv (h : Inv [] s) {budget numDone : Nat} (hc : s.consumer = .loop budget numDone) :
    Inv [] (s.dequeueNext budget numDone) := by
  have hhand : s.inHand = [] := inHand_free (by simp [hc])
  have hpend : (s.dequeueNext budget numDone).pending = s.pending := by
    rw [Sys.pending, Sys.pending, hhand]
    cases hq : s.queue with
    | nil => simp [Sys.dequeueNext, hq, inHand_free]
    | cons item rest =>
      cases item <;> simp [Sys.dequeueNext, hq, Sys.inHand, List.filterMap_cons]
  have hsame : (s.dequeueNext budget numDone).mem = s.mem ∧ (s.dequeueNext budget numDone).engagedAlerts = s.engagedAlerts ∧
      (s.dequeueNext budget numDone).alerts = s.alerts ∧ (s.dequeueNext budget numDone).delivered = s.delivered ∧
      (s.dequeueNext budget numDone).destroyed = s.destroyed ∧ (s.dequeueNext budget numDone).numUses = s.numUses ∧
      (s.dequeueNext budget numDone).holders = s.holders := by
    cases hq : s.queue <;> simp [Sys.dequeueNext, hq]
  generalize s.dequeueNext budget numDone = s' at hpend hsame
  obtain ⟨hm, he, ha, hdl, hd, hu, hh⟩ := hsame
  have hslots : s'.slots = s.slots := by simp only [Sys.slots, he]
  have hhanded : s'.handed = s.handed := by simp only [Sys.handed, hpend]
  refine ⟨?_, ?_, ?_, ?_, ?_, ?_, ?_⟩
  · rw [hm, hslots, hhanded]; exact h.owned
  · rw [he, ha]; exact h.slotCheck
  · rw [hpend, hslots, hhanded]; exact h.borrowed
  · rw [hpend]; exact h.last
  · rw [Sys.stream, hdl, hpend]; exact h.order
  · rw [hd, hu, hh, hpend]; exact h.uses
  · rw [hd, hpend, he]; exact h.gone

theorem deliver_free (s : Sys) (budget numDone : Nat) (item : QueueItem) (b n : Nat) (i : QueueItem) :
    (s.deliver budget numDone item).consumer ≠ .busy b n i := by
  simp only [Sys.deliver]
  split <;> simp

theorem deliver_inv (h : Inv [] s) {budget numDone : Nat} {item : QueueItem}
    (hc : s.consumer = .busy budget numDone item) : Inv [] (s.deliver budget numDone item) := by
  have hpend : s.pending = item.pair.toList ++ s.queue.filterMap QueueItem.pair := by
    simp [Sys.pending, Sys.inHand, hc]
  cases item with
  | other =>
    have hp' : (s.deliver budget numDone .other).pending = s.pending := by
      rw [hpend, Sys.pending, inHand_free (deliver_free s budget numDone .other)]
      rfl
    have hh' : (s.deliver budget numDone .other).handed = s.handed := by simp only [Sys.handed, hp']
    refine ⟨?_, h.slotCheck, ?_, ?_, ?_, ?_, ?_⟩
    · rw [hh']; exact h.owned
    · rw [hp', hh']; exact h.borrowed
    · rw [hp']; exact h.last
    · rw [Sys.stream, hp']; exact h.order
    · rw [hp']; exact h.uses
    · rw [hp']; exact h.gone
  | ours p =>
    generalize hrest : s.queue.filterMap QueueItem.pair = rest at hpend
    have hpend' : s.pending = p :: rest := hpend
    have hb := h.borrowed p (by rw [hpend']; exact List.mem_cons_self ..)
    have htouch := h.touch_eq _ hb
    have hlast := h.last
    rw [hpend', List.pairwise_cons] at hlast
    generalize hs' : s.deliver budget numDone (.ours p) = s'
    have hp' : s'.pending = rest := by
      rw [← hs', ← hrest, Sys.pending, inHand_free (deliver_free s budget numDone (.ours p)), List.nil_append]
      simp only [Sys.deliver, htouch]
      cases p.released <;> rfl
    have hfields : s'.engagedAlerts = s.engagedAlerts ∧ s'.alerts = s.alerts ∧ s'.delivered = s.delivered ++ [p] ∧
        s'.destroyed = s.destroyed ∧ s'.numUses = s.numUses - 1 ∧ s'.holders = s.holders ∧
        s'.mem = if p.released then s.mem.delete p.alert else s.mem := by
      rw [← hs']
      simp only [Sys.deliver, htouch]
      cases p.released <;> simp [Sys.delete]
    obtain ⟨he, ha, hdl, hd, hu, hho, hm⟩ := hfields
    have hslots : s'.slots = s.slots := by simp only [Sys.slots, he]
    have hhanded : s.handed = (if p.released then [p.alert] else []) ++ s'.handed := by
      simp only [Sys.handed, hp', hpend']
      cases hr : p.released <;> simp [hr]
    have hst : s'.stream = s.stream := by
      simp only [Sys.stream, hp', hdl, hpend', List.append_assoc]
      rfl
    refine ⟨?_, by rw [he, ha]; exact h.slotCheck, ?_, by rw [hp']; exact hlast.2, by rw [hst]; exact h.order, ?_, ?_⟩
    · rw [hm, hslots]
      have howned := h.owned
      rw [hhanded] at howned
      cases hr : p.released with
      | false => simpa [hr] using howned
      | true =>
        simp only [hr, if_true] at howned ⊢
        refine Owned.delete (howned.of_perm ?_)
        simpa using List.perm_middle.symm
    · intro q hq
      rw [hp'] at hq
      have hbq := h.borrowed q (by rw [hpend']; exact List.mem_cons_of_mem _ hq)
      rw [hhanded] at hbq
      rw [hslots]
      cases hr : p.released with
      | false => simpa [hr] using hbq
      | true =>
        have hne : q.alert ≠ p.alert := (hlast.1 q hq hr).symm
        simp only [hr, if_true, List.nil_append, List.mem_append, List.mem_singleton] at hbq ⊢
        tauto
    · intro hd'
      have := h.uses (hd ▸ hd')
      rw [hpend', List.length_cons] at this
      rw [hu, hho, hp', this]
      omega
    · intro hd'
      have := (h.gone (hd ▸ hd')).1
      rw [hpend'] at this
      cases this

theorem destroy_inv (h : Inv [] s) (hp : s.pending = []) : Inv [] s.destroy := by
  have hnone : s.destroy.slots = [] := by simp [Sys.slots, Sys.destroy]
  have hpend : s.destroy.pending = [] := hp
  have hhanded : s.destroy.handed = [] := by simp only [Sys.handed, hpend]; rfl
  refine ⟨?_, ?_, ?_, ?_, h.order, ?_, fun _ => ⟨hpend, fun _ => rfl⟩⟩
  · rw [hnone, hhanded]
    have howned : Owned s.mem (s.slots ++ []) := by
      have := h.owned
      simp only [Sys.handed, hp] at this
      simpa using this
    exact howned.deleteAll
  · intro t i ht
    cases ht
  · rw [hpend]; simp
  · rw [hpend]; exact List.Pairwise.nil
  · intro hd; cases hd

/-! ## Runs -/

theorem step_inv (s : Sys) (e : Ev) (h : Inv [] s) (hok : Fine s e) : Inv [] (step s e) := by
  cases e with
  | trigger checkId alertType category alertScore cliPctg dontEmit disabled callocOk ok =>
    by_cases hd : s.destroyed = true
    · simpa only [step, hd, if_true] using h
    · rw [Bool.not_eq_true] at hd
      simpa only [step, hd, Bool.false_eq_true, if_false] using
        trigger_inv h hd (.new checkId alertType category alertScore cliPctg) ok (hok hd)
  | refresh checkId dontEmit disabled =>
    cases ht : s.engagedAlerts checkId with
    | none => simpa only [step, ht] using h
    | some id => simpa only [step, ht] using refresh_inv h ht dontEmit disabled true true
  | setExpiring checkId =>
    cases ht : s.engagedAlerts checkId with
    | none => simpa only [step, ht] using h
    | some id =>
      have htouch := h.touch_eq id (List.mem_append_left _ (by simpa using mem_slots_of ht))
      simpa only [step, ht, htouch] using h.setAlert id (a := (s.alerts id).setExpiring) rfl
  | release checkId ok =>
    cases ht : s.engagedAlerts checkId with
    | none => simpa only [step, Sys.releaseCheck, ht] using h
    | some id =>
      obtain ⟨hin, hout⟩ := hok id ht
      simpa only [step, Sys.releaseCheck, ht] using release_inv h ht hin hout
  | store checkId alertType category alertScore cliPctg dontEmit disabled firstOk ok =>
    by_cases hd : s.destroyed = true
    · simpa only [step, hd, if_true] using h
    · rw [Bool.not_eq_true] at hd
      simpa only [step, hd, Bool.false_eq_true, if_false] using
        store_inv h hd (.new checkId alertType category alertScore cliPctg) rfl (hok hd)
  | otherAlert =>
    have hp : (step s .otherAlert).pending = s.pending := by simp [step, Sys.pending, Sys.inHand, QueueItem.pair]
    have hh : (step s .otherAlert).handed = s.handed := by simp only [Sys.handed, hp]
    refine ⟨?_, h.slotCheck, ?_, ?_, ?_, ?_, ?_⟩
    · rw [hh]; exact h.owned
    · rw [hp, hh]; exact h.borrowed
    · rw [hp]; exact h.last
    · rw [Sys.stream, hp]; exact h.order
    · rw [hp]; exact h.uses
    · rw [hp]; exact h.gone
  | dequeueHostAlerts budget =>
    cases hc : s.consumer with
    | returned n =>
      have hp : ({ s with consumer := .loop budget 0 } : Sys).pending = s.pending := by
        simp [Sys.pending, Sys.inHand, hc]
      have hh : ({ s with consumer := .loop budget 0 } : Sys).handed = s.handed := by simp only [Sys.handed, hp]
      simp only [step, hc]
      refine ⟨?_, h.slotCheck, ?_, ?_, ?_, ?_, ?_⟩
      · rw [hh]; exact h.owned
      · rw [hp, hh]; exact h.borrowed
      · rw [hp]; exact h.last
      · rw [Sys.stream, hp]; exact h.order
      · rw [hp]; exact h.uses
      · rw [hp]; exact h.gone
    | loop => simpa only [step, hc] using h
    | busy => simpa only [step, hc] using h
  | consumerStep =>
    cases hc : s.consumer with
    | returned n => simpa only [step, hc] using h
    | loop budget numDone => simpa only [step, hc] using dequeueNext_inv h hc
    | busy budget numDone item => simpa only [step, hc] using deliver_inv h hc
  | incUses =>
    simp only [step]
    split
    · exact h
    · refine ⟨h.owned, h.slotCheck, h.borrowed, h.last, h.order, fun hd => ?_, h.gone⟩
      have := h.uses hd
      simp only [Sys.pending, Sys.inHand] at this ⊢
      omega
  | decUses =>
    simp only [step]
    split
    · exact h
    · rename_i hl
      obtain ⟨-, hho⟩ : s.destroyed = false ∧ s.holders ≠ 0 := by simpa using hl
      refine ⟨h.owned, h.slotCheck, h.borrowed, h.last, h.order, fun hd => ?_, h.gone⟩
      have := h.uses hd
      simp only [Sys.pending, Sys.inHand] at this ⊢
      omega
  | delete shutdown =>
    simp only [step]
    split
    · exact h
    · rename_i hl
      have hd : s.destroyed = false := by
        cases hd : s.destroyed with
        | false => rfl
        | true => simp [hd] at hl
      refine destroy_inv h ?_
      cases shutdown with
      | true => exact hok rfl hd
      | false =>
        have hu : s.numUses = 0 := by simpa [hd] using hl
        have := h.uses hd
        exact List.length_eq_zero_iff.mp (by omega)

/-- The walk over all slots is the run of their releases. -/
theorem releaseAllEngagedAlerts_eq (s : Sys) (ok : HostCheckID → Bool) :
    s.releaseAllEngagedAlerts ok = run step s ((List.finRange 28).map fun t => .release t (ok t)) := by
  simp only [Sys.releaseAllEngagedAlerts, run, List.foldl_map]
  rfl

/-- In a run whose steps are `Fine` every alert of the host is freed once, never while a slot or a pair in
    flight has it, and the recipients get no release before its engage. -/
theorem host_alerts_ok (evs : List Ev) (hok : Along step Fine start evs) : Always step HostAlertsOk start evs :=
  always_of_inv step step_inv hostAlertsOk_of_inv start_inv hok

/-- A SYN flood alert is engaged, notified and, later, released. -/
theorem host_alerts_ok_engage_release :
    Always step HostAlertsOk start
      [.trigger 2 6 .security 100 50 false false true true, .dequeueHostAlerts 0, .consumerStep, .consumerStep,
        .release 2 true, .consumerStep, .consumerStep] := by
  refine host_alerts_ok _ ⟨fun _ _ _ _ => .inr rfl, trivial, trivial, trivial, ?_, trivial, trivial, trivial⟩
  intro id hid
  cases (show some 0 = some id from hid)
  exact ⟨fun _ => by decide, fun h => by cases h⟩

/-- The engage notification is still queued when the release finds the queue full. -/
theorem failed_release_frees_queued_alert : ¬ ∀ evs : List Ev, Always step HostAlertsOk start evs := by
  intro hall
  have hlast := always_last _ (hall [.trigger 2 6 .security 100 50 false false true true, .release 2 false])
  exact hlast.queueLive ⟨0, false⟩ (by decide) (by decide)

end Ntopng.Hosts.Alerts
