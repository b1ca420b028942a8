/-
  Ntopng.Hosts.OtherEngaged — the engaged alerts of what is no host and no flow
  (src/OtherAlertableEntity.cpp, src/AlertableEntity.cpp): an interface, a network, …

  A script triggers an alert under a key and releases it under the same key later. The
  alerts are kept in one map for each periodicity, under a 32-bit hash of the key ("In
  order to save memory"). The hash is not part of the source: it is a parameter. An
  entity without a value takes no alert.

  Proved, for every run of calls in which no two keys of one periodicity have one hash
  (`entity_law`): an alert is engaged exactly if it was triggered and not released since,
  their number is what the entity says, and a call does to the alert under its key what
  it should and nothing to the others. No hash meets this for all keys
  (`keys_mistaken`). The counters by severity that the interface keeps are exact if no
  score is above 255 (`interface_counts`): the alert keeps eight bits of it, so what is
  counted out can be another severity than what was counted in (`severity_drifts`).
-/

import Ntopng.Lib.Run
import Ntopng.Lib.Hashed
import Ntopng.Flows.Alerts

namespace Ntopng.Hosts.OtherEngaged

open Ntopng.Lib.Run Ntopng.Lib.Hashed
open Ntopng.Flows.Alerts (AlertLevelGroup mapAlertLevelToGroup mapScoreToSeverity)

/-! ## The code -/

/-- The periodicities of scripts; `no_periodicity` stands for none. -/
inductive ScriptPeriodicity where
  | aperiodicScript
  | minuteScript
  | fiveMinuteScript
  | hourScript
  | dayScript
  deriving DecidableEq, Repr

/-- The characters of a `std::string`. -/
abbrev Text := List UInt8

structure Alert where
  tstamp : Int
  lastUpdate : Int
  alertId : UInt8
  rowid : UInt64
  port : UInt16
  score : UInt8
  requireAttention : Bool
  subtype : Text
  json : Text
  ip : Text
  name : Text
  deriving DecidableEq, Repr

/-- The arguments of `triggerAlert`, and the serial number the interface gives. -/
structure Trigger where
  key : Text
  p : ScriptPeriodicity
  now : Int
  score : UInt32
  alertId : UInt8
  subtype : Text
  json : Text
  ip : Option Text
  name : Option Text
  port : UInt16
  newAlertSerial : UInt64
  deriving DecidableEq, Repr

structure Entity where
  entityVal : Text
  /-- The maps of all periodicities. -/
  engagedAlerts : ScriptPeriodicity × UInt32 → Option Alert
  numEngagedAlerts : UInt32
  /-- The counters the interface keeps for entities of this type, by severity. -/
  iface : AlertLevelGroup → UInt32

def Entity.new (iface : AlertLevelGroup → UInt32) : Entity := ⟨[], fun _ => none, 0, iface⟩

/-- `NetworkInterface::incNumAlertsEngaged` and `decNumAlertsEngaged`, which add and subtract 1. -/
def countSeverity (iface : AlertLevelGroup → UInt32) (score d : UInt32) : AlertLevelGroup → UInt32 :=
  let g := mapAlertLevelToGroup (mapScoreToSeverity score.toNat)
  if g = .none then iface else Function.update iface g (iface g + d)

def incNumAlertsEngaged (e : Entity) (score : UInt32) : Entity :=
  { e with iface := countSeverity e.iface score 1, numEngagedAlerts := e.numEngagedAlerts + 1 }

def decNumAlertsEngaged (e : Entity) (score : UInt32) : Entity :=
  { e with iface := countSeverity e.iface score (-1), numEngagedAlerts := e.numEngagedAlerts - 1 }

/-- The alert a trigger makes; the score is cut to a byte. -/
def Trigger.alert (a : Trigger) : Alert :=
  { rowid := a.newAlertSerial, tstamp := a.now, lastUpdate := a.now, score := a.score.toUInt8, alertId := a.alertId
    subtype := a.subtype, requireAttention := false, json := a.json, ip := a.ip.getD [], name := a.name.getD []
    port := a.port }

variable (ndpiHashString : Text → UInt32)

/-- `ndpi_hash_string(key.c_str())`: the hash stops at a NUL. -/
def numKey (key : Text) : UInt32 := ndpiHashString (key.takeWhile (· ≠ 0))

/-- What is pushed for the script, and the entity after the call; an alert is pushed when it was inserted. -/
def triggerAlert (e : Entity) (a : Trigger) : Option Alert × Entity :=
  if e.entityVal = [] then (none, e)
  else
    match e.engagedAlerts (a.p, numKey ndpiHashString a.key) with
    | none =>
      (some a.alert,
        { incNumAlertsEngaged e a.score with
          engagedAlerts := Function.update e.engagedAlerts (a.p, numKey ndpiHashString a.key) (some a.alert) })
    | some _ => (none, e)

/-- An alert is pushed when it was released. In an empty map, which is looked at first, none is found. -/
def releaseAlert (e : Entity) (key : Text) (p : ScriptPeriodicity) (now : Int) : Option Alert × Entity :=
  match e.engagedAlerts (p, numKey ndpiHashString key) with
  | some alert =>
    (some { alert with lastUpdate := now },
      { decNumAlertsEngaged e alert.score.toUInt32 with
        engagedAlerts := Function.update e.engagedAlerts (p, numKey ndpiHashString key) none })
  | none => (none, e)

inductive Call where
  | setEntityValue (val : Text)
  | triggerAlert (a : Trigger)
  | releaseAlert (key : Text) (p : ScriptPeriodicity) (now : Int)
  deriving DecidableEq, Repr

def call (e : Entity) : Call → Option Alert × Entity
  | .setEntityValue val => (none, { e with entityVal := val })
  | .triggerAlert a => triggerAlert ndpiHashString e a
  | .releaseAlert key p now => releaseAlert ndpiHashString e key p now

def step (e : Entity) (c : Call) : Entity := (call ndpiHashString e c).2

/-! ## What it is for -/

/-- What an alert is known by. -/
abbrev Name := ScriptPeriodicity × Text

def Trigger.names (a : Trigger) : Name := (a.p, a.key)

/-- The alert a call is about. -/
def Call.names : Call → Option Name
  | .setEntityValue _ => none
  | .triggerAlert a => some a.names
  | .releaseAlert key p _ => some (p, key)

/-- The value the entity has after some calls. -/
def valueAfter (cs : List Call) : Text :=
  cs.foldl (fun v c => match c with
    | .setEntityValue val => val
    | _ => v) []

/-- Triggered, on an entity with a value, and not released since. -/
def Engaged (cs : List Call) (x : Name) : Prop :=
  ∃ before a after, cs = before ++ .triggerAlert a :: after ∧ a.names = x ∧ valueAfter before ≠ [] ∧
    ∀ key p now, .releaseAlert key p now ∈ after → (p, key) ≠ x

/-- Where an alert is looked for. -/
def place (x : Name) : ScriptPeriodicity × UInt32 := (x.1, numKey ndpiHashString x.2)

/-- No two names of the calls are looked for in one place. -/
def NoCollision (cs : List Call) : Prop := Set.InjOn (place ndpiHashString) {x | ∃ c ∈ cs, c.names = some x}

/-- The entity says what is engaged. -/
structure Tells (cs : List Call) (e : Entity) : Prop where
  found : ∀ c ∈ cs, ∀ x, c.names = some x → (e.engagedAlerts (place ndpiHashString x) ≠ none ↔ Engaged cs x)
  only : ∀ n, e.engagedAlerts n ≠ none → ∃ x, Engaged cs x ∧ place ndpiHashString x = n
  number : e.numEngagedAlerts = UInt32.ofNat {x | Engaged cs x}.ncard

/-- A call after the others does what it is for. -/
structure Does (cs : List Call) (e : Entity) (c : Call) : Prop where
  /-- Nothing happens to an alert of another name. -/
  apart : ∀ d ∈ cs, ∀ x, d.names = some x → c.names ≠ some x →
    (step ndpiHashString e c).engagedAlerts (place ndpiHashString x) = e.engagedAlerts (place ndpiHashString x)
  /-- What is not engaged is, with what was given; what is engaged stays as it is. -/
  trigger : ∀ a, c = .triggerAlert a → valueAfter cs ≠ [] →
    (¬ Engaged cs a.names → (call ndpiHashString e c).1 = some a.alert ∧
      (step ndpiHashString e c).engagedAlerts (place ndpiHashString a.names) = some a.alert) ∧
    (Engaged cs a.names → call ndpiHashString e c = (none, e))
  release : ∀ key p now, c = .releaseAlert key p now →
    (Engaged cs (p, key) → ((call ndpiHashString e c).1).isSome ∧
      (step ndpiHashString e c).engagedAlerts (place ndpiHashString (p, key)) = none) ∧
    (¬ Engaged cs (p, key) → call ndpiHashString e c = (none, e))

/-! ## What has been called -/

section History

variable {cs : List Call} {x : Name}

theorem engaged_snoc (c : Call) : Engaged (cs ++ [c]) x ↔
    (Engaged cs x ∧ ∀ key p now, c = .releaseAlert key p now → (p, key) ≠ x) ∨
      ∃ a, c = .triggerAlert a ∧ a.names = x ∧ valueAfter cs ≠ [] := by
  constructor
  · intro h
    obtain ⟨before, a, after, heq, hx, hval, hafter⟩ := h
    rcases List.eq_nil_or_concat after with rfl | ⟨after, d, rfl⟩
    · obtain ⟨rfl, hc⟩ := List.append_inj' heq rfl
      exact .inr ⟨a, List.head_eq_of_cons_eq hc, hx, hval⟩
    · rw [List.concat_eq_append, ← List.cons_append, ← List.append_assoc] at heq
      obtain ⟨rfl, hc⟩ := List.append_inj' heq rfl
      have hcd : c = d := List.head_eq_of_cons_eq hc
      refine .inl ⟨⟨before, a, after, rfl, hx, hval, fun key p now hmem => ?_⟩, fun key p now hrel => ?_⟩
      · exact hafter key p now (by rw [List.concat_eq_append]; exact List.mem_append_left _ hmem)
      · refine hafter key p now ?_
        rw [List.concat_eq_append, ← hcd, hrel]
        exact List.mem_append_right _ (List.mem_singleton_self _)
  · intro h
    rcases h with ⟨⟨before, a, after, rfl, hx, hval, hafter⟩, hrel⟩ | ⟨a, rfl, hx, hval⟩
    · refine ⟨before, a, after ++ [c], by simp, hx, hval, fun key p now hmem => ?_⟩
      rcases List.mem_append.mp hmem with hmem | hmem
      · exact hafter key p now hmem
      · exact hrel key p now (List.mem_singleton.mp hmem).symm
    · exact ⟨cs, a, [], rfl, hx, hval, fun _ _ _ hmem => absurd hmem List.not_mem_nil⟩

theorem valueAfter_set (val : Text) : valueAfter (cs ++ [.setEntityValue val]) = val := by
  rw [valueAfter, List.foldl_append]
  rfl

theorem valueAfter_other {c : Call} (h : c.names ≠ none) : valueAfter (cs ++ [c]) = valueAfter cs := by
  rw [valueAfter, List.foldl_append]
  cases c with
  | setEntityValue val => exact absurd rfl h
  | triggerAlert a => rfl
  | releaseAlert key p now => rfl

/-- What is engaged was named. -/
theorem Engaged.named (h : Engaged cs x) : ∃ c ∈ cs, c.names = some x := by
  obtain ⟨before, a, after, rfl, rfl, -, -⟩ := h
  exact ⟨.triggerAlert a, List.mem_append_right _ (List.mem_cons_self ..), rfl⟩

end History

/-! ## The counters of the interface -/

def severityOf (score : UInt32) : AlertLevelGroup := mapAlertLevelToGroup (mapScoreToSeverity score.toNat)

theorem countSeverity_apply (iface : AlertLevelGroup → UInt32) (score d : UInt32) {g : AlertLevelGroup} (hg : g ≠ .none) :
    countSeverity iface score d g = iface g + if severityOf score = g then d else 0 := by
  show (if severityOf score = .none then iface else Function.update iface (severityOf score) _) g = _
  by_cases heq : severityOf score = g
  · rw [if_pos heq, ← heq, if_neg (by rw [heq]; exact hg), Function.update_self]
    rfl
  · rw [if_neg heq, UInt32.add_zero]
    split
    · rfl
    · exact Function.update_of_ne (fun h => heq h.symm) ..

theorem toUInt8_toUInt32 {score : UInt32} (h : score < 256) : score.toUInt8.toUInt32 = score := by
  rw [← UInt32.toNat_inj, UInt8.toNat_toUInt32, UInt32.toNat_toUInt8]
  exact Nat.mod_eq_of_lt (UInt32.lt_iff_toNat_lt.mp h)

/-! ## One call -/

section Step

variable {ndpiHashString : Text → UInt32} {base : AlertLevelGroup → UInt32} {K : Set Name} {cs : List Call} {e : Entity}
  {t : Name → Option Alert}

/-- The entity's books about the table `t` of alerts by name. -/
structure Books (ndpiHashString : Text → UInt32) (base : AlertLevelGroup → UInt32) (K : Set Name) (cs : List Call)
    (e : Entity) (t : Name → Option Alert) : Prop where
  files : Files (place ndpiHashString) K e.engagedAlerts t
  engaged : ∀ x, t x ≠ none ↔ Engaged cs x
  value : e.entityVal = valueAfter cs
  finite : ∀ P : Alert → Prop, (held P t).Finite
  number : e.numEngagedAlerts = UInt32.ofNat (held (fun _ => True) t).ncard
  iface : (∀ a, .triggerAlert a ∈ cs → a.score < 256) → ∀ g, g ≠ .none →
    e.iface g = base g + UInt32.ofNat (held (fun al => severityOf al.score.toUInt32 = g) t).ncard

theorem books_new : Books ndpiHashString base K [] (.new base) (fun _ => none) := by
  have hempty : ∀ P : Alert → Prop, held P (fun _ : Name => none) = ∅ := fun P => by
    ext x
    simp [held]
  refine ⟨files_empty, fun x => ?_, rfl, fun P => ?_, ?_, fun _ g _ => ?_⟩
  · refine ⟨fun h => absurd rfl h, fun h => ?_⟩
    obtain ⟨c, hc, -⟩ := h.named
    exact absurd hc List.not_mem_nil
  · rw [hempty]
    exact Set.finite_empty
  · rw [hempty, Set.ncard_empty]
    rfl
  · rw [hempty, Set.ncard_empty]
    exact (UInt32.add_zero _).symm

theorem scores_of_snoc {c : Call} (h : ∀ a, Call.triggerAlert a ∈ cs ++ [c] → a.score < 256) :
    ∀ a, Call.triggerAlert a ∈ cs → a.score < 256 := fun a ha => h a (List.mem_append_left _ ha)

/-- A call that finds nothing to do leaves the books as they are. -/
theorem Books.idle (hb : Books ndpiHashString base K cs e t) {c : Call}
    (hc : c.names ≠ none) (heng : ∀ x, Engaged (cs ++ [c]) x ↔ Engaged cs x) :
    Books ndpiHashString base K (cs ++ [c]) e t :=
  ⟨hb.files, fun x => (hb.engaged x).trans (heng x).symm, hb.value.trans (valueAfter_other hc).symm, hb.finite, hb.number,
    fun h => hb.iface (scores_of_snoc h)⟩

theorem Books.setEntityValue (hb : Books ndpiHashString base K cs e t) (val : Text) :
    Books ndpiHashString base K (cs ++ [.setEntityValue val]) (step ndpiHashString e (.setEntityValue val)) t := by
  refine ⟨hb.files, fun x => ?_, (valueAfter_set val).symm, hb.finite, hb.number, fun h => hb.iface (scores_of_snoc h)⟩
  rw [hb.engaged, engaged_snoc]
  constructor
  · intro h
    exact .inl ⟨h, fun _ _ _ hc => by cases hc⟩
  · intro h
    rcases h with ⟨h, -⟩ | ⟨a, hc, -⟩
    · exact h
    · cases hc

/-- What is looked for under a name is what the table has under it. -/
theorem Books.lookup (hb : Books ndpiHashString base K cs e t) {p : ScriptPeriodicity} {key : Text} (hx : (p, key) ∈ K) :
    e.engagedAlerts (p, numKey ndpiHashString key) = t (p, key) := hb.files.found _ hx

theorem ofNat_succ (n : ℕ) : UInt32.ofNat (n + 1) = UInt32.ofNat n + 1 := UInt32.ofNat_add n 1

theorem ofNat_add_ite (n : ℕ) (q : Prop) [Decidable q] :
    UInt32.ofNat (n + if q then 1 else 0) = UInt32.ofNat n + if q then 1 else 0 := by
  split
  · exact ofNat_succ n
  · exact (UInt32.add_zero _).symm

theorem Books.trigger (hb : Books ndpiHashString base K cs e t) (hinj : Set.InjOn (place ndpiHashString) K) {a : Trigger}
    (hx : a.names ∈ K) :
    ∃ t', Books ndpiHashString base K (cs ++ [.triggerAlert a]) (step ndpiHashString e (.triggerAlert a)) t' := by
  have hother : ∀ x, Engaged (cs ++ [.triggerAlert a]) x ↔ Engaged cs x ∨ (a.names = x ∧ valueAfter cs ≠ []) := by
    intro x
    rw [engaged_snoc]
    constructor
    · intro h
      rcases h with ⟨h, -⟩ | ⟨a', heq, hx, hval⟩
      · exact .inl h
      · cases heq
        exact .inr ⟨hx, hval⟩
    · intro h
      rcases h with h | ⟨hx, hval⟩
      · exact .inl ⟨h, fun _ _ _ hc => by cases hc⟩
      · exact .inr ⟨a, rfl, hx, hval⟩
  by_cases hval : e.entityVal = []
  · have hstep : step ndpiHashString e (.triggerAlert a) = e := by
      show (triggerAlert ndpiHashString e a).2 = e
      rw [triggerAlert, if_pos hval]
    rw [hstep]
    refine ⟨t, hb.idle (by simp [Call.names]) fun x => ?_⟩
    rw [hother, ← hb.value, hval]
    simp
  · have hlook := @Books.lookup _ _ _ _ _ _ hb a.p a.key hx
    cases ht : t a.names with
    | some al =>
      have hstep : step ndpiHashString e (.triggerAlert a) = e := by
        show (triggerAlert ndpiHashString e a).2 = e
        rw [triggerAlert, if_neg hval, hlook, show t (a.p, a.key) = some al from ht]
      rw [hstep]
      refine ⟨t, hb.idle (by simp [Call.names]) fun x => ?_⟩
      rw [hother]
      refine ⟨fun h => ?_, .inl⟩
      rcases h with h | ⟨rfl, -⟩
      · exact h
      · exact (hb.engaged _).mp (by rw [ht]; simp)
    | none =>
      have hstep : step ndpiHashString e (.triggerAlert a) = { incNumAlertsEngaged e a.score with
          engagedAlerts := Function.update e.engagedAlerts (place ndpiHashString a.names) (some a.alert) } := by
        show (triggerAlert ndpiHashString e a).2 = _
        rw [triggerAlert, if_neg hval, hlook, show t (a.p, a.key) = none from ht]
        rfl
      rw [hstep]
      have hins := fun (P : Alert → Prop) [DecidablePred P] => held_insert (p := P) (v := a.alert) ht (hb.finite P)
      refine ⟨Function.update t a.names (some a.alert), hb.files.update hinj hx _, fun x => ?_, ?_,
        fun P => by classical exact (hins P).1, ?_, fun hscores g hg => ?_⟩
      · rw [hother]
        rcases eq_or_ne x a.names with rfl | hne
        · rw [Function.update_self, ← hb.value]
          simp [hval]
        · rw [Function.update_of_ne hne, hb.engaged]
          simp [hne.symm]
      · exact hb.value.trans (valueAfter_other (by simp [Call.names])).symm
      · rw [(hins _).2, if_pos trivial, ofNat_succ, ← hb.number]
        rfl
      · have hsmall := hscores a (List.mem_append_right _ (List.mem_singleton_self _))
        rw [(hins _).2, ofNat_add_ite, ← UInt32.add_assoc, ← hb.iface (scores_of_snoc hscores) g hg]
        show countSeverity e.iface a.score 1 g = _
        rw [countSeverity_apply _ _ _ hg, show a.alert.score = a.score.toUInt8 from rfl, toUInt8_toUInt32 hsmall]

theorem Books.release (hb : Books ndpiHashString base K cs e t) (hinj : Set.InjOn (place ndpiHashString) K) {key : Text}
    {p : ScriptPeriodicity} (now : Int) (hx : (p, key) ∈ K) :
    ∃ t', Books ndpiHashString base K (cs ++ [.releaseAlert key p now]) (step ndpiHashString e (.releaseAlert key p now))
      t' := by
  have hother : ∀ x, Engaged (cs ++ [.releaseAlert key p now]) x ↔ Engaged cs x ∧ (p, key) ≠ x := by
    intro x
    rw [engaged_snoc]
    constructor
    · intro h
      rcases h with ⟨h, hrel⟩ | ⟨a, hc, -⟩
      · exact ⟨h, hrel key p now rfl⟩
      · cases hc
    · intro h
      exact .inl ⟨h.1, fun key' p' now' hc => by cases hc; exact h.2⟩
  have hlook := hb.lookup hx
  cases ht : t (p, key) with
  | none =>
    have hstep : step ndpiHashString e (.releaseAlert key p now) = e := by
      show (releaseAlert ndpiHashString e key p now).2 = e
      rw [releaseAlert, hlook, ht]
    rw [hstep]
    refine ⟨t, hb.idle (by simp [Call.names]) fun x => ?_⟩
    rw [hother]
    refine ⟨And.left, fun h => ⟨h, ?_⟩⟩
    rintro rfl
    exact (hb.engaged _).mpr h ht
  | some al =>
    have hstep : step ndpiHashString e (.releaseAlert key p now) = { decNumAlertsEngaged e al.score.toUInt32 with
        engagedAlerts := Function.update e.engagedAlerts (place ndpiHashString (p, key)) none } := by
      show (releaseAlert ndpiHashString e key p now).2 = _
      rw [releaseAlert, hlook, ht]
      rfl
    rw [hstep]
    have hdel := fun (P : Alert → Prop) [DecidablePred P] => held_erase (p := P) ht (hb.finite P)
    refine ⟨Function.update t (p, key) none, hb.files.update hinj hx _, fun x => ?_, ?_,
      fun P => by classical exact (hdel P).1, ?_, fun hscores g hg => ?_⟩
    · rw [hother]
      rcases eq_or_ne x (p, key) with rfl | hne
      · rw [Function.update_self]
        simp
      · rw [Function.update_of_ne hne, hb.engaged]
        simp [hne.symm]
    · exact hb.value.trans (valueAfter_other (by simp [Call.names])).symm
    · have hnum := hb.number
      rw [(hdel _).2, if_pos trivial, ofNat_succ] at hnum
      show e.numEngagedAlerts - 1 = _
      rw [hnum, UInt32.add_sub_cancel]
    · have hiface := hb.iface (scores_of_snoc hscores) g hg
      rw [(hdel _).2, ofNat_add_ite, ← UInt32.add_assoc] at hiface
      show countSeverity e.iface al.score.toUInt32 (-1) g = _
      rw [countSeverity_apply _ _ _ hg, hiface]
      split
      · rw [UInt32.add_assoc, UInt32.add_right_neg, UInt32.add_zero]
      · rw [UInt32.add_zero, UInt32.add_zero]

theorem books_step (hb : Books ndpiHashString base K cs e t) (hinj : Set.InjOn (place ndpiHashString) K) (c : Call)
    (hc : ∀ x, c.names = some x → x ∈ K) :
    ∃ t', Books ndpiHashString base K (cs ++ [c]) (step ndpiHashString e c) t' := by
  cases c with
  | setEntityValue val => exact ⟨t, hb.setEntityValue val⟩
  | triggerAlert a => exact hb.trigger hinj (hc _ rfl)
  | releaseAlert key p now => exact hb.release hinj now (hc _ rfl)

theorem books_run (base : AlertLevelGroup → UInt32) (hinj : Set.InjOn (place ndpiHashString) K) (cs : List Call)
    (hK : ∀ c ∈ cs, ∀ x, c.names = some x → x ∈ K) :
    ∃ t, Books ndpiHashString base K cs (run (step ndpiHashString) (.new base) cs) t := by
  induction cs using List.reverseRecOn with
  | nil => exact ⟨_, books_new⟩
  | append_singleton cs c ih =>
    obtain ⟨t, hb⟩ := ih fun d hd => hK d (List.mem_append_left _ hd)
    rw [run_snoc]
    exact books_step hb hinj c (hK c (List.mem_append_right _ (List.mem_singleton_self _)))

theorem Books.tells (hb : Books ndpiHashString base K cs e t) (hK : ∀ c ∈ cs, ∀ x, c.names = some x → x ∈ K) :
    Tells ndpiHashString cs e := by
  refine ⟨fun c hc x hx => ?_, fun n hn => ?_, ?_⟩
  · rw [hb.files.found x (hK c hc x hx), hb.engaged]
  · obtain ⟨x, hx, rfl⟩ := hb.files.only n hn
    rw [hb.files.found x hx] at hn
    exact ⟨x, (hb.engaged x).mp hn, rfl⟩
  · have hset : held (fun _ => True) t = {x | Engaged cs x} := by
      ext x
      rw [Set.mem_ofPred_eq, ← hb.engaged, held, Set.mem_ofPred_eq, Option.ne_none_iff_exists']
      simp
    rw [hb.number, hset]

/-- A call writes only where its own name is looked for. -/
theorem step_elsewhere {c : Call} {n : ScriptPeriodicity × UInt32}
    (h : ∀ x, c.names = some x → n ≠ place ndpiHashString x) :
    (step ndpiHashString e c).engagedAlerts n = e.engagedAlerts n := by
  cases c with
  | setEntityValue val => rfl
  | triggerAlert a =>
    have hne := h a.names rfl
    show (triggerAlert ndpiHashString e a).2.engagedAlerts n = _
    unfold triggerAlert
    split
    · rfl
    · split
      · exact Function.update_of_ne hne ..
      · rfl
  | releaseAlert key p now =>
    have hne := h (p, key) rfl
    show (releaseAlert ndpiHashString e key p now).2.engagedAlerts n = _
    unfold releaseAlert
    split
    · exact Function.update_of_ne hne ..
    · rfl

theorem Books.does (hb : Books ndpiHashString base K cs e t) (hinj : Set.InjOn (place ndpiHashString) K) {c : Call}
    (hK : ∀ d ∈ cs ++ [c], ∀ x, d.names = some x → x ∈ K) : Does ndpiHashString cs e c := by
  have hc := hK c (List.mem_append_right _ (List.mem_singleton_self _))
  refine ⟨fun d hd x hx hne => ?_, ?_, ?_⟩
  · refine step_elsewhere fun y hy heq => hne ?_
    rw [hy, hinj (hc y hy) (hK d (List.mem_append_left _ hd) x hx) heq.symm]
  · rintro a rfl hval
    have hlook := @Books.lookup _ _ _ _ _ _ hb a.p a.key (hc _ rfl)
    rw [← hb.value] at hval
    constructor
    · intro hnot
      have hnone : t (a.p, a.key) = none := by
        by_contra hne
        exact hnot ((hb.engaged _).mp hne)
      have hcall : call ndpiHashString e (.triggerAlert a) = (some a.alert,
          { incNumAlertsEngaged e a.score with
            engagedAlerts := Function.update e.engagedAlerts (place ndpiHashString a.names) (some a.alert) }) := by
        show triggerAlert ndpiHashString e a = _
        rw [triggerAlert, if_neg hval, hlook, hnone]
        rfl
      rw [step, hcall]
      exact ⟨rfl, Function.update_self ..⟩
    · intro heng
      obtain ⟨al, hal⟩ := Option.ne_none_iff_exists'.mp ((hb.engaged (a.p, a.key)).mpr heng)
      show triggerAlert ndpiHashString e a = _
      rw [triggerAlert, if_neg hval, hlook, hal]
  · rintro key p now rfl
    have hlook := hb.lookup (hc _ rfl)
    constructor
    · intro heng
      obtain ⟨al, hal⟩ := Option.ne_none_iff_exists'.mp ((hb.engaged (p, key)).mpr heng)
      have hcall : call ndpiHashString e (.releaseAlert key p now) = (some { al with lastUpdate := now },
          { decNumAlertsEngaged e al.score.toUInt32 with
            engagedAlerts := Function.update e.engagedAlerts (place ndpiHashString (p, key)) none }) := by
        show releaseAlert ndpiHashString e key p now = _
        rw [releaseAlert, hlook, hal]
        rfl
      rw [step, hcall]
      exact ⟨rfl, Function.update_self ..⟩
    · intro hnot
      have hnone : t (p, key) = none := by
        by_contra hne
        exact hnot ((hb.engaged _).mp hne)
      show releaseAlert ndpiHashString e key p now = _
      rw [releaseAlert, hlook, hnone]

end Step

/-! ## Runs -/

/-- Where no two names are looked for in one place, the entity says what is engaged, and the next call does
    what it is for. -/
theorem entity_law (ndpiHashString : Text → UInt32) (base : AlertLevelGroup → UInt32) (cs : List Call) (c : Call)
    (h : NoCollision ndpiHashString (cs ++ [c])) :
    Tells ndpiHashString cs (run (step ndpiHashString) (.new base) cs) ∧
      Does ndpiHashString cs (run (step ndpiHashString) (.new base) cs) c := by
  have hK : ∀ d ∈ cs ++ [c], ∀ x, d.names = some x → x ∈ {x | ∃ d ∈ cs ++ [c], d.names = some x} :=
    fun d hd x hx => ⟨d, hd, hx⟩
  have hcs : ∀ d ∈ cs, ∀ x, d.names = some x → x ∈ {x | ∃ d ∈ cs ++ [c], d.names = some x} :=
    fun d hd => hK d (List.mem_append_left _ hd)
  obtain ⟨t, hb⟩ := books_run base h cs hcs
  exact ⟨hb.tells hcs, hb.does h hK⟩

/-- A hash of strings: djb2. -/
def djb2 (s : Text) : UInt32 := s.foldl (fun hash c => hash * 33 + c.toUInt32) 5381

def ghosts : Trigger := ⟨[103], .minuteScript, 100, 50, 3, [], [], none, none, 0, 1⟩

/-- Two alerts, the first is released. -/
theorem entity_law_release :
    Tells djb2 [.setEntityValue [101], .triggerAlert ghosts, .triggerAlert { ghosts with key := [104] }]
      (run (step djb2) (.new fun _ => 0)
        [.setEntityValue [101], .triggerAlert ghosts, .triggerAlert { ghosts with key := [104] }]) ∧
    Does djb2 [.setEntityValue [101], .triggerAlert ghosts, .triggerAlert { ghosts with key := [104] }]
      (run (step djb2) (.new fun _ => 0)
        [.setEntityValue [101], .triggerAlert ghosts, .triggerAlert { ghosts with key := [104] }])
      (.releaseAlert [103] .minuteScript 160) := by
  refine entity_law djb2 (fun _ => 0) _ _ fun x hx y hy hxy => ?_
  have hnames : ∀ z : Name, (∃ d ∈ [Call.setEntityValue [101], .triggerAlert ghosts,
      .triggerAlert { ghosts with key := [104] }] ++ [.releaseAlert [103] .minuteScript 160], d.names = some z) →
      z = (.minuteScript, [103]) ∨ z = (.minuteScript, [104]) := by
    rintro z ⟨d, hd, hz⟩
    simp only [List.cons_append, List.nil_append, List.mem_cons, List.not_mem_nil, or_false] at hd
    rcases hd with rfl | rfl | rfl | rfl
    · cases hz
    · exact .inl (Option.some_inj.mp hz).symm
    · exact .inr (Option.some_inj.mp hz).symm
    · exact .inl (Option.some_inj.mp hz).symm
  have hne : place djb2 (.minuteScript, [103]) ≠ place djb2 (.minuteScript, [104]) := by decide
  rcases hnames x hx with rfl | rfl
  · rcases hnames y hy with rfl | rfl
    · rfl
    · exact absurd hxy hne
  · rcases hnames y hy with rfl | rfl
    · exact absurd hxy.symm hne
    · rfl

/-- There are more keys than hashes: two are taken for one alert. -/
theorem keys_mistaken : ¬ ∃ ndpiHashString : Text → UInt32, ∀ (base : AlertLevelGroup → UInt32) (cs : List Call) (c : Call),
    Tells ndpiHashString cs (run (step ndpiHashString) (.new base) cs) ∧
      Does ndpiHashString cs (run (step ndpiHashString) (.new base) cs) c := by
  rintro ⟨hash, hall⟩
  obtain ⟨m, n, hne, heq⟩ := Finite.exists_ne_map_eq_of_infinite fun n : ℕ => numKey hash (List.replicate n 97)
  have hne' : List.replicate m (97 : UInt8) ≠ List.replicate n 97 := fun h => hne (by
    have := congrArg List.length h
    rwa [List.length_replicate, List.length_replicate] at this)
  have hdoes := (hall (fun _ => 0) [.setEntityValue [101], .triggerAlert { ghosts with key := List.replicate m 97 }]
    (.triggerAlert { ghosts with key := List.replicate n 97 })).2
  have hnot : ¬ Engaged [.setEntityValue [101], .triggerAlert { ghosts with key := List.replicate m 97 }]
      (.minuteScript, List.replicate n 97) := by
    intro heng
    obtain ⟨c, hc, hname⟩ := heng.named
    simp only [List.mem_cons, List.not_mem_nil, or_false] at hc
    rcases hc with rfl | rfl
    · cases hname
    · exact hne' (congrArg Prod.snd (Option.some_inj.mp hname))
  have hgiven := ((hdoes.trigger _ rfl (by simp [valueAfter])).1 hnot).1
  simp [run, step, call, triggerAlert, Entity.new, ghosts, heq] at hgiven

/-! ## The interface -/

/-- With scores of one byte, the interface counts what is engaged by severity, on top of what it had. -/
theorem interface_counts {ndpiHashString : Text → UInt32} {base : AlertLevelGroup → UInt32} {cs : List Call}
    (h : NoCollision ndpiHashString cs) (hscores : ∀ a, .triggerAlert a ∈ cs → a.score < 256) {g : AlertLevelGroup}
    (hg : g ≠ .none) :
    (run (step ndpiHashString) (.new base) cs).iface g = base g + UInt32.ofNat
      {n | ∃ al, (run (step ndpiHashString) (.new base) cs).engagedAlerts n = some al ∧
        severityOf al.score.toUInt32 = g}.ncard := by
  obtain ⟨t, hb⟩ := books_run base h cs fun c hc x hx => ⟨c, hc, hx⟩
  have himage : {n | ∃ al, (run (step ndpiHashString) (.new base) cs).engagedAlerts n = some al ∧
      severityOf al.score.toUInt32 = g} =
      place ndpiHashString '' held (fun al : Alert => severityOf al.score.toUInt32 = g) t := by
    ext n
    constructor
    · rintro ⟨al, hal, hsev⟩
      obtain ⟨x, hx, rfl⟩ := hb.files.only n (by rw [hal]; simp)
      rw [hb.files.found x hx] at hal
      exact ⟨x, ⟨al, hal, hsev⟩, rfl⟩
    · rintro ⟨x, ⟨al, hal, hsev⟩, rfl⟩
      have hx := hb.files.inside x (by rw [hal]; simp)
      exact ⟨al, by rw [hb.files.found x hx, hal], hsev⟩
  have hinj : Set.InjOn (place ndpiHashString) (held (fun al : Alert => severityOf al.score.toUInt32 = g) t) := by
    refine Set.InjOn.mono (fun x hx => ?_) h
    obtain ⟨al, hal, -⟩ := hx
    exact hb.files.inside x (by rw [hal]; simp)
  rw [hb.iface hscores g hg, himage, hinj.ncard_image]

/-- Triggered with a score of 300 an alert is counted in as an emergency, and out as a notice (44). -/
theorem severity_drifts (ndpiHashString : Text → UInt32) (key : Text) (p : ScriptPeriodicity) (now : Int) :
    (run (step ndpiHashString) (.new fun _ => 0)
      [.setEntityValue [101], .triggerAlert { ghosts with score := 300, key := key, p := p },
        .releaseAlert key p now]).iface .emergency = 1 := by
  simp [run, step, call, triggerAlert, releaseAlert, Entity.new, ghosts, incNumAlertsEngaged, decNumAlertsEngaged,
    countSeverity, Trigger.alert]
  decide

end Ntopng.Hosts.OtherEngaged
