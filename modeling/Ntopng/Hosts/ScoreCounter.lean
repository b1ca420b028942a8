/-
  Ntopng.Hosts.ScoreCounter — a counter that goes down slowly
  (src/ScoreCounter.cpp, include/ScoreCounter.h).

  `inc` shows at once. After a `dec` what `get` returns goes down along a line, from the
  value before it to the one after it, within 60 seconds. The rate of the line is a
  rational number here. Calls come at times that do not go back.

  An observer (`Watched`) adds up what was counted and notes what was shown before the
  decreases that are still pending. What it expects of a call is `Steady`: between the
  total and what was shown before, without a jump but at an `inc`, no faster than the line,
  at the total a minute after the last decrease.

  Proved, for every run in which no decrease exceeds the total (`watch_law`): each call is
  as expected exactly if the total stays in 32 bits and no decrease comes while an earlier
  one is pending. The line of the second starts at the value, not at what is shown: the
  rest of the first is dropped at once (`second_dec_jumps`).
-/

import Ntopng.Lib.Run
import Ntopng.Lib.Ramp

namespace Ntopng.Hosts

open Ntopng.Lib.Run Ntopng.Lib.Ramp

/-! ## The counter -/

structure ScoreCounter where
  value : UInt32
  decayTime : UInt32
  /-- Old value before decrease. -/
  beta : UInt32
  /-- Linear decrease rate. -/
  alpha : ℚ
  deriving DecidableEq, Repr

namespace ScoreCounter

def new : ScoreCounter := ⟨0, 0, 0, 0⟩

def defaultDecayTime : UInt32 := 60

def inc (c : ScoreCounter) (score : UInt16) : ScoreCounter :=
  { c with value := c.value + score.toUInt32, decayTime := 0 }

def dec (c : ScoreCounter) (now : UInt32) (score : UInt16) : ScoreCounter :=
  if score.toUInt32 ≤ c.value then
    let value := c.value - score.toUInt32
    { value, decayTime := now + defaultDecayTime, beta := c.value
      alpha := (c.value - value).toNat / defaultDecayTime.toNat }
  else { c with value := 0 }

/-- What is returned, and the counter after it. -/
def get (c : ScoreCounter) (now : UInt32) : UInt32 × ScoreCounter :=
  if c.decayTime = 0 then (c.value, c)
  else if c.decayTime < now then (c.value, { c with decayTime := 0 })
  else
    let tDiff := c.decayTime - now
    let tPast := defaultDecayTime - tDiff
    (c.beta - UInt32.ofNat ⌊c.alpha * tPast.toNat⌋₊, c)

/-- A decrease is under way: its line has not come to its end. -/
def Pending (c : ScoreCounter) (now : UInt32) : Prop := c.decayTime ≠ 0 ∧ now < c.decayTime ∧ c.value < c.beta

instance (c : ScoreCounter) (now : UInt32) : Decidable (c.Pending now) :=
  inferInstanceAs (Decidable (_ ∧ _ ∧ _))

end ScoreCounter

/-! ## The observer -/

inductive Call where
  | inc (score : UInt16)
  | dec (score : UInt16)
  | get
  deriving DecidableEq, Repr

/-- A call and the time `get_current_time` gives in it. -/
structure TimedCall where
  call : Call
  time : UInt32
  deriving DecidableEq, Repr

structure Watched where
  counter : ScoreCounter
  /-- The sum of the increases less that of the decreases. -/
  total : ℕ
  /-- What was shown when nothing was pending. -/
  before : ℕ
  lastDec : UInt32
  now : UInt32

namespace Watched

def start : Watched := ⟨.new, 0, 0, 0, 0⟩

/-- What `get` returns at `t`. -/
def shows (s : Watched) (t : UInt32) : ℕ := (s.counter.get t).1.toNat

def step (s : Watched) (e : TimedCall) : Watched :=
  match e.call with
  | .inc score =>
    { s with counter := s.counter.inc score, total := s.total + score.toNat, before := s.total + score.toNat, now := e.time }
  | .dec score =>
    { s with counter := s.counter.dec e.time score, total := s.total - score.toNat
             before := if s.shows e.time = s.total then s.total else s.before
             lastDec := e.time, now := e.time }
  | .get => { s with counter := (s.counter.get e.time).2, now := e.time }

/-- Time does not go back, and no decrease exceeds the total. -/
def Allowed (s : Watched) (e : TimedCall) : Prop :=
  s.now ≤ e.time ∧
    match e.call with
    | .dec score => score.toNat ≤ s.total
    | _ => True

/-- What is expected of a call, from its time to the next. -/
structure Steady (s : Watched) (e : TimedCall) : Prop where
  between : ∀ t, e.time ≤ t → (s.step e).total ≤ (s.step e).shows t ∧ (s.step e).shows t ≤ (s.step e).before
  /-- Only an increase changes what is shown at its instant. -/
  noJump : (∀ score, e.call ≠ .inc score) → (s.step e).shows e.time = s.shows e.time
  falls : ∀ t u, e.time ≤ t → t ≤ u → (s.step e).shows u ≤ (s.step e).shows t
  /-- No faster than from what was shown before to the total in 60 seconds, up to the rounding. -/
  slowly : ∀ t u, e.time ≤ t → t ≤ u →
    60 * ((s.step e).shows t - (s.step e).shows u) <
      ((s.step e).before - (s.step e).total) * (u.toNat - t.toNat) + 60
  settles : ∀ t, e.time ≤ t → (s.step e).lastDec.toNat + 60 ≤ t.toNat → (s.step e).shows t = (s.step e).total

/-- The total stays in 32 bits, and a decrease comes when none is pending and its end is in 32 bits. -/
def Settled (s : Watched) (e : TimedCall) : Prop :=
  match e.call with
  | .inc score => s.counter.value.toNat + score.toNat < 2 ^ 32
  | .dec score => ¬ s.counter.Pending e.time ∧ (score = 0 ∨ e.time.toNat + 60 < 2 ^ 32)
  | .get => True

instance (s : Watched) (e : TimedCall) : Decidable (s.Allowed e) :=
  match e with
  | ⟨.inc _, _⟩ => inferInstanceAs (Decidable (_ ∧ True))
  | ⟨.dec _, _⟩ => inferInstanceAs (Decidable (_ ∧ _ ≤ _))
  | ⟨.get, _⟩ => inferInstanceAs (Decidable (_ ∧ True))

instance (s : Watched) (e : TimedCall) : Decidable (s.Settled e) :=
  match e with
  | ⟨.inc _, _⟩ => inferInstanceAs (Decidable (_ < _))
  | ⟨.dec _, _⟩ => inferInstanceAs (Decidable (_ ∧ (_ ∨ _)))
  | ⟨.get, _⟩ => inferInstanceAs (Decidable True)

end Watched

/-! ## What is shown -/

namespace ScoreCounter

theorem get_zero {c : ScoreCounter} (h : c.decayTime = 0) (t : UInt32) : (c.get t).1 = c.value := by
  rw [get, if_pos h]

theorem get_over {c : ScoreCounter} {t : UInt32} (h : c.decayTime < t) : (c.get t).1 = c.value := by
  unfold get
  split
  · rfl
  · rfl

theorem get_level {c : ScoreCounter} (hrate : c.alpha = 0) (hbeta : c.beta = c.value) (t : UInt32) :
    (c.get t).1 = c.value := by
  unfold get
  split
  · rfl
  · split
    · rfl
    · simp only [hrate, hbeta, zero_mul, Nat.floor_zero]
      exact UInt32.sub_zero _

/-- The rate is a whole number over 60, so what is taken off is a quotient of whole numbers. -/
theorem floor_rate (d p : ℕ) : ⌊((d : ℚ) / (defaultDecayTime.toNat : ℚ)) * (p : ℚ)⌋₊ = d * p / 60 := by
  have h60 : (defaultDecayTime.toNat : ℚ) = ((60 : ℕ) : ℚ) := rfl
  rw [h60, div_mul_eq_mul_div, ← Nat.cast_mul, Nat.floor_div_eq_div]

end ScoreCounter

namespace Watched

variable {s : Watched} {e : TimedCall} {t : UInt32}

/-- What the counter knows of the total: it rests, its line is level, or it is on the way down from what was
    shown before the decrease. -/
inductive OnLine (s : Watched) : Prop
  | rests (h : s.counter.decayTime = 0)
  | level (hrate : s.counter.alpha = 0) (hbeta : s.counter.beta = s.counter.value)
  | falling (htime : s.counter.decayTime.toNat = s.lastDec.toNat + 60) (hlast : s.lastDec ≤ s.now)
      (hbeta : s.counter.beta.toNat = s.before) (hrate : s.counter.alpha = ((s.before - s.total : ℕ) : ℚ) / (60 : ℕ))

structure Inv (s : Watched) : Prop where
  value : s.counter.value.toNat = s.total
  before : s.total ≤ s.before
  line : OnLine s

theorem inv_start : Inv start := ⟨rfl, le_refl _, .rests rfl⟩

/-- On the way down the counter shows the ramp, from the last decrease on. -/
theorem shows_falling (htime : s.counter.decayTime.toNat = s.lastDec.toNat + 60) (hlast : s.lastDec ≤ t)
    (hvalue : s.counter.value.toNat = s.total) (hbefore : s.total ≤ s.before)
    (hbeta : s.counter.beta.toNat = s.before) (hrate : s.counter.alpha = ((s.before - s.total : ℕ) : ℚ) / (60 : ℕ)) :
    s.shows t = ramp s.before s.total 60 (min (t.toNat - s.lastDec.toNat) 60) := by
  rw [UInt32.le_iff_toNat_le] at hlast
  by_cases hover : s.counter.decayTime < t
  · have hlt := hover
    rw [UInt32.lt_iff_toNat_lt] at hlt
    rw [shows, ScoreCounter.get_over hover, hvalue, Nat.min_eq_right (by omega), ramp_full (by decide) hbefore]
  · have hle := hover
    rw [UInt32.lt_iff_toNat_lt] at hle
    have hzero : s.counter.decayTime ≠ 0 := by
      intro h
      rw [h] at htime
      simp at htime
    have hdiff : (s.counter.decayTime - t).toNat = s.lastDec.toNat + 60 - t.toNat := by
      rw [UInt32.toNat_sub_of_le _ _ (UInt32.le_iff_toNat_le.mpr (by omega)), htime]
    have hpast : (ScoreCounter.defaultDecayTime - (s.counter.decayTime - t)).toNat = t.toNat - s.lastDec.toNat := by
      have h60 : ScoreCounter.defaultDecayTime.toNat = 60 := rfl
      rw [UInt32.toNat_sub_of_le _ _ (UInt32.le_iff_toNat_le.mpr (by omega)), hdiff]
      omega
    have hgone := gone_le (b := s.before) (v := s.total) (n := 60) (p := t.toNat - s.lastDec.toNat) (by omega)
    have hbound := s.counter.beta.toNat_lt
    have hfloor : (UInt32.ofNat ⌊s.counter.alpha *
        ((ScoreCounter.defaultDecayTime - (s.counter.decayTime - t)).toNat : ℚ)⌋₊).toNat =
        (s.before - s.total) * (t.toNat - s.lastDec.toNat) / 60 := by
      rw [hrate, hpast]
      have := ScoreCounter.floor_rate (s.before - s.total) (t.toNat - s.lastDec.toNat)
      rw [show ((ScoreCounter.defaultDecayTime.toNat : ℕ) : ℚ) = ((60 : ℕ) : ℚ) from rfl] at this
      rw [this]
      exact UInt32.toNat_ofNat_of_lt' (by show _ < 2 ^ 32; omega)
    rw [Nat.min_eq_left (by omega), ramp, shows, ScoreCounter.get, if_neg hzero, if_neg hover]
    simp only []
    rw [UInt32.toNat_sub_of_le, hbeta, hfloor]
    rw [UInt32.le_iff_toNat_le, hfloor, hbeta]
    omega

/-- One line at a time: what is shown is a ramp to the total, level or from what was shown before. -/
theorem shows_ramp (h : Inv s) : ∃ b, s.total ≤ b ∧ b ≤ s.before ∧
    ∀ t, s.now ≤ t → s.shows t = ramp b s.total 60 (min (t.toNat - s.lastDec.toNat) 60) := by
  cases h.line with
  | rests hzero =>
    refine ⟨s.total, le_refl _, h.before, fun t _ => ?_⟩
    rw [ramp_self, shows, ScoreCounter.get_zero hzero, h.value]
  | level hrate hbeta =>
    refine ⟨s.total, le_refl _, h.before, fun t _ => ?_⟩
    rw [ramp_self, shows, ScoreCounter.get_level hrate hbeta, h.value]
  | falling htime hlast hbeta hrate =>
    exact ⟨s.before, h.before, le_refl _, fun t ht =>
      shows_falling htime (UInt32.le_trans hlast ht) h.value h.before hbeta hrate⟩

theorem pending_iff (h : Inv s) (ht : s.now ≤ t) : s.counter.Pending t ↔ s.shows t ≠ s.total := by
  cases h.line with
  | rests hzero =>
    rw [shows, ScoreCounter.get_zero hzero, h.value]
    exact ⟨fun hp => absurd hzero hp.1, fun hne => absurd rfl hne⟩
  | level hrate hbeta =>
    rw [shows, ScoreCounter.get_level hrate hbeta, h.value]
    refine ⟨fun hp => absurd hp.2.2 ?_, fun hne => absurd rfl hne⟩
    rw [hbeta, UInt32.lt_iff_toNat_lt]
    omega
  | falling htime hlast hbeta hrate =>
    have hlast' := UInt32.le_trans hlast ht
    have hshows := shows_falling htime hlast' h.value h.before hbeta hrate
    rw [UInt32.le_iff_toNat_le] at hlast'
    rw [hshows]
    constructor
    · intro hp
      have hlt := UInt32.lt_iff_toNat_lt.mp hp.2.1
      have hbelow := UInt32.lt_iff_toNat_lt.mp hp.2.2
      rw [h.value, hbeta] at hbelow
      have := lt_ramp (b := s.before) (v := s.total) (n := 60) (p := min (t.toNat - s.lastDec.toNat) 60) (by omega) hbelow
      omega
    · intro hne
      have hbelow : s.total < s.before := by
        refine Nat.lt_of_le_of_ne h.before fun heq => hne ?_
        rw [heq, ramp_self]
      have htime' : t.toNat - s.lastDec.toNat < 60 := by
        refine Nat.lt_of_not_le fun hle => hne ?_
        rw [Nat.min_eq_right hle, ramp_full (by decide) h.before]
      refine ⟨?_, UInt32.lt_iff_toNat_lt.mpr (by omega), UInt32.lt_iff_toNat_lt.mpr (by rw [h.value, hbeta]; exact hbelow)⟩
      intro hzero
      rw [hzero] at htime
      simp at htime

theorem total_le_shows (h : Inv s) (ht : s.now ≤ t) : s.total ≤ s.shows t := by
  obtain ⟨b, hb, -, hramp⟩ := shows_ramp h
  rw [hramp t ht]
  exact le_ramp (Nat.min_le_right _ _) hb

/-! ## One call -/

/-- Right after a decrease the value before it is shown, or the one after it where the end of the line does not
    fit in 32 bits. -/
theorem dec_get {c : ScoreCounter} {score : UInt16} (hscore : score.toUInt32 ≤ c.value) (now : UInt32) :
    ((c.dec now score).get now).1 = if now.toNat + 60 < 2 ^ 32 then c.value else c.value - score.toUInt32 := by
  have hnow := now.toNat_lt
  have hsum : (now + ScoreCounter.defaultDecayTime).toNat = (now.toNat + 60) % 2 ^ 32 := UInt32.toNat_add ..
  rw [ScoreCounter.dec, if_pos hscore]
  by_cases hfit : now.toNat + 60 < 2 ^ 32
  · have hzero : now + ScoreCounter.defaultDecayTime ≠ 0 := by
      intro h
      rw [h] at hsum
      simp at hsum
      omega
    have hlater : ¬ now + ScoreCounter.defaultDecayTime < now := by
      rw [UInt32.lt_iff_toNat_lt, hsum]
      omega
    have hpast : ScoreCounter.defaultDecayTime - (now + ScoreCounter.defaultDecayTime - now) = 0 := by
      rw [UInt32.add_comm, UInt32.add_sub_cancel, UInt32.sub_self]
    rw [ScoreCounter.get, if_neg hzero, if_neg hlater, if_pos hfit]
    simp only [hpast, UInt32.toNat_zero, Nat.cast_zero, mul_zero, Nat.floor_zero]
    exact UInt32.sub_zero _
  · rw [if_neg hfit]
    exact ScoreCounter.get_over (by rw [UInt32.lt_iff_toNat_lt]; show (now + _).toNat < _; rw [hsum]; omega)

theorem toNat_sub_score {c : ScoreCounter} {score : UInt16} (hscore : score.toUInt32 ≤ c.value) :
    (c.value - score.toUInt32).toNat = c.value.toNat - score.toNat := by
  rw [UInt32.toNat_sub_of_le _ _ hscore, UInt16.toNat_toUInt32]

theorem score_le (hinv : Inv s) {score : UInt16} (h : score.toNat ≤ s.total) : score.toUInt32 ≤ s.counter.value := by
  rw [UInt32.le_iff_toNat_le, UInt16.toNat_toUInt32, hinv.value]
  exact h

theorem inv_inc (hinv : Inv s) {score : UInt16} (t : UInt32) (hset : s.counter.value.toNat + score.toNat < 2 ^ 32) :
    Inv (s.step ⟨.inc score, t⟩) := by
  refine ⟨?_, le_refl _, .rests rfl⟩
  show (s.counter.value + score.toUInt32).toNat = s.total + score.toNat
  rw [UInt32.toNat_add, UInt16.toNat_toUInt32, Nat.mod_eq_of_lt hset, hinv.value]

theorem inv_dec (hinv : Inv s) {score : UInt16} {t : UInt32} (ht : s.now ≤ t) (hscore : score.toNat ≤ s.total)
    (hpend : ¬ s.counter.Pending t) (hfit : score = 0 ∨ t.toNat + 60 < 2 ^ 32) : Inv (s.step ⟨.dec score, t⟩) := by
  have hle := score_le hinv hscore
  have hdec := toNat_sub_score hle
  have hshown : s.shows t = s.total := by
    by_contra hne
    exact hpend ((pending_iff hinv ht).mpr hne)
  have hbefore : (s.step ⟨.dec score, t⟩).before = s.total := if_pos hshown
  have hcounter : (s.step ⟨.dec score, t⟩).counter = s.counter.dec t score := rfl
  rw [ScoreCounter.dec, if_pos hle] at hcounter
  have htotal : (s.step ⟨.dec score, t⟩).total = s.total - score.toNat := rfl
  refine ⟨?_, ?_, ?_⟩
  · rw [hcounter, htotal, ← hinv.value]
    exact hdec
  · rw [hbefore, htotal]
    exact Nat.sub_le _ _
  · rcases hfit with rfl | hfit
    · have hsame : s.counter.value - UInt16.toUInt32 0 = s.counter.value := UInt32.sub_zero _
      refine .level ?_ ?_
      · rw [hcounter]
        simp only [hsame, UInt32.sub_self, UInt32.toNat_zero, Nat.cast_zero, zero_div]
      · rw [hcounter]
        exact hsame.symm
    · refine .falling ?_ (UInt32.le_refl _) ?_ ?_
      · rw [hcounter]
        show (t + ScoreCounter.defaultDecayTime).toNat = t.toNat + 60
        rw [UInt32.toNat_add]
        exact Nat.mod_eq_of_lt hfit
      · rw [hcounter, hbefore]
        exact hinv.value
      · rw [hcounter, hbefore, htotal]
        have hdrop : (s.counter.value - (s.counter.value - score.toUInt32)).toNat = s.total - (s.total - score.toNat) := by
          rw [UInt32.toNat_sub_of_le, hdec, hinv.value]
          rw [UInt32.le_iff_toNat_le, hdec]
          exact Nat.sub_le _ _
        show ((s.counter.value - (s.counter.value - score.toUInt32)).toNat : ℚ) / _ = _
        rw [hdrop]
        rfl

theorem inv_get (hinv : Inv s) {t : UInt32} (ht : s.now ≤ t) : Inv (s.step ⟨.get, t⟩) := by
  have hcases : (s.counter.get t).2 = s.counter ∨ (s.counter.get t).2 = { s.counter with decayTime := 0 } := by
    unfold ScoreCounter.get
    split
    · exact .inl rfl
    · split
      · exact .inr rfl
      · exact .inl rfl
  rcases hcases with hsame | hover
  · have hstep : s.step ⟨.get, t⟩ = { s with now := t } := by
      show { s with counter := (s.counter.get t).2, now := t } = _
      rw [hsame]
    rw [hstep]
    refine ⟨hinv.value, hinv.before, ?_⟩
    cases hinv.line with
    | rests hzero => exact .rests hzero
    | level hrate hbeta => exact .level hrate hbeta
    | falling htime hlast hbeta hrate => exact .falling htime (UInt32.le_trans hlast ht) hbeta hrate
  · have hstep : s.step ⟨.get, t⟩ = { s with counter := { s.counter with decayTime := 0 }, now := t } := by
      show { s with counter := (s.counter.get t).2, now := t } = _
      rw [hover]
    rw [hstep]
    exact ⟨hinv.value, hinv.before, .rests rfl⟩

theorem inv_step (hinv : Inv s) (ha : s.Allowed e) (hset : s.Settled e) : Inv (s.step e) := by
  obtain ⟨call, t⟩ := e
  cases call with
  | inc score => exact inv_inc hinv t hset
  | dec score => exact inv_dec hinv ha.1 ha.2 hset.1 hset.2
  | get => exact inv_get hinv ha.1

/-- What the line gives, for as long as nothing is called. -/
theorem steady_of_inv (h : Inv (s.step e)) (hnow : (s.step e).now = e.time)
    (hjump : (∀ score, e.call ≠ .inc score) → (s.step e).shows e.time = s.shows e.time) : Steady s e := by
  obtain ⟨b, hlow, hhigh, hramp⟩ := shows_ramp h
  rw [hnow] at hramp
  refine ⟨fun t ht => ?_, hjump, fun t u ht hu => ?_, fun t u ht hu => ?_, fun t ht hlate => ?_⟩
  · rw [hramp t ht]
    exact ⟨le_ramp (Nat.min_le_right _ _) hlow, le_trans ramp_le hhigh⟩
  · rw [hramp t ht, hramp u (UInt32.le_trans ht hu)]
    rw [UInt32.le_iff_toNat_le] at hu
    exact ramp_anti (by omega)
  · rw [hramp t ht, hramp u (UInt32.le_trans ht hu)]
    rw [UInt32.le_iff_toNat_le] at hu
    refine lt_of_lt_of_le (ramp_rate (by decide) (by omega) (Nat.min_le_right _ _)) ?_
    refine Nat.add_le_add_right (Nat.mul_le_mul (by omega) (by omega)) 60
  · rw [hramp t ht, Nat.min_eq_right (by omega), ramp_full (by decide) hlow]

theorem step_now : (s.step e).now = e.time := by
  obtain ⟨call, t⟩ := e
  cases call <;> rfl

/-- A decrease changes nothing at its instant exactly if none was pending and its own end fits. -/
theorem dec_steady_iff (hinv : Inv s) {score : UInt16} {t : UInt32} (ht : s.now ≤ t) (hscore : score.toNat ≤ s.total) :
    (s.step ⟨.dec score, t⟩).shows t = s.shows t ↔
      ¬ s.counter.Pending t ∧ (score = 0 ∨ t.toNat + 60 < 2 ^ 32) := by
  have hle := score_le hinv hscore
  have hafter : (s.step ⟨.dec score, t⟩).shows t =
      if t.toNat + 60 < 2 ^ 32 then s.total else s.total - score.toNat := by
    show ((s.counter.dec t score).get t).1.toNat = _
    rw [dec_get hle, apply_ite UInt32.toNat, toNat_sub_score hle, hinv.value]
  have hlow := total_le_shows hinv ht
  have hzero : score = 0 ↔ score.toNat = 0 := by rw [← UInt16.toNat_inj, UInt16.toNat_zero]
  rw [hafter, pending_iff hinv ht, not_ne_iff, hzero]
  split <;> omega

theorem steady_iff (hinv : Inv s) (ha : s.Allowed e) : s.Steady e ↔ s.Settled e := by
  constructor
  · intro h
    obtain ⟨call, t⟩ := e
    cases call with
    | inc score =>
      have hlow := (h.between t (UInt32.le_refl _)).1
      have hshown : (s.step ⟨.inc score, t⟩).shows t = (s.counter.value.toNat + score.toNat) % 2 ^ 32 := by
        rw [shows, ScoreCounter.get_zero rfl]
        show (s.counter.value + score.toUInt32).toNat = _
        rw [UInt32.toNat_add, UInt16.toNat_toUInt32]
      rw [hshown] at hlow
      have htotal : (s.step ⟨.inc score, t⟩).total = s.counter.value.toNat + score.toNat := by
        rw [hinv.value]
        rfl
      rw [htotal] at hlow
      refine Nat.lt_of_not_le fun hover => ?_
      have := Nat.mod_lt (s.counter.value.toNat + score.toNat) (by decide : 0 < 2 ^ 32)
      omega
    | dec score => exact (dec_steady_iff hinv ha.1 ha.2).mp (h.noJump fun _ hcall => by cases hcall)
    | get => trivial
  · intro hset
    refine steady_of_inv (inv_step hinv ha hset) step_now fun hinc => ?_
    obtain ⟨call, t⟩ := e
    cases call with
    | inc score => exact absurd rfl (hinc score)
    | dec score => exact (dec_steady_iff hinv ha.1 ha.2).mpr hset
    | get =>
      show ((s.counter.get t).2.get t).1.toNat = (s.counter.get t).1.toNat
      unfold ScoreCounter.get
      split
      · simp
      · split
        · simp
        · simp

/-! ## Runs -/

theorem along_steady_iff {es : List TimedCall} (hinv : Inv s) (ha : Along step Allowed s es) :
    Along step Steady s es ↔ Along step Settled s es := by
  induction es generalizing s with
  | nil => exact Iff.rfl
  | cons e es ih =>
    constructor
    · intro h
      have hset := (steady_iff hinv ha.1).mp h.1
      exact ⟨hset, (ih (inv_step hinv ha.1 hset) ha.2).mp h.2⟩
    · intro h
      exact ⟨(steady_iff hinv ha.1).mpr h.1, (ih (inv_step hinv ha.1 h.1) ha.2).mpr h.2⟩

/-- Each call of a run is as expected exactly if the total stays in 32 bits and no decrease comes while an
    earlier one is pending. -/
theorem watch_law (es : List TimedCall) (ha : Along step Allowed start es) :
    Along step Steady start es ↔ Along step Settled start es :=
  along_steady_iff inv_start ha

/-- A decrease, a look half way, and another decrease when the first is over. -/
theorem watch_law_decreases : Along step Steady start
    [⟨.inc 100, 0⟩, ⟨.dec 60, 0⟩, ⟨.get, 30⟩, ⟨.dec 10, 60⟩] :=
  (watch_law [⟨.inc 100, 0⟩, ⟨.dec 60, 0⟩, ⟨.get, 30⟩, ⟨.dec 10, 60⟩] (by decide)).mpr (by decide)

/-- 70 is shown half way from 100 to 40; a decrease of 10 at that instant brings it to 40. -/
theorem second_dec_jumps : ¬ ∀ es : List TimedCall, Along step Allowed start es → Along step Steady start es := by
  intro hall
  have h := hall [⟨.inc 100, 0⟩, ⟨.dec 60, 0⟩, ⟨.dec 10, 30⟩] (by decide)
  have hjump := h.2.2.1.noJump fun _ hcall => by cases hcall
  revert hjump
  decide +kernel

theorem time_after {es : List TimedCall} (ha : Along step Allowed s es) : ∀ x ∈ es, s.now ≤ x.time := by
  induction es generalizing s with
  | nil => exact fun x hx => absurd hx List.not_mem_nil
  | cons e es ih =>
    intro x hx
    rcases List.mem_cons.mp hx with rfl | hx
    · exact ha.1.1
    · have hlater := ih ha.2 x hx
      rw [step_now] at hlater
      exact UInt32.le_trans ha.1.1 hlater

/-- Over calls that are no increase, what is shown later is never more. -/
theorem never_rises {es : List TimedCall} (hinv : Inv s) (ha : Along step Allowed s es) (hs : Along step Settled s es)
    (hno : ∀ e ∈ es, ∀ score, e.call ≠ .inc score) {t u : UInt32} (ht : s.now ≤ t) (hfirst : ∀ e ∈ es, t ≤ e.time)
    (hlast : ∀ e ∈ es, e.time ≤ u) (hu : t ≤ u) : (run step s es).shows u ≤ s.shows t := by
  induction es generalizing s t with
  | nil =>
    obtain ⟨b, -, -, hramp⟩ := shows_ramp hinv
    rw [run_nil, hramp t ht, hramp u (UInt32.le_trans ht hu)]
    rw [UInt32.le_iff_toNat_le] at hu
    exact ramp_anti (by omega)
  | cons e es ih =>
    have hsteady := (steady_iff hinv ha.1).mpr hs.1
    have hnow : t ≤ e.time := hfirst e (List.mem_cons_self ..)
    have htail := time_after ha.2
    have hrest := ih (inv_step hinv ha.1 hs.1) ha.2 hs.2 (fun x hx => hno x (List.mem_cons_of_mem _ hx))
      (t := e.time) (by rw [step_now]; exact UInt32.le_refl _) (by rw [step_now] at htail; exact htail)
      (fun x hx => hlast x (List.mem_cons_of_mem _ hx)) (hlast e (List.mem_cons_self ..))
    rw [hsteady.noJump (hno e (List.mem_cons_self ..))] at hrest
    obtain ⟨b, -, -, hramp⟩ := shows_ramp hinv
    refine le_trans hrest ?_
    rw [hramp t ht, hramp e.time (UInt32.le_trans ht hnow)]
    rw [UInt32.le_iff_toNat_le] at hnow
    exact ramp_anti (by omega)

end Watched

end Ntopng.Hosts
