/-
  Ntopng.Pool.RoundTime — when a periodic activity is due next
  (src/Utils.cpp, src/ThreadedActivity.cpp).

  `roundTime` goes to the end of the running period in UTC, takes the offset from UTC
  off, and moves on by whole periods until the result lies after `now`. It never moves
  back. All of it is 32-bit unsigned, also the negated offset.

  Proved, where no sum leaves the 32 bits (`InRange`):
  (1) The loop ends (`roundTime_terminates`), with a time after `now` that is aligned to
      the local periods (`roundTime_aligned`).
  (2) It is the first such time exactly if the offset, taken off, does not reach past
      the end of the running local period (`roundTime_law`): always for an offset that is
      not negative, and for a negative one only if it is not longer than what has gone by
      of the period. West of UTC an activity is put off by the whole offset
      (`west_of_utc`).
  Outside of the range the loop can run for ever (`roundTime_stuck`).
-/

import Mathlib

namespace Ntopng.Pool

/-! ## The code -/

/-- `while (result <= now) result += rounder`, for at most `fuel` rounds. -/
def roundLoop (now rounder : UInt32) : Nat → UInt32 → Option UInt32
  | 0, _ => none
  | fuel + 1, result => if result ≤ now then roundLoop now rounder fuel (result + rounder) else some result

/-- What the loop starts from: `now - (now % rounder)`, `+= rounder`, `+= -offset_from_utc`. -/
def roundStart (now rounder : UInt32) (offsetFromUtc : Int32) : UInt32 :=
  now - now % rounder + rounder + (-offsetFromUtc).toUInt32

/-- `Utils::roundTime`; `none` while the loop runs. -/
def roundTime (fuel : Nat) (now rounder : UInt32) (offsetFromUtc : Int32) : Option UInt32 :=
  roundLoop now rounder fuel (roundStart now rounder offsetFromUtc)

/-- The call ends, with `t`. -/
def RoundsTo (now rounder : UInt32) (offsetFromUtc : Int32) (t : UInt32) : Prop :=
  ∃ fuel, roundTime fuel now rounder offsetFromUtc = some t

/-! ## What it is for -/

/-- The times after `now` that are whole periods of the local clock. -/
def Due (now rounder offset : ℤ) : Set ℤ := {t | now < t ∧ rounder ∣ t + offset}

/-- The first sum of the code over the integers. -/
def startSum (now rounder offset : ℤ) : ℤ := now - now % rounder + rounder - offset

/-- The sums of the code stay inside the 32 bits: the negated offset, the end of the period, the same without
    the offset, and what the loop adds up to. -/
structure InRange (now rounder offset : ℤ) : Prop where
  neg : -offset < 2 ^ 31
  period : now - now % rounder + rounder < 2 ^ 32
  start : 0 ≤ startSum now rounder offset ∧ startSum now rounder offset < 2 ^ 32
  loop : ∀ k : ℕ, startSum now rounder offset + k * rounder ≤ now →
    startSum now rounder offset + (k + 1) * rounder < 2 ^ 32

/-! ## The first time that is due -/

section Due

variable {now rounder offset t : ℤ}

theorem due_add (h : rounder ∣ t + offset) (k : ℤ) : rounder ∣ t + k * rounder + offset := by
  rw [show t + k * rounder + offset = t + offset + k * rounder by ring]
  exact dvd_add h (dvd_mul_left rounder k)

/-- The first time due is the one within a period of `now`. -/
theorem isLeast_due_iff (hr : 0 < rounder) :
    IsLeast (Due now rounder offset) t ↔ t ∈ Due now rounder offset ∧ t ≤ now + rounder := by
  constructor
  · intro h
    refine ⟨h.1, ?_⟩
    by_contra hlate
    have hback : t - rounder ∈ Due now rounder offset := by
      refine ⟨by omega, ?_⟩
      have := due_add h.1.2 (-1)
      rwa [show t + -1 * rounder = t - rounder by ring] at this
    have := h.2 hback
    omega
  · intro h
    refine ⟨h.1, fun t' ht' => ?_⟩
    by_contra hlt
    have hdvd : rounder ∣ t - t' := by
      have := dvd_sub h.1.2 ht'.2
      rwa [show t + offset - (t' + offset) = t - t' by ring] at this
    have hle := Int.le_of_dvd (by omega) hdvd
    have := ht'.1
    omega

/-- A period away from the last time, only the start can leave the range. -/
theorem InRange.of_start (hr : 0 < rounder) (hneg : -offset < 2 ^ 31) (hnow : 0 ≤ now ∧ now + rounder < 2 ^ 32)
    (hstart : 0 ≤ startSum now rounder offset ∧ startSum now rounder offset < 2 ^ 32) : InRange now rounder offset := by
  refine ⟨hneg, ?_, hstart, fun k hk => ?_⟩
  · have := Int.emod_nonneg now (by omega : rounder ≠ 0)
    omega
  · rw [add_mul, one_mul]
    omega

theorem startSum_dvd : rounder ∣ startSum now rounder offset + offset := by
  have h : startSum now rounder offset + offset = now - now % rounder + rounder := by
    unfold startSum
    ring
  rw [h]
  exact dvd_add (Int.dvd_self_sub_emod) (dvd_refl rounder)

end Due

/-! ## The loop -/

theorem neg_toUInt32_toNat (offset : Int32) :
    ((-offset).toUInt32.toNat : ℤ) = if 0 < offset.toInt then 2 ^ 32 - offset.toInt else -offset.toInt := by
  have hneg : (-offset).toUInt32.toNat = (2 ^ 32 - offset.toBitVec.toNat) % 2 ^ 32 := BitVec.toNat_neg offset.toBitVec
  have hint : offset.toInt =
      if 2 * offset.toBitVec.toNat < 2 ^ 32 then (offset.toBitVec.toNat : ℤ) else offset.toBitVec.toNat - ((2 ^ 32 : ℕ) : ℤ) :=
    BitVec.toInt_eq_toNat_cond offset.toBitVec
  have hlt := offset.toBitVec.isLt
  rw [hneg, hint]
  split <;> split <;> omega

theorem roundStart_toNat {now rounder : UInt32} {offset : Int32}
    (h : InRange now.toNat rounder.toNat offset.toInt) :
    ((roundStart now rounder offset).toNat : ℤ) = startSum now.toNat rounder.toNat offset.toInt := by
  have hmod : now % rounder ≤ now := by
    rw [UInt32.le_iff_toNat_le, UInt32.toNat_mod]
    exact Nat.mod_le _ _
  have hneg := neg_toUInt32_toNat offset
  have hperiod := h.period
  have hstart := h.start
  have hle := Nat.mod_le now.toNat rounder.toNat
  unfold startSum at hstart ⊢
  unfold roundStart
  rw [UInt32.toNat_add, UInt32.toNat_add, UInt32.toNat_sub_of_le _ _ hmod, UInt32.toNat_mod]
  rw [← Int.natCast_mod] at hperiod hstart ⊢
  split at hneg <;> omega

/-- The loop ends after `k` rounds with what `k` periods more give, the first after `now`. -/
theorem roundLoop_eq {now rounder : UInt32} (k : ℕ) : ∀ result : UInt32,
    result.toNat + k * rounder.toNat < 2 ^ 32 → now.toNat < result.toNat + k * rounder.toNat →
    (∀ j < k, result.toNat + j * rounder.toNat ≤ now.toNat) →
    roundLoop now rounder (k + 1) result = some (UInt32.ofNat (result.toNat + k * rounder.toNat)) := by
  induction k with
  | zero =>
    intro result _ hlate _
    have hstop : ¬ result ≤ now := by
      rw [UInt32.le_iff_toNat_le]
      omega
    rw [roundLoop, if_neg hstop, Nat.zero_mul, Nat.add_zero, UInt32.ofNat_toNat]
  | succ k ih =>
    intro result hfit hlate hearly
    have hgo : result ≤ now := by
      have := hearly 0 (Nat.succ_pos k)
      rw [UInt32.le_iff_toNat_le]
      omega
    have hmul : (k + 1) * rounder.toNat = rounder.toNat + k * rounder.toNat := by ring
    have hadd : (result + rounder).toNat = result.toNat + rounder.toNat := by
      rw [UInt32.toNat_add, Nat.mod_eq_of_lt]
      omega
    rw [roundLoop, if_pos hgo, ih (result + rounder), hadd, hmul, Nat.add_assoc]
    · omega
    · omega
    · intro j hj
      have := hearly (j + 1) (by omega)
      have hj1 : (j + 1) * rounder.toNat = rounder.toNat + j * rounder.toNat := by ring
      omega

/-- More fuel changes nothing. -/
theorem roundLoop_unique {now rounder a b : UInt32} {m : ℕ} : ∀ {n : ℕ} {result : UInt32},
    roundLoop now rounder m result = some a → roundLoop now rounder n result = some b → a = b := by
  induction m with
  | zero => intro n result ha; cases ha
  | succ m ih =>
    intro n result ha hb
    cases n with
    | zero => cases hb
    | succ n =>
      rw [roundLoop] at ha hb
      by_cases h : result ≤ now
      · rw [if_pos h] at ha hb
        exact ih ha hb
      · rw [if_neg h] at ha hb
        exact Option.some_inj.mp (ha.symm.trans hb)

theorem RoundsTo.unique {now rounder a b : UInt32} {offset : Int32} (ha : RoundsTo now rounder offset a)
    (hb : RoundsTo now rounder offset b) : a = b := by
  obtain ⟨m, hm⟩ := ha
  obtain ⟨n, hn⟩ := hb
  exact roundLoop_unique hm hn

/-! ## What it returns -/

section Returns

variable {now rounder : UInt32} {offset : Int32}

/-- The number of periods that lead from `start` past `now`. -/
theorem exists_rounds (now start : ℕ) {r : ℕ} (hr : 0 < r) :
    ∃ k : ℕ, now < start + k * r ∧ (∀ j < k, start + j * r ≤ now) := by
  have hex : ∃ k : ℕ, now < start + k * r := by
    refine ⟨now + 1, ?_⟩
    have := Nat.le_mul_of_pos_right (now + 1) hr
    omega
  exact ⟨Nat.find hex, Nat.find_spec hex, fun j hj => Nat.not_lt.mp (Nat.find_min hex hj)⟩

/-- The call ends with its start and as many periods more as it takes to pass `now`. -/
theorem roundTime_spec (hr : 0 < rounder.toNat) (h : InRange now.toNat rounder.toNat offset.toInt) :
    ∃ (k : ℕ) (t : UInt32), RoundsTo now rounder offset t ∧
      (t.toNat : ℤ) = startSum now.toNat rounder.toNat offset.toInt + k * rounder.toNat ∧ now.toNat < t.toNat ∧
      (k = 0 ∨ t.toNat ≤ now.toNat + rounder.toNat) := by
  have hstart := roundStart_toNat h
  obtain ⟨k, hlate, hearly⟩ := exists_rounds now.toNat (roundStart now rounder offset).toNat hr
  have hfit : (roundStart now rounder offset).toNat + k * rounder.toNat < 2 ^ 32 := by
    cases k with
    | zero =>
      have := (roundStart now rounder offset).toNat_lt
      omega
    | succ k =>
      have hk := hearly k (Nat.lt_succ_self k)
      have hloop := h.loop k (by rw [← hstart]; exact_mod_cast hk)
      rw [← hstart] at hloop
      exact_mod_cast hloop
  have hval : (UInt32.ofNat ((roundStart now rounder offset).toNat + k * rounder.toNat)).toNat =
      (roundStart now rounder offset).toNat + k * rounder.toNat := UInt32.toNat_ofNat_of_lt' hfit
  refine ⟨k, _, ⟨k + 1, roundLoop_eq k _ hfit hlate hearly⟩, ?_, ?_, ?_⟩
  · rw [hval, ← hstart]
    push_cast
    ring
  · rw [hval]
    exact hlate
  · rw [hval]
    cases k with
    | zero => exact .inl rfl
    | succ k =>
      have hk := hearly k (Nat.lt_succ_self k)
      have hmul : (k + 1) * rounder.toNat = k * rounder.toNat + rounder.toNat := by ring
      exact .inr (by omega)

theorem roundTime_terminates (hr : 0 < rounder.toNat) (h : InRange now.toNat rounder.toNat offset.toInt) :
    ∃ t, RoundsTo now rounder offset t := by
  obtain ⟨k, t, ht, -⟩ := roundTime_spec hr h
  exact ⟨t, ht⟩

theorem roundTime_aligned (hr : 0 < rounder.toNat) (h : InRange now.toNat rounder.toNat offset.toInt) {t : UInt32}
    (ht : RoundsTo now rounder offset t) : (t.toNat : ℤ) ∈ Due now.toNat rounder.toNat offset.toInt := by
  obtain ⟨k, t', ht', hval, hlate, -⟩ := roundTime_spec hr h
  rw [ht.unique ht']
  refine ⟨by exact_mod_cast hlate, ?_⟩
  rw [hval]
  exact due_add startSum_dvd k

/-- The call ends, and with the first time due exactly if the offset, taken off, adds no more than what has gone
    by of the period. -/
theorem roundTime_law (now rounder : UInt32) (offset : Int32) (hr : 0 < rounder.toNat)
    (h : InRange now.toNat rounder.toNat offset.toInt) :
    (∃ t, RoundsTo now rounder offset t) ∧
      ((∃ t, RoundsTo now rounder offset t ∧ IsLeast (Due now.toNat rounder.toNat offset.toInt) t.toNat) ↔
        -offset.toInt ≤ (now.toNat % rounder.toNat : ℕ)) := by
  refine ⟨roundTime_terminates hr h, ?_⟩
  obtain ⟨k, t, ht, hval, hlate, hnear⟩ := roundTime_spec hr h
  have hdue := roundTime_aligned hr h ht
  have hr' : (0 : ℤ) < rounder.toNat := by exact_mod_cast hr
  have hwithin : t.toNat ≤ now.toNat + rounder.toNat ↔ -offset.toInt ≤ (now.toNat % rounder.toNat : ℕ) := by
    rw [startSum, ← Int.natCast_mod] at hval
    have hk : (0 : ℤ) ≤ k * rounder.toNat := by positivity
    constructor
    · intro hle
      omega
    · intro hle
      rcases hnear with rfl | hnear
      · simp only [Nat.cast_zero, zero_mul, add_zero] at hval
        omega
      · exact hnear
  constructor
  · intro hex
    obtain ⟨t', ht', hleast⟩ := hex
    rw [ht'.unique ht] at hleast
    have := ((isLeast_due_iff hr').mp hleast).2
    exact hwithin.mp (by exact_mod_cast this)
  · intro hle
    have hnear' := hwithin.mpr hle
    exact ⟨t, ht, (isLeast_due_iff hr').mpr ⟨hdue, by exact_mod_cast hnear'⟩⟩

end Returns

/-- An hour, an hour east of UTC: ten past the hour is rounded to the next one. -/
theorem roundTime_law_hour : ∃ t, RoundsTo 4200 3600 3600 t ∧ IsLeast (Due 4200 3600 3600) t.toNat :=
  ((roundTime_law 4200 3600 3600 (by decide)
    (.of_start (by decide) (by decide) (by decide) (by decide))).2).mpr (by decide)

/-- Ten seconds, an hour west of UTC: 3710 is returned at 100, where 110 is due. -/
theorem periods_skipped :
    ¬ ∀ (now rounder : UInt32) (offset : Int32), 0 < rounder.toNat →
      InRange now.toNat rounder.toNat offset.toInt →
        ∃ t, RoundsTo now rounder offset t ∧ IsLeast (Due now.toNat rounder.toNat offset.toInt) t.toNat := by
  intro hall
  obtain ⟨t, ht, hleast⟩ := hall 100 10 (-3600) (by decide)
    (.of_start (by decide) (by decide) (by decide) (by decide))
  have h3710 : RoundsTo 100 10 (-3600) 3710 := ⟨1, by decide⟩
  have hnear := ((isLeast_due_iff (by decide)).mp hleast).2
  rw [ht.unique h3710] at hnear
  revert hnear
  decide

/-! ## West of UTC, and outside of the range -/

/-- A negative offset is added once: the result is the end of the period in UTC, put off by the whole offset. -/
theorem west_of_utc {now rounder : UInt32} {offset : Int32} (hr : 0 < rounder.toNat) (hwest : offset.toInt ≤ 0)
    (h : InRange now.toNat rounder.toNat offset.toInt) {t : UInt32} (ht : RoundsTo now rounder offset t) :
    (t.toNat : ℤ) = now.toNat - (now.toNat % rounder.toNat : ℕ) + rounder.toNat + -offset.toInt := by
  obtain ⟨k, t', ht', hval, hlate, hnear⟩ := roundTime_spec hr h
  rw [ht.unique ht', hval, startSum, ← Int.natCast_mod]
  rcases hnear with rfl | hnear
  · simp only [Nat.cast_zero, zero_mul]
    omega
  · -- The start lies after `now` already: no period can be added within one of `now`.
    have hk : k = 0 := by
      rw [startSum, ← Int.natCast_mod] at hval
      have hlt := Nat.mod_lt now.toNat hr
      rcases Nat.eq_zero_or_pos k with hk | hk
      · exact hk
      · have hmul : (rounder.toNat : ℤ) ≤ k * rounder.toNat := by
          exact_mod_cast Nat.le_mul_of_pos_left _ hk
        omega
    rw [hk]
    simp only [Nat.cast_zero, zero_mul]
    omega

/-- No time comes after the last one: the loop does not end. -/
theorem roundTime_stuck (fuel : ℕ) (rounder : UInt32) (offset : Int32) :
    roundTime fuel 0xFFFFFFFF rounder offset = none := by
  unfold roundTime
  generalize roundStart 0xFFFFFFFF rounder offset = result
  induction fuel generalizing result with
  | zero => rfl
  | succ fuel ih =>
    have hle : result ≤ 0xFFFFFFFF := by
      have := result.toNat_lt
      rw [UInt32.le_iff_toNat_le]
      show result.toNat ≤ 4294967295
      omega
    rw [roundLoop, if_pos hle]
    exact ih _

end Ntopng.Pool
