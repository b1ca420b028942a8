/-
  Ntopng.Lib.Deltas — counters reported as differences to a baseline.

  A machine has counters, a baseline of each and the total reported of each; `made` is what was
  counted in truth. A step that asks for a report adds something to the totals and moves the
  baseline to the counters; any other step counts, and leaves totals and baseline alone. The books
  are balanced when what was reported and what is still to be reported make up what was counted.

  Proved: a run stays balanced exactly when every report is the counter less its baseline and
  every other step moves the counters by what it counts. The baselines then stay below the counters.
-/

import Ntopng.Lib.Run

namespace Ntopng.Lib.Deltas

open Ntopng.Lib.Run

universe u v w

variable {σ : Type u} {ε : Type v} {κ : Type w}

/-- `asks s e` is what the step reports, if it reports. -/
structure Reporter (step : σ → ε → σ) (counter base total made : σ → κ → Int) (asks : σ → ε → Option (κ → Int)) : Prop where
  quiet : ∀ s e, asks s e = none → base (step s e) = base s ∧ total (step s e) = total s
  report : ∀ s e p, asks s e = some p → counter (step s e) = counter s ∧ base (step s e) = counter s ∧
    total (step s e) = (fun k => total s k + p k) ∧ made (step s e) = made s
  grows : ∀ s e k, made s k ≤ made (step s e) k

def Balanced (counter base total made : σ → κ → Int) (s : σ) : Prop :=
  ∀ k, total s k + (counter s k - base s k) = made s k

/-- The report of the step is the difference of each counter to its baseline; without one, the counters move by
    what is counted. -/
def Exact (step : σ → ε → σ) (counter base made : σ → κ → Int) (asks : σ → ε → Option (κ → Int)) (s : σ) (e : ε) : Prop :=
  match asks s e with
  | some p => ∀ k, p k = counter s k - base s k
  | none => ∀ k, counter (step s e) k - counter s k = made (step s e) k - made s k

variable {step : σ → ε → σ} {counter base total made : σ → κ → Int} {asks : σ → ε → Option (κ → Int)}

theorem balanced_step (h : Reporter step counter base total made asks) {s : σ} {e : ε}
    (hs : Balanced counter base total made s) :
    Balanced counter base total made (step s e) ↔ Exact step counter base made asks s e := by
  refine Iff.trans ?_ (Iff.of_eq (Exact.eq_1 step counter base made asks s e).symm)
  cases ha : asks s e with
  | none =>
    obtain ⟨hb, ht⟩ := h.quiet s e ha
    refine forall_congr' fun k => ?_
    have hk := hs k
    rw [hb, ht]
    omega
  | some p =>
    obtain ⟨hc, hb, ht, hm⟩ := h.report s e p ha
    refine forall_congr' fun k => ?_
    have hk := hs k
    rw [hc, hb, ht, hm]
    dsimp only
    omega

theorem base_le_step (h : Reporter step counter base total made asks) {s : σ} {e : ε} (hs : base s ≤ counter s)
    (he : Exact step counter base made asks s e) : base (step s e) ≤ counter (step s e) := by
  intro k
  have hk : base s k ≤ counter s k := hs k
  rw [Exact] at he
  cases ha : asks s e with
  | none =>
    rw [ha] at he
    have hcount : counter (step s e) k - counter s k = made (step s e) k - made s k := he k
    have hup := h.grows s e k
    rw [(h.quiet s e ha).1]
    show base s k ≤ counter (step s e) k
    omega
  | some p =>
    obtain ⟨hc, hb, -, -⟩ := h.report s e p ha
    rw [hc, hb]

/-- A run that starts balanced stays balanced exactly when all its steps are exact. What makes a step exact need
    only be known of states that keep an invariant and have their baselines below the counters. -/
theorem always_balanced_iff (h : Reporter step counter base total made asks) {Inv : σ → Prop} {fits : σ → ε → Prop}
    (hinv : ∀ s e, Inv s → Inv (step s e))
    (hfits : ∀ s e, Inv s → base s ≤ counter s → (Exact step counter base made asks s e ↔ fits s e)) {s : σ} {es : List ε}
    (hs : Balanced counter base total made s) (hb : base s ≤ counter s) (hi : Inv s) :
    Always step (Balanced counter base total made) s es ↔ Along step fits s es := by
  have hkeeps : ∀ s e, (Balanced counter base total made s ∧ base s ≤ counter s ∧ Inv s) → fits s e →
      (Balanced counter base total made (step s e) ∧ base (step s e) ≤ counter (step s e) ∧ Inv (step s e)) := by
    intro s e ⟨hs, hb, hi⟩ hok
    have he := (hfits s e hi hb).mpr hok
    exact ⟨(balanced_step h hs).mpr he, base_le_step h hb he, hinv s e hi⟩
  have hleaves : ∀ s e, (Balanced counter base total made s ∧ base s ≤ counter s ∧ Inv s) → ¬ fits s e →
      ¬ Balanced counter base total made (step s e) := by
    intro s e ⟨hs, hb, hi⟩ hbad hp
    exact hbad ((hfits s e hi hb).mp ((balanced_step h hs).mp hp))
  exact always_iff_along step hkeeps (fun s hs => hs.1) hleaves ⟨hs, hb, hi⟩

end Ntopng.Lib.Deltas
