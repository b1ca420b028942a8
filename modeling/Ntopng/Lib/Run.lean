/-
  Ntopng.Lib.Run — machines driven by a list of events.

  A machine is a step function on states and events. What the outside decides (whose
  call comes next, a lock that is busy, an allocation that fails) is in the event, so a
  run is a function of its events. `Along ok` says that every event of a run meets a
  condition in the state it is taken in, `Always P` that a property holds in every
  state of it.
-/

import Mathlib

namespace Ntopng.Lib.Run

universe u v

variable {σ : Type u} {ε : Type v} (step : σ → ε → σ)

def run (s : σ) (es : List ε) : σ := es.foldl step s

def Along (ok : σ → ε → Prop) : σ → List ε → Prop
  | _, [] => True
  | s, e :: es => ok s e ∧ Along ok (step s e) es

/-- The first and the last state are included. -/
def Always (P : σ → Prop) : σ → List ε → Prop
  | s, [] => P s
  | s, e :: es => P s ∧ Always P (step s e) es

def Along.decide (ok : σ → ε → Prop) [∀ s e, Decidable (ok s e)] : (s : σ) → (es : List ε) → Decidable (Along step ok s es)
  | _, [] => isTrue trivial
  | s, e :: es =>
    have := Along.decide ok (step s e) es
    inferInstanceAs (Decidable (ok s e ∧ Along step ok (step s e) es))

instance (ok : σ → ε → Prop) [∀ s e, Decidable (ok s e)] (s : σ) (es : List ε) : Decidable (Along step ok s es) :=
  Along.decide step ok s es

/-! ## Running -/

@[simp] theorem run_nil (s : σ) : run step s [] = s := rfl
@[simp] theorem run_cons (s : σ) (e : ε) (es : List ε) : run step s (e :: es) = run step (step s e) es := rfl

theorem run_append (s : σ) (as bs : List ε) : run step s (as ++ bs) = run step (run step s as) bs :=
  List.foldl_append

theorem run_snoc (s : σ) (es : List ε) (e : ε) : run step s (es ++ [e]) = step (run step s es) e :=
  run_append step s es [e]

/-- A map of the states that the steps commute with, up to a map of the events, commutes with runs. -/
theorem run_map {x : σ → σ} {m : ε → ε} (h : ∀ s e, x (step s e) = step (x s) (m e)) (s : σ) (es : List ε) :
    x (run step s es) = run step (x s) (es.map m) := by
  induction es generalizing s with
  | nil => rfl
  | cons e es ih => rw [run_cons, ih, h, List.map_cons, run_cons]

/-- What a run has done, step after step: a relation between the events so far and the state. -/
theorem run_history {P : List ε → σ → Prop} {s : σ} (h0 : P [] s)
    (hstep : ∀ es t e, P es t → P (es ++ [e]) (step t e)) (es : List ε) : P es (run step s es) := by
  induction es using List.reverseRecOn with
  | nil => exact h0
  | append_singleton es e ih =>
    rw [run_snoc]
    exact hstep es _ e ih

/-! ## Conditions on the events of a run -/

variable {ok : σ → ε → Prop} {P Inv : σ → Prop}

theorem along_append {s : σ} {as bs : List ε} :
    Along step ok s (as ++ bs) ↔ Along step ok s as ∧ Along step ok (run step s as) bs := by
  induction as generalizing s with
  | nil => simp [Along]
  | cons a as ih => simp [Along, ih, and_assoc]

theorem along_mono {ok' : σ → ε → Prop} (h : ∀ s e, ok s e → ok' s e) {s : σ} {es : List ε}
    (hs : Along step ok s es) : Along step ok' s es := by
  induction es generalizing s with
  | nil => trivial
  | cons e es ih => exact ⟨h s e hs.1, ih hs.2⟩

/-- A condition on the event alone holds along a run as soon as every event meets it. -/
theorem along_of_forall {ok : ε → Prop} {s : σ} {es : List ε} (h : ∀ e ∈ es, ok e) :
    Along step (fun _ e => ok e) s es := by
  induction es generalizing s with
  | nil => trivial
  | cons e es ih => exact ⟨h e (List.mem_cons_self ..), ih fun x hx => h x (List.mem_cons_of_mem _ hx)⟩

/-- `Along` speaks of every event of the run, in the state that the events before it reach. -/
theorem along_iff {s : σ} {es : List ε} :
    Along step ok s es ↔ ∀ pre e post, es = pre ++ e :: post → ok (run step s pre) e := by
  induction es generalizing s with
  | nil => exact iff_of_true trivial fun pre e post h => by cases pre <;> cases h
  | cons x es ih =>
    rw [Along, ih]
    constructor
    · intro h pre e post hes
      cases pre with
      | nil =>
        cases hes
        exact h.1
      | cons y pre =>
        cases hes
        exact h.2 pre e post rfl
    · intro h
      exact ⟨h [] x es rfl, fun pre e post hes => h (x :: pre) e post (by rw [hes, List.cons_append])⟩

/-! ## Invariants -/

/-- What a step that meets its condition keeps, a run whose steps all meet it keeps. -/
theorem inv_run (hstep : ∀ s e, Inv s → ok s e → Inv (step s e)) {s : σ} {es : List ε} (h0 : Inv s)
    (hs : Along step ok s es) : Inv (run step s es) := by
  induction es generalizing s with
  | nil => exact h0
  | cons e es ih => exact ih (hstep s e h0 hs.1) hs.2

theorem inv_run_all (hstep : ∀ s e, Inv s → Inv (step s e)) {s : σ} (h0 : Inv s) (es : List ε) :
    Inv (run step s es) := by
  induction es generalizing s with
  | nil => exact h0
  | cons e es ih => exact ih (hstep s e h0)

/-- An invariant that gives a property gives it in every state of the run. -/
theorem always_of_inv (hstep : ∀ s e, Inv s → ok s e → Inv (step s e)) (hP : ∀ s, Inv s → P s) {s : σ}
    {es : List ε} (h0 : Inv s) (hs : Along step ok s es) : Always step P s es := by
  induction es generalizing s with
  | nil => exact hP s h0
  | cons e es ih => exact ⟨hP s h0, ih (hstep s e h0 hs.1) hs.2⟩

/-- What an event that meets the condition does in a state that has the invariant, every event of the run does. -/
theorem along_of_inv {ok' : σ → ε → Prop} (hstep : ∀ s e, Inv s → ok s e → Inv (step s e))
    (hev : ∀ s e, Inv s → ok s e → ok' s e) {s : σ} {es : List ε} (h0 : Inv s) (hs : Along step ok s es) :
    Along step ok' s es := by
  induction es generalizing s with
  | nil => trivial
  | cons e es ih => exact ⟨hev s e h0 hs.1, ih (hstep s e h0 hs.1) hs.2⟩

/-- Where the condition is exact: a step that misses it leaves the property at once. What the
    events of the run are besides is known. -/
theorem always_iff_along_within {known : σ → ε → Prop}
    (hstep : ∀ s e, Inv s → known s e → ok s e → Inv (step s e)) (hP : ∀ s, Inv s → P s)
    (hbad : ∀ s e, Inv s → known s e → ¬ ok s e → ¬ P (step s e)) {s : σ} {es : List ε} (h0 : Inv s)
    (hknown : Along step known s es) : Always step P s es ↔ Along step ok s es := by
  constructor
  · intro h
    induction es generalizing s with
    | nil => trivial
    | cons e es ih =>
      have hok : ok s e := by
        refine Classical.byContradiction fun hn => ?_
        have hP' : P (step s e) := by
          cases es with
          | nil => exact h.2
          | cons e' es => exact h.2.1
        exact hbad s e h0 hknown.1 hn hP'
      exact ⟨hok, ih (hstep s e h0 hknown.1 hok) hknown.2 h.2⟩
  · intro h
    induction es generalizing s with
    | nil => exact hP s h0
    | cons e es ih => exact ⟨hP s h0, ih (hstep s e h0 hknown.1 h.1) hknown.2 h.2⟩

theorem always_iff_along (hstep : ∀ s e, Inv s → ok s e → Inv (step s e)) (hP : ∀ s, Inv s → P s)
    (hbad : ∀ s e, Inv s → ¬ ok s e → ¬ P (step s e)) {s : σ} {es : List ε} (h0 : Inv s) :
    Always step P s es ↔ Along step ok s es := by
  have hknown : Along step (fun _ _ => True) s es := along_of_forall step fun _ _ => trivial
  exact always_iff_along_within step (fun s e h _ => hstep s e h) hP (fun s e h _ => hbad s e h) h0 hknown

/-- Two conditions that an invariant makes the same hold along the same runs. -/
theorem along_iff_of_inv {ok' : σ → ε → Prop} (hstep : ∀ s e, Inv s → ok s e → Inv (step s e))
    (hiff : ∀ s e, Inv s → (ok s e ↔ ok' s e)) {s : σ} {es : List ε} (h0 : Inv s) :
    Along step ok s es ↔ Along step ok' s es := by
  induction es generalizing s with
  | nil => exact Iff.rfl
  | cons e es ih =>
    rw [Along, Along, ← hiff s e h0]
    exact and_congr_right fun hok => ih (hstep s e h0 hok)

/-- What never falls from one state to a later one is what never falls in a step. -/
theorem mono_iff_along {β : Type*} [Preorder β] (r : σ → β) {s : σ} {es : List ε} :
    (∀ as bs, as ++ bs <+: es → r (run step s as) ≤ r (run step s (as ++ bs))) ↔
      Along step (fun t e => r t ≤ r (step t e)) s es := by
  constructor
  · intro h
    induction es generalizing s with
    | nil => trivial
    | cons e es ih =>
      refine ⟨h [] [e] (List.cons_prefix_cons.mpr ⟨rfl, List.nil_prefix ..⟩), ih fun as bs hp => ?_⟩
      exact h (e :: as) bs (List.cons_prefix_cons.mpr ⟨rfl, hp⟩)
  · intro h as bs hp
    have hbs : Along step (fun t e => r t ≤ r (step t e)) (run step s as) bs := by
      obtain ⟨cs, rfl⟩ := hp
      exact ((along_append step).mp ((along_append step).mp h).1).2
    rw [run_append]
    clear hp h
    induction bs generalizing as with
    | nil => exact le_refl _
    | cons b bs ih =>
      have hrest := ih (as ++ [b])
      rw [run_snoc] at hrest
      exact le_trans hbs.1 (hrest hbs.2)

theorem always_last {s : σ} {es : List ε} (h : Always step P s es) : P (run step s es) := by
  induction es generalizing s with
  | nil => exact h
  | cons e es ih => exact ih h.2

/-- `Always` speaks of exactly the states that the prefixes of the run reach. -/
theorem always_iff {s : σ} {es : List ε} :
    Always step P s es ↔ ∀ as, as <+: es → P (run step s as) := by
  induction es generalizing s with
  | nil =>
    constructor
    · intro h as has
      rw [List.prefix_nil.mp has]; exact h
    · intro h; exact h [] (List.prefix_refl _)
  | cons e es ih =>
    constructor
    · intro h as has
      cases as with
      | nil => exact h.1
      | cons a as =>
        obtain ⟨rfl, has'⟩ := List.cons_prefix_cons.mp has
        exact ih.mp h.2 as has'
    · intro h
      exact ⟨h [] (List.nil_prefix ..), ih.mpr fun as has => h (e :: as) (List.cons_prefix_cons.mpr ⟨rfl, has⟩)⟩

end Ntopng.Lib.Run
