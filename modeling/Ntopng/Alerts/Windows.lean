/-
  Ntopng.Alerts.Windows — the counter behind flood and scan alerts (src/AlertCounter.cpp).

  Hits come with their time. A window opens with a hit and takes the hits of its second and of
  the next; the counter keeps the hits of the open window and the most that a window had since
  the last reset. A reset is only noted, and done by the next hit.

  The ledger is what the numbers stand for: all windows since the last reset, each with its
  hits, the first included (`Ledger.peak`, up to the largest number the type holds).

  The hit that opens a window is not counted, unless it is the first after a reset. So:
  - `hits_iff`: along a run `hits` is the peak at every moment just if no later window ever
    sets a record, the first one is opened after a reset and does not run over.
  - `second_window_short`: two hits in a second window, of which one is counted.
-/

import Ntopng.Lib.Run

namespace Ntopng.Alerts.Windows

open Ntopng.Lib.Run

/-! ## The counter -/

structure AlertCounter where
  timeLastHit : Int
  /-- 16 bits, as is the next. -/
  currentHits : ℕ
  maxHitsSinceReset : ℕ
  hitsResetReq : Bool
  deriving DecidableEq, Repr

namespace AlertCounter

def new : AlertCounter := ⟨0, 0, 0, false⟩

def resetWindow (c : AlertCounter) (t : Int) : AlertCounter := { c with currentHits := 0, timeLastHit := t }

/-- A requested reset is done now. -/
def settle (c : AlertCounter) (t : Int) : AlertCounter :=
  if c.hitsResetReq then resetWindow { c with maxHitsSinceReset := 0, hitsResetReq := false } t else c

def inc (c : AlertCounter) (t : Int) : AlertCounter :=
  let c := c.settle t
  if t - c.timeLastHit > 1 then
    resetWindow { c with maxHitsSinceReset := max c.currentHits c.maxHitsSinceReset } t
  else { c with currentHits := (c.currentHits + 1) % 2 ^ 16 }

def hits (c : AlertCounter) : ℕ := if c.hitsResetReq then 0 else max c.maxHitsSinceReset c.currentHits

def resetHits (c : AlertCounter) : AlertCounter := { c with hitsResetReq := true }

end AlertCounter

/-! ## The ledger -/

structure Window where
  opened : Int
  hits : ℕ
  deriving DecidableEq, Repr

/-- `windows` since the last reset, the open one first; `reset` once there was one. -/
structure Ledger where
  windows : List Window
  reset : Bool
  deriving DecidableEq, Repr

namespace Ledger

def new : Ledger := ⟨[], false⟩

def inc (l : Ledger) (t : Int) : Ledger :=
  match l.windows with
  | [] => { l with windows := [⟨t, 1⟩] }
  | w :: ws => if t - w.opened ≤ 1 then { l with windows := ⟨w.opened, w.hits + 1⟩ :: ws } else { l with windows := ⟨t, 1⟩ :: w :: ws }

def resetHits (_ : Ledger) : Ledger := ⟨[], true⟩

end Ledger

/-- The most hits in one of the windows. -/
def most (ws : List Window) : ℕ := (ws.map (·.hits)).foldr max 0

def Ledger.peak (l : Ledger) : ℕ := min (most l.windows) 65535

/-! ## Runs -/

inductive Ev where
  | inc (t : Int)
  | resetHits
  deriving DecidableEq, Repr

structure Sys where
  counter : AlertCounter
  ledger : Ledger
  deriving DecidableEq, Repr

def step (s : Sys) : Ev → Sys
  | .inc t => ⟨s.counter.inc t, s.ledger.inc t⟩
  | .resetHits => ⟨s.counter.resetHits, s.ledger.resetHits⟩

def init : Sys := ⟨.new, .new⟩

def Exact (s : Sys) : Prop := s.counter.hits = s.ledger.peak

/-- The counter holds the largest number. -/
def Full (c : AlertCounter) : Prop := c.hitsResetReq = false ∧ c.maxHitsSinceReset = 65535

/-- A hit in the first window. The counter was made with a window at time 0. -/
def CountsFirst (l : Ledger) (w : Window) (t : Int) : Prop :=
  if t - w.opened ≤ 1 then (if l.reset ∨ t ≤ 1 then w.hits < 65535 else w.hits = 65535) else l.reset ∨ 1 < t

/-- A hit is counted: it is the first after a reset or in the window that one opened, or it does
    not make its window the largest. -/
def Counts (s : Sys) : Ev → Prop
  | .resetHits => True
  | .inc t => Full s.counter ∨
    match s.ledger.windows with
    | [] => s.ledger.reset ∨ t ≤ 1
    | [w] => CountsFirst s.ledger w t
    | w :: ws => t - w.opened ≤ 1 → w.hits < most ws

/-! ## What holds as long as all hits are counted -/

/-- The first window: all its hits are counted. -/
structure First (c : AlertCounter) (l : Ledger) (w : Window) : Prop where
  noReq : c.hitsResetReq = false
  noMax : c.maxHitsSinceReset = 0
  hits : c.currentHits = w.hits
  pos : 1 ≤ w.hits
  fits : w.hits ≤ 65535
  opened : c.timeLastHit = if l.reset then w.opened else 0

/-- A later window: all but its first. -/
structure Later (c : AlertCounter) (w : Window) (ws : List Window) : Prop where
  noReq : c.hitsResetReq = false
  most : c.maxHitsSinceReset = most ws
  hits : c.currentHits + 1 = w.hits
  le : w.hits ≤ Windows.most ws
  fits : Windows.most ws ≤ 65535
  opened : c.timeLastHit = w.opened

def Matches (s : Sys) : Prop :=
  match s.ledger.windows with
  | [] => if s.ledger.reset then s.counter.hitsResetReq = true else s.counter = .new
  | [w] => First s.counter s.ledger w
  | w :: ws => Later s.counter w ws

def Inv (s : Sys) : Prop := (Full s.counter ∧ 65535 ≤ most s.ledger.windows ∧ s.counter.currentHits ≤ 65535) ∨ Matches s

/-! ## What a hit does -/

namespace AlertCounter

variable {c : AlertCounter} {t : Int}

theorem inc_req (h : c.hitsResetReq = true) : c.inc t = ⟨t, 1, 0, false⟩ := by
  unfold inc settle resetWindow
  rw [if_pos h]
  simp

theorem inc_in (h : c.hitsResetReq = false) (ht : t - c.timeLastHit ≤ 1) :
    c.inc t = ⟨c.timeLastHit, (c.currentHits + 1) % 2 ^ 16, c.maxHitsSinceReset, false⟩ := by
  unfold inc settle
  rw [h, if_neg Bool.false_ne_true]
  simp only
  rw [if_neg (Int.not_lt.mpr ht), h]

theorem inc_out (h : c.hitsResetReq = false) (ht : 1 < t - c.timeLastHit) :
    c.inc t = ⟨t, 0, max c.currentHits c.maxHitsSinceReset, false⟩ := by
  unfold inc settle resetWindow
  rw [h, if_neg Bool.false_ne_true]
  simp only
  rw [if_pos ht, h]

theorem inc_noReq : (c.inc t).hitsResetReq = false := by
  by_cases h : c.hitsResetReq = true
  · rw [inc_req h]
  · rw [Bool.not_eq_true] at h
    by_cases ht : t - c.timeLastHit ≤ 1
    · rw [inc_in h ht]
    · rw [inc_out h (by omega)]

theorem hits_noReq (h : c.hitsResetReq = false) : c.hits = max c.maxHitsSinceReset c.currentHits := by
  unfold hits
  rw [h, if_neg Bool.false_ne_true]

end AlertCounter

theorem hits_mk (t : Int) (n m : ℕ) : AlertCounter.hits ⟨t, n, m, false⟩ = max m n := rfl

theorem peak_mk (ws : List Window) (r : Bool) : Ledger.peak ⟨ws, r⟩ = min (most ws) 65535 := rfl

theorem most_cons (w : Window) (ws : List Window) : most (w :: ws) = max w.hits (most ws) := rfl

theorem most_single (w : Window) : most [w] = w.hits := Nat.max_zero _

/-! ## A counter at its largest number -/

theorem peak_full {l : Ledger} (h : 65535 ≤ most l.windows) : l.peak = 65535 := Nat.min_eq_right h

theorem most_inc (l : Ledger) (t : Int) : most l.windows ≤ most (l.inc t).windows := by
  unfold Ledger.inc
  cases h : l.windows with
  | nil => exact Nat.zero_le _
  | cons w ws =>
    simp only
    split
    · rw [most_cons, most_cons]
      exact max_le_max (Nat.le_succ _) (Nat.le_refl _)
    · rw [most_cons ⟨t, 1⟩]
      exact Nat.le_max_right _ _

theorem full_inc {c : AlertCounter} (h : Full c) (hc : c.currentHits ≤ 65535) (t : Int) :
    Full (c.inc t) ∧ (c.inc t).currentHits ≤ 65535 := by
  by_cases ht : t - c.timeLastHit ≤ 1
  · rw [AlertCounter.inc_in h.1 ht]
    refine ⟨⟨rfl, h.2⟩, ?_⟩
    show (c.currentHits + 1) % 2 ^ 16 ≤ 65535
    omega
  · rw [AlertCounter.inc_out h.1 (by omega)]
    refine ⟨⟨rfl, ?_⟩, Nat.zero_le _⟩
    show max c.currentHits c.maxHitsSinceReset = 65535
    rw [h.2]
    exact Nat.max_eq_right hc

/-! ## Steps -/

theorem exact_of_inv {s : Sys} (h : Inv s) : Exact s := by
  unfold Exact
  rcases h with ⟨hf, hm, hc⟩ | h
  · rw [peak_full hm, AlertCounter.hits_noReq hf.1, hf.2]
    exact Nat.max_eq_left hc
  · unfold Matches at h
    unfold Ledger.peak
    split at h
    · rename_i hw
      rw [hw]
      split at h
      · unfold AlertCounter.hits
        rw [if_pos h]
        rfl
      · rw [h]
        rfl
    · rename_i w hw
      rw [hw, most_single, AlertCounter.hits_noReq h.noReq, h.noMax, h.hits, Nat.zero_max, Nat.min_eq_left h.fits]
    · rename_i w ws _ hw
      have := h.hits
      have := h.le
      have := h.fits
      rw [hw, most_cons, AlertCounter.hits_noReq h.noReq, h.most]
      omega

/-- The first hit after a reset, or the first of all. -/
theorem step_empty {c : AlertCounter} {l : Ledger} {t : Int} (hw : l.windows = [])
    (h : if l.reset then c.hitsResetReq = true else c = .new) :
    (l.reset ∨ t ≤ 1 → First (c.inc t) (l.inc t) ⟨t, 1⟩) ∧ (¬ (l.reset ∨ t ≤ 1) → (c.inc t).hits ≠ 1) := by
  have hreset : (l.inc t).reset = l.reset := by
    unfold Ledger.inc
    rw [hw]
  by_cases hr : l.reset = true
  · rw [if_pos hr] at h
    rw [AlertCounter.inc_req h]
    refine ⟨fun _ => ⟨rfl, rfl, rfl, Nat.le_refl _, by simp only; omega, ?_⟩, fun hn => absurd (Or.inl hr) hn⟩
    rw [hreset, if_pos hr]
  · rw [if_neg hr] at h
    subst h
    refine ⟨fun ht => ?_, fun hn => ?_⟩
    · have ht : t - 0 ≤ 1 := by
        have := ht.resolve_left hr
        omega
      rw [AlertCounter.inc_in rfl ht]
      refine ⟨rfl, rfl, rfl, Nat.le_refl _, by simp only; omega, ?_⟩
      rw [hreset, if_neg hr]
      rfl
    · rw [not_or] at hn
      have ht : 1 < t - 0 := by omega
      rw [AlertCounter.inc_out rfl ht, hits_mk]
      decide

theorem ledger_in {l : Ledger} {w : Window} {ws : List Window} {t : Int} (hw : l.windows = w :: ws) (ht : t - w.opened ≤ 1) :
    l.inc t = ⟨⟨w.opened, w.hits + 1⟩ :: ws, l.reset⟩ := by
  unfold Ledger.inc
  rw [hw]
  exact if_pos ht

theorem ledger_out {l : Ledger} {w : Window} {ws : List Window} {t : Int} (hw : l.windows = w :: ws) (ht : ¬ t - w.opened ≤ 1) :
    l.inc t = ⟨⟨t, 1⟩ :: w :: ws, l.reset⟩ := by
  unfold Ledger.inc
  rw [hw]
  exact if_neg ht

/-- A hit in the first window, or the one that closes it. -/
theorem step_first {c : AlertCounter} {l : Ledger} {w : Window} {t : Int} (hw : l.windows = [w]) (h : First c l w) :
    (CountsFirst l w t → Inv ⟨c.inc t, l.inc t⟩) ∧ (¬ CountsFirst l w t → ¬ Exact ⟨c.inc t, l.inc t⟩) := by
  obtain ⟨hreq, hmax, hhits, hpos, hfits, hopen⟩ := h
  unfold CountsFirst
  by_cases ht : t - w.opened ≤ 1
  · rw [if_pos ht, ledger_in hw ht]
    by_cases hr : l.reset ∨ t ≤ 1
    · have htl : t - c.timeLastHit ≤ 1 := by
        rw [hopen]
        split
        · exact ht
        · rename_i hn
          have := hr.resolve_left hn
          omega
      rw [if_pos hr, AlertCounter.inc_in hreq htl, hhits]
      constructor
      · intro hlt
        exact Or.inr ⟨rfl, hmax, Nat.mod_eq_of_lt (by omega), Nat.succ_pos _, hlt, hopen⟩
      · intro hn
        have h65 : w.hits = 65535 := by omega
        unfold Exact
        rw [hits_mk, peak_mk, most_single, hmax, h65]
        simp only
        omega
    · rw [not_or] at hr
      have hreset : l.reset = false := Bool.eq_false_iff.mpr hr.1
      rw [hreset, if_neg Bool.false_ne_true] at hopen
      rw [if_neg (not_or.mpr hr), AlertCounter.inc_out hreq (by omega), hhits, hmax, Nat.max_zero]
      constructor
      · intro h65
        refine Or.inl ⟨⟨rfl, h65⟩, ?_, Nat.zero_le _⟩
        rw [most_single]
        exact Nat.le_succ_of_le (Nat.le_of_eq h65.symm)
      · intro hn
        unfold Exact
        rw [hits_mk, peak_mk, most_single]
        simp only
        omega
  · rw [if_neg ht, ledger_out hw ht]
    by_cases hr : l.reset ∨ 1 < t
    · have htl : 1 < t - c.timeLastHit := by
        rw [hopen]
        split
        · omega
        · rename_i hn
          have := hr.resolve_left hn
          omega
      rw [AlertCounter.inc_out hreq htl, hhits, hmax, Nat.max_zero]
      refine ⟨fun _ => Or.inr ⟨rfl, (most_single w).symm, rfl, ?_, ?_, rfl⟩, fun hn => absurd hr hn⟩
      · rw [most_single]
        exact hpos
      · rw [most_single]
        exact hfits
    · refine ⟨fun h => absurd h hr, fun _ => ?_⟩
      rw [not_or] at hr
      have hreset : l.reset = false := Bool.eq_false_iff.mpr hr.1
      rw [hreset, if_neg Bool.false_ne_true] at hopen
      rw [AlertCounter.inc_in hreq (by omega), hhits]
      unfold Exact
      rw [hits_mk, peak_mk, most_cons, most_single, hmax]
      simp only
      omega

/-- A hit in a later window. -/
theorem step_later {c : AlertCounter} {l : Ledger} {w w' : Window} {ws : List Window} {t : Int}
    (hw : l.windows = w :: w' :: ws) (h : Later c w (w' :: ws)) :
    ((t - w.opened ≤ 1 → w.hits < most (w' :: ws)) → Inv ⟨c.inc t, l.inc t⟩) ∧
      (¬ Full c → ¬ (t - w.opened ≤ 1 → w.hits < most (w' :: ws)) → ¬ Exact ⟨c.inc t, l.inc t⟩) := by
  obtain ⟨hreq, hmax, hhits, hle, hfits, hopen⟩ := h
  by_cases ht : t - w.opened ≤ 1
  · rw [ledger_in hw ht, AlertCounter.inc_in hreq (hopen ▸ ht), Nat.mod_eq_of_lt (by omega)]
    constructor
    · intro hlt
      refine Or.inr ⟨rfl, hmax, ?_, hlt ht, hfits, hopen⟩
      show c.currentHits + 1 + 1 = w.hits + 1
      rw [hhits]
    · intro hfull hn
      have hge : w.hits = most (w' :: ws) := by
        by_contra hne
        exact hn fun _ => by omega
      have hne : most (w' :: ws) ≠ 65535 := fun he => hfull ⟨hreq, hmax.trans he⟩
      unfold Exact
      rw [hits_mk, peak_mk, most_cons, hmax]
      simp only
      omega
  · rw [ledger_out hw ht, AlertCounter.inc_out hreq (by rw [hopen]; omega)]
    refine ⟨fun _ => Or.inr ⟨rfl, ?_, rfl, ?_, ?_, rfl⟩, fun _ hn => absurd (fun h => absurd h ht) hn⟩
    · show max c.currentHits c.maxHitsSinceReset = most (w :: w' :: ws)
      rw [most_cons w, hmax]
      omega
    · rw [most_cons w]
      show 1 ≤ _
      omega
    · rw [most_cons w]
      omega

/-! ## Runs of hits and resets -/

theorem inv_reset (s : Sys) : Inv (step s .resetHits) := Or.inr rfl

theorem inv_step (s : Sys) (e : Ev) (h : Inv s) (hok : Counts s e) : Inv (step s e) := by
  cases e with
  | resetHits => exact inv_reset s
  | inc t =>
    rcases h with ⟨hf, hm, hc⟩ | h
    · obtain ⟨hf', hc'⟩ := full_inc hf hc t
      exact Or.inl ⟨hf', Nat.le_trans hm (most_inc _ t), hc'⟩
    · by_cases hfull : Full s.counter
      · have he := exact_of_inv (Or.inr h)
        unfold Exact Ledger.peak at he
        rw [AlertCounter.hits_noReq hfull.1, hfull.2] at he
        obtain ⟨hf', hc'⟩ := full_inc hfull (by omega) t
        exact Or.inl ⟨hf', Nat.le_trans (by omega) (most_inc _ t), hc'⟩
      · have hok := hok.resolve_left hfull
        unfold Matches at h
        rcases hw : s.ledger.windows with _ | ⟨w, _ | ⟨w', ws⟩⟩
        · rw [hw] at h hok
          refine Or.inr ?_
          have hinc : (s.ledger.inc t).windows = [⟨t, 1⟩] := by
            unfold Ledger.inc
            rw [hw]
          show Matches ⟨s.counter.inc t, s.ledger.inc t⟩
          unfold Matches
          rw [hinc]
          exact (step_empty hw h).1 hok
        · rw [hw] at h hok
          exact (step_first hw h).1 hok
        · rw [hw] at h hok
          exact (step_later hw h).1 hok

theorem not_exact_of_uncounted (s : Sys) (e : Ev) (h : Inv s) (hbad : ¬ Counts s e) : ¬ Exact (step s e) := by
  cases e with
  | resetHits => exact absurd trivial hbad
  | inc t =>
    unfold Counts at hbad
    rw [not_or] at hbad
    obtain ⟨hfull, hbad⟩ := hbad
    rcases h with h | h
    · exact absurd h.1 hfull
    · unfold Matches at h
      rcases hw : s.ledger.windows with _ | ⟨w, _ | ⟨w', ws⟩⟩
      · rw [hw] at h hbad
        intro he
        have hinc : s.ledger.inc t = ⟨[⟨t, 1⟩], s.ledger.reset⟩ := by
          unfold Ledger.inc
          rw [hw]
        have he : (s.counter.inc t).hits = (s.ledger.inc t).peak := he
        rw [hinc] at he
        exact (step_empty hw h).2 hbad he
      · rw [hw] at h hbad
        exact (step_first hw h).2 hbad
      · rw [hw] at h hbad
        exact (step_later hw h).2 hfull hbad

theorem inv_init : Inv init := Or.inr rfl

/-- Along every run of hits and resets, whatever their times. -/
theorem hits_iff (es : List Ev) : Always step Exact init es ↔ Along step Counts init es :=
  always_iff_along step inv_step (fun _ h => exact_of_inv h) not_exact_of_uncounted inv_init

/-- A reset and a hit at 100, two hits at 102. -/
def secondWindow : List Ev := [.resetHits, .inc 100, .inc 102, .inc 102]

/-- The second window has two hits; the counter says one. -/
theorem second_window_short : (run step init secondWindow).counter.hits = 1 ∧
    (run step init secondWindow).ledger = ⟨[⟨102, 2⟩, ⟨100, 1⟩], true⟩ ∧ (run step init secondWindow).ledger.peak = 2 := by
  decide

end Ntopng.Alerts.Windows
