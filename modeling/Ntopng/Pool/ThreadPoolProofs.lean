/-
  Ntopng.Pool.ThreadPoolProofs — one job for each script (see `Ntopng.Pool.ThreadPool`).

  Every job has one place at any time: with the caller that made it, in the queue, with a
  thread, or gone. A step moves at most one job (`Jobs`). While no shutdown is requested the
  recorded state says where the job of a script is (`States`), which is what makes the check
  of the next caller right; afterwards nobody passes the check any more.

  Proved, over every run:
  - `inv_step`: a step keeps the places of the jobs, and the states of the scripts that have
    one call of `queueJob` at a time.
  - `moves_step`: and takes the recorded state of such a script at most one transition further.
  - `one_job_each`: from the start of the pool every accepted job is run once, and a script
    with one call at a time has one job at a time.
-/

import Ntopng.Pool.ThreadPool

namespace Ntopng.Pool

open Ntopng.Lib.Run

variable {κ : Type}

/-! ## Places -/

inductive Place where
  | unborn
  | made (i : Nat)
  | queued
  | held (w : Nat)
  | finished
  | dropped
  deriving DecidableEq

def Place.active : Place → Bool
  | .queued | .held _ => true
  | _ => false

/-- Where each job is, and what follows from it. The scripts of `sole` are those with one call at a time. -/
structure Jobs (sole : κ → Prop) (s : Sys κ) (place : Job κ → Place) : Prop where
  queue : ∀ q, q ∈ s.threads ↔ place q = .queued
  queueOnce : s.threads.Nodup
  absent : ∀ w, s.numThreads ≤ w → s.workers w = .absent
  held : ∀ w q, (s.workers w).job = some q ↔ place q = .held w
  made : ∀ i q, (s.callers i).job = some q ↔ place q = .made i
  ids : ∀ q, place q ≠ .unborn → q.id < s.created
  apart : ∀ i j k, sole k → i ≠ j → (s.callers i).key = some k → (s.callers j).key ≠ some k
  one : ∀ q q', sole q.key → (place q).active = true → (place q').active = true → q.key = q'.key → q = q'
  free : ∀ i k q, sole k → (s.callers i).passed = some k → (place q).active = true → q.key ≠ k
  startedOnce : s.started.Nodup
  started : ∀ q, q ∈ s.started ↔ place q = .finished ∨ ∃ w, place q = .held w ∧ (s.workers w).inRun = true
  dropped : ∀ q, q ∈ s.dropped ↔ place q = .dropped
  kept : s.terminating = false → s.dropped = []
  accepted : ∀ q, q ∈ s.accepted ↔ place q ≠ .unborn ∧ ∀ i, place q ≠ .made i

/-- While no shutdown is requested, the recorded state is where the job of the script is. -/
structure States (sole : κ → Prop) (s : Sys κ) : Prop where
  passed : ∀ i k, sole k → (s.callers i).passed = some k → s.stats k ≠ none ∧ isQueueable (recorded s k) = true
  queued : ∀ q ∈ s.threads, sole q.key → recorded s q.key = .queued
  held : ∀ w q, sole q.key → (s.workers w).job = some q →
    recorded s q.key = if (s.workers w).marked then .running else .queued

variable {sole : κ → Prop} {s : Sys κ} {place : Job κ → Place}

theorem active_iff (h : Jobs sole s place) (q : Job κ) : Active s q ↔ (place q).active = true := by
  constructor
  · rintro (hq | ⟨w, hw⟩)
    · rw [(h.queue q).mp hq]; rfl
    · rw [(h.held w q).mp hw]; rfl
  · intro ha
    cases hp : place q with
    | queued => exact .inl ((h.queue q).mpr hp)
    | held w => exact .inr ⟨w, (h.held w q).mpr hp⟩
    | unborn => rw [hp] at ha; cases ha
    | made i => rw [hp] at ha; cases ha
    | finished => rw [hp] at ha; cases ha
    | dropped => rw [hp] at ha; cases ha

theorem oneJob_of_jobs (h : Jobs sole s place) {k : κ} (hk : sole k) : OneJob k s where
  one q q' hq hq' hqk hqk' := by
    refine h.one q q' ?_ ((active_iff h q).mp hq) ((active_iff h q').mp hq') (hqk.trans hqk'.symm)
    rw [hqk]
    exact hk
  queuedOnce := h.queueOnce
  oneWorker w w' q hw hw' := by
    have h1 := (h.held w q).mp hw
    rw [(h.held w' q).mp hw'] at h1
    cases h1
    rfl
  notBoth w q hw hq := by
    have h1 := (h.held w q).mp hw
    rw [(h.queue q).mp hq] at h1
    cases h1

theorem accounted_of_jobs (h : Jobs sole s place) : Accounted s where
  runOnce := h.startedOnce
  accounted q hq := by
    obtain ⟨hborn, hmade⟩ := (h.accepted q).mp hq
    have hstarted : ∀ p, place q = p → p ≠ .finished → (∀ w, p ≠ .held w) → q ∉ s.started := by
      intro p hp hf hh hs
      rcases (h.started q).mp hs with h1 | ⟨w, h1, -⟩
      · exact hf (hp.symm.trans h1)
      · exact hh w (hp.symm.trans h1)
    have hqueue : ∀ p, place q = p → p ≠ .queued → q ∉ s.threads := by
      intro p hp hne ht
      exact hne (hp.symm.trans ((h.queue q).mp ht))
    cases hp : place q with
    | unborn => exact absurd hp hborn
    | made i => exact absurd hp (hmade i)
    | queued =>
      exact .inl ⟨(h.queue q).mpr hp, hstarted _ hp (by intro h1; cases h1) fun w h1 => by cases h1⟩
    | held w =>
      have hjob := (h.held w q).mpr hp
      cases hrun : (s.workers w).inRun with
      | true =>
        refine .inr (.inr (.inl ⟨(h.started q).mpr (.inr ⟨w, hp, hrun⟩), ?_⟩))
        exact hqueue _ hp fun h1 => by cases h1
      | false =>
        have hholding : s.workers w = .holding q := by
          cases hw : s.workers w <;> rw [hw] at hjob hrun <;> cases hjob <;> first | rfl | cases hrun
        refine .inr (.inl ⟨⟨w, hholding⟩, fun hs => ?_⟩)
        rcases (h.started q).mp hs with h1 | ⟨w', h1, hrun'⟩
        · rw [hp] at h1; cases h1
        · rw [hp] at h1
          cases h1
          rw [hrun] at hrun'
          cases hrun'
    | finished =>
      exact .inr (.inr (.inl ⟨(h.started q).mpr (.inl hp), hqueue _ hp fun h1 => by cases h1⟩))
    | dropped =>
      have hd := (h.dropped q).mpr hp
      refine .inr (.inr (.inr ⟨hd, ?_⟩))
      by_contra hterm
      rw [h.kept (by simpa using hterm)] at hd
      cases hd

/-! ## Steps that move no job -/

/-- Statistics are beside the jobs. -/
theorem jobs_stats (h : Jobs sole s place) (f : κ → Option ThreadedActivityStats) :
    Jobs sole { s with stats := f } place :=
  ⟨h.queue, h.queueOnce, h.absent, h.held, h.made, h.ids, h.apart, h.one, h.free, h.startedOnce, h.started, h.dropped,
    h.kept, h.accepted⟩

variable [DecidableEq κ]

theorem setState_stats (s : Sys κ) (k : κ) (next : ThreadedActivityState) :
    ∃ f, s.setState k next = { s with stats := f } := by
  unfold Sys.setState
  split
  · exact ⟨s.stats, rfl⟩
  · split
    · exact ⟨s.stats, rfl⟩
    · exact ⟨_, rfl⟩

theorem noteBusy_stats (s : Sys κ) (k : κ) (st : ThreadedActivityStats) (scheduledTime : Int) :
    ∃ f, s.noteBusy k st scheduledTime = { s with stats := f } := by
  unfold Sys.noteBusy
  split
  · exact ⟨_, rfl⟩
  · split
    · exact ⟨_, rfl⟩
    · exact ⟨s.stats, rfl⟩

theorem runScript_stats (s : Sys κ) (q : Job κ) (ran slow : Bool) :
    ∃ f, s.runScript q ran slow = { s with stats := f } := by
  unfold Sys.runScript
  split
  · exact ⟨s.stats, rfl⟩
  · cases ran <;> exact ⟨_, rfl⟩

omit [DecidableEq κ] in
/-- A caller that has no job before and after. Its key is that of no other, and what it passed is free. -/
theorem jobs_caller (h : Jobs sole s place) {i : Nat} {c : Caller κ} (hjob : (s.callers i).job = none) (hc : c.job = none)
    (hkey : ∀ j k, sole k → j ≠ i → c.key = some k → (s.callers j).key ≠ some k)
    (hpassed : ∀ k q, sole k → c.passed = some k → (place q).active = true → q.key ≠ k) :
    Jobs sole (s.setCaller i c) place := by
  refine ⟨h.queue, h.queueOnce, h.absent, h.held, fun j q => ?_, h.ids, fun j j' k hsole hne hk => ?_,
    h.one, fun j k q hsole hp ha => ?_, h.startedOnce, h.started, h.dropped, h.kept, h.accepted⟩
  · rw [← h.made j q]
    unfold Sys.setCaller
    by_cases hj : j = i
    · subst hj
      simp only [Function.update_self, hjob, hc]
    · simp only [Function.update_of_ne hj]
  · unfold Sys.setCaller at hk ⊢
    by_cases hj : j = i
    · subst hj
      simp only [Function.update_self] at hk
      simp only [Function.update_of_ne (Ne.symm hne)]
      exact hkey j' k hsole (Ne.symm hne) hk
    · simp only [Function.update_of_ne hj] at hk
      by_cases hj' : j' = i
      · subst hj'
        simp only [Function.update_self]
        exact fun hk' => hkey j k hsole hj hk' hk
      · simp only [Function.update_of_ne hj']
        exact h.apart j j' k hsole hne hk
  · unfold Sys.setCaller at hp
    by_cases hj : j = i
    · subst hj
      simp only [Function.update_self] at hp
      exact hpassed k q hsole hp ha
    · simp only [Function.update_of_ne hj] at hp
      exact h.free j k q hsole hp ha

omit [DecidableEq κ] in
/-- A thread that keeps its job, or has none. -/
theorem jobs_worker (h : Jobs sole s place) {w : Nat} {x : Worker κ} (hjob : x.job = (s.workers w).job)
    (hrun : x.inRun = (s.workers w).inRun) (hw : w < s.numThreads) : Jobs sole (s.setWorker w x) place := by
  refine ⟨h.queue, h.queueOnce, fun v hv => ?_, fun v q => ?_, h.made, h.ids, h.apart, h.one, h.free, h.startedOnce,
    fun q => ?_, h.dropped, h.kept, h.accepted⟩
  · have hne : v ≠ w := Nat.ne_of_gt (Nat.lt_of_lt_of_le hw hv)
    show Function.update s.workers w x v = _
    rw [Function.update_of_ne hne]
    exact h.absent v hv
  · rw [← h.held v q]
    unfold Sys.setWorker
    by_cases hv : v = w
    · subst hv
      simp only [Function.update_self, hjob]
    · simp only [Function.update_of_ne hv]
  · have hin : ∀ v, ((s.setWorker w x).workers v).inRun = (s.workers v).inRun := by
      intro v
      unfold Sys.setWorker
      by_cases hv : v = w
      · subst hv
        simp only [Function.update_self, hrun]
      · simp only [Function.update_of_ne hv]
    simp only [hin]
    exact h.started q

omit [DecidableEq κ] in
theorem jobs_spawn (h : Jobs sole s place) (ok : Bool) : Jobs sole (s.spawn ok) place := by
  unfold Sys.spawn
  split
  · have habsent : s.workers s.numThreads = .absent := h.absent _ (Nat.le_refl _)
    have hw : Jobs sole { s with numThreads := s.numThreads + 1 } place :=
      ⟨h.queue, h.queueOnce, fun v hv => h.absent v (Nat.le_of_succ_le hv), h.held, h.made, h.ids, h.apart, h.one, h.free,
        h.startedOnce, h.started, h.dropped, h.kept, h.accepted⟩
    exact jobs_worker (w := s.numThreads) (x := .idle) hw (by rw [habsent]; rfl) (by rw [habsent]; rfl)
      (Nat.lt_succ_self _)
  · exact h

/-! ## Steps that move one job -/

/-- Of the places that a job neither leaves nor reaches, nothing changes. -/
theorem update_other {place : Job κ → Place} {q : Job κ} {p r : Place} (hq : place q ≠ r) (hp : p ≠ r) (j : Job κ) :
    Function.update place q p j = r ↔ place j = r := by
  by_cases hj : j = q
  · subst hj
    rw [Function.update_self]
    exact ⟨fun h => absurd h hp, fun h => absurd h hq⟩
  · rw [Function.update_of_ne hj]

/-- The one job that may be active with its key. -/
theorem one_update {place : Job κ → Place} {q : Job κ} {p : Place}
    (h : ∀ j j', sole j.key → (place j).active = true → (place j').active = true → j.key = j'.key → j = j')
    (hq : sole q.key → p.active = true → ∀ j, j ≠ q → (place j).active = true → j.key ≠ q.key) (j j' : Job κ)
    (hsole : sole j.key) (hj : (Function.update place q p j).active = true) (hj' : (Function.update place q p j').active = true)
    (hk : j.key = j'.key) : j = j' := by
  by_cases h1 : j = q
  · by_cases h2 : j' = q
    · rw [h1, h2]
    · subst h1
      rw [Function.update_self] at hj
      rw [Function.update_of_ne h2] at hj'
      exact absurd hk.symm (hq hsole hj j' h2 hj')
  · rw [Function.update_of_ne h1] at hj
    by_cases h2 : j' = q
    · subst h2
      rw [Function.update_self] at hj'
      exact absurd hk (hq (hk ▸ hsole) hj' j h1 hj)
    · rw [Function.update_of_ne h2] at hj'
      exact h j j' hsole hj hj' hk

/-- The started jobs are those that are finished or in `run`, when no thread changes its part in it. -/
theorem started_update {q : Job κ} {p : Place} (hs : ∀ j, j ∈ s.started ↔
      place j = .finished ∨ ∃ w, place j = .held w ∧ (s.workers w).inRun = true)
    (hq : place q ≠ .finished ∧ ∀ w, place q ≠ .held w) (hp : p ≠ .finished ∧ ∀ w, p ≠ .held w) (j : Job κ) :
    j ∈ s.started ↔ Function.update place q p j = .finished ∨
      ∃ w, Function.update place q p j = .held w ∧ (s.workers w).inRun = true := by
  rw [hs j, update_other hq.1 hp.1]
  exact or_congr Iff.rfl (exists_congr fun w => and_congr_left fun _ => (update_other (hq.2 w) (hp.2 w) j).symm)

/-- The caller makes the job of the script that it found queueable. -/
theorem jobs_made (h : Jobs sole s place) {i : Nat} {k : κ} {scheduledTime deadline : Int}
    (hi : s.callers i = .checked k scheduledTime deadline) :
    let q : Job κ := ⟨s.created, k, deadline⟩
    Jobs sole { s.setCaller i (.made q scheduledTime) with created := s.created + 1 } (Function.update place q (.made i)) := by
  intro q
  have hq : place q = .unborn := by
    by_contra hne
    exact absurd (h.ids q hne) (Nat.lt_irrefl _)
  have hkey : ∀ j, ((Function.update s.callers i (.made q scheduledTime)) j).key = (s.callers j).key ∧
      ((Function.update s.callers i (.made q scheduledTime)) j).passed = (s.callers j).passed := by
    intro j
    by_cases hj : j = i
    · subst hj
      rw [Function.update_self, hi]
      exact ⟨rfl, rfl⟩
    · rw [Function.update_of_ne hj]
      exact ⟨rfl, rfl⟩
  refine ⟨fun j => ?_, h.queueOnce, h.absent, fun w j => ?_, fun j q' => ?_, fun j hj => ?_,
    fun j j' k' hsole hne hk => ?_, ?_, fun j k' q' hsole hp ha => ?_, h.startedOnce, ?_, fun j => ?_, h.kept, fun j => ?_⟩
  · rw [update_other (by rw [hq]; intro h1; cases h1) (by intro h1; cases h1)]
    exact h.queue j
  · rw [update_other (by rw [hq]; intro h1; cases h1) (by intro h1; cases h1)]
    exact h.held w j
  · show (Function.update s.callers i _ j).job = some q' ↔ _
    by_cases hj : j = i
    · subst hj
      rw [Function.update_self]
      constructor
      · intro hq'
        cases hq'
        rw [Function.update_self]
      · intro hq'
        by_cases hqq : q' = q
        · rw [hqq]; rfl
        · rw [Function.update_of_ne hqq] at hq'
          have hjob := (h.made j q').mpr hq'
          rw [hi] at hjob
          cases hjob
    · rw [Function.update_of_ne hj,
        update_other (by rw [hq]; intro h1; cases h1) (by intro h1; cases h1; exact hj rfl)]
      exact h.made j q'
  · show j.id < s.created + 1
    by_cases hjq : j = q
    · subst hjq
      exact Nat.lt_succ_self _
    · rw [Function.update_of_ne hjq] at hj
      exact Nat.lt_succ_of_lt (h.ids j hj)
  · show (Function.update s.callers i _ j').key ≠ some k'
    rw [(hkey j').1]
    exact h.apart j j' k' hsole hne ((hkey j).1.symm.trans hk)
  · exact one_update h.one fun _ ha => by cases ha
  · by_cases hjq : q' = q
    · subst hjq
      rw [Function.update_self] at ha
      cases ha
    · rw [Function.update_of_ne hjq] at ha
      exact h.free j k' q' hsole ((hkey j).2.symm.trans hp) ha
  · refine started_update h.started ⟨?_, fun w => ?_⟩ ⟨?_, fun w => ?_⟩
    · rw [hq]; intro h1; cases h1
    · rw [hq]; intro h1; cases h1
    · intro h1; cases h1
    · intro h1; cases h1
  · rw [update_other (by rw [hq]; intro h1; cases h1) (by intro h1; cases h1)]
    exact h.dropped j
  · refine (h.accepted j).trans ?_
    by_cases hjq : j = q
    · subst hjq
      rw [Function.update_self, hq]
      exact ⟨fun h1 => absurd rfl h1.1, fun h1 => absurd rfl (h1.2 i)⟩
    · rw [Function.update_of_ne hjq]

omit [DecidableEq κ] in
theorem key_of_passed {c : Caller κ} {k : κ} (h : c.passed = some k) : c.key = some k := by
  cases c with
  | idle => cases h
  | called k' t d => cases h
  | checked k' t d => exact h
  | made q t => exact h

/-- The job is pushed, and accepted. -/
theorem jobs_push (h : Jobs sole s place) {i : Nat} {q : Job κ} {scheduledTime : Int}
    (hi : s.callers i = .made q scheduledTime) :
    Jobs sole { s.setCaller i .idle with threads := s.threads ++ [q], accepted := s.accepted ++ [q] }
      (Function.update place q .queued) := by
  have hq : place q = .made i := (h.made i q).mp (by rw [hi]; rfl)
  have hkeyi : (s.callers i).key = some q.key := by rw [hi]; rfl
  have hfree : sole q.key → ∀ j, (place j).active = true → j.key ≠ q.key := fun hsole j =>
    h.free i q.key j hsole (by rw [hi]; rfl)
  refine ⟨fun j => ?_, ?_, h.absent, fun w j => ?_, fun j q' => ?_, fun j hj => ?_,
    fun j j' k' hsole hne hk => ?_, ?_, fun j k' q' hsole hp ha => ?_, h.startedOnce, ?_, fun j => ?_, h.kept, fun j => ?_⟩
  · show j ∈ s.threads ++ [q] ↔ _
    rw [List.mem_append, List.mem_singleton, h.queue j]
    by_cases hjq : j = q
    · subst hjq
      simp
    · simp [hjq]
  · refine List.nodup_append.mpr ⟨h.queueOnce, List.nodup_singleton q, fun j hj j' hj' => ?_⟩
    rw [List.mem_singleton.mp hj']
    rintro rfl
    have := (h.queue j).mp hj
    rw [hq] at this
    cases this
  · rw [update_other (by rw [hq]; intro h1; cases h1) (by intro h1; cases h1)]
    exact h.held w j
  · show (Function.update s.callers i _ j).job = some q' ↔ _
    by_cases hj : j = i
    · subst hj
      rw [Function.update_self]
      refine iff_of_false (fun h1 => by cases h1) fun h1 => ?_
      by_cases hqq : q' = q
      · subst hqq
        rw [Function.update_self] at h1
        cases h1
      · rw [Function.update_of_ne hqq] at h1
        have hjob := (h.made j q').mpr h1
        rw [hi] at hjob
        cases hjob
        exact hqq rfl
    · rw [Function.update_of_ne hj,
        update_other (by rw [hq]; intro h1; cases h1; exact hj rfl) (by intro h1; cases h1)]
      exact h.made j q'
  · by_cases hjq : j = q
    · subst hjq
      exact h.ids j (by rw [hq]; intro h1; cases h1)
    · rw [Function.update_of_ne hjq] at hj
      exact h.ids j hj
  · have hk1 : (Function.update s.callers i .idle j).key = some k' := hk
    show (Function.update s.callers i .idle j').key ≠ some k'
    by_cases hj : j = i
    · subst hj
      rw [Function.update_self] at hk1
      cases hk1
    · rw [Function.update_of_ne hj] at hk1
      by_cases hj' : j' = i
      · subst hj'
        rw [Function.update_self]
        intro h1
        cases h1
      · rw [Function.update_of_ne hj']
        exact h.apart j j' k' hsole hne hk1
  · exact one_update h.one fun hsole _ j _ ha => hfree hsole j ha
  · have hp1 : (Function.update s.callers i .idle j).passed = some k' := hp
    by_cases hj : j = i
    · subst hj
      rw [Function.update_self] at hp1
      cases hp1
    · rw [Function.update_of_ne hj] at hp1
      by_cases hqq : q' = q
      · subst hqq
        rintro rfl
        exact h.apart i j q'.key hsole (Ne.symm hj) hkeyi (key_of_passed hp1)
      · rw [Function.update_of_ne hqq] at ha
        exact h.free j k' q' hsole hp1 ha
  · refine started_update h.started ⟨?_, fun w => ?_⟩ ⟨?_, fun w => ?_⟩
    · rw [hq]; intro h1; cases h1
    · rw [hq]; intro h1; cases h1
    · intro h1; cases h1
    · intro h1; cases h1
  · rw [update_other (by rw [hq]; intro h1; cases h1) (by intro h1; cases h1)]
    exact h.dropped j
  · show j ∈ s.accepted ++ [q] ↔ _
    rw [List.mem_append, List.mem_singleton, h.accepted j]
    by_cases hjq : j = q
    · subst hjq
      rw [Function.update_self]
      refine iff_of_true (.inr rfl) ⟨(fun h1 => by cases h1), fun i h1 => by cases h1⟩
    · rw [Function.update_of_ne hjq]
      simp [hjq]

/-- A thread takes the oldest job. -/
theorem jobs_dequeue (h : Jobs sole s place) {w : Nat} {q : Job κ} {rest : List (Job κ)} (hw : w < s.numThreads)
    (hjob : (s.workers w).job = none) (hqueue : s.threads = q :: rest) :
    Jobs sole { s.setWorker w (.holding q) with threads := rest } (Function.update place q (.held w)) := by
  have hq : place q = .queued := (h.queue q).mp (by rw [hqueue]; exact List.mem_cons_self ..)
  have hnodup := h.queueOnce
  rw [hqueue] at hnodup
  obtain ⟨hnot, hrest⟩ := List.nodup_cons.mp hnodup
  have hrun : (s.workers w).inRun = false := by
    cases hx : s.workers w <;> rw [hx] at hjob <;> first | rfl | cases hjob
  have hnone : ∀ j, place j ≠ .held w := by
    intro j hj
    rw [← h.held w j, hjob] at hj
    cases hj
  refine ⟨fun j => ?_, hrest, fun v hv => ?_, fun v j => ?_, fun i q' => ?_, fun j hj => ?_, h.apart, ?_,
    fun i k q' hsole hp ha => ?_, h.startedOnce, fun j => ?_, fun j => ?_, h.kept, fun j => ?_⟩
  · by_cases hjq : j = q
    · subst hjq
      rw [Function.update_self]
      exact iff_of_false hnot fun h1 => by cases h1
    · rw [Function.update_of_ne hjq, ← h.queue j, hqueue, List.mem_cons]
      simp [hjq]
  · show Function.update s.workers w _ v = _
    rw [Function.update_of_ne (Nat.ne_of_gt (Nat.lt_of_lt_of_le hw hv))]
    exact h.absent v hv
  · show (Function.update s.workers w _ v).job = some j ↔ _
    by_cases hv : v = w
    · subst hv
      rw [Function.update_self]
      by_cases hjq : j = q
      · subst hjq
        rw [Function.update_self]
        exact iff_of_true rfl rfl
      · rw [Function.update_of_ne hjq]
        refine iff_of_false (fun h1 => ?_) (hnone j)
        cases h1
        exact hjq rfl
    · rw [Function.update_of_ne hv,
        update_other (by rw [hq]; intro h1; cases h1) (by intro h1; cases h1; exact hv rfl)]
      exact h.held v j
  · rw [update_other (by rw [hq]; intro h1; cases h1) (by intro h1; cases h1)]
    exact h.made i q'
  · by_cases hjq : j = q
    · subst hjq
      exact h.ids j (by rw [hq]; intro h1; cases h1)
    · rw [Function.update_of_ne hjq] at hj
      exact h.ids j hj
  · exact one_update h.one fun hsole _ j hj ha hk => hj (h.one j q (hk ▸ hsole) ha (by rw [hq]; rfl) hk)
  · by_cases hqq : q' = q
    · subst hqq
      exact h.free i k q' hsole hp (by rw [hq]; rfl)
    · rw [Function.update_of_ne hqq] at ha
      exact h.free i k q' hsole hp ha
  · refine (h.started j).trans (or_congr ?_ (exists_congr fun v => ?_))
    · exact (update_other (by rw [hq]; intro h1; cases h1) (by intro h1; cases h1) j).symm
    · show place j = .held v ∧ _ ↔ _ ∧ (Function.update s.workers w _ v).inRun = true
      by_cases hv : v = w
      · subst hv
        rw [Function.update_self]
        exact iff_of_false (fun h1 => hnone j h1.1) fun h1 => by cases h1.2
      · rw [Function.update_of_ne hv,
          update_other (by rw [hq]; intro h1; cases h1) (by intro h1; cases h1; exact hv rfl)]
  · rw [update_other (by rw [hq]; intro h1; cases h1) (by intro h1; cases h1)]
    exact h.dropped j
  · refine (h.accepted j).trans ?_
    by_cases hjq : j = q
    · subst hjq
      rw [Function.update_self, hq]
      refine iff_of_true ⟨?_, fun i => ?_⟩ ⟨?_, fun i => ?_⟩ <;> (intro h1; cases h1)
    · rw [Function.update_of_ne hjq]

omit [DecidableEq κ] in
/-- A thread begins to run its job. -/
theorem jobs_start (h : Jobs sole s place) {w : Nat} {q : Job κ} (hw : w < s.numThreads) (hx : s.workers w = .holding q) :
    Jobs sole { s.setWorker w (.starting q) with started := s.started ++ [q] } place := by
  have hq : place q = .held w := (h.held w q).mp (by rw [hx]; rfl)
  have hnot : q ∉ s.started := by
    intro hs
    rcases (h.started q).mp hs with h1 | ⟨v, h1, hrun⟩
    · rw [hq] at h1; cases h1
    · rw [hq] at h1
      cases h1
      rw [hx] at hrun
      cases hrun
  have hjob : ∀ v, (Function.update s.workers w (.starting q) v).job = (s.workers v).job := by
    intro v
    by_cases hv : v = w
    · subst hv
      rw [Function.update_self, hx]
      rfl
    · rw [Function.update_of_ne hv]
  refine ⟨h.queue, h.queueOnce, fun v hv => ?_, fun v j => ?_, h.made, h.ids, h.apart, h.one, h.free, ?_, fun j => ?_,
    h.dropped, h.kept, h.accepted⟩
  · show Function.update s.workers w _ v = _
    rw [Function.update_of_ne (Nat.ne_of_gt (Nat.lt_of_lt_of_le hw hv))]
    exact h.absent v hv
  · show (Function.update s.workers w _ v).job = some j ↔ _
    rw [hjob v]
    exact h.held v j
  · refine List.nodup_append.mpr ⟨h.startedOnce, List.nodup_singleton q, fun j hj j' hj' => ?_⟩
    rw [List.mem_singleton.mp hj']
    rintro rfl
    exact hnot hj
  · show j ∈ s.started ++ [q] ↔ _ ∨ ∃ v, _ ∧ (Function.update s.workers w _ v).inRun = true
    rw [List.mem_append, List.mem_singleton, h.started j]
    constructor
    · rintro ((h1 | ⟨v, h1, hrun⟩) | rfl)
      · exact .inl h1
      · refine .inr ⟨v, h1, ?_⟩
        by_cases hv : v = w
        · subst hv
          rw [Function.update_self]
          rfl
        · rw [Function.update_of_ne hv]
          exact hrun
      · refine .inr ⟨w, hq, ?_⟩
        rw [Function.update_self]
        rfl
    · rintro (h1 | ⟨v, h1, hrun⟩)
      · exact .inl (.inl h1)
      · by_cases hv : v = w
        · subst hv
          have hj := (h.held v j).mpr h1
          rw [hx] at hj
          cases hj
          exact .inr rfl
        · rw [Function.update_of_ne hv] at hrun
          exact .inl (.inr ⟨v, h1, hrun⟩)

/-- A thread lets go of its job: it is finished, or dropped. -/
theorem jobs_let_go (h : Jobs sole s place) {w : Nat} {q : Job κ} {x : Worker κ} {p : Place}
    (dropped : List (Job κ)) (hw : w < s.numThreads) (hjob : (s.workers w).job = some q) (hx : x.job = none)
    (hp : (p = .finished ∧ (s.workers w).inRun = true ∧ dropped = s.dropped) ∨
      (p = .dropped ∧ (s.workers w).inRun = false ∧ dropped = s.dropped ++ [q] ∧ s.terminating = true)) :
    Jobs sole { s.setWorker w x with dropped := dropped } (Function.update place q p) := by
  have hq : place q = .held w := (h.held w q).mp hjob
  have hxrun : x.inRun = false := by
    cases x <;> first | rfl | cases hx
  have hother : ∀ r, r ≠ .held w → r ≠ .finished → r ≠ .dropped → ∀ j, Function.update place q p j = r ↔ place j = r := by
    intro r h1 h2 h3 j
    refine update_other (by rw [hq]; exact Ne.symm h1) ?_ j
    rcases hp with ⟨rfl, -⟩ | ⟨rfl, -⟩
    · exact Ne.symm h2
    · exact Ne.symm h3
  have hinactive : p.active = false := by
    rcases hp with ⟨rfl, -⟩ | ⟨rfl, -⟩ <;> rfl
  have hactive : ∀ j, (Function.update place q p j).active = true → (place j).active = true := by
    intro j hj
    by_cases hjq : j = q
    · subst hjq
      rw [Function.update_self, hinactive] at hj
      cases hj
    · rwa [Function.update_of_ne hjq] at hj
  refine ⟨fun j => ?_, h.queueOnce, fun v hv => ?_, fun v j => ?_, fun i q' => ?_, fun j hj => ?_, h.apart, ?_,
    fun i k q' hsole hp' ha => h.free i k q' hsole hp' (hactive q' ha), h.startedOnce, fun j => ?_, fun j => ?_, fun ht => ?_,
    fun j => ?_⟩
  · rw [hother _ (by intro h1; cases h1) (by intro h1; cases h1) (by intro h1; cases h1)]
    exact h.queue j
  · show Function.update s.workers w _ v = _
    rw [Function.update_of_ne (Nat.ne_of_gt (Nat.lt_of_lt_of_le hw hv))]
    exact h.absent v hv
  · show (Function.update s.workers w _ v).job = some j ↔ _
    by_cases hv : v = w
    · subst hv
      rw [Function.update_self, hx]
      refine iff_of_false (fun h1 => by cases h1) fun h1 => ?_
      by_cases hjq : j = q
      · subst hjq
        rw [Function.update_self] at h1
        rw [h1] at hinactive
        cases hinactive
      · rw [Function.update_of_ne hjq] at h1
        have hj := (h.held v j).mpr h1
        rw [hjob] at hj
        cases hj
        exact hjq rfl
    · rw [Function.update_of_ne hv,
        hother _ (by intro h1; cases h1; exact hv rfl) (by intro h1; cases h1) (by intro h1; cases h1)]
      exact h.held v j
  · rw [hother _ (by intro h1; cases h1) (by intro h1; cases h1) (by intro h1; cases h1)]
    exact h.made i q'
  · by_cases hjq : j = q
    · subst hjq
      exact h.ids j (by rw [hq]; intro h1; cases h1)
    · rw [Function.update_of_ne hjq] at hj
      exact h.ids j hj
  · exact one_update h.one fun _ ha => by rw [hinactive] at ha; cases ha
  · show j ∈ s.started ↔ _ ∨ ∃ v, _ ∧ (Function.update s.workers w _ v).inRun = true
    rw [h.started j]
    by_cases hjq : j = q
    · subst hjq
      rw [Function.update_self, hq]
      rcases hp with ⟨rfl, hrun, -⟩ | ⟨rfl, hrun, -⟩
      · exact iff_of_true (.inr ⟨w, rfl, hrun⟩) (.inl rfl)
      · refine iff_of_false ?_ ?_
        · rintro (h1 | ⟨v, h1, hrun'⟩)
          · cases h1
          · cases h1
            rw [hrun] at hrun'
            cases hrun'
        · rintro (h1 | ⟨v, h1, -⟩)
          · cases h1
          · cases h1
    · rw [Function.update_of_ne hjq]
      refine or_congr Iff.rfl (exists_congr fun v => and_congr_right fun h1 => ?_)
      have hv : v ≠ w := by
        rintro rfl
        have hj := (h.held v j).mpr h1
        rw [hjob] at hj
        cases hj
        exact hjq rfl
      rw [Function.update_of_ne hv]
  · show j ∈ dropped ↔ _
    rcases hp with ⟨rfl, -, rfl⟩ | ⟨rfl, -, rfl, -⟩
    · rw [update_other (by rw [hq]; intro h1; cases h1) (by intro h1; cases h1)]
      exact h.dropped j
    · rw [List.mem_append, List.mem_singleton, h.dropped j]
      by_cases hjq : j = q
      · subst hjq
        rw [Function.update_self]
        exact iff_of_true (.inr rfl) rfl
      · rw [Function.update_of_ne hjq]
        simp [hjq]
  · have ht' : s.terminating = false := ht
    rcases hp with ⟨-, -, rfl⟩ | ⟨-, -, -, hterm⟩
    · exact h.kept ht'
    · rw [ht'] at hterm
      cases hterm
  · refine (h.accepted j).trans ?_
    by_cases hjq : j = q
    · subst hjq
      rw [Function.update_self, hq]
      refine iff_of_true ⟨(fun h1 => by cases h1), fun i h1 => by cases h1⟩ ?_
      rcases hp with ⟨rfl, -⟩ | ⟨rfl, -⟩ <;> exact ⟨(fun h1 => by cases h1), fun i h1 => by cases h1⟩
    · rw [Function.update_of_ne hjq]

/-! ## The recorded states -/

theorem recorded_setStats (k k' : κ) (st : ThreadedActivityStats) :
    recorded (s.setStats k st) k' = if k' = k then st.state else recorded s k' := by
  unfold recorded Sys.setStats
  by_cases hk : k' = k
  · subst hk
    simp
  · simp [hk]

omit [DecidableEq κ] in
theorem recorded_of_stats {s' : Sys κ} {k : κ} (h : s'.stats k = s.stats k) : recorded s' k = recorded s k := by
  unfold recorded
  rw [h]

/-- Statistics with the state that was recorded. -/
theorem recorded_same {k : κ} {st : ThreadedActivityStats} (h : st.state = recorded s k) (k' : κ) :
    recorded (s.setStats k st) k' = recorded s k' := by
  rw [recorded_setStats]
  split
  · rename_i hk
    rw [hk, h]
  · rfl

theorem stats_setStats {k k' : κ} {st : ThreadedActivityStats} (h : s.stats k' ≠ none) :
    (s.setStats k st).stats k' ≠ none := by
  unfold Sys.setStats
  by_cases hk : k' = k
  · subst hk
    simp
  · simpa [hk] using h

omit [DecidableEq κ] in
/-- Statistics that are found have the recorded state, also when they are new. -/
theorem state_of_found {k : κ} {allocOk : Bool} {st : ThreadedActivityStats}
    (h : s.getThreadedActivityStats k allocOk = some st) : s.shutdownRequested = false ∧ st.state = recorded s k := by
  unfold Sys.getThreadedActivityStats at h
  cases hs : s.shutdownRequested with
  | true =>
    rw [hs] at h
    cases h
  | false =>
    rw [hs] at h
    refine ⟨rfl, ?_⟩
    unfold recorded
    cases hk : s.stats k with
    | some st' =>
      rw [hk] at h
      cases h
      rfl
    | none =>
      rw [hk] at h
      cases allocOk with
      | false => cases h
      | true =>
        cases h
        rfl

/-- What `set_state` writes, outside a shutdown, when the transition is valid. -/
theorem recorded_setState {k : κ} {next : ThreadedActivityState} (hs : s.shutdownRequested = false)
    (hk : s.stats k ≠ none) (hq : recorded s k = .queued → next = .running)
    (hr : recorded s k = .running → next = .sleeping) : recorded (s.setState k next) k = next := by
  obtain ⟨st, hst⟩ := Option.ne_none_iff_exists'.mp hk
  have hrec : recorded s k = st.state := by
    unfold recorded
    rw [hst]
    rfl
  have hnext : (st.setState next).state = next := by
    rw [hrec] at hq hr
    unfold ThreadedActivityStats.setState
    rw [if_neg]
    rintro (⟨h1, h2⟩ | ⟨h1, h2⟩)
    · exact h2 (hq h1)
    · exact h2 (hr h1)
  unfold Sys.setState
  rw [hs, hst]
  simp only [Bool.false_eq_true, if_false]
  rw [recorded_setStats, hnext, if_pos rfl]

/-- The other scripts are not concerned. -/
theorem recorded_setState_other {k k' : κ} (next : ThreadedActivityState) (hk : k' ≠ k) :
    recorded (s.setState k next) k' = recorded s k' := by
  unfold Sys.setState
  split
  · rfl
  · split
    · rfl
    · rw [recorded_setStats, if_neg hk]

theorem setState_shutdown (hs : s.shutdownRequested = true) (k : κ) (next : ThreadedActivityState) :
    s.setState k next = s := by
  unfold Sys.setState
  rw [if_pos hs]

theorem stats_setState {k k' : κ} {next : ThreadedActivityState} (h : s.stats k' ≠ none) :
    (s.setState k next).stats k' ≠ none := by
  unfold Sys.setState
  split
  · exact h
  · split
    · exact h
    · exact stats_setStats h

theorem noteScheduled_stats (s : Sys κ) (k : κ) (t : Int) : ∃ f, s.noteScheduled k t = { s with stats := f } := by
  unfold Sys.noteScheduled
  split
  · exact ⟨_, rfl⟩
  · exact ⟨s.stats, rfl⟩

theorem recorded_noteScheduled (k : κ) (t : Int) (k' : κ) : recorded (s.noteScheduled k t) k' = recorded s k' := by
  unfold Sys.noteScheduled
  split
  · rename_i st hst
    apply recorded_same
    unfold recorded
    rw [hst]
    rfl
  · rfl

theorem stats_noteScheduled {k k' : κ} {t : Int} (h : s.stats k' ≠ none) : (s.noteScheduled k t).stats k' ≠ none := by
  unfold Sys.noteScheduled
  split
  · exact stats_setStats h
  · exact h

theorem recorded_noteBusy {k : κ} {st : ThreadedActivityStats} (h : s.stats k = some st) (t : Int) (k' : κ) :
    recorded (s.noteBusy k st t) k' = recorded s k' := by
  have hrec : st.state = recorded s k := by
    unfold recorded
    rw [h]
    rfl
  unfold Sys.noteBusy
  split
  · apply recorded_same
    exact hrec
  · split
    · apply recorded_same
      exact hrec
    · rfl

theorem recorded_check (i : Nat) (k : κ) (scheduledTime deadline : Int) (allocOk : Bool) (k' : κ) :
    recorded (s.check i k scheduledTime deadline allocOk) k' = recorded s k' := by
  unfold Sys.check
  cases hfound : s.getThreadedActivityStats k allocOk with
  | none => rfl
  | some st =>
    have hrec := recorded_same (state_of_found hfound).2 k'
    have hget : (s.setStats k st).stats k = some st := Function.update_self ..
    dsimp only
    split
    · exact hrec
    · exact (recorded_noteBusy hget scheduledTime k').trans hrec

theorem recorded_runScript (q : Job κ) (ran slow : Bool) (k : κ) :
    recorded (s.runScript q ran slow) k = recorded s k := by
  have hget : ((s.stats q.key).getD .new).state = recorded s q.key := by
    unfold recorded
    cases s.stats q.key <;> rfl
  unfold Sys.runScript
  split
  · rfl
  · generalize (s.stats q.key).getD .new = st at hget
    have h1 : ∀ k, recorded (s.setStats q.key st) k = recorded s k := recorded_same hget
    cases ran with
    | false => exact h1 k
    | true =>
      simp only [if_true]
      rw [recorded_same, h1]
      rw [h1]
      cases slow <;> exact hget

theorem stats_runScript {k : κ} (q : Job κ) (ran slow : Bool) (h : s.stats k ≠ none) :
    (s.runScript q ran slow).stats k ≠ none := by
  unfold Sys.runScript
  split
  · exact h
  · cases ran with
    | false => exact stats_setStats h
    | true => exact stats_setStats (stats_setStats h)

/-! ## Steps of a caller -/

/-- What holds of the pool in every state. -/
def Inv (sole : κ → Prop) (s : Sys κ) : Prop :=
  ∃ place, Jobs sole s place ∧ (s.shutdownRequested = false → States sole s)

omit [DecidableEq κ] in
/-- A caller whose call is over. -/
theorem inv_caller_idle (h : Jobs sole s place) (hst : s.shutdownRequested = false → States sole s) {i : Nat}
    (hjob : (s.callers i).job = none) : Inv sole (s.setCaller i .idle) := by
  have hjobs : Jobs sole (s.setCaller i .idle) place :=
    jobs_caller h hjob rfl (fun j k _ _ hk => by cases hk) (fun k q _ hk => by cases hk)
  refine ⟨place, hjobs, fun hs => ?_⟩
  have hst' := hst hs
  refine ⟨fun j k hsole hk => ?_, hst'.queued, hst'.held⟩
  have hk' : (Function.update s.callers i .idle j).passed = some k := hk
  by_cases hj : j = i
  · subst hj
    rw [Function.update_self] at hk'
    cases hk'
  · rw [Function.update_of_ne hj] at hk'
    exact hst'.passed j k hsole hk'

omit [DecidableEq κ] in
/-- Outside a shutdown the recorded state of a script with a job is not one to be queued. -/
theorem not_queueable (h : Jobs sole s place) (hst : States sole s) {q : Job κ} (hsole : sole q.key)
    (ha : (place q).active = true) : isQueueable (recorded s q.key) = false := by
  rcases (active_iff h q).mpr ha with hq | ⟨w, hw⟩
  · rw [hst.queued q hq hsole]; rfl
  · rw [hst.held w q hsole hw]
    split <;> rfl

omit [DecidableEq κ] in
/-- Statistics of the same states are as good. -/
theorem states_stats (h : States sole s) {f : κ → Option ThreadedActivityStats}
    (hr : ∀ k, recorded { s with stats := f } k = recorded s k) (hn : ∀ k, s.stats k ≠ none → f k ≠ none) :
    States sole { s with stats := f } := by
  refine ⟨fun i k hsole hk => ⟨hn k (h.passed i k hsole hk).1, ?_⟩, fun q hq hsole => ?_, fun w q hsole hw => ?_⟩
  · rw [hr]; exact (h.passed i k hsole hk).2
  · rw [hr]; exact h.queued q hq hsole
  · rw [hr]; exact h.held w q hsole hw

/-- The check: the state that is read is that of a script without a job, or the call is over. -/
theorem inv_check (h : Jobs sole s place) (hst : s.shutdownRequested = false → States sole s) {i : Nat} {k : κ}
    {scheduledTime deadline : Int} (hi : s.callers i = .called k scheduledTime deadline) (allocOk : Bool) :
    Inv sole (s.check i k scheduledTime deadline allocOk) := by
  have hjob : (s.callers i).job = none := by rw [hi]; rfl
  unfold Sys.check
  cases hfound : s.getThreadedActivityStats k allocOk with
  | none => exact inv_caller_idle h hst hjob
  | some st =>
    obtain ⟨hs, hstate⟩ := state_of_found hfound
    have hrec := recorded_same hstate
    have h1 : Jobs sole (s.setStats k st) place := jobs_stats h _
    have hst1 : States sole (s.setStats k st) := states_stats (hst hs) hrec fun k' hk' => stats_setStats hk'
    have hget : (s.setStats k st).stats k = some st := Function.update_self ..
    cases hq : isQueueable st.state with
    | false =>
      simp only [hq, Bool.false_eq_true, if_false]
      obtain ⟨f, hf⟩ := noteBusy_stats (s.setStats k st) k st scheduledTime
      have hrec' := recorded_noteBusy hget scheduledTime
      have hnone : ∀ k', (s.setStats k st).stats k' ≠ none →
          ((s.setStats k st).noteBusy k st scheduledTime).stats k' ≠ none := by
        intro k' hk'
        unfold Sys.noteBusy
        split
        · exact stats_setStats hk'
        · split
          · exact stats_setStats hk'
          · exact hk'
      rw [hf] at hrec' hnone ⊢
      exact inv_caller_idle (jobs_stats h1 f) (fun _ => states_stats hst1 hrec' hnone) hjob
    | true =>
      simp only [hq, if_true]
      have hfree : sole k → ∀ q, (place q).active = true → q.key ≠ k := by
        rintro hsole q ha rfl
        have hno := not_queueable h (hst hs) hsole ha
        rw [← hstate, hq] at hno
        cases hno
      refine ⟨place, ?_, fun _ => ⟨fun j k' hsole hk' => ?_, hst1.queued, hst1.held⟩⟩
      · refine jobs_caller (i := i) (c := .checked k scheduledTime deadline) h1 hjob rfl (fun j k' hsole hj hk' => ?_) ?_
        · cases hk'
          exact h.apart i j k hsole (Ne.symm hj) (by rw [hi]; rfl)
        · intro k' q hsole hk' ha
          cases hk'
          exact hfree hsole q ha
      · have hk1 : (Function.update s.callers i (.checked k scheduledTime deadline) j).passed = some k' := hk'
        by_cases hj : j = i
        · subst hj
          rw [Function.update_self] at hk1
          cases hk1
          have hqueueable : isQueueable (recorded (s.setStats k st) k) = true := by
            rw [hrec, ← hstate]
            exact hq
          have hsome : (s.setStats k st).stats k ≠ none := by
            rw [hget]
            exact Option.some_ne_none _
          exact ⟨hsome, hqueueable⟩
        · rw [Function.update_of_ne hj] at hk1
          exact hst1.passed j k' hsole hk1

omit [DecidableEq κ] in
theorem states_spawn (hst : States sole s) (ok : Bool) : States sole (s.spawn ok) := by
  unfold Sys.spawn
  split
  · refine ⟨hst.passed, hst.queued, fun w q hsole hw => ?_⟩
    have hw1 : (Function.update s.workers s.numThreads .idle w).job = some q := hw
    show _ = if (Function.update s.workers s.numThreads .idle w).marked then _ else _
    by_cases hv : w = s.numThreads
    · subst hv
      rw [Function.update_self] at hw1
      cases hw1
    · rw [Function.update_of_ne hv] at hw1 ⊢
      exact hst.held w q hsole hw1
  · exact hst

/-- Threads were added, and nothing else changed. -/
structure MoreThreads (sole : κ → Prop) (s s' : Sys κ) : Prop where
  callers : s'.callers = s.callers
  shutdownRequested : s'.shutdownRequested = s.shutdownRequested
  stats : s'.stats = s.stats
  jobs : ∀ place, Jobs sole s place → Jobs sole s' place
  states : States sole s → States sole s'

omit [DecidableEq κ] in
theorem moreThreads_spawn (s : Sys κ) (ok : Bool) : MoreThreads sole s (s.spawn ok) := by
  refine ⟨?_, ?_, ?_, fun place h => jobs_spawn h ok, fun hst => states_spawn hst ok⟩ <;> (unfold Sys.spawn; split <;> rfl)

omit [DecidableEq κ] in
theorem moreThreads_spawnInitial (s : Sys κ) (ok : Nat → Bool) : MoreThreads sole s (s.spawnInitial ok) := by
  have hself : MoreThreads sole s s := ⟨rfl, rfl, rfl, fun _ => id, id⟩
  unfold Sys.spawnInitial
  split
  · refine List.foldlRecOn (motive := fun s' => MoreThreads sole s s') _ _ hself fun s1 h1 n _ => ?_
    have h2 : MoreThreads sole s1 (s1.spawn (ok n)) := moreThreads_spawn s1 (ok n)
    exact ⟨h2.callers.trans h1.callers, h2.shutdownRequested.trans h1.shutdownRequested, h2.stats.trans h1.stats,
      fun place h => h2.jobs place (h1.jobs place h), fun hst => h2.states (h1.states hst)⟩
  · exact hself

theorem inv_make (h : Jobs sole s place) (hst : s.shutdownRequested = false → States sole s) {i : Nat} {k : κ}
    {scheduledTime deadline : Int} (hi : s.callers i = .checked k scheduledTime deadline) (allocOk spawnOk : Bool) :
    Inv sole (s.make i k scheduledTime deadline allocOk spawnOk) := by
  unfold Sys.make
  cases allocOk with
  | false => exact inv_caller_idle h hst (by rw [hi]; rfl)
  | true =>
    simp only [if_true]
    generalize hspawn : (if (!s.limitResourcesUsage && decide ((s.threads.length : Int) > s.numThreads - 3)) = true then
      s.spawn spawnOk else s) = s1
    have hmore : MoreThreads sole s s1 := by
      rw [← hspawn]
      split
      · exact moreThreads_spawn s spawnOk
      · exact ⟨rfl, rfl, rfl, fun _ => id, id⟩
    have hi1 : s1.callers i = .checked k scheduledTime deadline := by
      rw [hmore.callers]
      exact hi
    refine ⟨_, jobs_made (hmore.jobs place h) hi1, fun hs => ?_⟩
    have hst' := hmore.states (hst (hmore.shutdownRequested ▸ hs))
    refine ⟨fun j k' hsole hk => ?_, hst'.queued, hst'.held⟩
    have hk1 : (Function.update s1.callers i (.made ⟨s1.created, k, deadline⟩ scheduledTime) j).passed = some k' := hk
    by_cases hj : j = i
    · subst hj
      rw [Function.update_self] at hk1
      cases hk1
      exact hst'.passed j k hsole (by rw [hi1]; rfl)
    · rw [Function.update_of_ne hj] at hk1
      exact hst'.passed j k' hsole hk1

/-- The push: the state of the script becomes queued, and no other script is concerned. -/
theorem inv_push (h : Jobs sole s place) (hst : s.shutdownRequested = false → States sole s) {i : Nat} {q : Job κ}
    {scheduledTime : Int} (hi : s.callers i = .made q scheduledTime) : Inv sole (s.push i q scheduledTime) := by
  obtain ⟨f, hf⟩ := noteScheduled_stats s q.key scheduledTime
  have hrec : ∀ k, recorded (s.noteScheduled q.key scheduledTime) k = recorded s k :=
    recorded_noteScheduled q.key scheduledTime
  have hnone : ∀ k, s.stats k ≠ none → (s.noteScheduled q.key scheduledTime).stats k ≠ none := fun _ => stats_noteScheduled
  unfold Sys.push
  rw [hf] at hrec hnone ⊢
  have h1 : Jobs sole { s with stats := f } place := jobs_stats h f
  have hst1 : ({ s with stats := f } : Sys κ).shutdownRequested = false → States sole { s with stats := f } := fun hs =>
    states_stats (hst hs) hrec hnone
  have hi1 : ({ s with stats := f } : Sys κ).callers i = .made q scheduledTime := hi
  generalize ({ s with stats := f } : Sys κ) = s1 at h1 hst1 hi1 ⊢
  have hkey : sole q.key → ∀ j, (place j).active = true → j.key ≠ q.key := fun hsole j =>
    h1.free i q.key j hsole (by rw [hi1]; rfl)
  obtain ⟨g, hg⟩ := setState_stats s1 q.key .queued
  dsimp only
  refine ⟨Function.update place q .queued, ?_, fun hs => ?_⟩
  · rw [hg]
    exact jobs_push (jobs_stats h1 g) hi1
  · have hs1 : s1.shutdownRequested = false := by
      rw [hg] at hs
      exact hs
    have hst2 := hst1 hs1
    have hother : ∀ k, k ≠ q.key → recorded (s1.setState q.key .queued) k = recorded s1 k := fun k =>
      recorded_setState_other _
    have hnow : sole q.key → recorded (s1.setState q.key .queued) q.key = .queued := by
      intro hsole
      obtain ⟨hsome, hqueueable⟩ := hst2.passed i q.key hsole (by rw [hi1]; rfl)
      apply recorded_setState hs1 hsome
      · intro hq
        rw [hq] at hqueueable
        cases hqueueable
      · intro hq
        rw [hq] at hqueueable
        cases hqueueable
    refine ⟨fun j k hsole hk => ?_, fun j hj hsole => ?_, fun w j hsole hw => ?_⟩
    · have hk1 : (Function.update s1.callers i .idle j).passed = some k := by
        rw [hg] at hk
        exact hk
      by_cases hj : j = i
      · subst hj
        rw [Function.update_self] at hk1
        cases hk1
      · rw [Function.update_of_ne hj] at hk1
        have hne : k ≠ q.key := by
          rintro rfl
          exact h1.apart i j q.key hsole (Ne.symm hj) (by rw [hi1]; rfl) (key_of_passed hk1)
        obtain ⟨hn, hq⟩ := hst2.passed j k hsole hk1
        refine ⟨stats_setState hn, ?_⟩
        show isQueueable (recorded (s1.setState q.key .queued) k) = true
        rw [hother k hne]
        exact hq
    · show recorded (s1.setState q.key .queued) j.key = .queued
      have hj1 : j ∈ s1.threads ++ [q] := by
        rw [hg] at hj
        exact hj
      by_cases hk : j.key = q.key
      · rw [hk] at hsole ⊢
        exact hnow hsole
      · rw [hother _ hk]
        rcases List.mem_append.mp hj1 with hold | hnew
        · exact hst2.queued j hold hsole
        · exact absurd (by rw [List.mem_singleton.mp hnew]) hk
    · have hw1 : (s1.workers w).job = some j ∧
          ((s1.setState q.key .queued).workers w).marked = (s1.workers w).marked := by
        rw [hg] at hw ⊢
        exact ⟨hw, rfl⟩
      show recorded (s1.setState q.key .queued) j.key = if ((s1.setState q.key .queued).workers w).marked then _ else _
      have hne : j.key ≠ q.key := by
        intro hk
        exact hkey (hk ▸ hsole) j (by rw [(h1.held w j).mp hw1.1]; rfl) hk
      rw [hother _ hne, hw1.2]
      exact hst2.held w j hsole hw1.1

/-! ## Steps of a thread -/

omit [DecidableEq κ] in
theorem present (h : Jobs sole s place) {w : Nat} (hw : s.workers w ≠ .absent) : w < s.numThreads := by
  by_contra hge
  exact hw (h.absent w (Nat.le_of_not_lt hge))

omit [DecidableEq κ] in
/-- A thread changes its part: the state of its job is as it should be then. -/
theorem states_worker (hst : States sole s) {w : Nat} {x : Worker κ}
    (hx : ∀ q, sole q.key → x.job = some q → recorded s q.key = if x.marked then .running else .queued) :
    States sole (s.setWorker w x) := by
  refine ⟨hst.passed, hst.queued, fun v q hsole hv => ?_⟩
  have hv1 : (Function.update s.workers w x v).job = some q := hv
  show _ = if (Function.update s.workers w x v).marked then _ else _
  by_cases hvw : v = w
  · subst hvw
    rw [Function.update_self] at hv1 ⊢
    exact hx q hsole hv1
  · rw [Function.update_of_ne hvw] at hv1 ⊢
    exact hst.held v q hsole hv1

theorem inv_dequeueJob (h : Jobs sole s place) (hst : s.shutdownRequested = false → States sole s) {w : Nat}
    (hw : s.workers w = .waiting) : Inv sole (s.dequeueJob w) := by
  have hlt : w < s.numThreads := present h (by rw [hw]; intro h1; cases h1)
  unfold Sys.dequeueJob
  split
  · exact ⟨place, jobs_worker h (by rw [hw]; rfl) (by rw [hw]; rfl) hlt,
      fun hs => states_worker (hst hs) fun q _ hq => by cases hq⟩
  · cases hqueue : s.threads with
    | nil => exact ⟨place, h, hst⟩
    | cons q rest =>
      refine ⟨_, jobs_dequeue h hlt (by rw [hw]; rfl) hqueue, fun hs => ?_⟩
      have hst' := hst hs
      have hq := hst'.queued q (by rw [hqueue]; exact List.mem_cons_self ..)
      have hst1 : States sole (s.setWorker w (.holding q)) := by
        refine states_worker hst' fun q' hsole hq' => ?_
        cases hq'
        exact hq hsole
      refine ⟨hst1.passed, fun j hj => hst'.queued j ?_, hst1.held⟩
      rw [hqueue]
      exact List.mem_cons_of_mem _ hj

/-- A thread marks the script of its job: no other job and no caller is concerned. -/
theorem states_mark (h : Jobs sole s place) (hst : States sole s) (hs : s.shutdownRequested = false) {w : Nat}
    {q : Job κ} {x : Worker κ} {next : ThreadedActivityState} (hjob : (s.workers w).job = some q)
    (hx : x.job = none ∨ (x.job = some q ∧ next = if x.marked then .running else .queued))
    (hq : sole q.key → recorded s q.key = .queued → next = .running)
    (hr : sole q.key → recorded s q.key = .running → next = .sleeping) :
    States sole ((s.setState q.key next).setWorker w x) := by
  have hplace := (h.held w q).mp hjob
  have hactive : (place q).active = true := by rw [hplace]; rfl
  have hnow : sole q.key → recorded (s.setState q.key next) q.key = next := by
    intro hsole
    refine recorded_setState hs ?_ (hq hsole) (hr hsole)
    intro hnone
    have hrec := hst.held w q hsole hjob
    unfold recorded at hrec
    rw [hnone] at hrec
    revert hrec
    split <;> (intro h1; cases h1)
  have hother : ∀ k, k ≠ q.key → recorded (s.setState q.key next) k = recorded s k := fun k =>
    recorded_setState_other next
  obtain ⟨f, hf⟩ := setState_stats s q.key next
  have hnone : ∀ k, s.stats k ≠ none → (s.setState q.key next).stats k ≠ none := fun k => stats_setState
  rw [hf] at hnow hother hnone ⊢
  refine ⟨fun i k hsole hk => ?_, fun j hj hsole => ?_, fun v j hsole hv => ?_⟩
  · have hk1 : (s.callers i).passed = some k := hk
    have hne : k ≠ q.key := fun hkq => h.free i k q hsole hk1 hactive hkq.symm
    refine ⟨hnone k (hst.passed i k hsole hk1).1, ?_⟩
    show isQueueable (recorded { s with stats := f } k) = true
    rw [hother k hne]
    exact (hst.passed i k hsole hk1).2
  · have hj1 : j ∈ s.threads := hj
    show recorded { s with stats := f } j.key = .queued
    have hpj := (h.queue j).mp hj1
    have hne : j.key ≠ q.key := by
      intro hk
      have hjq := h.one j q hsole (by rw [hpj]; rfl) hactive hk
      rw [hjq, hplace] at hpj
      cases hpj
    rw [hother _ hne]
    exact hst.queued j hj1 hsole
  · have hv1 : (Function.update s.workers w x v).job = some j := hv
    show recorded { s with stats := f } j.key = if (Function.update s.workers w x v).marked then _ else _
    by_cases hvw : v = w
    · subst hvw
      rw [Function.update_self] at hv1 ⊢
      rcases hx with hx | ⟨hx, hnext⟩
      · rw [hx] at hv1
        cases hv1
      · rw [hx] at hv1
        cases hv1
        rw [hnow hsole]
        exact hnext
    · rw [Function.update_of_ne hvw] at hv1 ⊢
      have hpj := (h.held v j).mp hv1
      have hne : j.key ≠ q.key := by
        intro hk
        have hjq := h.one j q hsole (by rw [hpj]; rfl) hactive hk
        rw [hjq, hplace] at hpj
        cases hpj
        exact hvw rfl
      rw [hother _ hne]
      exact hst.held v j hsole hv1

theorem inv_workerStep (h : Jobs sole s place) (hst : s.shutdownRequested = false → States sole s) (w : Nat)
    (ran slow : Bool) : Inv sole (s.workerStep w ran slow) := by
  unfold Sys.workerStep
  cases hw : s.workers w with
  | absent => exact ⟨place, h, hst⟩
  | exited => exact ⟨place, h, hst⟩
  | waiting => exact inv_dequeueJob h hst hw
  | idle =>
    have hlt : w < s.numThreads := present h (by rw [hw]; intro h1; cases h1)
    simp only
    split
    · exact ⟨place, jobs_worker h (by rw [hw]; rfl) (by rw [hw]; rfl) hlt,
        fun hs => states_worker (hst hs) fun q _ hq => by cases hq⟩
    · exact ⟨place, jobs_worker h (by rw [hw]; rfl) (by rw [hw]; rfl) hlt,
        fun hs => states_worker (hst hs) fun q _ hq => by cases hq⟩
  | holding q =>
    have hlt : w < s.numThreads := present h (by rw [hw]; intro h1; cases h1)
    have hjob : (s.workers w).job = some q := by rw [hw]; rfl
    simp only
    split
    · rename_i hterm
      have hrun : (s.workers w).inRun = false := by rw [hw]; rfl
      refine ⟨Function.update place q .dropped, ?_, fun hs => ?_⟩
      · exact jobs_let_go h (s.dropped ++ [q]) hlt hjob rfl (.inr ⟨rfl, hrun, rfl, hterm⟩)
      have hst1 : States sole (s.setWorker w .exited) := states_worker (hst hs) fun q _ hq => by cases hq
      exact ⟨hst1.passed, hst1.queued, hst1.held⟩
    · refine ⟨place, jobs_start h hlt hw, fun hs => ?_⟩
      have hst1 : States sole (s.setWorker w (.starting q)) := by
        refine states_worker (hst hs) fun q' hsole hq' => ?_
        cases hq'
        have hq := (hst hs).held w q hsole hjob
        rw [hw] at hq
        exact hq
      exact ⟨hst1.passed, hst1.queued, hst1.held⟩
  | starting q =>
    have hlt : w < s.numThreads := present h (by rw [hw]; intro h1; cases h1)
    have hjob : (s.workers w).job = some q := by rw [hw]; rfl
    simp only
    obtain ⟨f, hf⟩ := setState_stats s q.key .running
    refine ⟨place, ?_, fun hs => ?_⟩
    · rw [hf]
      exact jobs_worker (jobs_stats h f) (hjob.symm) (by show _ = (s.workers w).inRun; rw [hw]; rfl) hlt
    · have hs1 : s.shutdownRequested = false := by
        rw [hf] at hs
        exact hs
      refine states_mark h (hst hs1) hs1 hjob (.inr ⟨rfl, rfl⟩) (fun _ _ => rfl) fun hsole hr => ?_
      have hq := (hst hs1).held w q hsole hjob
      rw [hw, hr] at hq
      cases hq
  | running q =>
    have hlt : w < s.numThreads := present h (by rw [hw]; intro h1; cases h1)
    have hjob : (s.workers w).job = some q := by rw [hw]; rfl
    simp only
    obtain ⟨f, hf⟩ := runScript_stats s q ran slow
    have hrec := recorded_runScript (s := s) q ran slow
    have hnone : ∀ k, s.stats k ≠ none → (s.runScript q ran slow).stats k ≠ none := fun k => stats_runScript q ran slow
    rw [hf] at hrec hnone ⊢
    refine ⟨place, ?_, fun hs => ?_⟩
    · exact jobs_worker (jobs_stats h f) (hjob.symm) (by show _ = (s.workers w).inRun; rw [hw]; rfl) hlt
    · refine states_worker (states_stats (hst hs) hrec hnone) fun q' hsole hq' => ?_
      cases hq'
      have hq := (hst hs).held w q hsole hjob
      rw [hw] at hq
      rw [hrec]
      exact hq
  | ending q =>
    have hlt : w < s.numThreads := present h (by rw [hw]; intro h1; cases h1)
    have hjob : (s.workers w).job = some q := by rw [hw]; rfl
    simp only
    obtain ⟨f, hf⟩ := setState_stats s q.key .sleeping
    refine ⟨Function.update place q .finished, ?_, fun hs => ?_⟩
    · rw [hf]
      have hrun : (s.workers w).inRun = true := by rw [hw]; rfl
      exact jobs_let_go (jobs_stats h f) s.dropped hlt hjob rfl (.inl ⟨rfl, hrun, rfl⟩)
    · have hs1 : s.shutdownRequested = false := by
        rw [hf] at hs
        exact hs
      refine states_mark h (hst hs1) hs1 hjob (.inl rfl) (fun hsole hq' => ?_) fun _ _ => rfl
      have hq := (hst hs1).held w q hsole hjob
      rw [hw, hq'] at hq
      cases hq

/-! ## Runs -/

theorem inv_callerStep (h : Jobs sole s place) (hst : s.shutdownRequested = false → States sole s) (i : Nat)
    (allocOk spawnOk : Bool) : Inv sole (s.callerStep i allocOk spawnOk) := by
  unfold Sys.callerStep
  cases hi : s.callers i with
  | idle => exact ⟨place, h, hst⟩
  | called k scheduledTime deadline => exact inv_check h hst hi allocOk
  | checked k scheduledTime deadline => exact inv_make h hst hi allocOk spawnOk
  | made q scheduledTime => exact inv_push h hst hi

omit [DecidableEq κ] in
theorem inv_queueJob (h : Jobs sole s place) (hst : s.shutdownRequested = false → States sole s) {i : Nat} {k : κ}
    (hi : s.callers i = .idle) (halone : sole k → ∀ j, j ≠ i → (s.callers j).key ≠ some k) (scheduledTime deadline : Int)
    (spawnOk : Nat → Bool) : Inv sole (s.queueJob i k scheduledTime deadline spawnOk) := by
  unfold Sys.queueJob
  split
  · exact ⟨place, h, hst⟩
  · have hmore : MoreThreads sole s (s.spawnInitial spawnOk) := moreThreads_spawnInitial s spawnOk
    refine ⟨place, ?_, fun hs => ?_⟩
    · refine jobs_caller (hmore.jobs place h) ?_ rfl (fun j k' hsole hj hk => ?_) fun k' q _ hp => by cases hp
      · rw [hmore.callers, hi]
        rfl
      · cases hk
        rw [hmore.callers]
        exact halone hsole j hj
    · have hst' := hmore.states (hst (hmore.shutdownRequested ▸ hs))
      refine ⟨fun j k' hsole hk => ?_, hst'.queued, hst'.held⟩
      have hk1 : (Function.update (s.spawnInitial spawnOk).callers i (.called k scheduledTime deadline) j).passed = some k' :=
        hk
      by_cases hj : j = i
      · subst hj
        rw [Function.update_self] at hk1
        cases hk1
      · rw [Function.update_of_ne hj] at hk1
        exact hst'.passed j k' hsole hk1

/-- Every step keeps the places of the jobs, and the states of the scripts with one call at a time. -/
theorem inv_step (e : Ev κ) (h : Inv sole s) (halone : ∀ k, sole k → Alone k s e) : Inv sole (step s e) := by
  obtain ⟨place, hjobs, hst⟩ := h
  cases e with
  | queueJob i k scheduledTime deadline spawnOk =>
    cases hi : s.callers i with
    | idle =>
      simp only [step, hi]
      exact inv_queueJob hjobs hst hi (fun hsole => halone k hsole rfl) scheduledTime deadline spawnOk
    | called k' t d | checked k' t d | made q t =>
      simp only [step, hi]
      exact ⟨place, hjobs, hst⟩
  | callerStep i allocOk spawnOk => exact inv_callerStep hjobs hst i allocOk spawnOk
  | workerStep w ran slow => exact inv_workerStep hjobs hst w ran slow
  | requestShutdown =>
    refine ⟨place, ?_, fun hs => by cases hs⟩
    exact ⟨hjobs.queue, hjobs.queueOnce, hjobs.absent, hjobs.held, hjobs.made, hjobs.ids, hjobs.apart, hjobs.one,
      hjobs.free, hjobs.startedOnce, hjobs.started, hjobs.dropped, hjobs.kept, hjobs.accepted⟩
  | shutdown =>
    refine ⟨place, ?_, fun hs => ⟨(hst hs).passed, (hst hs).queued, (hst hs).held⟩⟩
    exact ⟨hjobs.queue, hjobs.queueOnce, hjobs.absent, hjobs.held, hjobs.made, hjobs.ids, hjobs.apart, hjobs.one,
      hjobs.free, hjobs.startedOnce, hjobs.started, hjobs.dropped, (fun ht => by cases ht), hjobs.accepted⟩

omit [DecidableEq κ] in
theorem inv_start (limitResourcesUsage : Bool) : Inv sole (start (κ := κ) limitResourcesUsage) := by
  refine ⟨fun _ => .unborn, ?_, fun _ => ?_⟩
  · constructor <;> simp [start, Worker.job, Caller.job, Caller.key, Caller.passed, Place.active]
  · constructor <;> simp [start, Worker.job, Caller.passed]

/-! ## The recorded state of a script, step by step -/

theorem recorded_push (hst : s.shutdownRequested = false → States sole s) {i : Nat} {q : Job κ}
    {scheduledTime : Int} (hi : s.callers i = .made q scheduledTime) {k : κ} (hk : sole k) :
    recorded (s.push i q scheduledTime) k = recorded s k ∨
      FollowsFromUnknown (recorded s k) (recorded (s.push i q scheduledTime) k) := by
  have hpush : recorded (s.push i q scheduledTime) k =
      recorded ((s.noteScheduled q.key scheduledTime).setState q.key .queued) k := rfl
  have hsame := recorded_noteScheduled (s := s) q.key scheduledTime k
  rw [hpush]
  by_cases hkq : k = q.key
  · cases hs : s.shutdownRequested with
    | true =>
      obtain ⟨f, hf⟩ := noteScheduled_stats s q.key scheduledTime
      rw [setState_shutdown (by rw [hf]; exact hs)]
      exact .inl hsame
    | false =>
      subst hkq
      obtain ⟨hsome, hqueueable⟩ := (hst hs).passed i q.key hk (by rw [hi]; rfl)
      obtain ⟨f, hf⟩ := noteScheduled_stats s q.key scheduledTime
      have hnot : ∀ a, isQueueable a = false → recorded (s.noteScheduled q.key scheduledTime) q.key ≠ a := by
        intro a ha heq
        rw [← hsame, heq, ha] at hqueueable
        cases hqueueable
      rw [recorded_setState (by rw [hf]; exact hs) (stats_noteScheduled hsome) (fun h1 => absurd h1 (hnot _ rfl))
        fun h1 => absurd h1 (hnot _ rfl)]
      right
      cases hr : recorded s q.key with
      | unknown => exact .first
      | sleeping => exact .cycle .queue
      | queued => rw [hr] at hqueueable; cases hqueueable
      | running => rw [hr] at hqueueable; cases hqueueable
  · rw [recorded_setState_other _ hkq]
    exact .inl hsame

/-- A thread marks the script of its job. -/
theorem recorded_mark (hst : s.shutdownRequested = false → States sole s) {w : Nat} {q : Job κ}
    (hjob : (s.workers w).job = some q) {next : ThreadedActivityState}
    (hnext : Follows (if (s.workers w).marked then .running else .queued) next) {k : κ} (hk : sole k) :
    recorded (s.setState q.key next) k = recorded s k ∨
      FollowsFromUnknown (recorded s k) (recorded (s.setState q.key next) k) := by
  by_cases hkq : k = q.key
  · cases hs : s.shutdownRequested with
    | true =>
      rw [setState_shutdown hs]
      exact .inl rfl
    | false =>
      subst hkq
      have hrec := (hst hs).held w q hk hjob
      rw [← hrec] at hnext
      have hsome : s.stats q.key ≠ none := by
        intro hnone
        unfold recorded at hnext
        rw [hnone] at hnext
        cases hnext
      rw [recorded_setState hs hsome]
      · exact .inr (.cycle hnext)
      · intro h1
        rw [h1] at hnext
        cases hnext
        rfl
      · intro h1
        rw [h1] at hnext
        cases hnext
        rfl
  · exact .inl (recorded_setState_other next hkq)

omit [DecidableEq κ] in
theorem stats_make (s : Sys κ) (i : Nat) (k : κ) (scheduledTime deadline : Int) (allocOk spawnOk : Bool) :
    (s.make i k scheduledTime deadline allocOk spawnOk).stats = s.stats := by
  unfold Sys.make Sys.spawn
  split
  · dsimp only
    split
    · split <;> rfl
    · rfl
  · rfl

theorem moves_callerStep (hst : s.shutdownRequested = false → States sole s) (i : Nat) (allocOk spawnOk : Bool) {k : κ}
    (hk : sole k) : recorded (s.callerStep i allocOk spawnOk) k = recorded s k ∨
      FollowsFromUnknown (recorded s k) (recorded (s.callerStep i allocOk spawnOk) k) := by
  unfold Sys.callerStep
  cases hi : s.callers i with
  | idle => exact .inl rfl
  | called k' scheduledTime deadline => exact .inl (recorded_check i k' scheduledTime deadline allocOk k)
  | checked k' scheduledTime deadline => exact .inl (recorded_of_stats (congrFun (stats_make ..) k))
  | made q scheduledTime => exact recorded_push hst hi hk

theorem moves_workerStep (hst : s.shutdownRequested = false → States sole s) (w : Nat) (ran slow : Bool) {k : κ}
    (hk : sole k) : recorded (s.workerStep w ran slow) k = recorded s k ∨
      FollowsFromUnknown (recorded s k) (recorded (s.workerStep w ran slow) k) := by
  unfold Sys.workerStep
  cases hw : s.workers w with
  | absent => exact .inl rfl
  | exited => exact .inl rfl
  | idle => exact .inl rfl
  | waiting =>
    left
    apply recorded_of_stats
    simp only
    unfold Sys.dequeueJob
    split
    · rfl
    · split <;> rfl
  | holding q =>
    left
    simp only
    split <;> rfl
  | starting q => exact recorded_mark hst (w := w) (by rw [hw]; rfl) (by rw [hw]; exact .run) hk
  | running q => exact .inl (recorded_runScript q ran slow k)
  | ending q => exact recorded_mark hst (w := w) (by rw [hw]; rfl) (by rw [hw]; exact .sleep) hk

/-- Every step takes the recorded state at most one transition further. -/
theorem moves_step (e : Ev κ) (h : Inv sole s) {k : κ} (hk : sole k) : Moves FollowsFromUnknown k s e := by
  obtain ⟨place, hjobs, hst⟩ := h
  unfold Moves
  cases e with
  | queueJob i k' scheduledTime deadline spawnOk =>
    left
    apply recorded_of_stats
    cases hi : s.callers i with
    | idle =>
      simp only [step, hi]
      unfold Sys.queueJob
      split
      · rfl
      · have hmore : MoreThreads sole s (s.spawnInitial spawnOk) := moreThreads_spawnInitial s spawnOk
        exact congrFun hmore.stats k
    | called k' t d | checked k' t d | made q t => simp only [step, hi]
  | callerStep i allocOk spawnOk => exact moves_callerStep hst i allocOk spawnOk hk
  | workerStep w ran slow => exact moves_workerStep hst w ran slow hk
  | requestShutdown => exact .inl rfl
  | shutdown => exact .inl rfl

/-- However the calls and the threads interleave, every accepted job is run once. A script with one call at a time has
    one job at a time, and its state follows the cycle. -/
theorem one_job_each (limitResourcesUsage : Bool) (es : List (Ev κ)) :
    Always step Accounted (start limitResourcesUsage) es ∧
    ∀ k, Along step (Alone k) (start limitResourcesUsage) es →
      Always step (OneJob k) (start limitResourcesUsage) es ∧
        Along step (Moves FollowsFromUnknown k) (start limitResourcesUsage) es := by
  constructor
  · have hnone : Along step (fun _ _ => True) (start limitResourcesUsage) es := along_of_forall step fun _ _ => trivial
    refine @always_of_inv _ _ step _ _ (Inv fun _ => False) (fun s e h _ => ?_) ?_ _ _ (inv_start _) hnone
    · exact inv_step e h fun k hk => hk.elim
    · rintro s ⟨place, h, -⟩
      exact accounted_of_jobs h
  · intro k halone
    have hstep : ∀ s e, Inv (· = k) s → Alone k s e → Inv (· = k) (step s e) := by
      intro s e h ha
      refine inv_step e h fun k' hk' => ?_
      rw [hk']
      exact ha
    constructor
    · refine always_of_inv step hstep ?_ (inv_start _) halone
      rintro s ⟨place, h, -⟩
      exact oneJob_of_jobs h rfl
    · exact along_of_inv step hstep (fun s e h _ => moves_step e h rfl) (inv_start _) halone

/-- One call of `queueJob` by the caller `i`, to its end. -/
def call (i : Nat) : List (Ev Unit) :=
  .queueJob i () 0 60 (fun _ => true) :: List.replicate 3 (.callerStep i true true)

theorem one_job_of_call :
    let es := call 0 ++ List.replicate 6 (.workerStep 0 true false)
    let s := run step (start false) es
    OneJob () s ∧ Accounted s ∧ s.started = [⟨0, (), 60⟩] ∧ recorded s () = .sleeping := by
  intro es s
  have h := one_job_each false es
  have halone : Along step (Alone ()) (start false) es :=
    ⟨fun _ j _ hk => (by cases hk), trivial, trivial, trivial, trivial, trivial, trivial, trivial, trivial, trivial, trivial⟩
  refine ⟨?_, ?_, by decide, by decide⟩
  · exact always_last step (h.2 () halone).1
  · exact always_last step h.1

/-- The first time that a script is queued no state is recorded, and of two calls that overlap both find it queueable. -/
theorem first_from_unknown_and_two_queued :
    ¬ Along step (Moves Follows ()) (start false) (call 0) ∧
    ¬ OneJob () (run step (start false)
      [.queueJob 0 () 0 60 fun _ => true, .queueJob 1 () 0 60 fun _ => true, .callerStep 0 true true,
        .callerStep 1 true true, .callerStep 0 true true, .callerStep 0 true true, .callerStep 1 true true,
        .callerStep 1 true true]) := by
  constructor
  · rintro ⟨-, -, -, hpush, -⟩
    rcases hpush with hsame | hfollows
    · revert hsame
      decide
    · cases hfollows
  · intro h
    have hsame := h.one ⟨0, (), 60⟩ ⟨1, (), 60⟩ (.inl (by decide)) (.inl (by decide)) rfl rfl
    cases hsame

end Ntopng.Pool
