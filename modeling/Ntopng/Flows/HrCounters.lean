/-
  Ntopng.Flows.HrCounters — the high-resolution byte counters of a flow
  (`Flow::mergeHRCounters`, src/Flow.cpp; `updateHRSrc2DstBytes`, `updateHRDst2SrcBytes`,
  include/Flow.h).

  An update has a start time and a counter for every slot of 15 seconds from the minute of
  its start. The first update that has counters fixes the base time of both directions; an
  update is laid over the vector of its direction at the distance of the minutes, slot by slot
  the greater counter stays. An update of an earlier minute than the base is dropped.

  Times are seconds since 1970. The distance and the size of the vector have 32 bits.

  `Law`: whatever the order of the updates, every slot they cover ends with the greatest
  counter given for it, the vectors are the same, and an update that comes again changes
  nothing. Proved: it holds exactly of the lists whose updates all start in one minute
  (`law_iff_sameMinute`).
-/

import Ntopng.Lib.Run

namespace Ntopng.Flows.HrCounters

def HR_COUNTERS_SLOT_DURATION_SECS : ℕ := 15

structure Update where
  /-- From the client to the server. -/
  src2dst : Bool
  counters : List ℕ
  firstSeen : ℕ
  deriving DecidableEq, Repr

structure Counters where
  hrBaseFirstSeen : ℕ
  hrSrc2dstBytes : List ℕ
  hrDst2srcBytes : List ℕ
  deriving DecidableEq, Repr

def minute (t : ℕ) : ℕ := t - t % 60

/-- The loop over the counters of an update; `none` past the end of the vector. -/
def raise (flow : List ℕ) (j : ℕ) : List ℕ → Option (List ℕ)
  | [] => some flow
  | c :: cs =>
    match flow[j % 2 ^ 32]? with
    | some v => raise (if v < c then flow.set (j % 2 ^ 32) c else flow) (j + 1) cs
    | none => none

def resize (flow : List ℕ) (size : ℕ) : List ℕ := flow ++ List.replicate (size - flow.length) 0

/-- The base time and the vector afterwards. -/
def mergeHRCounters (base : ℕ) (flow update : List ℕ) (firstSeen : ℕ) : Option (ℕ × List ℕ) :=
  if update.isEmpty then some (base, flow)
  else
    let base := if base = 0 then firstSeen else base
    if minute firstSeen < minute base then some (base, flow)
    else
      let padding := (minute firstSeen - minute base) / HR_COUNTERS_SLOT_DURATION_SECS % 2 ^ 32
      let size := (padding + update.length) % 2 ^ 32
      (raise (resize flow size) padding update).map fun flow => (base, flow)

namespace Counters

variable (s : Counters) (u : Update)

def init : Counters := ⟨0, [], []⟩

def vec (src2dst : Bool) : List ℕ := if src2dst then s.hrSrc2dstBytes else s.hrDst2srcBytes

def update : Option Counters :=
  (mergeHRCounters s.hrBaseFirstSeen (s.vec u.src2dst) u.counters u.firstSeen).map fun r =>
    if u.src2dst then { s with hrBaseFirstSeen := r.1, hrSrc2dstBytes := r.2 }
    else { s with hrBaseFirstSeen := r.1, hrDst2srcBytes := r.2 }

def updates (us : List Update) : Option Counters := us.foldlM update s

end Counters

/-! ## Slots of absolute time -/

/-- The slots since 1970 before a time's minute. -/
def slot (t : ℕ) : ℕ := minute t / HR_COUNTERS_SLOT_DURATION_SECS

def Update.Covers (u : Update) (src2dst : Bool) (k c : ℕ) : Prop :=
  u.src2dst = src2dst ∧ slot u.firstSeen ≤ k ∧ u.counters[k - slot u.firstSeen]? = some c

/-- What a direction has for an absolute slot. -/
def Counters.at (s : Counters) (src2dst : Bool) (k : ℕ) : Option ℕ :=
  if k < slot s.hrBaseFirstSeen then none else (s.vec src2dst)[k - slot s.hrBaseFirstSeen]?

/-- Every slot that is covered has the greatest of the counters given for it. -/
def Greatest (us : List Update) (s : Counters) : Prop :=
  ∀ src2dst k, (∃ u ∈ us, ∃ c, u.Covers src2dst k c) →
    ∃ v, s.at src2dst k = some v ∧ IsGreatest {c | ∃ u ∈ us, u.Covers src2dst k c} v

structure Law (us : List Update) : Prop where
  greatest : ∀ vs, vs.Perm us → ∃ s, Counters.init.updates vs = some s ∧ Greatest us s
  orderFree : ∀ vs s t, vs.Perm us → Counters.init.updates us = some s → Counters.init.updates vs = some t →
    ∀ src2dst, t.vec src2dst = s.vec src2dst
  idempotent : ∀ s, Counters.init.updates us = some s → ∀ u ∈ us, s.update u = some s

structure SameMinute (us : List Update) : Prop where
  minute : ∀ u ∈ us, ∀ v ∈ us, u.counters ≠ [] → v.counters ≠ [] → u.firstSeen / 60 = v.firstSeen / 60
  length : ∀ u ∈ us, u.counters.length < 2 ^ 32

/-! ## The loop -/

theorem minute_eq (t : ℕ) : minute t = 60 * (t / 60) := by
  unfold minute
  omega

theorem slot_eq (t : ℕ) : slot t = 4 * (t / 60) := by
  unfold slot HR_COUNTERS_SLOT_DURATION_SECS
  rw [minute_eq]
  omega

/-- In bounds, every slot from `j` on is raised by the counter laid over it. -/
theorem raise_get {flow cs : List ℕ} {j : ℕ} (hfit : j + cs.length ≤ flow.length) (hwide : flow.length < 2 ^ 32) :
    ∃ flow', raise flow j cs = some flow' ∧ flow'.length = flow.length ∧
      ∀ x, flow'[x]? = flow[x]?.map fun v => if j ≤ x then max v (cs.getD (x - j) 0) else v := by
  induction cs generalizing flow j with
  | nil => exact ⟨flow, rfl, rfl, fun x => by simp⟩
  | cons c cs ih =>
    rw [List.length_cons] at hfit
    have hj : j % 2 ^ 32 = j := Nat.mod_eq_of_lt (by omega)
    have hlt : j < flow.length := by omega
    set flow1 := if flow[j] < c then flow.set j c else flow with hflow1
    have hlen1 : flow1.length = flow.length := by
      rw [hflow1]
      split <;> simp
    obtain ⟨flow', hr, hlen, hget⟩ := @ih flow1 (j + 1) (by omega) (by omega)
    refine ⟨flow', ?_, by omega, fun x => ?_⟩
    · rw [raise, hj, List.getElem?_eq_getElem hlt]
      exact hr
    · have h1 : flow1[x]? = flow[x]?.map fun v => if j = x then max v c else v := by
        rcases eq_or_ne j x with rfl | hne
        · rw [hflow1, List.getElem?_eq_getElem hlt]
          by_cases hc : flow[j] < c
          · simp [hc, hlt, hc.le]
          · simp [hc, hlt, not_lt.mp hc]
        · rw [hflow1]
          split <;> simp [hne]
      rw [hget, h1, Option.map_map]
      congr 1
      funext v
      rcases lt_trichotomy x j with hx | rfl | hx
      · simp [show ¬ j + 1 ≤ x by omega, show ¬ j ≤ x by omega, show j ≠ x by omega]
      · simp
      · rw [Function.comp_apply, if_neg (by omega : ¬ j = x), if_pos (by omega : j + 1 ≤ x), if_pos hx.le,
          show x - j = (x - (j + 1)) + 1 by omega, List.getD_cons_succ]

theorem resize_length (flow : List ℕ) (size : ℕ) : (resize flow size).length = max flow.length size := by
  unfold resize
  rw [List.length_append, List.length_replicate]
  omega

theorem resize_get (flow : List ℕ) (size x : ℕ) :
    (resize flow size)[x]? = if x < max flow.length size then some (flow.getD x 0) else none := by
  unfold resize
  rw [List.getElem?_append]
  by_cases h1 : x < flow.length
  · rw [if_pos h1, if_pos (by omega)]
    simp [h1]
  · rw [if_neg h1, List.getElem?_replicate]
    by_cases h2 : x < size
    · rw [if_pos (by omega), if_pos (by omega)]
      simp [not_lt.mp h1]
    · rw [if_neg (by omega), if_neg (by omega)]

/-- Past 32 bits there is no end of the vector that is not reached. -/
theorem raise_none {flow cs : List ℕ} {j : ℕ} (hwide : flow.length < 2 ^ 32) (hj : j ≤ flow.length)
    (hfit : flow.length < j + cs.length) : raise flow j cs = none := by
  induction cs generalizing flow j with
  | nil =>
    rw [List.length_nil] at hfit
    omega
  | cons c cs ih =>
    rw [raise]
    rcases hj.lt_or_eq with hlt | rfl
    · rw [Nat.mod_eq_of_lt (by omega), List.getElem?_eq_getElem hlt]
      rw [List.length_cons] at hfit
      have hlen : (if flow[j] < c then flow.set j c else flow).length = flow.length := by
        split
        · exact List.length_set
        · rfl
      exact ih (by omega) (by omega) (by omega)
    · rw [Nat.mod_eq_of_lt hwide, List.getElem?_eq_none (le_refl _)]

/-! ## Updates of one minute -/

/-- The counters given for a place of the vector. -/
def given (us : List Update) (src2dst : Bool) (x : ℕ) : Set ℕ :=
  {c | ∃ u ∈ us, u.src2dst = src2dst ∧ u.counters[x]? = some c}

def Merged (us : List Update) (src2dst : Bool) (vec : List ℕ) : Prop :=
  ∀ x v, vec[x]? = some v ↔ IsGreatest (given us src2dst x) v

theorem Merged.unique {us : List Update} {d : Bool} {a b : List ℕ} (ha : Merged us d a) (hb : Merged us d b) : a = b :=
  List.ext_getElem? fun x => Option.ext fun v => (ha x v).trans (hb x v).symm

theorem Merged.congr {us vs : List Update} {d : Bool} {a : List ℕ} (h : ∀ x, given us d x = given vs d x)
    (ha : Merged us d a) : Merged vs d a := fun x v => by rw [ha x v, h x]

theorem exists_greatest {us : List Update} {d : Bool} {x c : ℕ} (hc : c ∈ given us d x) :
    ∃ v, IsGreatest (given us d x) v := by
  have hbdd : BddAbove (given us d x) := by
    refine ⟨(us.map fun u => u.counters.getD x 0).sum, fun y hy => ?_⟩
    obtain ⟨u, hu, -, hy⟩ := hy
    have hval : u.counters.getD x 0 = y := by simp [hy]
    rw [← hval]
    exact List.le_sum_of_mem (List.mem_map_of_mem hu)
  exact ⟨_, Nat.sSup_mem ⟨c, hc⟩ hbdd, fun y hy => le_csSup hbdd hy⟩

/-- A vector that is laid over another. -/
theorem merged_lay {us : List Update} {d : Bool} {flow flow' cs : List ℕ} {t : ℕ} (h : Merged us d flow)
    (hget : ∀ x, flow'[x]? =
      if x < max flow.length cs.length then some (max (flow.getD x 0) (cs.getD x 0)) else none) :
    Merged (us ++ [⟨d, cs, t⟩]) d flow' := by
  have hgiven : ∀ x, given (us ++ [⟨d, cs, t⟩]) d x = given us d x ∪ {c | cs[x]? = some c} := by
    intro x
    ext c
    constructor
    · rintro ⟨u, hu, hd, hc⟩
      rcases List.mem_append.mp hu with hu | hu
      · exact .inl ⟨u, hu, hd, hc⟩
      · rw [List.mem_singleton.mp hu] at hc
        exact .inr hc
    · rintro (⟨u, hu, hd, hc⟩ | hc)
      · exact ⟨u, List.mem_append_left _ hu, hd, hc⟩
      · exact ⟨_, List.mem_append_right _ (List.mem_singleton_self _), rfl, hc⟩
  have hnone : ∀ x, flow[x]? = none → given us d x = ∅ := by
    intro x hx
    refine Set.eq_empty_iff_forall_notMem.mpr fun c hc => ?_
    obtain ⟨v, hv⟩ := exists_greatest hc
    have hmax := (h x v).mpr hv
    rw [hx] at hmax
    cases hmax
  have hsome : ∀ {S : Set ℕ} {g : ℕ}, IsGreatest S g → ∀ v, some g = some v ↔ IsGreatest S v := by
    intro S g hg v
    constructor
    · intro h
      cases h
      exact hg
    · intro h
      rw [hg.unique h]
  intro x v
  rw [hget x, hgiven x]
  rcases hf : flow[x]? with _ | a <;> rcases hc : cs[x]? with _ | b
  · have h1 := List.getElem?_eq_none_iff.mp hf
    have h2 := List.getElem?_eq_none_iff.mp hc
    rw [if_neg (by omega), hnone x hf]
    constructor
    · intro h
      cases h
    · rintro ⟨(h | h), -⟩
      · exact h.elim
      · cases h
  · have h2 := (List.getElem?_eq_some_iff.mp hc).1
    have hb : {c | some b = some c} = {b} := by
      ext c
      simp [eq_comm]
    rw [if_pos (by omega), hnone x hf, hb, Set.empty_union]
    have hval : max (flow.getD x 0) (cs.getD x 0) = b := by simp [hf, hc]
    rw [hval]
    exact hsome isGreatest_singleton v
  · have h1 := (List.getElem?_eq_some_iff.mp hf).1
    have hb : {c : ℕ | none = some c} = ∅ := by simp
    rw [if_pos (by omega), hb, Set.union_empty]
    have hval : max (flow.getD x 0) (cs.getD x 0) = a := by simp [hf, hc]
    rw [hval]
    exact hsome ((h x a).mp hf) v
  · have h1 := (List.getElem?_eq_some_iff.mp hf).1
    have hb : {c | some b = some c} = {b} := by
      ext c
      simp [eq_comm]
    rw [if_pos (by omega), hb]
    have hval : max (flow.getD x 0) (cs.getD x 0) = max a b := by simp [hf, hc]
    rw [hval]
    exact hsome (((h x a).mp hf).union isGreatest_singleton) v

theorem given_nil (src2dst : Bool) (x : ℕ) : given [] src2dst x = ∅ := by simp [given]

/-- What does not concern a direction leaves what is given for it. -/
theorem given_other {us : List Update} {u : Update} {d : Bool} (h : u.src2dst ≠ d ∨ u.counters = []) (x : ℕ) :
    given us d x = given (us ++ [u]) d x := by
  ext c
  constructor
  · rintro ⟨v, hv, hc⟩
    exact ⟨v, List.mem_append_left _ hv, hc⟩
  · rintro ⟨v, hv, hd, hc⟩
    rcases List.mem_append.mp hv with hv | hv
    · exact ⟨v, hv, hd, hc⟩
    · rw [List.mem_singleton.mp hv] at hd hc
      rcases h with h | h
      · exact absurd hd h
      · rw [h] at hc
        cases hc

/-- After updates that all start in minute `m`. -/
structure Inv (m : ℕ) (us : List Update) (s : Counters) : Prop where
  merged : ∀ d, Merged us d (s.vec d)
  narrow : ∀ d, (s.vec d).length < 2 ^ 32
  base : (∃ u ∈ us, u.counters ≠ []) → s.hrBaseFirstSeen / 60 = m
  early : s.hrBaseFirstSeen ≠ 0 → s.hrBaseFirstSeen / 60 = m
  zero : s.hrBaseFirstSeen = 0 → ∀ u ∈ us, u.counters ≠ [] → u.firstSeen = 0

variable {m : ℕ} {us vs : List Update} {u : Update} {s s' : Counters}

theorem merge_sameMinute {base first : ℕ} {flow cs : List ℕ} (hcs : cs ≠ []) (hbase : base ≠ 0 → base / 60 = m)
    (hfirst : first / 60 = m) (hlen : cs.length < 2 ^ 32) (hflow : flow.length < 2 ^ 32) :
    ∃ flow', mergeHRCounters base flow cs first = some (if base = 0 then first else base, flow') ∧
      flow'.length = max flow.length cs.length ∧ ∀ x, flow'[x]? =
        if x < max flow.length cs.length then some (max (flow.getD x 0) (cs.getD x 0)) else none := by
  have hb : (if base = 0 then first else base) / 60 = m := by
    split
    · exact hfirst
    · rename_i h
      exact hbase h
  have hmin : minute first = minute (if base = 0 then first else base) := by
    rw [minute_eq, minute_eq, hfirst, hb]
  have hempty : cs.isEmpty = false := by simpa using hcs
  obtain ⟨flow', hr, hl, hget⟩ := @raise_get (resize flow cs.length) cs 0 (by rw [resize_length]; omega)
    (by rw [resize_length]; omega)
  refine ⟨flow', ?_, by rw [hl, resize_length], fun x => ?_⟩
  · simp only [mergeHRCounters, hempty, Bool.false_eq_true, ite_false, hmin, lt_irrefl, Nat.sub_self, Nat.zero_div,
      Nat.zero_mod, Nat.zero_add, Nat.mod_eq_of_lt hlen, hr, Option.map_some]
  · rw [hget, resize_get]
    by_cases hx : x < max flow.length cs.length
    · rw [if_pos hx, if_pos hx]
      rfl
    · rw [if_neg hx, if_neg hx]
      rfl

theorem inv_update (hi : Inv m us s) (hfirst : u.counters ≠ [] → u.firstSeen / 60 = m)
    (hlen : u.counters.length < 2 ^ 32) : ∃ s', s.update u = some s' ∧ Inv m (us ++ [u]) s' ∧
      s'.hrBaseFirstSeen = if u.counters ≠ [] ∧ s.hrBaseFirstSeen = 0 then u.firstSeen else s.hrBaseFirstSeen := by
  by_cases hcs : u.counters = []
  · have hsame : s.update u = some s := by
      unfold Counters.update mergeHRCounters
      rw [hcs]
      cases hd : u.src2dst <;> simp [Counters.vec]
    refine ⟨s, hsame, ⟨fun d => (hi.merged d).congr fun x => given_other (.inr hcs) x, hi.narrow, ?_, hi.early, ?_⟩,
      (if_neg fun h => h.1 hcs).symm⟩
    · rintro ⟨v, hv, hne⟩
      rcases List.mem_append.mp hv with hv | hv
      · exact hi.base ⟨v, hv, hne⟩
      · exact absurd (List.mem_singleton.mp hv ▸ hcs) hne
    · intro h0 v hv hne
      rcases List.mem_append.mp hv with hv | hv
      · exact hi.zero h0 v hv hne
      · exact absurd (List.mem_singleton.mp hv ▸ hcs) hne
  · obtain ⟨flow', hmerge, hl, hget⟩ := merge_sameMinute hcs hi.early (hfirst hcs) hlen (hi.narrow u.src2dst)
    have hmerged : Merged (us ++ [u]) u.src2dst flow' := merged_lay (hi.merged u.src2dst) hget
    set b := if s.hrBaseFirstSeen = 0 then u.firstSeen else s.hrBaseFirstSeen with hb
    have hbm : b / 60 = m := by
      rw [hb]
      split
      · exact hfirst hcs
      · rename_i h
        exact hi.early h
    have hzero : b = 0 → ∀ v ∈ us ++ [u], v.counters ≠ [] → v.firstSeen = 0 := by
      intro h0 v hv hne
      rw [hb] at h0
      by_cases hs : s.hrBaseFirstSeen = 0
      · rw [if_pos hs] at h0
        rcases List.mem_append.mp hv with hv | hv
        · exact hi.zero hs v hv hne
        · rw [List.mem_singleton.mp hv]
          exact h0
      · rw [if_neg hs] at h0
        exact absurd h0 hs
    have hother : ∀ d, u.src2dst ≠ d → Merged (us ++ [u]) d (s.vec d) := fun d hd =>
      (hi.merged d).congr fun x => given_other (.inl hd) x
    have hbase : b = if u.counters ≠ [] ∧ s.hrBaseFirstSeen = 0 then u.firstSeen else s.hrBaseFirstSeen := by
      simp only [hb, hcs, ne_eq, not_false_eq_true, true_and]
    have hnarrow : flow'.length < 2 ^ 32 := by
      have := hi.narrow u.src2dst
      omega
    cases hd : u.src2dst with
    | true =>
      rw [hd] at hmerge hmerged
      refine ⟨{ s with hrBaseFirstSeen := b, hrSrc2dstBytes := flow' }, ?_, ⟨?_, ?_, fun _ => hbm, fun _ => hbm, hzero⟩, hbase⟩
      · unfold Counters.update
        rw [hd, hmerge]
        rfl
      · rintro (_ | _)
        · exact hother false (by simp [hd])
        · exact hmerged
      · rintro (_ | _)
        · exact hi.narrow false
        · exact hnarrow
    | false =>
      rw [hd] at hmerge hmerged
      refine ⟨{ s with hrBaseFirstSeen := b, hrDst2srcBytes := flow' }, ?_, ⟨?_, ?_, fun _ => hbm, fun _ => hbm, hzero⟩, hbase⟩
      · unfold Counters.update
        rw [hd, hmerge]
        rfl
      · rintro (_ | _)
        · exact hmerged
        · exact hother true (by simp [hd])
      · rintro (_ | _)
        · exact hnarrow
        · exact hi.narrow true

theorem inv_updates {ps : List Update} (hi : Inv m ps s) (hus : ∀ u ∈ us, u.counters ≠ [] → u.firstSeen / 60 = m)
    (hlen : ∀ u ∈ us, u.counters.length < 2 ^ 32) : ∃ s', s.updates us = some s' ∧ Inv m (ps ++ us) s' := by
  induction us generalizing s ps with
  | nil => exact ⟨s, rfl, by rwa [List.append_nil]⟩
  | cons u us ih =>
    obtain ⟨s1, h1, hi1, -⟩ := inv_update hi (hus u (List.mem_cons_self ..)) (hlen u (List.mem_cons_self ..))
    obtain ⟨s2, h2, hi2⟩ := ih hi1 (fun v hv => hus v (List.mem_cons_of_mem _ hv))
      fun v hv => hlen v (List.mem_cons_of_mem _ hv)
    refine ⟨s2, ?_, ?_⟩
    · rw [Counters.updates, List.foldlM_cons, h1]
      exact h2
    · rwa [List.append_assoc] at hi2

theorem inv_init : Inv m [] Counters.init where
  merged d x v := by
    rw [given_nil]
    constructor
    · cases d <;> simp [Counters.init, Counters.vec]
    · intro h
      exact h.1.elim
  narrow d := by cases d <;> simp [Counters.init, Counters.vec]
  base := by simp
  early h := absurd rfl h
  zero _ u hu := absurd hu List.not_mem_nil

theorem inv_of_sameMinute (h : SameMinute us) (hp : vs.Perm us) :
    ∃ m s, Counters.init.updates vs = some s ∧ Inv m vs s ∧ ∀ u ∈ vs, u.counters ≠ [] → u.firstSeen / 60 = m := by
  have hlen : ∀ u ∈ vs, u.counters.length < 2 ^ 32 := fun u hu => h.length u (hp.subset hu)
  have hm : ∃ m, ∀ u ∈ vs, u.counters ≠ [] → u.firstSeen / 60 = m := by
    by_cases hne : ∃ w ∈ us, w.counters ≠ []
    · obtain ⟨w, hw, hwne⟩ := hne
      exact ⟨_, fun u hu hu0 => h.minute u (hp.subset hu) w hw hu0 hwne⟩
    · exact ⟨0, fun u hu hu0 => absurd ⟨u, hp.subset hu, hu0⟩ hne⟩
  obtain ⟨m, hm⟩ := hm
  obtain ⟨s, hs, hi⟩ := @inv_updates _ vs _ [] (@inv_init m) hm hlen
  exact ⟨m, s, hs, hi, hm⟩

/-! ## The law -/

theorem greatest_of_inv (hi : Inv m us s) (hus : ∀ u ∈ us, u.counters ≠ [] → u.firstSeen / 60 = m) : Greatest us s := by
  intro d k hcov
  have hne : ∀ u ∈ us, ∀ c, u.Covers d k c → u.counters ≠ [] := by
    rintro u - c ⟨-, -, hc⟩ h
    rw [h] at hc
    cases hc
  have hslot : ∀ u ∈ us, u.counters ≠ [] → slot u.firstSeen = 4 * m := by
    intro u hu h
    rw [slot_eq, hus u hu h]
  obtain ⟨w, hw, c, hwc⟩ := hcov
  have hbase : slot s.hrBaseFirstSeen = 4 * m := by
    rw [slot_eq, hi.base ⟨w, hw, hne w hw c hwc⟩]
  have hk : 4 * m ≤ k := by
    rw [← hslot w hw (hne w hw c hwc)]
    exact hwc.2.1
  have hset : {c | ∃ u ∈ us, u.Covers d k c} = given us d (k - 4 * m) := by
    ext c
    constructor
    · rintro ⟨u, hu, hd, hle, hc⟩
      refine ⟨u, hu, hd, ?_⟩
      rwa [← hslot u hu (hne u hu c ⟨hd, hle, hc⟩)]
    · rintro ⟨u, hu, hd, hc⟩
      have hu0 : u.counters ≠ [] := by
        rintro h
        rw [h] at hc
        cases hc
      exact ⟨u, hu, hd, by rw [hslot u hu hu0]; exact hk, by rw [hslot u hu hu0]; exact hc⟩
  have hmem : c ∈ given us d (k - 4 * m) := by
    rw [← hset]
    exact ⟨w, hw, hwc⟩
  obtain ⟨v, hv⟩ := exists_greatest hmem
  refine ⟨v, ?_, hset ▸ hv⟩
  unfold Counters.at
  rw [hbase, if_neg (by omega)]
  exact (hi.merged d _ _).mpr hv

theorem given_perm (hp : vs.Perm us) (d : Bool) (x : ℕ) : given vs d x = given us d x := by
  ext c
  constructor
  · rintro ⟨u, hu, h⟩
    exact ⟨u, hp.subset hu, h⟩
  · rintro ⟨u, hu, h⟩
    exact ⟨u, hp.symm.subset hu, h⟩

theorem Counters.ext_vec {s t : Counters} (hb : s.hrBaseFirstSeen = t.hrBaseFirstSeen) (hv : ∀ d, s.vec d = t.vec d) :
    s = t := by
  have h1 := hv true
  have h2 := hv false
  cases s
  cases t
  cases hb
  cases h1
  cases h2
  rfl

/-- An update that was there before changes nothing. -/
theorem update_again (h : SameMinute us) (hs : Counters.init.updates us = some s) (hu : u ∈ us) : s.update u = some s := by
  obtain ⟨m, s1, hs1, hi, hm⟩ := inv_of_sameMinute h (List.Perm.refl us)
  obtain rfl : s1 = s := Option.some.inj (hs1.symm.trans hs)
  obtain ⟨s', hs', hi', hbase⟩ := inv_update hi (hm u hu) (h.length u hu)
  have hgiven : ∀ d x, given (us ++ [u]) d x = given us d x := by
    intro d x
    ext c
    constructor
    · rintro ⟨v, hv, hc⟩
      rcases List.mem_append.mp hv with hv | hv
      · exact ⟨v, hv, hc⟩
      · exact ⟨v, List.mem_singleton.mp hv ▸ hu, hc⟩
    · rintro ⟨v, hv, hc⟩
      exact ⟨v, List.mem_append_left _ hv, hc⟩
  rw [hs']
  refine congrArg some (Counters.ext_vec ?_ fun d => ?_)
  · rw [hbase]
    split
    · rename_i h0
      rw [hi.zero h0.2 u hu h0.1, h0.2]
    · rfl
  · exact Merged.unique ((hi'.merged d).congr fun x => hgiven d x) (hi.merged d)

theorem law_of_sameMinute (h : SameMinute us) : Law us where
  greatest vs hp := by
    obtain ⟨m, s, hs, hi, hm⟩ := inv_of_sameMinute h hp
    refine ⟨s, hs, fun d k ⟨u, hu, c, hc⟩ => ?_⟩
    obtain ⟨v, hv, hmax⟩ := greatest_of_inv hi hm d k ⟨u, hp.symm.subset hu, c, hc⟩
    have hset : {c | ∃ u ∈ us, u.Covers d k c} = {c | ∃ u ∈ vs, u.Covers d k c} := by
      ext c
      exact exists_congr fun u => and_congr_left fun _ => hp.symm.mem_iff
    exact ⟨v, hv, hset ▸ hmax⟩
  orderFree vs s t hp hs ht d := by
    obtain ⟨_, s1, hs1, hi, -⟩ := inv_of_sameMinute h (List.Perm.refl us)
    obtain ⟨_, t1, ht1, hj, -⟩ := inv_of_sameMinute h hp
    obtain rfl : s1 = s := Option.some.inj (hs1.symm.trans hs)
    obtain rfl : t1 = t := Option.some.inj (ht1.symm.trans ht)
    exact Merged.unique ((hj.merged d).congr fun x => given_perm hp d x) (hi.merged d)
  idempotent s hs u hu := update_again h hs hu

/-! ### Two minutes -/

theorem update_base (hs : s.hrBaseFirstSeen ≠ 0) (h : s.update u = some s') : s'.hrBaseFirstSeen = s.hrBaseFirstSeen := by
  unfold Counters.update mergeHRCounters at h
  obtain ⟨r, hr, rfl⟩ := Option.map_eq_some_iff.mp h
  have hrb : r.1 = s.hrBaseFirstSeen := by
    rw [if_neg hs] at hr
    split at hr
    · cases hr
      rfl
    · dsimp only at hr
      split at hr
      · cases hr
        rfl
      · obtain ⟨flow, -, rfl⟩ := Option.map_eq_some_iff.mp hr
        rfl
  split <;> exact hrb

theorem updates_base (hs : s.hrBaseFirstSeen ≠ 0) (h : s.updates us = some s') :
    s'.hrBaseFirstSeen = s.hrBaseFirstSeen := by
  induction us generalizing s with
  | nil =>
    cases h
    rfl
  | cons u us ih =>
    rw [Counters.updates, List.foldlM_cons] at h
    obtain ⟨s1, h1, h2⟩ := Option.bind_eq_some_iff.mp h
    have hb := update_base hs h1
    rw [← hb]
    exact ih (by rwa [hb]) h2

/-- What comes first is laid from its own minute. -/
theorem update_first (hcs : u.counters ≠ []) (hs : s.hrBaseFirstSeen = 0) (h : s.update u = some s') :
    s'.hrBaseFirstSeen = u.firstSeen := by
  unfold Counters.update mergeHRCounters at h
  obtain ⟨r, hr, rfl⟩ := Option.map_eq_some_iff.mp h
  have hempty : u.counters.isEmpty = false := by simpa using hcs
  have hrb : r.1 = u.firstSeen := by
    rw [hempty, if_neg Bool.false_ne_true, if_pos hs] at hr
    dsimp only at hr
    rw [if_neg (lt_irrefl _)] at hr
    obtain ⟨flow, -, rfl⟩ := Option.map_eq_some_iff.mp hr
    rfl
  split <;> exact hrb

/-- With a later update before it, an update is lost. -/
theorem not_law_of_minutes {v : Update} (hu : u ∈ us) (hv : v ∈ us) (hu0 : u.counters ≠ []) (hv0 : v.counters ≠ [])
    (hlt : u.firstSeen / 60 < v.firstSeen / 60) : ¬ Law us := by
  intro h
  obtain ⟨s, hs, hgreat⟩ := h.greatest (v :: us.erase v) (List.perm_cons_erase hv).symm
  rw [Counters.updates, List.foldlM_cons] at hs
  obtain ⟨s1, h1, h2⟩ := Option.bind_eq_some_iff.mp hs
  have hb := update_first hv0 rfl h1
  have hb' := updates_base (by omega) h2
  obtain ⟨c, cs, hc⟩ := List.exists_cons_of_ne_nil hu0
  have hcov : u.Covers u.src2dst (slot u.firstSeen) c := ⟨rfl, le_refl _, by rw [Nat.sub_self, hc]; rfl⟩
  obtain ⟨x, hx, -⟩ := hgreat u.src2dst (slot u.firstSeen) ⟨u, hu, c, hcov⟩
  have hslot : slot u.firstSeen < slot s.hrBaseFirstSeen := by
    rw [hb', hb, slot_eq, slot_eq]
    omega
  rw [Counters.at, if_pos hslot] at hx
  cases hx

theorem not_law_of_long (hu : u ∈ us) (hlen : 2 ^ 32 ≤ u.counters.length) : ¬ Law us := by
  intro h
  obtain ⟨s, hs, -⟩ := h.greatest (u :: us.erase u) (List.perm_cons_erase hu).symm
  rw [Counters.updates, List.foldlM_cons] at hs
  obtain ⟨s1, h1, -⟩ := Option.bind_eq_some_iff.mp hs
  have hmod := Nat.mod_lt u.counters.length (show 0 < 2 ^ 32 by omega)
  have hnone : raise (resize [] (u.counters.length % 2 ^ 32)) 0 u.counters = none := by
    refine raise_none ?_ (Nat.zero_le _) ?_ <;> rw [resize_length, List.length_nil] <;> omega
  have hempty : u.counters.isEmpty = false := by
    cases hc : u.counters with
    | nil =>
      rw [hc, List.length_nil] at hlen
      omega
    | cons => rfl
  have hvec : Counters.init.vec u.src2dst = [] := by cases u.src2dst <;> rfl
  have hmerge : mergeHRCounters Counters.init.hrBaseFirstSeen (Counters.init.vec u.src2dst) u.counters u.firstSeen = none := by
    rw [hvec]
    show mergeHRCounters 0 [] u.counters u.firstSeen = none
    simp only [mergeHRCounters, hempty, Bool.false_eq_true, ite_false, ite_true, lt_irrefl, Nat.sub_self, Nat.zero_div,
      Nat.zero_mod, Nat.zero_add, hnone, Option.map_none]
  rw [Counters.update, hmerge] at h1
  cases h1

/-- The counters do not depend on the order of the updates, and have the greatest of each slot,
    exactly if all updates start in one minute. -/
theorem law_iff_sameMinute (us : List Update) : Law us ↔ SameMinute us := by
  refine ⟨fun h => ⟨fun u hu v hv hu0 hv0 => ?_, fun u hu => ?_⟩, law_of_sameMinute⟩
  · rcases lt_trichotomy (u.firstSeen / 60) (v.firstSeen / 60) with hlt | heq | hlt
    · exact absurd h (not_law_of_minutes hu hv hu0 hv0 hlt)
    · exact heq
    · exact absurd h (not_law_of_minutes hv hu hv0 hu0 hlt)
  · by_contra hlen
    exact not_law_of_long hu (by omega) h

/-- Two updates a minute apart, the later one first. -/
theorem not_hrLaw : ¬ Law [⟨true, [5], 120⟩, ⟨true, [7], 60⟩] := by
  intro h
  obtain ⟨s, hs, hgreat⟩ := h.greatest _ (List.Perm.refl _)
  obtain ⟨v, hv, -⟩ := hgreat true 4 ⟨⟨true, [7], 60⟩, by decide, 7, by decide, by decide, by decide⟩
  obtain rfl : (⟨120, [5], []⟩ : Counters) = s := Option.some.inj ((by decide : Counters.init.updates _ = _).symm.trans hs)
  have hnone : Counters.at ⟨120, [5], []⟩ true 4 = none := by decide
  rw [hnone] at hv
  cases hv

end Ntopng.Flows.HrCounters
