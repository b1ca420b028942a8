/-
  Ntopng.Flows.AlertAccounts — what the alerts of a flow add to its hosts and to the
  interface, and what the end of the flow takes back.

  An alert is accounted to the client and the server of the moment it is triggered in; the
  end takes back what the (possibly swapped) statistics have collected, from the client and
  the server of the end. Proved: the interface's counters of alerted flows always return to
  where they were, and the hosts' accounts cancel out exactly when no account was made in
  the other orientation than the one the flow ends in (`accounts_cancel_iff`).
-/

import Ntopng.Flows.AlertsProofs

namespace Ntopng.Flows.Alerts

open Ntopng.Lib.Run Ntopng.Lib.Heap

/-! ## The property and its condition -/

/-- Nothing is added to a host yet; the interface has these counts. -/
def countersAt (notice warning error : Int) : Counters :=
  { incScore := fun _ _ _ => 0, decScore := fun _ _ _ => 0, incAlerted := fun _ _ => 0, decAlerted := fun _ _ => 0
    totalAlerts := fun _ => 0, activeNotice := notice, activeWarning := warning, activeError := error }

/-- All that was added was taken back. -/
structure Cancelled (notice warning error : Int) (k : Counters) : Prop where
  scores : ∀ h r c, k.incScore h r c = k.decScore h r c
  alerted : ∀ h r, k.incAlerted h r = k.decAlerted h r
  notice : k.activeNotice = notice
  warning : k.activeWarning = warning
  error : k.activeError = error

/-- The score that goes to the client, or to the server. -/
def FlowAlert.score (a : FlowAlert) (asClient : Bool) : Nat := if asClient then a.cliScore else a.srvScore

/-- What the alerts of category `c` accepted in orientation `o` give to a role. -/
def total (accepted : List (Bool × FlowAlert)) (o : Bool) (c : ScoreCategory) (asClient : Bool) : Nat :=
  ((accepted.filter fun x => x.1 == o && mapAlertToScoreCategory x.2.category == c).map
    fun x => x.2.score asClient).sum

/-- The scores that were accounted while the flow was the other way round than now. -/
def Sys.stray (s : Sys) (c : ScoreCategory) (asClient : Bool) : Nat := total s.accepted (!s.swaps) c asClient

/-- Two hosts that are not the same. -/
def Separate (cliHost srvHost : Option Nat) : Prop := cliHost.isSome ∧ srvHost.isSome ∧ cliHost ≠ srvHost

/-- With two hosts, no score was accounted the other way round, nor the first alert. With one host (or one on
    both sides), what went to the two roles the other way round is equal. -/
def Straight (cliHost srvHost : Option Nat) (s : Sys) : Prop :=
  (Separate cliHost srvHost → (∀ c r, s.stray c r = 0) ∧ ∀ x ∈ s.accepted.head?, x.1 = s.swaps) ∧
  (¬ Separate cliHost srvHost → cliHost.isSome ∨ srvHost.isSome → ∀ c, s.stray c true = s.stray c false)

/-! ## The books -/

/-- The part of the state that the accounts are made of. -/
structure Books where
  host : Bool → Option Nat
  hostScore : Bool → ScoreCategory → Nat
  alertsMap : FlowAlertTypeEnum → Bool
  predominantAlert : FlowAlertTypeEnum
  predominantAlertScore : Nat
  counters : Counters
  accepted : List (Bool × FlowAlert)
  swaps : Bool

def Sys.books (s : Sys) : Books :=
  { host := fun asClient => if asClient then s.flow.cliHost else s.flow.srvHost
    hostScore := fun asClient => if asClient then s.flow.stats.cliHostScore else s.flow.stats.srvHostScore
    alertsMap := s.flow.alertsMap, predominantAlert := s.flow.predominantAlert
    predominantAlertScore := s.flow.predominantAlertScore, counters := s.counters
    accepted := s.accepted, swaps := s.swaps }

/-- The host in a role, in orientation `o` of a flow that began between these hosts. -/
def hostAt (cliHost srvHost : Option Nat) (o asClient : Bool) : Option Nat :=
  if (cliHost.isSome && srvHost.isSome && o) == asClient then srvHost else cliHost

/-- 1 if the host is this one. -/
def is (host : Option Nat) (h : Nat) : Nat := if host = some h then 1 else 0

/-- The counter of a group of severities; the interface has three. -/
def Counters.active (k : Counters) : AlertLevelGroup → Int
  | .noticeOrLower => k.activeNotice
  | .warning => k.activeWarning
  | .error => k.activeError
  | _ => 0

/-- What a flow of this predominant score counts in it. -/
def counts (score : Nat) : AlertLevelGroup → Int
  | .noticeOrLower => if mapAlertLevelToGroup (mapScoreToSeverity score) = .noticeOrLower then 1 else 0
  | .warning => if mapAlertLevelToGroup (mapScoreToSeverity score) = .warning then 1 else 0
  | .error => if mapAlertLevelToGroup (mapScoreToSeverity score) = .error then 1 else 0
  | _ => 0

/-- What the books of a flow say until its end. -/
structure Accounted (cliHost srvHost : Option Nat) (base : AlertLevelGroup → Int) (b : Books) : Prop where
  host : ∀ r, b.host r = hostAt cliHost srvHost b.swaps r
  ids : (b.accepted.map (·.2.id)).Nodup
  bits : ∀ x ∈ b.accepted, b.alertsMap x.2.id = true
  first : b.predominantAlert = flowAlertNormal ↔ b.accepted = []
  unalerted : b.predominantAlert = flowAlertNormal → b.predominantAlertScore = 0
  scores : ∀ r c, b.hostScore r c = total b.accepted b.swaps c r + total b.accepted (!b.swaps) c (!r)
  inc : ∀ h r c, b.counters.incScore h r c =
    is (hostAt cliHost srvHost true r) h * total b.accepted true c r +
      is (hostAt cliHost srvHost false r) h * total b.accepted false c r
  dec : ∀ h r c, b.counters.decScore h r c = 0
  incAlerted : ∀ h r, b.counters.incAlerted h r = b.accepted.head?.elim 0 fun x => is (hostAt cliHost srvHost x.1 r) h
  decAlerted : ∀ h r, b.counters.decAlerted h r = 0
  active : ∀ g, b.counters.active g = base g + counts b.predominantAlertScore g

/-! ## Totals -/

theorem total_snoc (xs : List (Bool × FlowAlert)) (o' o : Bool) (a : FlowAlert) (c : ScoreCategory) (r : Bool) :
    total (xs ++ [(o', a)]) o c r =
      total xs o c r + if o' = o ∧ mapAlertToScoreCategory a.category = c then a.score r else 0 := by
  simp only [total, List.filter_append, List.map_append, List.sum_append]
  congr 1
  by_cases h : o' = o ∧ mapAlertToScoreCategory a.category = c
  · rw [if_pos h, List.filter_cons_of_pos (by simpa using h)]
    simp
  · rw [if_neg h, List.filter_cons_of_neg (by simpa using h)]
    simp

theorem FlowAlert.score_add_le (a : FlowAlert) (r : Bool) : a.score r + a.score (!r) ≤ scoreMaxValue := by
  have := a.score_le
  cases r <;> simp only [FlowAlert.score, Bool.not_true, Bool.not_false, Bool.false_eq_true, if_true, if_false] <;> omega

theorem total_add_le (o : Bool) (c : ScoreCategory) (r : Bool) (xs : List (Bool × FlowAlert)) :
    total xs o c r + total xs (!o) c (!r) ≤ scoreMaxValue * xs.length := by
  induction xs using List.reverseRecOn with
  | nil => simp [total]
  | append_singleton xs x ih =>
    obtain ⟨o', a⟩ := x
    rw [total_snoc, total_snoc, List.length_append, List.length_singleton, Nat.mul_succ]
    have hle := a.score_add_le r
    have hone : ¬ (o' = o ∧ o' = !o) := by
      rintro ⟨rfl, h⟩
      cases o' <;> cases h
    split <;> split <;> omega

variable {s : Sys} {cliHost srvHost : Option Nat} {base : AlertLevelGroup → Int}

/-- At most one alert of a type is accepted: the 16-bit scores do not wrap. -/
theorem Accounted.room {b : Books} (h : Accounted cliHost srvHost base b) : b.accepted.length ≤ 128 := by
  simpa using h.ids.length_le_card

/-! ## What the functions do to the books -/

section eqs

variable (k : Counters) (host : Option Nat) (score : Nat) (category : ScoreCategory) (asClient : Bool)

theorem incScoreValue_eq : k.incScoreValue host score category asClient =
    { k with incScore := fun h r c =>
        k.incScore h r c + if r = asClient ∧ c = category then is host h * score else 0 } := by
  cases host with
  | none => simp [Counters.incScoreValue, is]
  | some h' =>
    simp only [Counters.incScoreValue, Counters.mk.injEq, and_true]
    funext h r c
    by_cases hh : h = h'
    · simp [Counters.addScore, is, hh]
    · simp [Counters.addScore, is, hh, Ne.symm hh]

theorem decScoreValue_eq : k.decScoreValue host score category asClient =
    { k with decScore := fun h r c =>
        k.decScore h r c + if r = asClient ∧ c = category then is host h * score else 0 } := by
  cases host with
  | none => simp [Counters.decScoreValue, is]
  | some h' =>
    by_cases hz : score = 0
    · simp [Counters.decScoreValue, hz]
    simp only [Counters.decScoreValue, if_neg hz, Counters.mk.injEq, true_and, and_true]
    funext h r c
    by_cases hh : h = h'
    · simp [Counters.addScore, is, hh]
    · simp [Counters.addScore, is, hh, Ne.symm hh]

theorem incNumAlertedFlowsHost_eq : ∃ t, k.incNumAlertedFlowsHost host asClient =
    { k with
      incAlerted := fun h r => k.incAlerted h r + if r = asClient then is host h else 0
      totalAlerts := t } := by
  cases host with
  | none => exact ⟨k.totalAlerts, by simp [Counters.incNumAlertedFlowsHost, is]⟩
  | some h' =>
    refine ⟨(k.incNumAlertedFlowsHost (some h') asClient).totalAlerts, ?_⟩
    simp only [Counters.incNumAlertedFlowsHost, Counters.mk.injEq, true_and, and_true]
    funext h r
    by_cases hh : h = h'
    · simp [Counters.addOne, is, hh]
    · simp [Counters.addOne, is, hh, Ne.symm hh]

theorem decNumAlertedFlowsHost_eq : k.decNumAlertedFlowsHost host asClient =
    { k with decAlerted := fun h r => k.decAlerted h r + if r = asClient then is host h else 0 } := by
  cases host with
  | none => simp [Counters.decNumAlertedFlowsHost, is]
  | some h' =>
    simp only [Counters.decNumAlertedFlowsHost, Counters.mk.injEq, true_and, and_true]
    funext h r
    by_cases hh : h = h'
    · simp [Counters.addOne, is, hh]
    · simp [Counters.addOne, is, hh, Ne.symm hh]

theorem addNumAlertedFlows_eq (d : Int) : k.addNumAlertedFlows (mapScoreToSeverity score) d =
    { k with
      activeNotice := k.activeNotice + d * counts score .noticeOrLower
      activeWarning := k.activeWarning + d * counts score .warning
      activeError := k.activeError + d * counts score .error } := by
  unfold Counters.addNumAlertedFlows
  cases hg : mapAlertLevelToGroup (mapScoreToSeverity score) <;> simp [counts, hg]

end eqs

@[simp] theorem counts_zero (g : AlertLevelGroup) : counts 0 g = 0 := by cases g <;> rfl

/-- `s'` is `s` with the alert accounted. -/
structure AccountedAs (s s' : Sys) (a : FlowAlert) : Prop where
  host : s'.books.host = s.books.host
  swaps : s'.swaps = s.swaps
  ended : s'.ended = s.ended
  accepted : s'.accepted = s.accepted ++ [(s.swaps, a)]
  alertsMap : s'.flow.alertsMap = Function.update s.flow.alertsMap a.id true
  hostScore : ∀ r c, s'.books.hostScore r c =
    if c = mapAlertToScoreCategory a.category then
      (s.books.hostScore r c + min (a.score r) scoreMaxValue) % 2 ^ 16
    else s.books.hostScore r c
  incScore : ∀ h r c, s'.counters.incScore h r c = s.counters.incScore h r c +
    if c = mapAlertToScoreCategory a.category then is (s.books.host r) h * a.score r else 0
  decScore : s'.counters.decScore = s.counters.decScore
  incAlerted : ∀ h r, s'.counters.incAlerted h r = s.counters.incAlerted h r +
    if s.flow.predominantAlert = flowAlertNormal then is (s.books.host r) h else 0
  decAlerted : s'.counters.decAlerted = s.counters.decAlerted
  active : ∀ g, s'.counters.active g + counts s.flow.predominantAlertScore g =
    s.counters.active g + counts s'.flow.predominantAlertScore g

theorem setPredominantAlert_hosts (alertType : FlowAlertTypeEnum) (score : Nat) :
    (s.setPredominantAlert alertType score).counters.incScore = s.counters.incScore ∧
    (s.setPredominantAlert alertType score).counters.decScore = s.counters.decScore ∧
    (s.setPredominantAlert alertType score).counters.incAlerted = s.counters.incAlerted ∧
    (s.setPredominantAlert alertType score).counters.decAlerted = s.counters.decAlerted := by
  unfold Sys.setPredominantAlert
  simp only [addNumAlertedFlows_eq]
  split <;> exact ⟨rfl, rfl, rfl, rfl⟩

theorem setPredominantAlert_active (alertType : FlowAlertTypeEnum) (score : Nat) (g : AlertLevelGroup) :
    (s.setPredominantAlert alertType score).counters.active g =
      s.counters.active g - counts s.flow.predominantAlertScore g + counts score g := by
  unfold Sys.setPredominantAlert
  by_cases h0 : s.flow.predominantAlertScore = 0
  · simp only [h0, ne_eq, not_true_eq_false, if_false, addNumAlertedFlows_eq, one_mul, counts_zero, Int.sub_zero]
    cases g <;> simp [Counters.active, counts]
  · simp only [h0, ne_eq, not_false_eq_true, if_true, addNumAlertedFlows_eq, one_mul, Int.neg_mul]
    cases g <;> simp [Counters.active, counts, Int.sub_eq_add_neg]

theorem setNormalToAlertedCounters_counters : ∃ t, s.setNormalToAlertedCounters.counters =
    { s.counters with
      incAlerted := fun h r => s.counters.incAlerted h r + is (s.books.host r) h
      totalAlerts := t } := by
  obtain ⟨t, ht⟩ := incNumAlertedFlowsHost_eq s.counters s.flow.cliHost true
  obtain ⟨t', ht'⟩ := incNumAlertedFlowsHost_eq (s.counters.incNumAlertedFlowsHost s.flow.cliHost true)
    s.flow.srvHost false
  rw [ht] at ht'
  refine ⟨t', ?_⟩
  simp only [Sys.setNormalToAlertedCounters, ht, ht', Counters.mk.injEq, true_and, and_true]
  funext h r
  cases r <;> simp [Sys.books]

theorem account_counters (alert : Nat) (a : FlowAlert) :
    (s.account alert a).counters =
      { s.counters with
        incScore := fun h r c => s.counters.incScore h r c +
          if c = mapAlertToScoreCategory a.category then is (s.books.host r) h * a.score r else 0 } := by
  simp only [Sys.account, incScoreValue_eq]
  simp only [Counters.mk.injEq, and_true]
  funext h r c
  cases r <;> simp [Sys.books, FlowAlert.score]

theorem account_hostScore (alert : Nat) (a : FlowAlert) (r : Bool) (c : ScoreCategory) :
    (s.account alert a).books.hostScore r c =
      if c = mapAlertToScoreCategory a.category then
        (s.books.hostScore r c + min (a.score r) scoreMaxValue) % 2 ^ 16
      else s.books.hostScore r c := by
  by_cases hc : c = mapAlertToScoreCategory a.category
  · subst hc
    cases r <;> simp [Sys.account, Sys.books, PartializableFlowTrafficStats.incScore, FlowAlert.score]
  · cases r <;> simp [Sys.account, Sys.books, PartializableFlowTrafficStats.incScore, hc]

/-- The first alert of the flow is the one that is counted as an alerted flow. -/
theorem account_accounted (alert : Nat) (a : FlowAlert) :
    AccountedAs s ((if s.isFlowAlerted then s else s.setNormalToAlertedCounters).account alert a) a := by
  by_cases hn : s.flow.predominantAlert = flowAlertNormal
  · have hal : s.isFlowAlerted = false := by simp [Sys.isFlowAlerted, hn]
    rw [if_neg (by simp [hal])]
    obtain ⟨t, ht⟩ := setNormalToAlertedCounters_counters (s := s)
    refine ⟨rfl, rfl, rfl, rfl, rfl, account_hostScore alert a, ?_, ?_, ?_, ?_, ?_⟩
    all_goals simp only [account_counters, ht]
    · intro _ _ _
      rfl
    · intro h r
      rw [if_pos hn]
    · intro g
      cases g <;> rfl
  · have hal : s.isFlowAlerted = true := by simpa [Sys.isFlowAlerted] using hn
    rw [if_pos hal]
    refine ⟨rfl, rfl, rfl, rfl, rfl, account_hostScore alert a, ?_, ?_, ?_, ?_, ?_⟩
    all_goals simp only [account_counters]
    · intro _ _ _
      trivial
    · intro h r
      rw [if_neg hn, Nat.add_zero]
    · intro g
      cases g <;> rfl

theorem AccountedAs.setPredominantAlert {s' : Sys} {a : FlowAlert} (h : AccountedAs s s' a)
    (alertType : FlowAlertTypeEnum) (score : Nat) : AccountedAs s (s'.setPredominantAlert alertType score) a := by
  obtain ⟨hinc, hdec, hincA, hdecA⟩ := setPredominantAlert_hosts (s := s') alertType score
  refine ⟨h.host, h.swaps, h.ended, h.accepted, h.alertsMap, h.hostScore, ?_, hdec.trans h.decScore, ?_,
    hdecA.trans h.decAlerted, ?_⟩
  · rw [hinc]
    exact h.incScore
  · rw [hincA]
    exact h.incAlerted
  · intro g
    have hold := h.active g
    have hnew : (s'.setPredominantAlert alertType score).flow.predominantAlertScore = score := rfl
    rw [setPredominantAlert_active, hnew]
    omega

theorem setAlertsMap_accounted (alert : Nat) {a : FlowAlert} {hostDisabled : Bool} (h : Kept s a hostDisabled) :
    AccountedAs s (s.setAlertsMap alert a hostDisabled).2 a ∧
      (s.setAlertsMap alert a hostDisabled).2.flow.predominantAlert ≠ flowAlertNormal := by
  obtain ⟨h1, h2, h3⟩ := h
  unfold Sys.setAlertsMap
  rw [if_neg h1, if_neg (by simp [h2]), if_neg (by simp [h3])]
  have hacc := account_accounted (s := s) alert a
  dsimp only
  generalize Sys.account (if s.isFlowAlerted then s else s.setNormalToAlertedCounters) alert a = s' at hacc ⊢
  split
  · exact ⟨hacc.setPredominantAlert _ _, h1⟩
  · rename_i hno
    have hal : s'.isFlowAlerted = true := by
      simp only [Bool.or_eq_true, Bool.not_eq_true', not_or, Bool.not_eq_false] at hno
      exact hno.1
    exact ⟨hacc, by simpa [Sys.isFlowAlerted] using hal⟩

/-! ## Until the end -/

theorem start_accounted (cliHost srvHost : Option Nat) (notice warning error : Int) :
    Accounted cliHost srvHost (countersAt notice warning error).active
      (start cliHost srvHost (countersAt notice warning error)).books := by
  constructor
  case host => intro r; cases r <;> simp [Sys.books, start, hostAt]
  case scores => intro r c; cases r <;> rfl
  case active =>
    intro g
    simp only [Sys.books, start, counts_zero, Int.add_zero]
  all_goals simp [Sys.books, start, countersAt, total]

theorem Accounted.keep {a : FlowAlert} {hostDisabled : Bool} {s' : Sys} (h : Accounted cliHost srvHost base s.books)
    (hk : Kept s a hostDisabled) (hs : AccountedAs s s' a) (hn : s'.flow.predominantAlert ≠ flowAlertNormal) :
    Accounted cliHost srvHost base s'.books := by
  have hacc : s'.books.accepted = s.accepted ++ [(s.swaps, a)] := hs.accepted
  have hsw : s'.books.swaps = s.swaps := hs.swaps
  have hfresh : ∀ x ∈ s.accepted, x.2.id ≠ a.id := by
    intro x hx heq
    have := h.bits x hx
    rw [heq] at this
    exact absurd (this.symm.trans hk.2.1) (by decide)
  have hids : (s'.books.accepted.map (·.2.id)).Nodup := by
    rw [hacc, List.map_append]
    refine h.ids.append (List.nodup_singleton _) ?_
    intro i hi hi'
    obtain ⟨x, hx, rfl⟩ := List.mem_map.mp hi
    exact hfresh x hx (List.mem_singleton.mp hi')
  have hroom : (s.accepted ++ [(s.swaps, a)]).length ≤ 128 := by
    rw [← hacc]
    simpa using hids.length_le_card
  constructor
  case host =>
    intro r
    rw [hs.host, hsw]
    exact h.host r
  case ids => exact hids
  case bits =>
    intro x hx
    rw [hacc] at hx
    have hmap : s'.books.alertsMap = Function.update s.flow.alertsMap a.id true := hs.alertsMap
    rw [hmap]
    rcases List.mem_append.mp hx with hx | hx
    · rw [Function.update_of_ne (hfresh x hx)]
      exact h.bits x hx
    · rw [List.mem_singleton.mp hx, Function.update_self]
  case first =>
    rw [hacc]
    exact ⟨fun he => absurd he hn, fun he => by simp at he⟩
  case unalerted => exact fun he => absurd he hn
  case scores =>
    intro r c
    have hold : s.books.hostScore r c = total s.accepted s.swaps c r + total s.accepted (!s.swaps) c (!r) := h.scores r c
    have hle := total_add_le s.swaps c r s.accepted
    have hmax := a.score_add_le r
    rw [List.length_append, List.length_singleton] at hroom
    rw [hs.hostScore, hacc, hsw, total_snoc, total_snoc, hold]
    rw [show scoreMaxValue = 250 from rfl] at hle hmax ⊢
    by_cases hc : c = mapAlertToScoreCategory a.category
    · have hno : ¬ (s.swaps = (!s.swaps) ∧ mapAlertToScoreCategory a.category = c) := by simp
      rw [if_pos hc, if_pos ⟨rfl, hc.symm⟩, if_neg hno, Nat.mod_eq_of_lt (by omega)]
      omega
    · rw [if_neg hc, if_neg fun he => hc he.2.symm, if_neg fun he => hc he.2.symm]
      omega
  case inc =>
    intro h' r c
    have hold : s.counters.incScore h' r c = _ := h.inc h' r c
    have hnew : s'.books.counters.incScore h' r c = _ := hs.incScore h' r c
    have hhost : s.books.host r = hostAt cliHost srvHost s.swaps r := h.host r
    have hacc' : s.books.accepted = s.accepted := rfl
    rw [hnew, hold, hacc, total_snoc, total_snoc, hhost, hacc']
    by_cases hc : c = mapAlertToScoreCategory a.category
    · cases hs : s.swaps <;> simp [hc, Nat.mul_add] <;> omega
    · simp [hc, Ne.symm hc]
  case incAlerted =>
    intro h' r
    have hold : s.counters.incAlerted h' r = _ := h.incAlerted h' r
    have hnew : s'.books.counters.incAlerted h' r = _ := hs.incAlerted h' r
    have hhost : s.books.host r = hostAt cliHost srvHost s.swaps r := h.host r
    have hacc' : s.books.accepted = s.accepted := rfl
    have hfirst : s.flow.predominantAlert = flowAlertNormal ↔ s.accepted = [] := h.first
    rw [hnew, hold, hacc, hacc', hhost]
    by_cases he : s.accepted = []
    · rw [if_pos (hfirst.mpr he), he]
      simp
    · rw [if_neg (fun hp => he (hfirst.mp hp)), List.head?_append_of_ne_nil _ he, Nat.add_zero]
  case dec => intro h' r c; exact (congrFun (congrFun (congrFun hs.decScore h') r) c).trans (h.dec h' r c)
  case decAlerted => intro h' r; exact (congrFun (congrFun hs.decAlerted h') r).trans (h.decAlerted h' r)
  case active =>
    intro g
    have hold := h.active g
    have hnew := hs.active g
    simp only [Sys.books] at hold ⊢
    omega

theorem hostAt_swap (cliHost srvHost : Option Nat) (o r : Bool) :
    hostAt cliHost srvHost (!o) r =
      if cliHost.isSome && srvHost.isSome then hostAt cliHost srvHost o (!r) else hostAt cliHost srvHost o r := by
  cases hc : cliHost.isSome <;> cases hs : srvHost.isSome <;> cases o <;> cases r <;> simp [hostAt, hc, hs]

/-- Whether there are two hosts does not depend on which is which. -/
theorem Accounted.both (h : Accounted cliHost srvHost base s.books) :
    (s.flow.cliHost.isSome && s.flow.srvHost.isSome) = (cliHost.isSome && srvHost.isSome) := by
  have hcli : s.flow.cliHost = hostAt cliHost srvHost s.swaps true := h.host true
  have hsrv : s.flow.srvHost = hostAt cliHost srvHost s.swaps false := h.host false
  rw [hcli, hsrv]
  cases hc : cliHost.isSome <;> cases hs : srvHost.isSome <;> cases s.swaps <;> simp [hostAt, hc, hs]

theorem Accounted.swap (h : Accounted cliHost srvHost base s.books) (flowSwapHeuristic : Bool) :
    Accounted cliHost srvHost base (s.swap flowSwapHeuristic).books := by
  unfold Sys.swap
  split
  · exact h
  refine ⟨?_, h.ids, h.bits, h.first, h.unalerted, ?_, h.inc, h.dec, h.incAlerted, h.decAlerted, h.active⟩
  · intro r
    have hcli : s.flow.cliHost = hostAt cliHost srvHost s.swaps true := h.host true
    have hsrv : s.flow.srvHost = hostAt cliHost srvHost s.swaps false := h.host false
    simp only [Sys.books, h.both, hostAt_swap]
    cases r <;> simp [hcli, hsrv]
  · intro r c
    have hold : s.books.hostScore (!r) c = _ := h.scores (!r) c
    simp only [Sys.books, Bool.not_not] at hold ⊢
    rw [Nat.add_comm, ← hold]
    cases r <;> rfl

/-! ## What does not touch the books -/

theorem flushAlerts_books (dontEmit room : Bool) : (s.flushAlerts dontEmit room).books = s.books := by
  unfold Sys.flushAlerts
  split
  · rfl
  · dsimp only
    split
    · unfold Sys.enqueueFlowAlert
      dsimp only
      split
      · rfl
      · split <;> rfl
    · rfl

theorem refreshAlert_books (t : FlowAlertTypeEnum) : (s.refreshAlert t).books = s.books := by
  unfold Sys.refreshAlert
  split <;> rfl

theorem dequeueLoop_books (budget : Nat) (q : List QueueItem) : ∀ (numDone : Nat) (s : Sys),
    (Sys.dequeueLoop budget q numDone s).books = s.books ∧ (Sys.dequeueLoop budget q numDone s).ended = s.ended := by
  induction q with
  | nil => exact fun _ _ => ⟨rfl, rfl⟩
  | cons item rest ih =>
    intro numDone s
    have hone : ({ s with queue := rest }.deliver item).books = s.books ∧
        ({ s with queue := rest }.deliver item).ended = s.ended := by
      cases item <;> exact ⟨rfl, rfl⟩
    unfold Sys.dequeueLoop
    dsimp only
    split
    · exact hone
    · have := ih (numDone + 1) ({ s with queue := rest }.deliver item)
      exact ⟨this.1.trans hone.1, this.2.trans hone.2⟩

theorem flushAlerts_ended (dontEmit room : Bool) : (s.flushAlerts dontEmit room).ended = s.ended := by
  unfold Sys.flushAlerts
  split
  · rfl
  · dsimp only
    split
    · unfold Sys.enqueueFlowAlert
      dsimp only
      split
      · rfl
      · split <;> rfl
    · rfl

theorem Accounted.trigger (h : Accounted cliHost srvHost base s.books) (a : FlowAlert)
    (sync hostDisabled dontEmit room : Bool) :
    (s.triggerAlert a sync hostDisabled dontEmit room).ended = s.ended ∧
      Accounted cliHost srvHost base (s.triggerAlert a sync hostDisabled dontEmit room).books := by
  unfold Sys.triggerAlert
  by_cases hk : Kept s a hostDisabled
  · obtain ⟨s', heq, -⟩ := setAlertsMap_keep (s := { s with mem := s.mem.new }) s.mem.created hk
    have hacc := setAlertsMap_accounted (s := { s with mem := s.mem.new }) s.mem.created hk
    rw [heq] at hacc
    have hkeep := Accounted.keep (s := { s with mem := s.mem.new }) h hk hacc.1 hacc.2
    simp only [heq, if_true]
    cases sync with
    | false => exact ⟨hacc.1.ended, hkeep⟩
    | true =>
      simp only [if_true]
      rw [flushAlerts_books, flushAlerts_ended]
      exact ⟨hacc.1.ended, hkeep⟩
  · have heq := setAlertsMap_discard (s := { s with mem := s.mem.new }) s.mem.created hk
    simp only [heq]
    exact ⟨rfl, h⟩

/-- Until the flow ends its books stay accounted, and the end is the only way to end. -/
theorem Accounted.step (h : Accounted cliHost srvHost base s.books) (he : s.ended = false) (e : Ev) :
    (step s e).ended = false ∧ Accounted cliHost srvHost base (step s e).books ∨
      step s e = { s.decAllFlowScores with ended := true } := by
  cases e with
  | triggerAlert a sync hostDisabled dontEmit room =>
    left
    simp only [Alerts.step]
    split
    · exact ⟨he, h⟩
    · have := h.trigger a sync hostDisabled dontEmit room
      exact ⟨this.1.trans he, this.2⟩
  | refreshAlert t =>
    left
    simp only [Alerts.step]
    split
    · exact ⟨he, h⟩
    · rw [refreshAlert_books]
      refine ⟨?_, h⟩
      unfold Sys.refreshAlert
      split <;> exact he
  | flushAlerts dontEmit room =>
    left
    simp only [Alerts.step]
    split
    · exact ⟨he, h⟩
    · rw [flushAlerts_books, flushAlerts_ended]
      exact ⟨he, h⟩
  | otherAlert => exact .inl ⟨he, h⟩
  | dequeueFlowAlerts budget =>
    left
    simp only [Alerts.step, Sys.dequeueFlowAlerts, dequeueLoop_books]
    exact ⟨he, h⟩
  | incUses =>
    left
    simp only [Alerts.step]
    split <;> exact ⟨he, h⟩
  | decUses =>
    left
    simp only [Alerts.step]
    split <;> exact ⟨he, h⟩
  | requestSwap =>
    left
    simp only [Alerts.step]
    split <;> exact ⟨he, h⟩
  | swap flowSwapHeuristic =>
    left
    simp only [Alerts.step]
    split
    · exact ⟨he, h⟩
    · refine ⟨?_, h.swap flowSwapHeuristic⟩
      unfold Sys.swap
      split <;> exact he
  | housekeepIdle =>
    simp only [Alerts.step]
    split
    · exact .inl ⟨he, h⟩
    · exact .inr rfl
  | delete shutdown =>
    left
    simp only [Alerts.step]
    split <;> exact ⟨he, h⟩

/-- After the end of the flow nothing more is accounted. -/
theorem step_ended (he : s.ended = true) (e : Ev) : (step s e).ended = true ∧ (step s e).books = s.books := by
  cases e with
  | dequeueFlowAlerts budget =>
    have := dequeueLoop_books budget s.queue 0 s
    exact ⟨this.2.trans he, this.1⟩
  | incUses =>
    simp only [step]
    split <;> exact ⟨he, rfl⟩
  | decUses =>
    simp only [step]
    split <;> exact ⟨he, rfl⟩
  | delete shutdown =>
    simp only [step]
    split <;> exact ⟨he, rfl⟩
  | otherAlert => exact ⟨he, rfl⟩
  | _ =>
    simp only [step, he, Bool.or_true, Bool.true_or, if_true]
    trivial

/-! ## The end -/

theorem decFlowScores_eq (k : Counters) (s : Sys) (category : ScoreCategory) :
    Sys.decFlowScores k s.flow category =
      { k with
        decScore := fun h r c => k.decScore h r c +
          if c = category then is (s.books.host r) h * s.books.hostScore r c else 0 } := by
  simp only [Sys.decFlowScores, decScoreValue_eq, Counters.mk.injEq, true_and, and_true]
  funext h r c
  by_cases hc : c = category
  · subst hc
    cases r <;> simp [Sys.books]
  · cases r <;> simp [hc]

/-- What the end takes back. -/
theorem decAllFlowScores_counters :
    s.decAllFlowScores.counters.incScore = s.counters.incScore ∧
    s.decAllFlowScores.counters.incAlerted = s.counters.incAlerted ∧
    (∀ h r c, s.decAllFlowScores.counters.decScore h r c =
      s.counters.decScore h r c + is (s.books.host r) h * s.books.hostScore r c) ∧
    (∀ h r, s.decAllFlowScores.counters.decAlerted h r = s.counters.decAlerted h r +
      if s.flow.predominantAlert = flowAlertNormal then 0 else is (s.books.host r) h) ∧
    ∀ g, s.decAllFlowScores.counters.active g = s.counters.active g -
      if s.flow.predominantAlert = flowAlertNormal then 0 else counts s.flow.predominantAlertScore g := by
  have hscores : ∀ h r c, (s.counters.decScore h r c +
      if c = ScoreCategory.network then is (s.books.host r) h * s.books.hostScore r c else 0) +
      (if c = ScoreCategory.security then is (s.books.host r) h * s.books.hostScore r c else 0) =
        s.counters.decScore h r c + is (s.books.host r) h * s.books.hostScore r c := by
    intro h r c
    cases c <;> simp
  unfold Sys.decAllFlowScores
  by_cases hn : s.flow.predominantAlert = flowAlertNormal
  · have hal : s.isFlowAlerted = false := by simp [Sys.isFlowAlerted, hn]
    simp only [hal, Bool.false_eq_true, if_false, decFlowScores_eq, hscores, hn, if_true, Nat.add_zero, Int.sub_zero]
    refine ⟨trivial, trivial, fun _ _ _ => trivial, fun _ _ => trivial, fun g => ?_⟩
    cases g <;> rfl
  · have hal : s.isFlowAlerted = true := by simpa [Sys.isFlowAlerted] using hn
    simp only [hal, if_true, decFlowScores_eq, addNumAlertedFlows_eq, decNumAlertedFlowsHost_eq, hscores, hn, if_false]
    refine ⟨trivial, trivial, fun _ _ _ => trivial, fun h r => ?_, fun g => ?_⟩
    · cases r <;> simp [Sys.books]
    · cases g <;> simp [Counters.active, Int.sub_eq_add_neg] <;> rfl

/-- With two hosts, the roles change hosts. -/
theorem Separate.hosts (h : Separate cliHost srvHost) (o r : Bool) :
    ∃ x y, x ≠ y ∧ hostAt cliHost srvHost o r = some x ∧ hostAt cliHost srvHost (!o) r = some y := by
  obtain ⟨hc, hs, hne⟩ := h
  obtain ⟨x, rfl⟩ := Option.isSome_iff_exists.mp hc
  obtain ⟨y, rfl⟩ := Option.isSome_iff_exists.mp hs
  have hxy : x ≠ y := fun he => hne (he ▸ rfl)
  cases o <;> cases r <;> first
    | exact ⟨x, y, hxy, rfl, rfl⟩
    | exact ⟨y, x, hxy.symm, rfl, rfl⟩

/-- Otherwise they never do. -/
theorem hostAt_of_not_separate (h : ¬ Separate cliHost srvHost) (o r : Bool) :
    hostAt cliHost srvHost o r = if r then cliHost else srvHost := by
  unfold hostAt
  by_cases hb : cliHost.isSome ∧ srvHost.isSome
  · have he : cliHost = srvHost := by
      refine Classical.byContradiction fun hne => h ⟨hb.1, hb.2, hne⟩
    subst he
    simp
  · have hb' : (cliHost.isSome && srvHost.isSome) = false := by simpa using hb
    cases r <;> simp [hb']

/-- One score: what came in, in both orientations, against what the statistics hold at the end. -/
theorem score_cancels_iff (cliHost srvHost : Option Nat) (tot : Bool → Bool → Nat) (o r : Bool) :
    (∀ h, is (hostAt cliHost srvHost true r) h * tot true r + is (hostAt cliHost srvHost false r) h * tot false r =
        is (hostAt cliHost srvHost o r) h * (tot o r + tot (!o) (!r))) ↔
      ∀ h, is (hostAt cliHost srvHost (!o) r) h * tot (!o) r = is (hostAt cliHost srvHost o r) h * tot (!o) (!r) := by
  refine forall_congr' fun h => ?_
  cases o <;> simp only [Bool.not_false, Bool.not_true, Nat.mul_add] <;> omega

theorem is_eq_iff {a b : Option Nat} : (∀ h, is a h = is b h) ↔ a = b := by
  constructor
  · intro hall
    refine Option.ext fun h => ?_
    have := hall h
    unfold is at this
    by_cases ha : a = some h <;> by_cases hb : b = some h <;> simp_all
  · rintro rfl _
    rfl

/-- The interface is even whatever the orientation: a flow that is not alerted has no predominant score. -/
theorem Accounted.end_active (h : Accounted cliHost srvHost base s.books) (g : AlertLevelGroup) :
    s.decAllFlowScores.counters.active g = base g := by
  obtain ⟨-, -, -, -, hact⟩ := decAllFlowScores_counters (s := s)
  have hold : s.counters.active g = base g + counts s.flow.predominantAlertScore g := h.active g
  rw [hact, hold]
  by_cases hn : s.flow.predominantAlert = flowAlertNormal
  · have hz : s.flow.predominantAlertScore = 0 := h.unalerted hn
    rw [if_pos hn, hz, counts_zero, Int.add_zero, Int.sub_zero]
  · rw [if_neg hn]
    omega

theorem Accounted.end_scores (h : Accounted cliHost srvHost base s.books) :
    (∀ h r c, s.decAllFlowScores.counters.incScore h r c = s.decAllFlowScores.counters.decScore h r c) ↔
      ∀ r c h, is (hostAt cliHost srvHost (!s.swaps) r) h * s.stray c r =
        is (hostAt cliHost srvHost s.swaps r) h * s.stray c (!r) := by
  obtain ⟨hinc, -, hdec, -, -⟩ := decAllFlowScores_counters (s := s)
  have hone := fun r c => score_cancels_iff cliHost srvHost
    (fun o r => total s.accepted o c r) s.swaps r
  have hl : ∀ h' r c, s.decAllFlowScores.counters.incScore h' r c = _ := fun h' r c =>
    (congrFun (congrFun (congrFun hinc h') r) c).trans (h.inc h' r c)
  have hr : ∀ h' r c, s.decAllFlowScores.counters.decScore h' r c = is (hostAt cliHost srvHost s.swaps r) h' *
      (total s.accepted s.swaps c r + total s.accepted (!s.swaps) c (!r)) := by
    intro h' r c
    have hz : s.counters.decScore h' r c = 0 := h.dec h' r c
    have hh : s.books.host r = hostAt cliHost srvHost s.swaps r := h.host r
    have hs : s.books.hostScore r c = _ := h.scores r c
    rw [hdec, hz, hh, hs, Nat.zero_add]
    rfl
  constructor
  · intro hall r c
    refine (hone r c).mp fun h' => ?_
    have := hall h' r c
    rw [hl, hr] at this
    exact this
  · intro hall h' r c
    rw [hl, hr]
    exact (hone r c).mpr (hall r c) h'

theorem Accounted.end_alerted (h : Accounted cliHost srvHost base s.books) :
    (∀ h r, s.decAllFlowScores.counters.incAlerted h r = s.decAllFlowScores.counters.decAlerted h r) ↔
      ∀ x ∈ s.accepted.head?, ∀ r, hostAt cliHost srvHost x.1 r = hostAt cliHost srvHost s.swaps r := by
  obtain ⟨-, hinc, -, hdec, -⟩ := decAllFlowScores_counters (s := s)
  have hl : ∀ h' r, s.decAllFlowScores.counters.incAlerted h' r =
      s.accepted.head?.elim 0 fun x => is (hostAt cliHost srvHost x.1 r) h' := fun h' r =>
    (congrFun (congrFun hinc h') r).trans (h.incAlerted h' r)
  have hr : ∀ h' r, s.decAllFlowScores.counters.decAlerted h' r =
      if s.accepted = [] then 0 else is (hostAt cliHost srvHost s.swaps r) h' := by
    intro h' r
    have hz : s.counters.decAlerted h' r = 0 := h.decAlerted h' r
    have hh : s.books.host r = hostAt cliHost srvHost s.swaps r := h.host r
    have hfirst : s.flow.predominantAlert = flowAlertNormal ↔ s.accepted = [] := h.first
    rw [hdec, hz, hh, Nat.zero_add]
    exact if_congr hfirst rfl rfl
  simp only [hl, hr]
  cases hx : s.accepted with
  | nil => simp
  | cons x xs =>
    simp only [List.head?_cons, Option.elim_some, reduceCtorEq, if_false, Option.mem_some_iff, forall_eq']
    rw [forall_comm]
    exact forall_congr' fun r => is_eq_iff

theorem Separate.straight_iff (h : Separate cliHost srvHost) :
    Straight cliHost srvHost s ↔
      (∀ r c h, is (hostAt cliHost srvHost (!s.swaps) r) h * s.stray c r =
        is (hostAt cliHost srvHost s.swaps r) h * s.stray c (!r)) ∧
      ∀ x ∈ s.accepted.head?, ∀ r, hostAt cliHost srvHost x.1 r = hostAt cliHost srvHost s.swaps r := by
  have hfirst : ∀ o, (∀ r, hostAt cliHost srvHost o r = hostAt cliHost srvHost s.swaps r) ↔ o = s.swaps := by
    intro o
    constructor
    · intro hall
      obtain ⟨x, y, hne, hx, hy⟩ := h.hosts s.swaps true
      refine Classical.byContradiction fun hn => hne ?_
      have ho : o = !s.swaps := by cases o <;> cases hs : s.swaps <;> simp_all
      have := hall true
      rw [ho, hx, hy] at this
      exact (Option.some.inj this).symm
    · rintro rfl _
      rfl
  have hstray : (∀ c r, s.stray c r = 0) ↔ ∀ r c h, is (hostAt cliHost srvHost (!s.swaps) r) h * s.stray c r =
      is (hostAt cliHost srvHost s.swaps r) h * s.stray c (!r) := by
    constructor
    · intro hall r c h'
      rw [hall, hall]
      rfl
    · intro hall c r
      obtain ⟨x, y, hne, hx, hy⟩ := h.hosts s.swaps r
      have := hall r c y
      simpa [is, hx, hy, hne] using this
  simp only [Straight, h, not_true_eq_false, true_implies, false_implies, and_true, hfirst, hstray]

theorem not_separate_straight_iff (h : ¬ Separate cliHost srvHost) :
    Straight cliHost srvHost s ↔
      (∀ r c h, is (hostAt cliHost srvHost (!s.swaps) r) h * s.stray c r =
        is (hostAt cliHost srvHost s.swaps r) h * s.stray c (!r)) ∧
      ∀ x ∈ s.accepted.head?, ∀ r, hostAt cliHost srvHost x.1 r = hostAt cliHost srvHost s.swaps r := by
  have hone : ∀ (host : Option Nat) (x y : Nat), (∀ h, is host h * x = is host h * y) ↔ (host.isSome → x = y) := by
    intro host x y
    cases host with
    | none => simp [is]
    | some h =>
      refine ⟨fun hall _ => by simpa [is] using hall h, fun heq h' => ?_⟩
      rw [heq rfl]
  simp only [Straight, h, false_implies, not_false_eq_true, true_implies, true_and, hostAt_of_not_separate h, hone,
    implies_true, and_true]
  constructor
  · intro hall r c hs
    cases r with
    | true => exact hall (.inl hs) c
    | false => exact (hall (.inr hs) c).symm
  · rintro hall (hs | hs) c
    · exact hall true c hs
    · exact (hall false c hs).symm

theorem straight_iff : Straight cliHost srvHost s ↔
    (∀ r c h, is (hostAt cliHost srvHost (!s.swaps) r) h * s.stray c r =
      is (hostAt cliHost srvHost s.swaps r) h * s.stray c (!r)) ∧
    ∀ x ∈ s.accepted.head?, ∀ r, hostAt cliHost srvHost x.1 r = hostAt cliHost srvHost s.swaps r := by
  by_cases hsep : Separate cliHost srvHost
  · exact hsep.straight_iff
  · exact not_separate_straight_iff hsep

theorem Accounted.end_iff {notice warning error : Int}
    (h : Accounted cliHost srvHost (countersAt notice warning error).active s.books) :
    Cancelled notice warning error s.decAllFlowScores.counters ↔ Straight cliHost srvHost s := by
  rw [straight_iff, ← h.end_scores, ← h.end_alerted]
  constructor
  · exact fun hc => ⟨hc.scores, hc.alerted⟩
  · exact fun hc => ⟨hc.1, hc.2, h.end_active .noticeOrLower, h.end_active .warning, h.end_active .error⟩

/-! ## Runs -/

/-- Along a run the books are kept until the end; then they are even, or not, for good. -/
def Phase (cliHost srvHost : Option Nat) (notice warning error : Int) (s : Sys) : Prop :=
  s.ended = false ∧ Accounted cliHost srvHost (countersAt notice warning error).active s.books ∨
    s.ended = true ∧ (Cancelled notice warning error s.counters ↔ Straight cliHost srvHost s)

theorem step_phase {notice warning error : Int} (s : Sys) (e : Ev) (h : Phase cliHost srvHost notice warning error s) :
    Phase cliHost srvHost notice warning error (step s e) := by
  rcases h with ⟨he, hacc⟩ | ⟨he, hiff⟩
  · rcases hacc.step he e with hnext | hend
    · exact .inl hnext
    · rw [hend]
      refine .inr ⟨rfl, ?_⟩
      have hiff := hacc.end_iff
      have haccepted : s.decAllFlowScores.accepted = s.accepted := by unfold Sys.decAllFlowScores; split <;> rfl
      have hswaps : s.decAllFlowScores.swaps = s.swaps := by unfold Sys.decAllFlowScores; split <;> rfl
      simp only [Straight, Sys.stray, haccepted, hswaps] at hiff ⊢
      exact hiff
  · obtain ⟨he', hb⟩ := step_ended he e
    refine .inr ⟨he', ?_⟩
    have hcounters : (step s e).counters = s.counters := congrArg Books.counters hb
    have haccepted : (step s e).accepted = s.accepted := congrArg Books.accepted hb
    have hswaps : (step s e).swaps = s.swaps := congrArg Books.swaps hb
    simp only [Straight, Sys.stray, hcounters, haccepted, hswaps] at hiff ⊢
    exact hiff

/-- When a flow has ended, what it added to its hosts and to the interface was taken back exactly when nothing
    was accounted the other way round than the flow was at its end. -/
theorem accounts_cancel_iff (cliHost srvHost : Option Nat) (notice warning error : Int) (evs : List Ev)
    (hended : (run step (start cliHost srvHost (countersAt notice warning error)) evs).ended = true) :
    Cancelled notice warning error (run step (start cliHost srvHost (countersAt notice warning error)) evs).counters ↔
      Straight cliHost srvHost (run step (start cliHost srvHost (countersAt notice warning error)) evs) := by
  have h0 : Phase cliHost srvHost notice warning error (start cliHost srvHost (countersAt notice warning error)) :=
    .inl ⟨rfl, start_accounted cliHost srvHost notice warning error⟩
  rcases inv_run_all step step_phase h0 evs with ⟨he, -⟩ | ⟨-, hiff⟩
  · exact absurd (hended.symm.trans he) (by decide)
  · exact hiff

def straight : List Ev := [.triggerAlert blacklisted false false false true, .housekeepIdle]

theorem accounts_cancel_without_swap :
    (run step (start (some 1) (some 2) (countersAt 4 5 6)) straight).ended = true ∧
      Cancelled 4 5 6 (run step (start (some 1) (some 2) (countersAt 4 5 6)) straight).counters := by
  have hended : (run step (start (some 1) (some 2) (countersAt 4 5 6)) straight).ended = true := by decide
  refine ⟨hended, (accounts_cancel_iff (some 1) (some 2) 4 5 6 straight hended).mpr ⟨fun _ => ⟨?_, ?_⟩, ?_⟩⟩
  · intro c r
    cases c <;> cases r <;> decide
  · intro x hx
    cases hx
    rfl
  · exact fun hn => absurd ⟨rfl, rfl, by decide⟩ hn

def swapped : List Ev :=
  [.triggerAlert blacklisted false false false true, .requestSwap, .swap true, .housekeepIdle]

/-- One alert, and the flow is swapped before it ends. -/
theorem swap_after_alert_leaves_score :
    ¬ ∀ (cliHost srvHost : Option Nat) (notice warning error : Int) (evs : List Ev),
      (run step (start cliHost srvHost (countersAt notice warning error)) evs).ended = true →
        Cancelled notice warning error
          (run step (start cliHost srvHost (countersAt notice warning error)) evs).counters := by
  intro hall
  have hc := hall (some 1) (some 2) 0 0 0 swapped (by decide)
  exact absurd (hc.scores 1 true .security) (by decide)

end Ntopng.Flows.Alerts
