/-
  Ntopng.Flows.RiskExceptions — the alerts on the risks of a collected flow, and the exceptions from them
  (src/flow_checks/FlowRisk.cpp; `ParserInterface::processFlow`, src/ParserInterface.cpp; src/Flow.cpp;
  src/FlowChecksExecutor.cpp).

  A record has a bitmap of risks and, per risk, an information. `processFlow` takes from these the
  issuer of the certificate, or else the DGA domain. A flow with that risk and no domain gets its
  info field for one. Each check looks for its risk: on a ZMQ interface it first asks nDPI if the
  issuer or the domain is excepted. If so, it clears all risks of the flow.

  The checks are a list of the risks they handle. What nDPI excepts is a predicate, the info field a
  string; a text of the risk information is what `json_object_get_string` gives of it.

  Proved for all records and all checks (`exceptions_law`): the checks trigger, in whatever order,
  exactly the risks of the record that are not excepted, exactly if none of the risks with a check
  is excepted, or all are, each by its own information and by what is taken for it.
-/

import Ntopng.Lib.OrdMap

namespace Ntopng.Flows.RiskExceptions

open Ntopng.Lib.OrdMap

/-! ## The code -/

/-- `NDPI_TLS_SELFSIGNED_CERTIFICATE` -/
def tlsSelfsignedCertificate : ℕ := 6

/-- `NDPI_SUSPICIOUS_DGA_DOMAIN` -/
def suspiciousDgaDomain : ℕ := 16

/-- What is read of a record. -/
structure Record where
  risk : BitVec 64
  /-- The members of the risk information, if it is a JSON object. -/
  riskInfo : Option (List (String × Option String))

structure Flow where
  riskBitmap : BitVec 64
  isTLS : Bool
  issuerDN : Option String
  dgaDomain : Option String
  /-- `getFlowInfo(false)` -/
  flowInfo : String
  deriving DecidableEq, Repr

/-- The parameters of an exception that are asked for. -/
inductive Param where
  | issuerDN
  | hostname
  deriving DecidableEq, Repr

section

-- `NDPI_MAX_RISK`, and `ndpi_check_flow_risk_exceptions`
variable (maxRisk : ℕ) (exceptions : Param → Option String → Bool)

def Flow.setRisk (f : Flow) (risk : BitVec 64) : Flow :=
  let risk := risk &&& ~~~1#64
  { f with riskBitmap := if risk = 0#64 then 1#64 else risk }

def Flow.clearRisks (f : Flow) : Flow := { f with riskBitmap := 1#64 }

def Flow.hasRisk (f : Flow) (r : ℕ) : Bool := r < maxRisk && f.riskBitmap.getLsbD r

def Flow.setTLSCertificateIssuerDN (f : Flow) (issuer : Option String) : Flow :=
  match issuer with
  | none => f
  | some issuer => { f with issuerDN := some issuer }

def Flow.getTLSCertificateIssuerDN (f : Flow) : Option String := if f.isTLS then f.issuerDN else none

def Flow.setDGADomain (f : Flow) (name : Option String) : Flow :=
  match name with
  | none => f
  | some name => { f with dgaDomain := some name }

def Flow.getDGADomain (f : Flow) : String :=
  if f.hasRisk maxRisk suspiciousDgaDomain then f.dgaDomain.getD "" else ""

def Flow.updateSuspiciousDGADomain (f : Flow) : Flow :=
  if f.hasRisk maxRisk suspiciousDgaDomain && f.dgaDomain.isNone then
    if f.flowInfo ≠ "" then { f with dgaDomain := some f.flowInfo } else f
  else f

/-- What is taken from the risk information. -/
def enrich (f : Flow) (info : List (String × Option String)) : Flow :=
  match find info "6" with
  | some issuerDN => if f.isTLS then f.setTLSCertificateIssuerDN issuerDN else f
  | none =>
    match find info "16" with
    | some dgaDomain => f.setDGADomain dgaDomain
    | none => f

/-- The first record of a flow. -/
def processFlow (f : Flow) (record : Record) : Flow :=
  let f := f.setRisk record.risk
  let f := match record.riskInfo with
    | some info => enrich f info
    | none => f
  f.updateSuspiciousDGADomain maxRisk

def ignoreRisk (f : Flow) (r : ℕ) : Bool :=
  if r = tlsSelfsignedCertificate then exceptions .issuerDN f.getTLSCertificateIssuerDN
  else if r = suspiciousDgaDomain then exceptions .hostname (some (f.getDGADomain maxRisk))
  else false

/-- A check of the risk `r`, with the alerts triggered so far. -/
def checkRisk (zmq : Bool) (st : Flow × List ℕ) (r : ℕ) : Flow × List ℕ :=
  if st.1.hasRisk maxRisk r then
    if zmq && ignoreRisk maxRisk exceptions st.1 r then (st.1.clearRisks, st.2)
    else (st.1, st.2 ++ [r])
  else st

/-- The risks for which the checks of the list trigger an alert. -/
def execChecks (zmq : Bool) (f : Flow) (checks : List ℕ) : List ℕ :=
  (checks.foldl (checkRisk maxRisk exceptions zmq) (f, [])).2

end

/-! ## What is expected -/

section

variable (maxRisk : ℕ) (exceptions : Param → Option String → Bool) (f : Flow) (record : Record)

/-- The text of the record on a risk. -/
def Record.text (key : String) : Option String := (record.riskInfo.bind fun info => find info key).join

/-- The record has information on a self-signed certificate. -/
def Record.hasIssuer : Bool := (record.riskInfo.bind fun info => find info "6").isSome

/-- The risk is one of the record. -/
def Present (r : ℕ) : Prop := r < maxRisk ∧ r ≠ 0 ∧ record.risk.getLsbD r = true

/-- The issuer of the flow's certificate. -/
def issuer : Option String := if f.isTLS then (record.text "6").or f.issuerDN else none

/-- The flow's DGA domain: that of the record, or else the one it has or its info field. -/
def domain : String := (record.text "16").getD (f.dgaDomain.getD f.flowInfo)

/-- The one that is taken for it. -/
def domainTaken : String := if record.hasIssuer then f.dgaDomain.getD f.flowInfo else domain f record

/-- The exceptions, by a domain. -/
def ExceptedBy (domain : String) (r : ℕ) : Prop :=
  (r = tlsSelfsignedCertificate ∧ exceptions .issuerDN (issuer f record) = true) ∨
    (r = suspiciousDgaDomain ∧ exceptions .hostname (some domain) = true)

def Excepted (r : ℕ) : Prop := ExceptedBy exceptions f record (domain f record) r

def Taken (r : ℕ) : Prop := ExceptedBy exceptions f record (domainTaken f record) r

/-- Of the risks of the record that have a check, none is excepted, or all are. -/
def Ok (checks : List ℕ) : Prop :=
  (∀ r ∈ checks, Present maxRisk record r → ¬ Excepted exceptions f record r ∧ ¬ Taken exceptions f record r) ∨
    ∀ r ∈ checks, Present maxRisk record r → Excepted exceptions f record r ∧ Taken exceptions f record r

end

/-! ## The flow of a record -/

section

variable {maxRisk : ℕ} {exceptions : Param → Option String → Bool} {f : Flow} {record : Record} {r : ℕ}

theorem setRisk_hasRisk (maxRisk : ℕ) (f : Flow) (risk : BitVec 64) (hr : r ≠ 0) :
    (f.setRisk risk).hasRisk maxRisk r = (r < maxRisk && risk.getLsbD r) := by
  have hone : (1#64).getLsbD r = false := by simp [BitVec.getLsbD_one, hr]
  have hmask : (risk &&& ~~~1#64).getLsbD r = risk.getLsbD r := by
    rw [BitVec.getLsbD_and, BitVec.getLsbD_not, hone, Bool.not_false, Bool.and_true]
    by_cases hlt : r < 64
    · simp [hlt]
    · simp [hlt, BitVec.getLsbD_of_ge risk r (not_lt.mp hlt)]
  rw [Flow.hasRisk, Flow.setRisk]
  simp only
  split
  · rename_i hzero
    rw [hzero, BitVec.getLsbD_zero] at hmask
    rw [hone, ← hmask]
  · rw [hmask]

theorem clearRisks_hasRisk (f : Flow) (hr : r ≠ 0) : f.clearRisks.hasRisk maxRisk r = false := by
  simp [Flow.hasRisk, Flow.clearRisks, BitVec.getLsbD_one, hr]

/-- What enriching a flow sets. -/
theorem enrich_spec (f : Flow) (info : List (String × Option String)) : (enrich f info).riskBitmap = f.riskBitmap ∧
    (enrich f info).isTLS = f.isTLS ∧ (enrich f info).flowInfo = f.flowInfo ∧
    (f.isTLS = true → (enrich f info).issuerDN = (find info "6").join.or f.issuerDN) ∧
    (enrich f info).dgaDomain =
      if (find info "6").isSome then f.dgaDomain else (find info "16").join.or f.dgaDomain := by
  rw [enrich]
  cases find info "6" with
  | some issuerDN =>
    cases htls : f.isTLS with
    | true =>
      cases issuerDN with
      | none => simp [Flow.setTLSCertificateIssuerDN, htls]
      | some issuer => simp [Flow.setTLSCertificateIssuerDN, htls]
    | false => simp [htls]
  | none =>
    cases find info "16" with
    | some dgaDomain =>
      cases dgaDomain with
      | none => simp [Flow.setDGADomain]
      | some domain => simp [Flow.setDGADomain]
    | none => simp

/-- The flow that the checks meet: its risks, issuer and domain. -/
theorem processFlow_spec (maxRisk : ℕ) (f : Flow) (record : Record) :
    (∀ r ≠ 0, ((processFlow maxRisk f record).hasRisk maxRisk r = true ↔ Present maxRisk record r)) ∧
    (processFlow maxRisk f record).getTLSCertificateIssuerDN = issuer f record ∧
    (Present maxRisk record suspiciousDgaDomain →
      (processFlow maxRisk f record).getDGADomain maxRisk = domainTaken f record) := by
  -- what `updateSuspiciousDGADomain` finds
  obtain ⟨g, hprocess, hbitmap, htls, hinfo, hissuer, hdomain⟩ : ∃ g : Flow,
      processFlow maxRisk f record = g.updateSuspiciousDGADomain maxRisk ∧
      g.riskBitmap = (f.setRisk record.risk).riskBitmap ∧ g.isTLS = f.isTLS ∧ g.flowInfo = f.flowInfo ∧
      (f.isTLS = true → g.issuerDN = (record.text "6").or f.issuerDN) ∧
      g.dgaDomain = if record.hasIssuer then f.dgaDomain else (record.text "16").or f.dgaDomain := by
    cases hrecord : record.riskInfo with
    | none =>
      refine ⟨f.setRisk record.risk, ?_, rfl, rfl, rfl, ?_, ?_⟩
      · rw [processFlow, hrecord]
      · intro _
        rw [Record.text, hrecord]
        rfl
      · rw [Record.text, Record.hasIssuer, hrecord]
        rfl
    | some info =>
      rcases enrich_spec (f.setRisk record.risk) info with ⟨hbitmap, htls, hinfo, hissuer, hdomain⟩
      refine ⟨enrich (f.setRisk record.risk) info, ?_, hbitmap, htls, hinfo, ?_, ?_⟩
      · rw [processFlow, hrecord]
      · intro h
        rw [hissuer h, Record.text, hrecord]
        rfl
      · rw [hdomain, Record.text, Record.hasIssuer, hrecord]
        rfl
  have hrisk : ∀ h : Flow, h.riskBitmap = g.riskBitmap → ∀ r ≠ 0,
      (h.hasRisk maxRisk r = true ↔ Present maxRisk record r) := by
    intro h hh r hr
    have hset := setRisk_hasRisk maxRisk f record.risk hr
    rw [Flow.hasRisk] at hset
    rw [Flow.hasRisk, hh, hbitmap, hset, Present]
    simp [hr]
  have hkeep : (g.updateSuspiciousDGADomain maxRisk).riskBitmap = g.riskBitmap ∧
      (g.updateSuspiciousDGADomain maxRisk).isTLS = g.isTLS ∧
      (g.updateSuspiciousDGADomain maxRisk).issuerDN = g.issuerDN := by
    rw [Flow.updateSuspiciousDGADomain]
    split
    · split
      · exact ⟨rfl, rfl, rfl⟩
      · exact ⟨rfl, rfl, rfl⟩
    · exact ⟨rfl, rfl, rfl⟩
  rw [hprocess]
  refine ⟨hrisk _ hkeep.1, ?_, ?_⟩
  · rw [Flow.getTLSCertificateIssuerDN, hkeep.2.1, hkeep.2.2, htls, issuer]
    by_cases h : f.isTLS = true
    · rw [if_pos h, if_pos h, hissuer h]
    · rw [if_neg h, if_neg h]
  · intro hpresent
    have hg : g.hasRisk maxRisk suspiciousDgaDomain = true := (hrisk g rfl _ (by decide)).mpr hpresent
    have hafter : (g.updateSuspiciousDGADomain maxRisk).hasRisk maxRisk suspiciousDgaDomain = true :=
      (hrisk _ hkeep.1 _ (by decide)).mpr hpresent
    have hgetD : (g.updateSuspiciousDGADomain maxRisk).dgaDomain.getD "" = g.dgaDomain.getD f.flowInfo := by
      rw [Flow.updateSuspiciousDGADomain, hg, Bool.true_and, hinfo]
      cases hd : g.dgaDomain with
      | some d => simp [hd]
      | none =>
        by_cases hempty : f.flowInfo = ""
        · simp [hempty, hd]
        · simp [hempty]
    rw [Flow.getDGADomain, if_pos hafter, hgetD, hdomain, domainTaken, domain]
    cases record.hasIssuer with
    | true => rfl
    | false =>
      cases record.text "16" with
      | none => rfl
      | some d => rfl

theorem ignoreRisk_iff (hpresent : Present maxRisk record r) :
    ignoreRisk maxRisk exceptions (processFlow maxRisk f record) r = true ↔ Taken exceptions f record r := by
  rcases processFlow_spec maxRisk f record with ⟨-, hissuer, hdomain⟩
  rw [ignoreRisk, Taken, ExceptedBy]
  by_cases htls : r = tlsSelfsignedCertificate
  · subst htls
    rw [if_pos rfl, hissuer]
    simp [tlsSelfsignedCertificate, suspiciousDgaDomain]
  · rw [if_neg htls]
    by_cases hdga : r = suspiciousDgaDomain
    · subst hdga
      rw [if_pos rfl, hdomain hpresent]
      simp [htls]
    · simp [htls, hdga]

/-! ## The checks -/

/-- Once the risks are cleared, no check triggers an alert. -/
theorem foldl_cleared (f : Flow) (alerts : List ℕ) {checks : List ℕ} (hchecks : 0 ∉ checks) :
    checks.foldl (checkRisk maxRisk exceptions true) (f.clearRisks, alerts) = (f.clearRisks, alerts) := by
  induction checks with
  | nil => rfl
  | cons r checks ih =>
    rw [List.mem_cons, not_or] at hchecks
    rw [List.foldl_cons, checkRisk, clearRisks_hasRisk f (Ne.symm hchecks.1), if_neg Bool.false_ne_true]
    exact ih hchecks.2

/-- The checks trigger the risks of the flow up to the first one that is ignored. -/
theorem foldl_checkRisk (f : Flow) (alerts : List ℕ) {checks : List ℕ} (hchecks : 0 ∉ checks) :
    (checks.foldl (checkRisk maxRisk exceptions true) (f, alerts)).2 = alerts ++
      (checks.takeWhile fun r => !(f.hasRisk maxRisk r && ignoreRisk maxRisk exceptions f r)).filter
        (f.hasRisk maxRisk ·) := by
  induction checks generalizing alerts with
  | nil => simp
  | cons r checks ih =>
    rw [List.mem_cons, not_or] at hchecks
    rw [List.foldl_cons, checkRisk]
    by_cases hrisk : f.hasRisk maxRisk r = true
    · by_cases hignore : ignoreRisk maxRisk exceptions f r = true
      · simp only [hrisk, hignore, Bool.and_self, if_true]
        rw [foldl_cleared f alerts hchecks.2]
        simp [hrisk, hignore]
      · simp only [hrisk, hignore, Bool.and_false, if_true]
        rw [if_neg Bool.false_ne_true, ih _ hchecks.2]
        simp [hrisk, hignore]
    · rw [if_neg hrisk, ih _ hchecks.2]
      simp [hrisk]

theorem mem_execChecks {checks : List ℕ} (hchecks : 0 ∉ checks) :
    r ∈ execChecks maxRisk exceptions true f checks ↔ f.hasRisk maxRisk r = true ∧
      r ∈ checks.takeWhile fun r => !(f.hasRisk maxRisk r && ignoreRisk maxRisk exceptions f r) := by
  rw [execChecks, foldl_checkRisk f [] hchecks, List.nil_append, List.mem_filter, and_comm]

/-- The checks of the list trigger the risks of the record that are not excepted. -/
def Right (maxRisk : ℕ) (exceptions : Param → Option String → Bool) (f : Flow) (record : Record) (checks : List ℕ) : Prop :=
  ∀ r, r ∈ execChecks maxRisk exceptions true (processFlow maxRisk f record) checks ↔
    r ∈ checks ∧ Present maxRisk record r ∧ ¬ Excepted exceptions f record r

/-- A risk that is ignored, and whose check comes first, leaves none. -/
theorem execChecks_ignored {checks : List ℕ} (hchecks : 0 ∉ r :: checks) (hpresent : Present maxRisk record r)
    (htaken : Taken exceptions f record r) :
    execChecks maxRisk exceptions true (processFlow maxRisk f record) (r :: checks) = [] := by
  rw [List.eq_nil_iff_forall_not_mem]
  intro x hx
  have hrisk := ((processFlow_spec maxRisk f record).1 r hpresent.2.1).mpr hpresent
  have hignore := (ignoreRisk_iff (f := f) hpresent).mpr htaken
  have hmem := ((mem_execChecks hchecks).mp hx).2
  simp [hrisk, hignore] at hmem

/-- One that is not ignored triggers an alert then. -/
theorem execChecks_first {checks : List ℕ} (hchecks : 0 ∉ r :: checks) (hpresent : Present maxRisk record r)
    (htaken : ¬ Taken exceptions f record r) :
    r ∈ execChecks maxRisk exceptions true (processFlow maxRisk f record) (r :: checks) := by
  have hrisk := ((processFlow_spec maxRisk f record).1 r hpresent.2.1).mpr hpresent
  have hignore : ignoreRisk maxRisk exceptions (processFlow maxRisk f record) r = false := by
    rw [← Bool.not_eq_true, ignoreRisk_iff hpresent]
    exact htaken
  rw [mem_execChecks hchecks]
  exact ⟨hrisk, by simp [hignore]⟩

/-- None of the risks with a check is ignored. -/
theorem right_of_none {checks : List ℕ} (hchecks : 0 ∉ checks)
    (h : ∀ r ∈ checks, Present maxRisk record r → ¬ Excepted exceptions f record r ∧ ¬ Taken exceptions f record r) :
    Right maxRisk exceptions f record checks := by
  intro r
  have hall : checks.takeWhile (fun r => !((processFlow maxRisk f record).hasRisk maxRisk r &&
      ignoreRisk maxRisk exceptions (processFlow maxRisk f record) r)) = checks := by
    refine List.takeWhile_eq_self_iff.mpr fun x hx => ?_
    rw [Bool.not_eq_true', Bool.and_eq_false_imp]
    intro hrisk
    have hpresent := ((processFlow_spec maxRisk f record).1 x (fun h0 => hchecks (h0 ▸ hx))).mp hrisk
    rw [← Bool.not_eq_true, ignoreRisk_iff hpresent]
    exact (h x hx hpresent).2
  rw [mem_execChecks hchecks, hall]
  constructor
  · intro hx
    have hpresent := ((processFlow_spec maxRisk f record).1 r (fun h0 => hchecks (h0 ▸ hx.2))).mp hx.1
    exact ⟨hx.2, hpresent, (h r hx.2 hpresent).1⟩
  · intro hx
    exact ⟨((processFlow_spec maxRisk f record).1 r hx.2.1.2.1).mpr hx.2.1, hx.1⟩

/-- All of them are. -/
theorem right_of_all {checks : List ℕ} (hchecks : 0 ∉ checks)
    (h : ∀ r ∈ checks, Present maxRisk record r → Excepted exceptions f record r ∧ Taken exceptions f record r) :
    Right maxRisk exceptions f record checks := by
  intro r
  refine iff_of_false ?_ fun hx => hx.2.2 (h r hx.1 hx.2.1).1
  intro hx
  rcases (mem_execChecks hchecks).mp hx with ⟨hrisk, hmem⟩
  have hr : r ∈ checks := (List.takeWhile_sublist _).subset hmem
  have hpresent := ((processFlow_spec maxRisk f record).1 r (fun h0 => hchecks (h0 ▸ hr))).mp hrisk
  have hignore := (ignoreRisk_iff (f := f) hpresent).mpr (h r hr hpresent).2
  have hnot := List.mem_takeWhile_imp hmem
  rw [hrisk, hignore] at hnot
  cases hnot

/-- No check is one of no risk. -/
theorem exceptions_law (maxRisk : ℕ) (exceptions : Param → Option String → Bool) (f : Flow) (record : Record)
    (checks : List ℕ) (hchecks : 0 ∉ checks) :
    (∀ order, order.Perm checks → Right maxRisk exceptions f record order) ↔ Ok maxRisk exceptions f record checks := by
  have hzero : ∀ {order : List ℕ}, order.Perm checks → 0 ∉ order := fun hperm h => hchecks (hperm.subset h)
  constructor
  · intro hright
    by_cases hany : ∃ e ∈ checks, Present maxRisk record e ∧ Taken exceptions f record e
    · rcases hany with ⟨e, he, hpresent, htaken⟩
      have hfirst : ∀ r ∈ checks, (r :: checks.erase r).Perm checks := fun r hr => (List.perm_cons_erase hr).symm
      have hexcepted : ∀ r ∈ checks, Present maxRisk record r → Excepted exceptions f record r := by
        intro r hr hr'
        refine Classical.byContradiction fun hn => ?_
        have hmem := (hright _ (hfirst e he) r).mpr ⟨(hfirst e he).symm.subset hr, hr', hn⟩
        rw [execChecks_ignored (hzero (hfirst e he)) hpresent htaken] at hmem
        cases hmem
      refine Or.inr fun r hr hr' => ⟨hexcepted r hr hr', ?_⟩
      refine Classical.byContradiction fun hn => ?_
      have hmem := (hright _ (hfirst r hr) r).mp (execChecks_first (hzero (hfirst r hr)) hr' hn)
      exact hmem.2.2 (hexcepted r hr hr')
    · refine Or.inl fun r hr hr' => ?_
      have hnot : ¬ Taken exceptions f record r := fun htaken => hany ⟨r, hr, hr', htaken⟩
      have hfirst := (List.perm_cons_erase hr).symm
      exact ⟨((hright _ hfirst r).mp (execChecks_first (hzero hfirst) hr' hnot)).2.2, hnot⟩
  · intro hok order hperm
    rcases hok with hnone | hall
    · exact right_of_none (hzero hperm) fun r hr => hnone r (hperm.subset hr)
    · exact right_of_all (hzero hperm) fun r hr => hall r (hperm.subset hr)

/-- A self-signed certificate and a risk that nothing excepts, number 5. -/
def twoRisks : Record := ⟨0b1100000#64, some [("6", some "CN=ours")]⟩

def tlsFlow : Flow := ⟨0#64, true, none, none, "example.org"⟩

def oursExcepted : Param → Option String → Bool
  | .issuerDN, issuer => issuer = some "CN=ours"
  | .hostname, _ => false

theorem exceptions_law_two : (∀ order, order.Perm [6, 5] → Right 64 oursExcepted tlsFlow twoRisks order) ↔
    Ok 64 oursExcepted tlsFlow twoRisks [6, 5] :=
  exceptions_law 64 oursExcepted tlsFlow twoRisks [6, 5] (by decide)

/-- The exception for the certificate takes the other alert with it. -/
theorem risk_suppressed : ¬ ∀ (maxRisk : ℕ) (exceptions : Param → Option String → Bool) (f : Flow) (record : Record)
    (checks : List ℕ), 0 ∉ checks → Right maxRisk exceptions f record checks := by
  intro h
  have hright := (h 64 oursExcepted tlsFlow twoRisks [6, 5] (by decide) 5).mpr
    ⟨by decide, ⟨by decide, by decide, by decide⟩, by simp [Excepted, ExceptedBy, tlsSelfsignedCertificate, suspiciousDgaDomain]⟩
  revert hright
  decide

end

end Ntopng.Flows.RiskExceptions
