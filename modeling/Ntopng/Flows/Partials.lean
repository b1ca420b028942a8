/-
  Ntopng.Flows.Partials — what a flow reports since the last report
  (`PartializableFlowTrafficStats::operator-` and `get_partial`,
  src/PartializableFlowTrafficStats.cpp; `Flow::get_partial_traffic_stats`, src/Flow.cpp).

  The object has the counters of `Ntopng.Flows.TrafficStats`, the detected protocol, and a
  union of the HTTP and the DNS counters: twelve bytes, of which HTTP names the first ten.
  nDPI is a parameter: its unknown protocol, `ndpi_get_lower_proto` and the identifiers of
  HTTP and DNS.

  `Sys` is a flow's counters, one baseline and the partial values returned so far. An event
  increments counters, sets the protocol or asks for a partial value. Ghost field: what the
  increments of each counter add up to, without a bound (`made`).

  Proved: reported and still to be reported values make up all increments of every counter exactly
  when no increment takes a counter past its width and, at each report, no counter that `operator-`
  leaves out under the flow's protocol has a baseline (`partials_conserved_iff`). An HTTP flow with
  a HEAD request reports it again and again (`head_reported_twice`).
-/

import Ntopng.Flows.TrafficStats
import Ntopng.Lib.Deltas

namespace Ntopng.Flows.Partials

open Ntopng.Lib.Run Ntopng.Lib.Deltas

/-! ## The protocol counters -/

/-- The fields of `FlowHTTPStats`, one byte each. -/
inductive HttpCounter where
  | numGet
  | numPost
  | numHead
  | numPut
  | numOther
  | num1xx
  | num2xx
  | num3xx
  | num4xx
  | num5xx
  deriving DecidableEq, Repr

/-- The fields of `FlowDNSStats`, one byte each. -/
inductive DnsCounter where
  | numA
  | numNs
  | numCname
  | numSoa
  | numPtr
  | numMx
  | numTxt
  | numAaaa
  | numAny
  | numOther
  | numRepliesOk
  | numRepliesError
  deriving DecidableEq, Repr

def HttpCounter.offset : HttpCounter → Fin 12
  | numGet => 0
  | numPost => 1
  | numHead => 2
  | numPut => 3
  | numOther => 4
  | num1xx => 5
  | num2xx => 6
  | num3xx => 7
  | num4xx => 8
  | num5xx => 9

def DnsCounter.offset : DnsCounter → Fin 12
  | numA => 0
  | numNs => 1
  | numCname => 2
  | numSoa => 3
  | numPtr => 4
  | numMx => 5
  | numTxt => 6
  | numAaaa => 7
  | numAny => 8
  | numOther => 9
  | numRepliesOk => 10
  | numRepliesError => 11

/-! ## Every counter -/

inductive Counter where
  | packets (cli2srv : Bool)
  | bytes (cli2srv : Bool)
  | goodputBytes (cli2srv : Bool)
  | pktRetr (cli2srv : Bool)
  | pktOOO (cli2srv : Bool)
  | pktLost (cli2srv : Bool)
  | pktKeepAlive (cli2srv : Bool)
  | score (cli : Bool) (category : ScoreCategory)
  | http (c : HttpCounter)
  | dns (c : DnsCounter)
  deriving DecidableEq, Repr

/-- Its byte in the union, for a protocol counter. -/
def Counter.byte : Counter → Option (Fin 12)
  | http c => some c.offset
  | dns c => some c.offset
  | _ => none

/-- Its width. -/
def Counter.bits : Counter → Nat
  | bytes _ | goodputBytes _ => 64
  | packets _ | pktRetr _ | pktOOO _ | pktLost _ | pktKeepAlive _ => 32
  | score .. => 16
  | http _ | dns _ => 8

/-! ## The object -/

/-- The bytes of the union. -/
abbrev Protos := Fin 12 → UInt8

namespace Protos

variable (p : Protos)

def inc (i : Fin 12) : Protos := Function.update p i (p i + 1)

/-- `NON_NEGATIVE_DIFF` of the given bytes, one after the other. -/
def diff (fts : Protos) (fields : List (Fin 12)) : Protos :=
  fields.foldl (fun cur i => Function.update cur i (nonNegativeDiff (cur i) (fts i))) p

end Protos

/-- nDPI, as far as the counters depend on it. -/
structure Ndpi (P : Type) where
  unknownProtocol : P
  getLowerProto : P → UInt16
  protocolHttp : UInt16
  protocolDns : UInt16

/-- The fields that `operator-` subtracts in its HTTP and in its DNS case. -/
def httpFields : List HttpCounter :=
  [.numGet, .numPost, .numPut, .numOther, .num1xx, .num2xx, .num3xx, .num4xx, .num5xx]

def dnsFields : List DnsCounter :=
  [.numA, .numNs, .numCname, .numSoa, .numPtr, .numMx, .numTxt, .numAaaa, .numAny, .numOther, .numRepliesOk,
    .numRepliesError]

def Ndpi.subtracted {P : Type} (ndpi : Ndpi P) (proto : P) : List (Fin 12) :=
  if ndpi.getLowerProto proto = ndpi.protocolHttp then httpFields.map HttpCounter.offset
  else if ndpi.getLowerProto proto = ndpi.protocolDns then dnsFields.map DnsCounter.offset
  else []

structure Stats (P : Type) extends PartializableFlowTrafficStats where
  ndpiDetectedProtocol : P
  protos : Protos

namespace Stats

variable {P : Type} (ndpi : Ndpi P) (s : Stats P)

/-- The constructor. -/
def new : Stats P := { PartializableFlowTrafficStats.zero with ndpiDetectedProtocol := ndpi.unknownProtocol, protos := fun _ => 0 }

def setDetectedProtocol (p : P) : Stats P := { s with ndpiDetectedProtocol := p }

def incHTTP (c : HttpCounter) : Stats P := { s with protos := s.protos.inc c.offset }

def incHTTPReqPOST : Stats P := s.incHTTP .numPost
def incHTTPReqPUT : Stats P := s.incHTTP .numPut
def incHTTPReqGET : Stats P := s.incHTTP .numGet
def incHTTPReqHEAD : Stats P := s.incHTTP .numHead
def incHTTPReqOhter : Stats P := s.incHTTP .numOther
def incHTTPResp1xx : Stats P := s.incHTTP .num1xx
def incHTTPResp2xx : Stats P := s.incHTTP .num2xx
def incHTTPResp3xx : Stats P := s.incHTTP .num3xx
def incHTTPResp4xx : Stats P := s.incHTTP .num4xx
def incHTTPResp5xx : Stats P := s.incHTTP .num5xx

/-- The counter of a query type; 0 is a message that could not be decoded. -/
def dnsQueryCounter (queryType : UInt16) : Option DnsCounter :=
  match queryType.toNat with
  | 0 => none
  | 1 => some .numA
  | 2 => some .numNs
  | 5 => some .numCname
  | 6 => some .numSoa
  | 12 => some .numPtr
  | 15 => some .numMx
  | 16 => some .numTxt
  | 28 => some .numAaaa
  | 255 => some .numAny
  | _ => some .numOther

def incDNSQuery (queryType : UInt16) : Stats P :=
  match dnsQueryCounter queryType with
  | some c => { s with protos := s.protos.inc c.offset }
  | none => s

def dnsRespCounter (respCode : UInt16) : DnsCounter := if respCode = 0 then .numRepliesOk else .numRepliesError

def incDNSResp (respCode : UInt16) : Stats P := { s with protos := s.protos.inc (dnsRespCounter respCode).offset }

/-- `operator-`. -/
def sub (cur fts : Stats P) : Stats P :=
  { toPartializableFlowTrafficStats := cur.toPartializableFlowTrafficStats.sub fts.toPartializableFlowTrafficStats
    ndpiDetectedProtocol := cur.ndpiDetectedProtocol
    protos := cur.protos.diff fts.protos (ndpi.subtracted cur.ndpiDetectedProtocol) }

/-- The partial value, and the new baseline. -/
def getPartial (dst : Stats P) : Stats P × Stats P := (s.sub ndpi dst, s)

end Stats

/-! ## A flow and its reports -/

inductive Ev (P : Type) where
  | incStats (cli2srvDirection : Bool) (numPkts : UInt32) (pktsBytes payloadsBytes : UInt64)
  | incTcpStats (cli2srvDirection : Bool) (retr ooo lost keepalive : UInt32)
  | incScore (score : Nat) (category : ScoreCategory) (asClient : Bool)
  | setFlowAlerted
  | incHTTP (c : HttpCounter)
  | incDNSQuery (queryType : UInt16)
  | incDNSResp (respCode : UInt16)
  | setDetectedProtocol (p : P)
  | getPartial (allocOk : Bool)

/-- What the event counts. -/
def Ev.adds {P : Type} : Ev P → Counter → Nat
  | incStats dir numPkts pktsBytes payloadsBytes, c =>
    match c with
    | .packets d => if d = dir then numPkts.toNat else 0
    | .bytes d => if d = dir then pktsBytes.toNat else 0
    | .goodputBytes d => if d = dir then payloadsBytes.toNat else 0
    | _ => 0
  | incTcpStats dir retr ooo lost keepalive, c =>
    match c with
    | .pktRetr d => if d = dir then retr.toNat else 0
    | .pktOOO d => if d = dir then ooo.toNat else 0
    | .pktLost d => if d = dir then lost.toNat else 0
    | .pktKeepAlive d => if d = dir then keepalive.toNat else 0
    | _ => 0
  | incScore score category asClient, c => if c = .score asClient category then min score scoreMaxValue else 0
  | incHTTP h, c => if c.byte = some h.offset then 1 else 0
  | incDNSQuery queryType, c =>
    match Stats.dnsQueryCounter queryType with
    | some d => if c.byte = some d.offset then 1 else 0
    | none => 0
  | incDNSResp respCode, c => if c.byte = some (Stats.dnsRespCounter respCode).offset then 1 else 0
  | setFlowAlerted, _ | setDetectedProtocol _, _ | getPartial _, _ => 0

structure Sys (P : Type) where
  stats : Stats P
  base : Option (Stats P)
  /-- The partial values returned, the oldest first. -/
  reported : List (Stats P)
  made : Counter → Nat

section

variable {P : Type} (ndpi : Ndpi P)

def start : Sys P := ⟨.new ndpi, none, [], fun _ => 0⟩

/-- `Flow::get_partial_traffic_stats`: the baseline is allocated at the first report. -/
def Sys.getPartialTrafficStats (s : Sys P) (allocOk : Bool) : Bool × Sys P :=
  match s.base with
  | none =>
    if allocOk then
      let r := s.stats.getPartial ndpi (.new ndpi)
      (true, { s with base := some r.2, reported := s.reported ++ [r.1] })
    else (false, s)
  | some base =>
    let r := s.stats.getPartial ndpi base
    (true, { s with base := some r.2, reported := s.reported ++ [r.1] })

def Sys.setCounters (s : Sys P) (t : PartializableFlowTrafficStats) : Sys P :=
  { s with stats := { s.stats with toPartializableFlowTrafficStats := t } }

def Sys.handle (s : Sys P) : Ev P → Sys P
  | .incStats dir numPkts pktsBytes payloadsBytes => s.setCounters (s.stats.incStats dir numPkts pktsBytes payloadsBytes)
  | .incTcpStats dir retr ooo lost keepalive => s.setCounters (s.stats.incTcpStats dir retr ooo lost keepalive)
  | .incScore score category asClient => s.setCounters (s.stats.incScore score category asClient)
  | .setFlowAlerted => s.setCounters s.stats.setFlowAlerted
  | .incHTTP c =>
    { s with stats :=
        match c with
        | .numPost => s.stats.incHTTPReqPOST
        | .numPut => s.stats.incHTTPReqPUT
        | .numGet => s.stats.incHTTPReqGET
        | .numHead => s.stats.incHTTPReqHEAD
        | .numOther => s.stats.incHTTPReqOhter
        | .num1xx => s.stats.incHTTPResp1xx
        | .num2xx => s.stats.incHTTPResp2xx
        | .num3xx => s.stats.incHTTPResp3xx
        | .num4xx => s.stats.incHTTPResp4xx
        | .num5xx => s.stats.incHTTPResp5xx }
  | .incDNSQuery queryType => { s with stats := s.stats.incDNSQuery queryType }
  | .incDNSResp respCode => { s with stats := s.stats.incDNSResp respCode }
  | .setDetectedProtocol p => { s with stats := s.stats.setDetectedProtocol p }
  | .getPartial allocOk => (s.getPartialTrafficStats ndpi allocOk).2

def step (s : Sys P) (e : Ev P) : Sys P := { s.handle ndpi e with made := fun c => s.made c + e.adds c }

end

/-! ## The value of every counter -/

namespace Stats

variable {P : Type} (ndpi : Ndpi P) (s : Stats P)

def tcpStats (cli2srv : Bool) : FlowTCPPacketStats := if cli2srv then s.cli2srvTcpStats else s.srv2cliTcpStats

def value : Counter → Nat
  | .packets d => (if d then s.cli2srvPackets else s.srv2cliPackets).toNat
  | .bytes d => (if d then s.cli2srvBytes else s.srv2cliBytes).toNat
  | .goodputBytes d => (if d then s.cli2srvGoodputBytes else s.srv2cliGoodputBytes).toNat
  | .pktRetr d => (s.tcpStats d).pktRetr.toNat
  | .pktOOO d => (s.tcpStats d).pktOOO.toNat
  | .pktLost d => (s.tcpStats d).pktLost.toNat
  | .pktKeepAlive d => (s.tcpStats d).pktKeepAlive.toNat
  | .score cli category => (if cli then s.cliHostScore else s.srvHostScore) category
  | .http c => (s.protos c.offset).toNat
  | .dns c => (s.protos c.offset).toNat

end Stats

section

variable {P : Type} (ndpi : Ndpi P)

/-- `operator-` subtracts the counter. -/
def Subtracts (proto : P) (c : Counter) : Prop := ∀ i ∈ c.byte, i ∈ ndpi.subtracted proto

instance (proto : P) (c : Counter) : Decidable (Subtracts ndpi proto c) :=
  inferInstanceAs (Decidable (∀ i ∈ c.byte, i ∈ ndpi.subtracted proto))

namespace Sys

variable (s : Sys P)

def counter (c : Counter) : Int := s.stats.value c
def baseline (c : Counter) : Int := (s.base.map fun b => b.value c).getD 0
def total (c : Counter) : Int := (s.reported.map fun r => (r.value c : Int)).sum
def counted (c : Counter) : Int := s.made c

end Sys

/-- What was returned so far and what differs from the baseline make up all increments of each counter. -/
def Conserved : Sys P → Prop := Balanced Sys.counter Sys.baseline Sys.total Sys.counted

/-- An increment fits into its counter, and a counter that `operator-` leaves out is still 0 in the baseline. -/
def Fits (s : Sys P) : Ev P → Prop
  | .getPartial _ => ∀ b, s.base = some b → ∀ c, ¬ Subtracts ndpi s.stats.ndpiDetectedProtocol c → b.value c = 0
  | e => ∀ c, s.stats.value c + e.adds c < 2 ^ c.bits

end

/-! ## What `operator-` does to each counter -/

theorem toNat_diff8 (a b : UInt8) : (nonNegativeDiff a b).toNat = a.toNat - b.toNat := by
  unfold nonNegativeDiff
  split
  · rename_i h
    rw [UInt8.lt_iff_toNat_lt] at h
    rw [Nat.sub_eq_zero_of_le (Nat.le_of_lt h)]
    rfl
  · rename_i h
    rw [UInt8.lt_iff_toNat_lt] at h
    exact UInt8.toNat_sub_of_le _ _ (UInt8.le_iff_toNat_le.mpr (Nat.le_of_not_lt h))

theorem toNat_diff32 (a b : UInt32) : (nonNegativeDiff a b).toNat = a.toNat - b.toNat := by
  unfold nonNegativeDiff
  split
  · rename_i h
    rw [UInt32.lt_iff_toNat_lt] at h
    rw [Nat.sub_eq_zero_of_le (Nat.le_of_lt h)]
    rfl
  · rename_i h
    rw [UInt32.lt_iff_toNat_lt] at h
    exact UInt32.toNat_sub_of_le _ _ (UInt32.le_iff_toNat_le.mpr (Nat.le_of_not_lt h))

theorem toNat_diff64 (a b : UInt64) : (nonNegativeDiff a b).toNat = a.toNat - b.toNat := by
  unfold nonNegativeDiff
  split
  · rename_i h
    rw [UInt64.lt_iff_toNat_lt] at h
    rw [Nat.sub_eq_zero_of_le (Nat.le_of_lt h)]
    rfl
  · rename_i h
    rw [UInt64.lt_iff_toNat_lt] at h
    exact UInt64.toNat_sub_of_le _ _ (UInt64.le_iff_toNat_le.mpr (Nat.le_of_not_lt h))

theorem diff_nat (a b : Nat) : nonNegativeDiff a b = a - b := by
  unfold nonNegativeDiff
  split <;> omega

/-- Each listed byte is subtracted once. -/
theorem diff_apply (fts : Protos) {fields : List (Fin 12)} (h : fields.Nodup) (p : Protos) (i : Fin 12) :
    p.diff fts fields i = if i ∈ fields then nonNegativeDiff (p i) (fts i) else p i := by
  induction fields generalizing p with
  | nil => rfl
  | cons j fields ih =>
    obtain ⟨hj, hrest⟩ := List.nodup_cons.mp h
    have hfold : p.diff fts (j :: fields) i =
        Protos.diff (Function.update p j (nonNegativeDiff (p j) (fts j))) fts fields i := rfl
    rw [hfold, ih hrest]
    by_cases hij : i = j
    · subst hij
      rw [if_neg hj, Function.update_self, if_pos (List.mem_cons_self ..)]
    · rw [Function.update_of_ne hij]
      simp only [List.mem_cons, hij, false_or]

section

variable {P : Type} {ndpi : Ndpi P}

theorem subtracted_nodup (proto : P) : (ndpi.subtracted proto).Nodup := by
  unfold Ndpi.subtracted
  split
  · decide
  · split
    · decide
    · exact List.nodup_nil

theorem byte_sub (cur fts : Stats P) (i : Fin 12) :
    ((cur.sub ndpi fts).protos i).toNat =
      if i ∈ ndpi.subtracted cur.ndpiDetectedProtocol then (cur.protos i).toNat - (fts.protos i).toNat
      else (cur.protos i).toNat := by
  show (cur.protos.diff fts.protos (ndpi.subtracted cur.ndpiDetectedProtocol) i).toNat = _
  rw [diff_apply fts.protos (subtracted_nodup _)]
  split
  · exact toNat_diff8 ..
  · rfl

theorem value_sub (cur fts : Stats P) (c : Counter) :
    (cur.sub ndpi fts).value c =
      if Subtracts ndpi cur.ndpiDetectedProtocol c then cur.value c - fts.value c else cur.value c := by
  have hplain : c.byte = none → Subtracts ndpi cur.ndpiDetectedProtocol c := fun hb i hi => by
    rw [hb] at hi
    cases hi
  cases c with
  | packets d =>
    rw [if_pos (hplain rfl)]
    cases d <;> exact toNat_diff32 ..
  | bytes d =>
    rw [if_pos (hplain rfl)]
    cases d <;> exact toNat_diff64 ..
  | goodputBytes d =>
    rw [if_pos (hplain rfl)]
    cases d <;> exact toNat_diff64 ..
  | pktRetr d =>
    rw [if_pos (hplain rfl)]
    cases d <;> exact toNat_diff32 ..
  | pktOOO d =>
    rw [if_pos (hplain rfl)]
    cases d <;> exact toNat_diff32 ..
  | pktLost d =>
    rw [if_pos (hplain rfl)]
    cases d <;> exact toNat_diff32 ..
  | pktKeepAlive d =>
    rw [if_pos (hplain rfl)]
    cases d <;> exact toNat_diff32 ..
  | score cli category =>
    rw [if_pos (hplain rfl)]
    cases cli <;> exact diff_nat ..
  | http c => simpa [Stats.value, Subtracts, Counter.byte] using byte_sub cur fts c.offset
  | dns c => simpa [Stats.value, Subtracts, Counter.byte] using byte_sub cur fts c.offset

theorem value_new (c : Counter) : (Stats.new ndpi).value c = 0 := by
  cases c with
  | packets d | bytes d | goodputBytes d | pktRetr d | pktOOO d | pktLost d | pktKeepAlive d | score d => cases d <;> rfl
  | http c | dns c => rfl

/-- The difference to a baseline that is not above is exact, for a counter that is not subtracted if it has none. -/
theorem sub_exact_iff (cur fts : Stats P) {c : Counter} (hle : fts.value c ≤ cur.value c) :
    ((cur.sub ndpi fts).value c : Int) = cur.value c - fts.value c ↔
      (¬ Subtracts ndpi cur.ndpiDetectedProtocol c → fts.value c = 0) := by
  rw [value_sub]
  split
  · rename_i h
    exact iff_of_true (by omega) fun hn => absurd h hn
  · rename_i h
    constructor
    · intro heq _
      omega
    · intro h0
      have := h0 h
      omega

/-! ## What an event does to each counter -/

/-- Every counter is in its range. -/
def InRange (s : Stats P) : Prop := ∀ c, s.value c < 2 ^ c.bits

theorem inRange_new : InRange (Stats.new ndpi) := by
  intro c
  rw [value_new]
  exact Nat.two_pow_pos _

/-- A counter that the event leaves alone. -/
theorem counts_none {s t : Stats P} (hs : InRange s) {c : Counter} (h : t.value c = s.value c) {n : Nat} (hn : n = 0) :
    t.value c = (s.value c + n) % 2 ^ c.bits := by
  rw [h, hn, Nat.add_zero, Nat.mod_eq_of_lt (hs c)]

theorem value_incStats {s : Stats P} (hs : InRange s) (dir : Bool) (n : UInt32) (b p : UInt64) (c : Counter) :
    ({ s with toPartializableFlowTrafficStats := s.incStats dir n b p } : Stats P).value c =
      (s.value c + (Ev.incStats dir n b p : Ev P).adds c) % 2 ^ c.bits := by
  cases c with
  | packets d =>
    cases d <;> cases dir
    · exact UInt32.toNat_add ..
    · exact counts_none hs (by rfl) (by rfl)
    · exact counts_none hs (by rfl) (by rfl)
    · exact UInt32.toNat_add ..
  | bytes d =>
    cases d <;> cases dir
    · exact UInt64.toNat_add ..
    · exact counts_none hs (by rfl) (by rfl)
    · exact counts_none hs (by rfl) (by rfl)
    · exact UInt64.toNat_add ..
  | goodputBytes d =>
    cases d <;> cases dir
    · exact UInt64.toNat_add ..
    · exact counts_none hs (by rfl) (by rfl)
    · exact counts_none hs (by rfl) (by rfl)
    · exact UInt64.toNat_add ..
  | pktRetr d | pktOOO d | pktLost d | pktKeepAlive d => cases d <;> cases dir <;> exact counts_none hs (by rfl) (by rfl)
  | score cli category => cases cli <;> cases dir <;> exact counts_none hs (by rfl) (by rfl)
  | http c | dns c => cases dir <;> exact counts_none hs (by rfl) (by rfl)

theorem value_incTcpStats {s : Stats P} (hs : InRange s) (dir : Bool) (r o l k : UInt32) (c : Counter) :
    ({ s with toPartializableFlowTrafficStats := s.incTcpStats dir r o l k } : Stats P).value c =
      (s.value c + (Ev.incTcpStats dir r o l k : Ev P).adds c) % 2 ^ c.bits := by
  cases c with
  | pktRetr d | pktOOO d | pktLost d | pktKeepAlive d =>
    cases d <;> cases dir
    · exact UInt32.toNat_add ..
    · exact counts_none hs (by rfl) (by rfl)
    · exact counts_none hs (by rfl) (by rfl)
    · exact UInt32.toNat_add ..
  | packets d | bytes d | goodputBytes d => cases d <;> cases dir <;> exact counts_none hs (by rfl) (by rfl)
  | score cli category => cases cli <;> cases dir <;> exact counts_none hs (by rfl) (by rfl)
  | http c | dns c => cases dir <;> exact counts_none hs (by rfl) (by rfl)

theorem value_incScore {s : Stats P} (hs : InRange s) (score : Nat) (category : ScoreCategory) (asClient : Bool)
    (c : Counter) :
    ({ s with toPartializableFlowTrafficStats := s.incScore score category asClient } : Stats P).value c =
      (s.value c + (Ev.incScore score category asClient : Ev P).adds c) % 2 ^ c.bits := by
  cases c with
  | score cli cat =>
    by_cases hsame : (Counter.score cli cat) = .score asClient category
    · obtain ⟨rfl, rfl⟩ := Counter.score.inj hsame
      have hadds : (Ev.incScore score cat cli : Ev P).adds (.score cli cat) = min score scoreMaxValue := if_pos rfl
      rw [hadds]
      cases cli <;> exact Function.update_self ..
    · refine counts_none hs ?_ (if_neg hsame)
      cases cli <;> cases asClient
      · exact Function.update_of_ne (fun h => hsame (by rw [h])) ..
      · rfl
      · rfl
      · exact Function.update_of_ne (fun h => hsame (by rw [h])) ..
  | packets d | bytes d | goodputBytes d | pktRetr d | pktOOO d | pktLost d | pktKeepAlive d =>
    cases d <;> cases asClient <;> exact counts_none hs (by rfl) (by rfl)
  | http c | dns c => cases asClient <;> exact counts_none hs (by rfl) (by rfl)

/-- One more in a byte of the union. -/
theorem value_inc {s : Stats P} (hs : InRange s) (i : Fin 12) (c : Counter) :
    ({ s with protos := s.protos.inc i } : Stats P).value c =
      (s.value c + if c.byte = some i then 1 else 0) % 2 ^ c.bits := by
  have hbyte : ∀ j : Fin 12, (s.protos.inc i j).toNat = ((s.protos j).toNat + if some j = some i then 1 else 0) % 2 ^ 8 := by
    intro j
    by_cases hj : j = i
    · subst hj
      rw [Protos.inc, Function.update_self, if_pos rfl]
      exact UInt8.toNat_add ..
    · rw [Protos.inc, Function.update_of_ne hj, if_neg (fun h => hj (Option.some.inj h)), Nat.add_zero,
        Nat.mod_eq_of_lt (s.protos j).toNat_lt]
  cases c with
  | http c => exact hbyte c.offset
  | dns c => exact hbyte c.offset
  | packets d | bytes d | goodputBytes d | pktRetr d | pktOOO d | pktLost d | pktKeepAlive d | score d =>
    exact counts_none hs (by rfl) (by rfl)

/-- What is no report counts what it adds, as far as the counter goes. -/
theorem value_handle {s : Sys P} (hs : InRange s.stats) {e : Ev P} (he : ∀ ok, e ≠ .getPartial ok) (c : Counter) :
    (s.handle ndpi e).stats.value c = (s.stats.value c + e.adds c) % 2 ^ c.bits := by
  cases e with
  | incStats dir n b p => exact value_incStats hs dir n b p c
  | incTcpStats dir r o l k => exact value_incTcpStats hs dir r o l k c
  | incScore score category asClient => exact value_incScore hs score category asClient c
  | incHTTP h => cases h <;> exact value_inc hs _ c
  | incDNSQuery queryType =>
    simp only [Sys.handle, Stats.incDNSQuery, Ev.adds]
    cases Stats.dnsQueryCounter queryType with
    | none => exact counts_none hs (by rfl) (by rfl)
    | some d => exact value_inc hs _ c
  | incDNSResp respCode => exact value_inc hs _ c
  | setFlowAlerted | setDetectedProtocol p =>
    cases c with
    | packets d | bytes d | goodputBytes d | pktRetr d | pktOOO d | pktLost d | pktKeepAlive d | score d =>
      cases d <;> exact counts_none hs (by rfl) (by rfl)
    | http c | dns c => exact counts_none hs (by rfl) (by rfl)
  | getPartial ok => exact absurd rfl (he ok)

theorem getPartialTrafficStats_stats (s : Sys P) (allocOk : Bool) :
    (s.getPartialTrafficStats ndpi allocOk).2.stats = s.stats := by
  unfold Sys.getPartialTrafficStats
  split
  · split
    · rfl
    · rfl
  · rfl

theorem inRange_step {s : Sys P} (e : Ev P) (hs : InRange s.stats) : InRange (step ndpi s e).stats := by
  by_cases he : ∃ ok, e = .getPartial ok
  · obtain ⟨ok, rfl⟩ := he
    show InRange (s.getPartialTrafficStats ndpi ok).2.stats
    rwa [getPartialTrafficStats_stats]
  · intro c
    show (s.handle ndpi e).stats.value c < 2 ^ c.bits
    rw [value_handle hs (fun ok h => he ⟨ok, h⟩)]
    exact Nat.mod_lt _ (Nat.two_pow_pos _)

/-! ## The reports of a run -/

/-- What the step returns, for each counter. -/
def asks (ndpi : Ndpi P) (s : Sys P) : Ev P → Option (Counter → Int)
  | .getPartial allocOk =>
    match s.base with
    | none => if allocOk then some fun c => (s.stats.sub ndpi (.new ndpi)).value c else none
    | some base => some fun c => (s.stats.sub ndpi base).value c
  | _ => none

theorem base_quiet {s : Sys P} {e : Ev P} (ha : asks ndpi s e = none) :
    (step ndpi s e).base = s.base ∧ (step ndpi s e).reported = s.reported := by
  cases e with
  | getPartial allocOk =>
    cases hb : s.base with
    | some base =>
      rw [asks, hb] at ha
      cases ha
    | none =>
      cases allocOk with
      | true =>
        rw [asks, hb] at ha
        cases ha
      | false =>
        simp only [step, Sys.handle, Sys.getPartialTrafficStats, hb, Bool.false_eq_true, if_false]
        exact ⟨trivial, trivial⟩
  | incHTTP c => cases c <;> exact ⟨rfl, rfl⟩
  | _ => exact ⟨rfl, rfl⟩

/-- A step that reports takes the counters for its baseline, and counts nothing. -/
theorem step_report {s : Sys P} {e : Ev P} {p : Counter → Int} (ha : asks ndpi s e = some p) :
    ∃ r : Stats P, (∀ c, p c = r.value c) ∧ (∀ c, e.adds c = 0) ∧ (step ndpi s e).stats = s.stats ∧
      (step ndpi s e).base = some s.stats ∧ (step ndpi s e).reported = s.reported ++ [r] := by
  cases e with
  | getPartial allocOk =>
    cases hb : s.base with
    | some base =>
      rw [asks, hb] at ha
      obtain rfl := Option.some.inj ha
      refine ⟨s.stats.sub ndpi base, fun c => rfl, fun c => rfl, ?_⟩
      simp only [step, Sys.handle, Sys.getPartialTrafficStats, hb]
      exact ⟨trivial, rfl, rfl⟩
    | none =>
      cases allocOk with
      | true =>
        rw [asks, hb] at ha
        obtain rfl := Option.some.inj ha
        refine ⟨s.stats.sub ndpi (.new ndpi), fun c => rfl, fun c => rfl, ?_⟩
        simp only [step, Sys.handle, Sys.getPartialTrafficStats, hb, if_true]
        exact ⟨trivial, rfl, rfl⟩
      | false =>
        rw [asks, hb] at ha
        cases ha
  | _ => cases ha

theorem reporter (ndpi : Ndpi P) :
    Reporter (step ndpi) Sys.counter Sys.baseline Sys.total Sys.counted (asks ndpi) := by
  refine ⟨fun s e ha => ?_, fun s e p ha => ?_, fun s e c => ?_⟩
  · obtain ⟨hb, hr⟩ := base_quiet ha
    refine ⟨?_, ?_⟩
    · funext c
      rw [Sys.baseline, hb, Sys.baseline]
    · funext c
      rw [Sys.total, hr, Sys.total]
  · obtain ⟨r, hp, hadds, hstats, hb, hr⟩ := step_report ha
    refine ⟨?_, ?_, ?_, ?_⟩
    · funext c
      rw [Sys.counter, hstats, Sys.counter]
    · funext c
      rw [Sys.baseline, hb, Option.map_some, Option.getD_some, Sys.counter]
    · funext c
      rw [Sys.total, hr, List.map_append, List.map_singleton, List.sum_append, List.sum_singleton, hp, Sys.total]
    · funext c
      show ((s.made c + e.adds c : Nat) : Int) = s.made c
      rw [hadds, Nat.add_zero]
  · show (s.made c : Int) ≤ (s.made c + e.adds c : Nat)
    omega

/-- A report: what is left out of it must be 0 in the baseline. -/
theorem exact_getPartial_iff {s : Sys P} (hb : Sys.baseline s ≤ Sys.counter s) (allocOk : Bool) :
    Exact (step ndpi) Sys.counter Sys.baseline Sys.counted (asks ndpi) s (.getPartial allocOk) ↔
      Fits ndpi s (.getPartial allocOk) := by
  rw [Exact, Fits]
  cases hbase : s.base with
  | some base =>
    have hle : ∀ c, base.value c ≤ s.stats.value c := by
      intro c
      have hc : s.baseline c ≤ s.counter c := hb c
      rw [Sys.baseline, hbase, Option.map_some, Option.getD_some, Sys.counter] at hc
      omega
    have hdiff : ∀ c, s.counter c - s.baseline c = s.stats.value c - base.value c := by
      intro c
      rw [Sys.counter, Sys.baseline, hbase, Option.map_some, Option.getD_some]
    have hasks : asks ndpi s (.getPartial allocOk) = some fun c => ((s.stats.sub ndpi base).value c : Int) := by
      rw [asks, hbase]
    rw [hasks]
    simp only [hdiff, sub_exact_iff _ _ (hle _)]
    constructor
    · intro h b hbb c
      rw [← Option.some.inj hbb]
      exact h c
    · intro h c
      exact h base rfl c
  | none =>
    refine iff_of_true ?_ fun b hb => by cases hb
    cases allocOk with
    | true =>
      have hasks : asks ndpi s (.getPartial true) = some fun c => ((s.stats.sub ndpi (.new ndpi)).value c : Int) := by
        rw [asks, hbase]
        rfl
      rw [hasks]
      intro c
      have hnew : (Stats.new ndpi).value c ≤ s.stats.value c := by
        rw [value_new]
        exact Nat.zero_le _
      refine ((sub_exact_iff s.stats (.new ndpi) hnew).mpr fun _ => value_new c).trans ?_
      rw [Sys.counter, Sys.baseline, hbase, value_new]
      rfl
    | false =>
      have hasks : asks ndpi s (.getPartial false) = none := by
        rw [asks, hbase]
        rfl
      rw [hasks]
      intro c
      have hstats : (step ndpi s (.getPartial false)).stats = s.stats := getPartialTrafficStats_stats s false
      have hmade : (step ndpi s (.getPartial false)).counted c = s.counted c := rfl
      rw [Sys.counter, hstats, Sys.counter, hmade]
      omega

theorem exact_iff {s : Sys P} (hs : InRange s.stats) (hb : Sys.baseline s ≤ Sys.counter s) (e : Ev P) :
    Exact (step ndpi) Sys.counter Sys.baseline Sys.counted (asks ndpi) s e ↔ Fits ndpi s e := by
  by_cases he : ∃ ok, e = .getPartial ok
  · obtain ⟨ok, rfl⟩ := he
    exact exact_getPartial_iff hb ok
  · have hother : ∀ ok, e ≠ .getPartial ok := fun ok h => he ⟨ok, h⟩
    have hasks : asks ndpi s e = none := by
      cases e with
      | getPartial ok => exact absurd rfl (hother ok)
      | _ => rfl
    have hfits : Fits ndpi s e ↔ ∀ c, s.stats.value c + e.adds c < 2 ^ c.bits := by
      cases e with
      | getPartial ok => exact absurd rfl (hother ok)
      | _ => exact Iff.rfl
    rw [Exact, hasks, hfits]
    refine forall_congr' fun c => ?_
    have hvalue : (step ndpi s e).stats.value c = (s.stats.value c + e.adds c) % 2 ^ c.bits := value_handle hs hother c
    have hmade : (step ndpi s e).counted c - s.counted c = e.adds c := by
      show ((s.made c + e.adds c : Nat) : Int) - s.made c = e.adds c
      omega
    rw [hmade, Sys.counter, Sys.counter, hvalue]
    -- the counter moves by the whole increment only if it does not come around
    constructor
    · intro h
      have hlt := Nat.mod_lt (s.stats.value c + e.adds c) (Nat.two_pow_pos c.bits)
      omega
    · intro h
      rw [Nat.mod_eq_of_lt h]
      omega

theorem conserved_start (ndpi : Ndpi P) : Conserved (start ndpi) := by
  intro c
  simp [Sys.total, Sys.counter, Sys.baseline, Sys.counted, start, value_new]

end

/-- In every history, what the partial values returned so far and the difference to the baseline make up all
    increments of each counter all along exactly when every increment fits into its counter and every report
    subtracts all that has a baseline. -/
theorem partials_conserved_iff {P : Type} (ndpi : Ndpi P) (es : List (Ev P)) :
    Always (step ndpi) Conserved (start ndpi) es ↔ Along (step ndpi) (Fits ndpi) (start ndpi) es := by
  refine always_balanced_iff (reporter ndpi) (fun s e => inRange_step e) (fun s e hs hb => exact_iff hs hb e)
    (conserved_start ndpi) (fun c => ?_) inRange_new
  simp [Sys.baseline, Sys.counter, start]

/-- Two protocols: HTTP, and none. -/
def httpOnly : Ndpi Bool :=
  { unknownProtocol := false, getLowerProto := fun p => if p then 7 else 0, protocolHttp := 7, protocolDns := 5 }

/-- An HTTP flow with one HEAD request and two reports. -/
theorem head_reported_twice :
    ¬ ∀ {P : Type} (ndpi : Ndpi P) (es : List (Ev P)), Always (step ndpi) Conserved (start ndpi) es := by
  intro h
  have hlast := always_last _ (h httpOnly [.setDetectedProtocol true, .incHTTP .numHead, .getPartial true, .getPartial true])
  have hhead := hlast (.http .numHead)
  revert hhead
  decide

end Ntopng.Flows.Partials
