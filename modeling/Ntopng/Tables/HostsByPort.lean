/-
  Ntopng.Tables.HostsByPort — the servers of a port and protocol, page by page
  (src/NetworkInterface.cpp, getHostsByPort; include/HostDetails.h).

  Every flow that passes the filters adds its bytes to the row of its server. The rows are
  sorted, and those from `start` on are given. A row is found by a number made of the
  32-bit key of the server's address and of its VLAN. `std::sort` leaves any sorted order
  (`Sorts`). Flows are counted in natural numbers: a table has less than 2^32 of them.

  Proved, for all flows, filters and pages (`listing_law`): the rows are those of the
  servers of the matching flows, and the page has the rows it should, exactly if
  - no flow with two protocols passes a filter on both with another master protocol,
  - no two servers of matching flows have one number,
  - the page reaches the end of the list: it has one row too many (`page_rows`).
-/

import Ntopng.Lib.Bytes
import Ntopng.Lib.Groups

namespace Ntopng.Tables.HostsByPort

open Ntopng.Lib.Bytes Ntopng.Lib.OrdMap Ntopng.Lib.Groups

/-! ## Addresses -/

abbrev Text := List UInt8

/-- An IPv6 address as its four words; in memory they are in network order. -/
inductive IpAddress where
  | v4 (a : UInt32)
  | v6 (w0 w1 w2 w3 : UInt32)
  deriving DecidableEq, Repr

/-- `compute_key`. -/
def IpAddress.key : IpAddress → UInt32
  | .v4 a => a
  | .v6 w0 w1 w2 w3 => ntohl w0 + (ntohl w1 <<< 2) + (ntohl w2 <<< 4) + (ntohl w3 <<< 6)

/-- `%08X` -/
def hex8 (w : UInt32) : Text :=
  (List.range 8).map fun i =>
    let d := ((w >>> (28 - 4 * UInt32.ofNat i)) &&& (0xf : UInt32)).toUInt8
    if d < 10 then 48 + d else 55 + d

def IpAddress.getIpHex : IpAddress → Text
  | .v4 a => hex8 a
  | .v6 w0 w1 w2 w3 => hex8 w0 ++ hex8 w1 ++ hex8 w2 ++ hex8 w3

/-! ## Flows and rows -/

structure NdpiProtocol where
  master : UInt16
  app : UInt16
  deriving DecidableEq, Repr

def ndpiProtocolUnknown : UInt16 := 0

structure Mac where
  address : Text
  manufacturer : Text
  deriving DecidableEq, Repr

structure Host where
  ip : IpAddress
  mac : Option Mac
  name : Text
  score : UInt32
  deriving DecidableEq, Repr

structure Flow where
  /-- The server host, or the one shared with a view. -/
  srvHost : Option Host
  protocol : UInt8
  srvPort : UInt16
  detectedProtocol : NdpiProtocol
  vlanId : UInt16
  bytesCli2srv : UInt64
  bytesSrv2cli : UInt64
  deriving DecidableEq, Repr

structure HostDetails where
  ip : IpAddress
  macAddress : Text
  macManufacturer : Text
  totalTraffic : UInt64
  ipHex : Text
  vlanId : UInt16
  score : UInt8
  activeFlowsAsServer : ℕ
  name : Text
  hostKey : UInt64
  deriving DecidableEq, Repr

def HostDetails.incStats (d : HostDetails) (fTraffic : UInt64) : HostDetails :=
  { d with totalTraffic := d.totalTraffic + fTraffic, activeFlowsAsServer := d.activeFlowsAsServer + 1 }

/-- What Lua asks for. -/
structure Query where
  l4Proto : UInt8
  port : UInt16
  l7AppProto : UInt16
  l7Proto : UInt16
  sortColumn : Option String
  sortOrder : Option String
  start : UInt32
  maxNumRows : UInt32
  deriving DecidableEq, Repr

/-! ## The filters -/

/-- Check L7 filters. -/
def checkL7 (q : Query) (p : NdpiProtocol) : Bool :=
  let checkBoth := q.l7AppProto ≠ ndpiProtocolUnknown
  if p.master = p.app ∨ p.app = ndpiProtocolUnknown then
    if checkBoth then false else q.l7Proto = p.master
  else if p.master = ndpiProtocolUnknown then
    if checkBoth then false else q.l7Proto = p.app
  else if checkBoth then
    !(q.l7Proto = p.master && q.l7AppProto ≠ p.app)
  else false

def checkFlow (q : Query) (f : Flow) : Bool :=
  if q.l4Proto = 0 ∨ q.port = 0 then false
  else if q.l4Proto ≠ f.protocol ∨ q.port ≠ f.srvPort then false
  else checkL7 q f.detectedProtocol

/-- A flow with its server. -/
structure Served where
  host : Host
  flow : Flow
  deriving DecidableEq, Repr

def Served.traffic (x : Served) : UInt64 := x.flow.bytesCli2srv + x.flow.bytesSrv2cli

def Served.hostKey (x : Served) : UInt64 := (x.host.ip.key.toUInt64 <<< 16) + x.flow.vlanId.toUInt64

/-- Build new host_info instance. -/
def Served.details (x : Served) : HostDetails where
  ip := x.host.ip
  macAddress := x.host.mac.elim [] Mac.address
  macManufacturer := x.host.mac.elim [] Mac.manufacturer
  totalTraffic := x.traffic
  ipHex := x.host.ip.getIpHex
  vlanId := x.flow.vlanId
  score := x.host.score.toUInt8
  activeFlowsAsServer := 1
  name := x.host.name
  hostKey := x.hostKey

/-- The flow, where it passes. -/
def served (check : Flow → Bool) (f : Flow) : Option Served :=
  f.srvHost.bind fun h => if check f then some ⟨h, f⟩ else none

/-- Update stats. -/
def addTo (d : HostDetails) (x : Served) : HostDetails := d.incStats x.traffic

/-- `host_details` after `get_hosts_by_port` has seen the flows. -/
def getHostsByPort (q : Query) (flows : List Flow) : List (UInt64 × HostDetails) :=
  group Served.hostKey Served.details addTo (flows.filterMap (served (checkFlow q)))

/-! ## Sorting and paging -/

def sorter : Option String → HostDetails → HostDetails → Bool
  | some "flows", a, b => a.activeFlowsAsServer < b.activeFlowsAsServer
  | some "score", a, b => a.score < b.score
  | some "mac", a, b => a.macAddress < b.macAddress
  | some "mac_manufacturer", a, b => a.macManufacturer < b.macManufacturer
  | some "tot_traffic", a, b => a.totalTraffic < b.totalTraffic
  | some "vlan_id", a, b => a.vlanId < b.vlanId
  | some "name", a, b => a.name < b.name
  | _, a, b => a.ipHex < b.ipHex

/-- What `std::sort` may leave of `rows`. -/
def Sorts (cmp : HostDetails → HostDetails → Bool) (rows sorted : List HostDetails) : Prop :=
  rows.Perm sorted ∧ sorted.Pairwise fun a b => cmp b a = false

instance (cmp : HostDetails → HostDetails → Bool) (rows sorted : List HostDetails) :
    Decidable (Sorts cmp rows sorted) :=
  inferInstanceAs (Decidable (_ ∧ _))

/-- What the sorted list becomes, in the order that was asked for. -/
def ordered (q : Query) (sorted : List HostDetails) : List HostDetails :=
  if q.sortOrder.all (· = "asc") then sorted else sorted.reverse

/-- An entry of the answer. The second kind stands where no row is left. -/
inductive Entry where
  | host (d : HostDetails) (numEntries : ℕ)
  | empty (numEntries : ℕ)
  deriving DecidableEq, Repr

/-- The loop of `sort_hosts_details`; `num` is the number the row gets. -/
def pushRows (getPort : Bool) (maxNumRows vectorSize : ℕ) : ℕ → List HostDetails → List Entry
  | _, [] => []
  | num, hd :: rest =>
    .host hd vectorSize ::
      if !getPort && decide (num > maxNumRows) then [] else pushRows getPort maxNumRows vectorSize (num + 1) rest

def sortHostsDetails (q : Query) (getPort : Bool) (sorted : List HostDetails) : List Entry :=
  let vector := ordered q sorted
  if q.start.toNat < vector.length then
    pushRows getPort q.maxNumRows.toNat vector.length 1 (vector.drop q.start.toNat)
  else [.empty vector.length]

/-! ## What is expected -/

/-- The form of the listing of ports: the one protocol, or both. -/
def canonical (p : NdpiProtocol) : UInt16 × UInt16 :=
  if p.master = p.app ∨ p.app = ndpiProtocolUnknown then (p.master, ndpiProtocolUnknown)
  else if p.master = ndpiProtocolUnknown then (p.app, ndpiProtocolUnknown)
  else (p.master, p.app)

/-- Nothing matches a protocol or a port that was not given. -/
def matchesAll (q : Query) (f : Flow) : Bool :=
  q.l4Proto ≠ 0 && q.port ≠ 0 && f.protocol = q.l4Proto && f.srvPort = q.port &&
    canonical f.detectedProtocol = (q.l7Proto, q.l7AppProto)

def Served.server (x : Served) : IpAddress × UInt16 := (x.host.ip, x.flow.vlanId)

/-- The servers of the flows that match. -/
def servers (q : Query) (flows : List Flow) : List (IpAddress × UInt16) :=
  ((flows.filterMap (served (matchesAll q))).map Served.server).dedup

/-- A server, its bytes and the number of its flows. -/
def expected (q : Query) (flows : List Flow) : List ((IpAddress × UInt16) × UInt64 × ℕ) :=
  let xs := flows.filterMap (served (matchesAll q))
  (servers q flows).map fun s =>
    (s, ((xs.filter fun x => x.server = s).map Served.traffic).sum, (xs.filter fun x => x.server = s).length)

def HostDetails.shown (d : HostDetails) : (IpAddress × UInt16) × UInt64 × ℕ :=
  ((d.ip, d.vlanId), d.totalTraffic, d.activeFlowsAsServer)

/-- The rows of an answer. -/
def hosts (es : List Entry) : List HostDetails :=
  es.filterMap fun
    | .host d _ => some d
    | .empty _ => none

structure Right (q : Query) (flows : List Flow) (sorted : List HostDetails) : Prop where
  rows : (sorted.map HostDetails.shown).Perm (expected q flows)
  page : hosts (sortHostsDetails q false sorted) =
    ((ordered q sorted).drop q.start.toNat).take q.maxNumRows.toNat

/-- A flow with two protocols, where the filter names two and another master protocol. -/
def Mistaken (q : Query) (f : Flow) : Prop :=
  f.srvHost.isSome ∧ q.l4Proto ≠ 0 ∧ q.port ≠ 0 ∧ f.protocol = q.l4Proto ∧ f.srvPort = q.port ∧
    q.l7AppProto ≠ ndpiProtocolUnknown ∧ f.detectedProtocol.master ≠ f.detectedProtocol.app ∧
    f.detectedProtocol.master ≠ ndpiProtocolUnknown ∧ f.detectedProtocol.app ≠ ndpiProtocolUnknown ∧
    f.detectedProtocol.master ≠ q.l7Proto

/-- The number of a server. -/
def serverKey (s : IpAddress × UInt16) : UInt64 := (s.1.key.toUInt64 <<< 16) + s.2.toUInt64

structure Ok (q : Query) (flows : List Flow) : Prop where
  filters : ∀ f ∈ flows, ¬ Mistaken q f
  keys : ∀ s ∈ servers q flows, ∀ t ∈ servers q flows, serverKey s = serverKey t → s = t
  last : (servers q flows).length ≤ q.start.toNat + q.maxNumRows.toNat

/-! ## Filters -/

theorem checkL7_eq (q : Query) (p : NdpiProtocol) : checkL7 q p =
    (decide (canonical p = (q.l7Proto, q.l7AppProto)) ||
      decide (q.l7AppProto ≠ ndpiProtocolUnknown ∧ p.master ≠ p.app ∧ p.master ≠ ndpiProtocolUnknown ∧
        p.app ≠ ndpiProtocolUnknown ∧ p.master ≠ q.l7Proto)) := by
  rw [checkL7, canonical]
  by_cases h1 : p.master = p.app ∨ p.app = ndpiProtocolUnknown
  · grind
  · by_cases h2 : p.master = ndpiProtocolUnknown
    · grind
    · grind

/-- A flow that passes matches, or is taken by mistake. -/
theorem checkFlow_iff {q : Query} {f : Flow} (h : f.srvHost.isSome) :
    checkFlow q f = true ↔ matchesAll q f = true ∨ Mistaken q f := by
  simp only [checkFlow, matchesAll, Mistaken, checkL7_eq, h]
  by_cases h1 : q.l4Proto = 0
  · simp [h1]
  · by_cases h2 : q.port = 0
    · simp [h2]
    · by_cases h3 : q.l4Proto = f.protocol
      · by_cases h4 : q.port = f.srvPort
        · simp [← h3, ← h4, h1, h2]
        · simp [h3, h4, Ne.symm h4]
      · simp [h1, h2, h3, Ne.symm h3]

theorem not_mistaken {q : Query} {f : Flow} (h : matchesAll q f = true) : ¬ Mistaken q f := by
  rw [matchesAll, Bool.and_eq_true, decide_eq_true_iff] at h
  rintro ⟨-, -, -, -, -, happ, hdiff, hmaster, hother, hq⟩
  have hpair := h.2
  rw [canonical, if_neg (not_or.mpr ⟨hdiff, hother⟩), if_neg hmaster, Prod.mk.injEq] at hpair
  exact hq hpair.1

instance (q : Query) (f : Flow) : Decidable (Mistaken q f) := inferInstanceAs (Decidable (_ ∧ _))

/-- The flows that pass are those that match, and those taken by mistake. -/
theorem served_length (q : Query) (flows : List Flow) : (flows.filterMap (served (checkFlow q))).length =
    (flows.filterMap (served (matchesAll q))).length + flows.countP fun f => Mistaken q f := by
  induction flows with
  | nil => rfl
  | cons f flows ih =>
    rw [List.countP_cons, List.filterMap_cons, List.filterMap_cons, served, served]
    rcases hhost : f.srvHost with _ | h
    · have hmist : ¬ Mistaken q f := fun hm => by
        have hsome := hm.1
        rw [hhost] at hsome
        cases hsome
      simp [hmist, ih]
    · have hsome : f.srvHost.isSome := by rw [hhost]; rfl
      have hiff := checkFlow_iff (q := q) hsome
      by_cases hmatch : matchesAll q f = true
      · have hmist := not_mistaken hmatch
        simp [hiff.mpr (Or.inl hmatch), hmatch, hmist, ih]
        omega
      · by_cases hmist : Mistaken q f
        · simp [hiff.mpr (Or.inr hmist), hmatch, hmist, ih]
          omega
        · have hno : checkFlow q f = false := by
            rw [← Bool.not_eq_true, hiff]
            exact not_or.mpr ⟨hmatch, hmist⟩
          simp [hno, hmatch, hmist, ih]

theorem served_congr {q : Query} {flows : List Flow} (h : ∀ f ∈ flows, ¬ Mistaken q f) :
    flows.filterMap (served (checkFlow q)) = flows.filterMap (served (matchesAll q)) := by
  refine List.filterMap_congr fun f hf => ?_
  rw [served, served]
  rcases hhost : f.srvHost with _ | host
  · rfl
  · have hiff := checkFlow_iff (q := q) (f := f) (by rw [hhost]; rfl)
    have heq : checkFlow q f = matchesAll q f := by
      rw [Bool.eq_iff_iff, hiff, or_iff_left (h f hf)]
    rw [heq]

/-! ## Rows -/

theorem hostKey_eq (x : Served) : x.hostKey = serverKey x.server := rfl

/-- The rows of the entries `xs`, told apart by `key`. -/
def rowsBy {κ : Type} [DecidableEq κ] (key : Served → κ) (xs : List Served) : List (κ × HostDetails) :=
  group key Served.details addTo xs

theorem shown_row {xs : List Served} {d : HostDetails}
    (h : row Served.details addTo xs = some d) :
    (∃ x ∈ xs, (d.ip, d.vlanId) = x.server) ∧ d.totalTraffic = (xs.map Served.traffic).sum ∧
      d.activeFlowsAsServer = xs.length := by
  have hsame : ∀ d x, ((addTo d x).ip, (addTo d x).vlanId) = (d.ip, d.vlanId) := fun _ _ => rfl
  refine ⟨row_same (f := fun d : HostDetails => (d.ip, d.vlanId)) hsame h,
    row_sum (f := HostDetails.totalTraffic) (fun _ => rfl) (fun _ _ => rfl) h, ?_⟩
  have hcount := row_sum (f := HostDetails.activeFlowsAsServer) (t := fun _ => 1) (fun _ => rfl) (fun _ _ => rfl) h
  rw [hcount, List.map_const', List.sum_replicate, smul_eq_mul, mul_one]

/-- Told apart by server, the rows are as expected. -/
theorem rowsBy_server (xs : List Served) : ((rowsBy Served.server xs).map fun e => e.2.shown).Perm
    ((xs.map Served.server).dedup.map fun s =>
      (s, ((xs.filter fun x => x.server = s).map Served.traffic).sum, (xs.filter fun x => x.server = s).length)) := by
  refine rows_perm fun s d hrow => ?_
  obtain ⟨⟨x, hx, hserver⟩, htraffic, hflows⟩ := shown_row hrow
  have hs := of_decide_eq_true (List.mem_filter.mp hx).2
  rw [HostDetails.shown, hserver, hs, htraffic, hflows]

/-- However the entries are told apart, each is counted once. -/
theorem rowsBy_flows {κ : Type} [DecidableEq κ] (key : Served → κ) (xs : List Served) :
    ((rowsBy key xs).map fun e => e.2.activeFlowsAsServer).sum = xs.length := by
  have hcount : ∀ k d, row Served.details addTo (xs.filter fun x => key x = k) = some d →
      d.activeFlowsAsServer = (xs.map key).count k := fun k d hrow => by
    rw [(shown_row hrow).2.2, List.count_eq_countP, List.countP_map, List.countP_eq_length_filter]
    refine congrArg List.length (List.filter_congr fun x _ => ?_)
    rw [Function.comp_apply, Bool.eq_iff_iff, decide_eq_true_iff, beq_iff_eq]
  rw [rowsBy, (rows_perm hcount).sum_eq, List.sum_map_count_dedup_eq_length, List.length_map]

theorem rowsBy_length {κ : Type} [DecidableEq κ] (key : Served → κ) (xs : List Served) :
    (rowsBy key xs).length = (xs.map key).dedup.length := by
  have hperm : (keys (rowsBy key xs)).Perm (xs.map key).dedup := keys_group_perm xs
  have hlength := hperm.length_eq
  rwa [keys, List.length_map] at hlength

/-- As many keys as servers: no two servers have one key. -/
theorem keys_of_length {l : List (IpAddress × UInt16)} (h : (l.map serverKey).dedup.length = l.length) :
    ∀ s ∈ l, ∀ t ∈ l, serverKey s = serverKey t → s = t := by
  have hsame : (l.map serverKey).dedup = l.map serverKey :=
    (List.dedup_sublist _).eq_of_length (h.trans (List.length_map _).symm)
  have hkeys : (l.map serverKey).Nodup := List.dedup_eq_self.mp hsame
  exact fun s hs t ht heq => List.inj_on_of_nodup_map hkeys hs ht heq

theorem keys_dedup (xs : List Served) : (xs.map Served.hostKey).dedup.length =
    (((xs.map Served.server).dedup).map serverKey).dedup.length := by
  refine List.Perm.length_eq ((List.perm_ext_iff_of_nodup (List.nodup_dedup _) (List.nodup_dedup _)).mpr fun k => ?_)
  simp only [List.mem_dedup, List.mem_map, exists_exists_and_eq_and]
  exact Iff.rfl

/-- The rows are as expected exactly if no flow is taken by mistake and no two servers have one key. -/
theorem rows_iff (q : Query) (flows : List Flow) :
    ((getHostsByPort q flows).map fun e => e.2.shown).Perm (expected q flows) ↔
      (∀ f ∈ flows, ¬ Mistaken q f) ∧
        ∀ s ∈ servers q flows, ∀ t ∈ servers q flows, serverKey s = serverKey t → s = t := by
  constructor
  · intro h
    have hspec := rowsBy_server (flows.filterMap (served (matchesAll q)))
    have hflows := ((h.trans hspec.symm).map fun r => r.2.2).sum_eq
    rw [List.map_map, List.map_map] at hflows
    have hlength := (h.trans hspec.symm).length_eq
    rw [List.length_map, List.length_map] at hlength
    have hall : (flows.filterMap (served (checkFlow q))).length = (flows.filterMap (served (matchesAll q))).length :=
      (rowsBy_flows Served.hostKey _).symm.trans (hflows.trans (rowsBy_flows Served.server _))
    have hmist : ∀ f ∈ flows, ¬ Mistaken q f := by
      have hzero : flows.countP (fun f => decide (Mistaken q f)) = 0 := by
        have := served_length q flows
        omega
      intro f hf hm
      exact List.countP_eq_zero.mp hzero f hf (decide_eq_true hm)
    refine ⟨hmist, keys_of_length ?_⟩
    rw [getHostsByPort, served_congr hmist] at hlength
    rw [servers, ← keys_dedup, ← rowsBy_length Served.hostKey, ← rowsBy_length Served.server]
    exact hlength
  · rintro ⟨hmist, hkeys⟩
    have hcongr : (getHostsByPort q flows).map Prod.snd =
        (rowsBy Served.server (flows.filterMap (served (matchesAll q)))).map Prod.snd := by
      rw [getHostsByPort, served_congr hmist]
      refine rows_congr fun x hx y hy => ?_
      rw [hostKey_eq, hostKey_eq]
      refine ⟨fun hxy => ?_, fun hxy => by rw [hxy]⟩
      exact hkeys x.server (List.mem_dedup.mpr (List.mem_map_of_mem hx)) y.server
        (List.mem_dedup.mpr (List.mem_map_of_mem hy)) hxy
    have hview := congrArg (List.map HostDetails.shown) hcongr
    rw [List.map_map, List.map_map] at hview
    rw [← Function.comp_def HostDetails.shown Prod.snd, hview]
    exact rowsBy_server _

/-! ## Pages -/

theorem pushRows_hosts {maxNumRows vectorSize num : ℕ} (h : num ≤ maxNumRows + 1) (l : List HostDetails) :
    hosts (pushRows false maxNumRows vectorSize num l) = l.take (maxNumRows + 2 - num) := by
  induction l generalizing num with
  | nil => rw [pushRows, List.take_nil]; rfl
  | cons hd rest ih =>
    rw [pushRows, Bool.not_false, Bool.true_and]
    by_cases hlast : num > maxNumRows
    · have hone : maxNumRows + 2 - num = 1 := by omega
      rw [decide_eq_true hlast, if_pos rfl, hone]
      rfl
    · have hmore : maxNumRows + 2 - num = (maxNumRows + 2 - (num + 1)) + 1 := by omega
      rw [decide_eq_false hlast, if_neg Bool.false_ne_true, hmore, List.take_succ_cons, ← ih (by omega)]
      rfl

/-- A page has one row more than was asked for, where there is one. -/
theorem page_rows (q : Query) (sorted : List HostDetails) : hosts (sortHostsDetails q false sorted) =
    ((ordered q sorted).drop q.start.toNat).take (q.maxNumRows.toNat + 1) := by
  rw [sortHostsDetails]
  by_cases hstart : q.start.toNat < (ordered q sorted).length
  · rw [if_pos hstart, pushRows_hosts (by omega)]
    rfl
  · rw [if_neg hstart, List.drop_eq_nil_of_le (by omega), List.take_nil]
    rfl

theorem take_succ_iff {α : Type} (l : List α) (n : ℕ) : l.take (n + 1) = l.take n ↔ l.length ≤ n := by
  constructor
  · intro h
    have hlength := congrArg List.length h
    rw [List.length_take, List.length_take] at hlength
    omega
  · intro h
    rw [List.take_of_length_le h, List.take_of_length_le (by omega)]

theorem ordered_length (q : Query) (sorted : List HostDetails) : (ordered q sorted).length = sorted.length := by
  rw [ordered]
  split
  · rfl
  · exact List.length_reverse

/-- The listing is as it should be exactly under `Ok`. -/
theorem listing_law (q : Query) (flows : List Flow) (sorted : List HostDetails)
    (h : Sorts (sorter q.sortColumn) ((getHostsByPort q flows).map Prod.snd) sorted) :
    Right q flows sorted ↔ Ok q flows := by
  have hrows : (sorted.map HostDetails.shown).Perm (expected q flows) ↔
      (∀ f ∈ flows, ¬ Mistaken q f) ∧
        ∀ s ∈ servers q flows, ∀ t ∈ servers q flows, serverKey s = serverKey t → s = t := by
    rw [← rows_iff]
    have hperm := h.1.map HostDetails.shown
    rw [List.map_map] at hperm
    exact ⟨fun hs => hperm.trans hs, fun hs => hperm.symm.trans hs⟩
  have hpage : (sorted.map HostDetails.shown).Perm (expected q flows) → (hosts (sortHostsDetails q false sorted) =
      ((ordered q sorted).drop q.start.toNat).take q.maxNumRows.toNat ↔
      (servers q flows).length ≤ q.start.toNat + q.maxNumRows.toNat) := by
    intro hs
    have hlength := hs.length_eq
    rw [List.length_map, expected, List.length_map] at hlength
    rw [page_rows, take_succ_iff, List.length_drop, ordered_length, hlength]
    omega
  constructor
  · intro hright
    obtain ⟨hmist, hkeys⟩ := hrows.mp hright.rows
    exact ⟨hmist, hkeys, (hpage hright.rows).mp hright.page⟩
  · intro hok
    have hs := hrows.mpr ⟨hok.filters, hok.keys⟩
    exact ⟨hs, (hpage hs).mpr hok.last⟩

/-- Two servers, on a page of two rows. -/
def twoFlows : List Flow :=
  [⟨some ⟨.v4 0x0A000001, none, [], 0⟩, 6, 443, ⟨91, 0⟩, 0, 100, 200⟩,
   ⟨some ⟨.v4 0x0A000002, none, [], 0⟩, 6, 443, ⟨91, 0⟩, 0, 10, 20⟩]

theorem listing_law_two : Right ⟨6, 443, 0, 91, none, none, 0, 2⟩ twoFlows
    ((getHostsByPort ⟨6, 443, 0, 91, none, none, 0, 2⟩ twoFlows).map Prod.snd) :=
  (listing_law _ _ _ (by decide)).mpr ⟨by decide, by decide, by decide⟩

/-- On a page of one row, there are both. -/
theorem page_too_long : ¬ ∀ (q : Query) (flows : List Flow) (sorted : List HostDetails),
    Sorts (sorter q.sortColumn) ((getHostsByPort q flows).map Prod.snd) sorted → Right q flows sorted := by
  intro hall
  have h := (hall ⟨6, 443, 0, 91, none, none, 0, 1⟩ twoFlows
    ((getHostsByPort ⟨6, 443, 0, 91, none, none, 0, 1⟩ twoFlows).map Prod.snd) (by decide)).page
  revert h
  decide

end Ntopng.Tables.HostsByPort
