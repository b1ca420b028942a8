/-
  Ntopng.Collect.Companion — the copy of a collected record that a companion interface
  gets (`NetworkInterface::enqueueFlowToCompanion`, src/NetworkInterface.cpp; the copy
  constructors and destructors of `ParsedFlowCore`, `ParsedeBPF` and `ParsedFlow`,
  src/ParsedFlowCore.cpp, src/ParsedeBPF.cpp, src/ParsedFlow.cpp;
  `Utils::cloneJSONSimple`, src/Utils.cpp).

  A record owns texts, a JSON object, a TLV serializer and the strings of the process and
  container information, all on the heap. The copy constructors assign member by member
  over memory that holds anything (`garbage`); `ParsedeBPF(pf)` is the implicit copy
  constructor, since the declared one takes a second argument.

  Proved:
  (1) What the copy is meant to carry arrives (`copy_law`): every member is the
      original's, texts and process and container information by content, except the TLV
      fields, which are left behind, and the JSON members that are not simple values; the
      theorem does not speak of the nine members that the constructors leave out.
  (2) Destroying both frees every owned object once, when there are no eBPF strings.
  (3) Both conditions are needed: `same_iff` and `destroy_iff` say exactly when the copy
      is the original and when the two destructors are in order.
  Allocations succeed.
-/

import Ntopng.Collect.ProcessFlow
import Ntopng.Lib.Heap

namespace Ntopng.Collect.Companion

open Ntopng.Flows.Swap (Timeval)
open Ntopng.Lib.Heap

/-- Raw bytes of a struct, or of a C string without its NUL. -/
abbrev Bytes := List UInt8

/-! ## JSON objects -/

/-- The values that json-c tells apart; arrays and objects are their text. -/
inductive JsonValue where
  | null
  | boolean (b : Bool)
  | double (bits : UInt64)
  | int (n : Int)
  | object (text : Bytes)
  | array (text : Bytes)
  | string (s : Bytes)
  deriving DecidableEq, Repr

/-- The members of an object, in the order they were added; a key is there once. -/
@[ext]
structure JsonObject where
  fields : List (Bytes × JsonValue)
  nodup : (fields.map Prod.fst).Nodup
  deriving DecidableEq

def JsonObject.empty : JsonObject := ⟨[], .nil⟩

/-- The value of a key that is there already is replaced. -/
def addField (fields : List (Bytes × JsonValue)) (key : Bytes) (v : JsonValue) : List (Bytes × JsonValue) :=
  if key ∈ fields.map Prod.fst then fields.map fun kv => if kv.1 = key then (kv.1, v) else kv
  else fields ++ [(key, v)]

theorem addField_nodup {fields : List (Bytes × JsonValue)} (h : (fields.map Prod.fst).Nodup) (key : Bytes)
    (v : JsonValue) : ((addField fields key v).map Prod.fst).Nodup := by
  unfold addField
  split
  · have hkeys : (fields.map fun kv => if kv.1 = key then (kv.1, v) else kv).map Prod.fst = fields.map Prod.fst := by
      rw [List.map_map]
      refine List.map_congr_left fun kv _ => ?_
      by_cases hk : kv.1 = key <;> simp [hk]
    rw [hkeys]
    exact h
  · rename_i hk
    rw [List.map_append, List.nodup_append]
    refine ⟨h, by simp, ?_⟩
    intro a ha b hb hab
    rw [List.map_singleton, List.mem_singleton] at hb
    rw [hab, hb] at ha
    exact hk ha

def JsonObject.objectAdd (o : JsonObject) (key : Bytes) (v : JsonValue) : JsonObject :=
  ⟨addField o.fields key v, addField_nodup o.nodup key v⟩

def int64Max : Int := 2 ^ 63 - 1

/-- What is added for a value, if something is: integers through int64, strings up to their first NUL. -/
def JsonValue.copied : JsonValue → Option JsonValue
  | .int n => some (.int (min n int64Max))
  | .double bits => some (.double bits)
  | .string s => some (.string (s.takeWhile (· ≠ 0)))
  | .boolean b => some (.boolean b)
  | _ => none

def cloneStep (obj : JsonObject) (kv : Bytes × JsonValue) : JsonObject :=
  match kv.2.copied with
  | some v => obj.objectAdd kv.1 v
  | none => obj

def cloneJSONSimple (src : JsonObject) : JsonObject := src.fields.foldl cloneStep .empty

/-- The members that survive a clone. -/
def copiedField (kv : Bytes × JsonValue) : Option (Bytes × JsonValue) := kv.2.copied.map fun v => (kv.1, v)

theorem foldl_clone (fields : List (Bytes × JsonValue)) (obj : JsonObject)
    (hnodup : (obj.fields.map Prod.fst ++ fields.map Prod.fst).Nodup) :
    (fields.foldl cloneStep obj).fields = obj.fields ++ fields.filterMap copiedField := by
  induction fields generalizing obj with
  | nil => simp
  | cons kv fields ih =>
    have hkv : kv.1 ∉ obj.fields.map Prod.fst := fun hk =>
      (List.nodup_append.mp hnodup).2.2 _ hk kv.1 (by simp) rfl
    cases hv : kv.2.copied with
    | none =>
      have hstep : cloneStep obj kv = obj := by simp only [cloneStep, hv]
      have hrest : (obj.fields.map Prod.fst ++ fields.map Prod.fst).Nodup :=
        hnodup.sublist (List.Sublist.append_left (List.sublist_cons_self ..) _)
      rw [List.foldl_cons, hstep, ih obj hrest]
      simp [copiedField, hv]
    | some v =>
      have hstep : (cloneStep obj kv).fields = obj.fields ++ [(kv.1, v)] := by
        simp only [cloneStep, hv, JsonObject.objectAdd, addField, if_neg hkv]
      have hrest : ((cloneStep obj kv).fields.map Prod.fst ++ fields.map Prod.fst).Nodup := by
        rw [hstep]
        simpa using hnodup
      rw [List.foldl_cons, ih _ hrest, hstep]
      simp [copiedField, hv]

theorem cloneJSONSimple_fields (src : JsonObject) :
    (cloneJSONSimple src).fields = src.fields.filterMap copiedField := by
  have h := foldl_clone src.fields .empty (by simpa [JsonObject.empty] using src.nodup)
  simpa [cloneJSONSimple, JsonObject.empty] using h

/-- The values a clone keeps as they are. -/
def JsonValue.simple (v : JsonValue) : Prop := v.copied = some v

theorem clone_eq_iff (src : JsonObject) : cloneJSONSimple src = src ↔ ∀ kv ∈ src.fields, kv.2.simple := by
  rw [JsonObject.ext_iff, cloneJSONSimple_fields]
  generalize src.fields = fields
  induction fields with
  | nil => simp
  | cons kv fields ih =>
    rw [List.forall_mem_cons, ← ih, List.filterMap_cons]
    cases hv : kv.2.copied with
    | none =>
      have hnot : ¬ kv.2.simple := by simp [JsonValue.simple, hv]
      have hnone : copiedField kv = none := by simp [copiedField, hv]
      have hlen := List.length_filterMap_le copiedField fields
      simp only [hnone, hnot, false_and, iff_false]
      intro h
      have hcons := congrArg List.length h
      rw [List.length_cons] at hcons
      omega
    | some v =>
      have hsimple : kv.2.simple ↔ (kv.1, v) = kv := by
        rw [JsonValue.simple, hv, Option.some.injEq, Prod.ext_iff]
        simp
      have hsome : copiedField kv = some (kv.1, v) := by simp [copiedField, hv]
      simp only [hsome, List.cons.injEq, hsimple]

/-! ## Records -/

structure IpAddress where
  addr : Bytes
  ipKey : UInt32
  deriving DecidableEq, Repr

/-- `ParsedFlowCore`. -/
structure Core where
  srcMac : Bytes
  dstMac : Bytes
  direction : UInt8
  srcTos : UInt8
  dstTos : UInt8
  srcIp : IpAddress
  dstIp : IpAddress
  firstSwitched : UInt32
  lastSwitched : UInt32
  observationPointId : UInt16
  icmpTypeCode : UInt16
  version : UInt8
  l4Proto : UInt8
  exporterDeviceIp : Bytes
  mappedExporterDeviceIp : Bytes
  exporterSiteId : UInt16
  nextHop : Bytes
  mappedNextHop : Bytes
  nextHopSiteId : UInt16
  nprobeIp : Bytes
  uniqueSourceId : UInt32
  nprobeSourceId : UInt32
  srcPort : UInt16
  dstPort : UInt16
  inIndex : UInt32
  outIndex : UInt32
  /-- `ndpi_proto`, a plain struct. -/
  l7Proto : Bytes
  vlanId : UInt16
  pktSamplingRate : UInt16
  inPkts : UInt32
  inBytes : UInt32
  outPkts : UInt32
  outBytes : UInt32
  vrfId : UInt32
  inFragments : UInt32
  outFragments : UInt32
  srcAs : UInt32
  dstAs : UInt32
  prevAdjacentAs : UInt32
  nextAdjacentAs : UInt32
  absolutePacketOctetCounters : UInt8
  tcp : TcpInfo
  deriving DecidableEq, Repr

/-- The copy constructor, member by member. -/
def Core.copy (garbage pfc : Core) : Core :=
  { garbage with
    srcIp := pfc.srcIp, dstIp := pfc.dstIp
    srcMac := pfc.srcMac
    dstMac := pfc.dstMac
    exporterDeviceIp := pfc.exporterDeviceIp
    mappedExporterDeviceIp := pfc.mappedExporterDeviceIp
    nextHop := pfc.nextHop
    mappedNextHop := pfc.mappedNextHop
    version := pfc.version
    nprobeIp := pfc.nprobeIp
    uniqueSourceId := pfc.uniqueSourceId
    nprobeSourceId := pfc.nprobeSourceId
    srcPort := pfc.srcPort, dstPort := pfc.dstPort
    inIndex := pfc.inIndex, outIndex := pfc.outIndex
    observationPointId := pfc.observationPointId
    l7Proto := pfc.l7Proto
    vlanId := pfc.vlanId
    pktSamplingRate := pfc.pktSamplingRate
    l4Proto := pfc.l4Proto
    inPkts := pfc.inPkts, inBytes := pfc.inBytes
    outPkts := pfc.outPkts, outBytes := pfc.outBytes
    vrfId := pfc.vrfId
    absolutePacketOctetCounters := pfc.absolutePacketOctetCounters
    tcp := pfc.tcp
    firstSwitched := pfc.firstSwitched, lastSwitched := pfc.lastSwitched
    direction := pfc.direction
    srcAs := pfc.srcAs, dstAs := pfc.dstAs
    prevAdjacentAs := pfc.prevAdjacentAs
    nextAdjacentAs := pfc.nextAdjacentAs }

/-- The seven members of `ParsedFlowCore` that the copy constructor leaves out. -/
def Core.left (c : Core) : UInt8 × UInt8 × UInt16 × UInt16 × UInt16 × UInt32 × UInt32 :=
  (c.srcTos, c.dstTos, c.icmpTypeCode, c.exporterSiteId, c.nextHopSiteId, c.inFragments, c.outFragments)

/-- Equal on every member but those seven. -/
def Core.Agree (q p : Core) : Prop :=
  q = { p with
    srcTos := q.srcTos, dstTos := q.dstTos, icmpTypeCode := q.icmpTypeCode, exporterSiteId := q.exporterSiteId
    nextHopSiteId := q.nextHopSiteId, inFragments := q.inFragments, outFragments := q.outFragments }

theorem Core.copy_agree (garbage pfc : Core) : (Core.copy garbage pfc).Agree pfc := rfl

theorem Core.copy_eq_iff (garbage pfc : Core) : Core.copy garbage pfc = pfc ↔ garbage.left = pfc.left := by
  constructor
  · intro h
    have hleft : (Core.copy garbage pfc).left = garbage.left := rfl
    rw [← hleft, h]
  · intro h
    simp only [Core.left, Prod.mk.injEq] at h
    obtain ⟨h1, h2, h3, h4, h5, h6, h7⟩ := h
    simp only [Core.copy, h1, h2, h3, h4, h5, h6, h7]

/-- The members of `ParsedFlow` that are neither pointers nor inherited. -/
structure Rest where
  hasParsedEbpf : Bool
  isSwapped : Bool
  httpMethod : Nat
  srcIpAddrPreNat : UInt32
  dstIpAddrPreNat : UInt32
  srcIpAddrPostNat : UInt32
  dstIpAddrPostNat : UInt32
  tcpStatsSrcToDst : UInt32
  tcpStatsDstToSrc : UInt32
  tlsUnsafeCipher : UInt8
  flowVerdict : UInt8
  osHint : Nat
  tlsCipher : UInt16
  httpRetCode : UInt16
  dnsQueryType : UInt16
  dnsRetCode : UInt16
  dnsQueryId : UInt16
  l7ErrorCode : UInt32
  srcPortPreNat : UInt16
  dstPortPreNat : UInt16
  srcPortPostNat : UInt16
  dstPortPostNat : UInt16
  customApp : UInt32 × UInt32 × UInt32
  confidence : Nat
  ndpiFlowRiskBitmap : UInt64
  flowSource : Nat
  wtpMacAddress : Bytes
  qoe : UInt8 × UInt8
  deriving DecidableEq, Repr

def Rest.copy (garbage pf : Rest) : Rest :=
  { garbage with
    httpMethod := pf.httpMethod
    wtpMacAddress := pf.wtpMacAddress
    tlsCipher := pf.tlsCipher
    tlsUnsafeCipher := pf.tlsUnsafeCipher
    ndpiFlowRiskBitmap := pf.ndpiFlowRiskBitmap
    httpRetCode := pf.httpRetCode
    dnsQueryType := pf.dnsQueryType
    dnsRetCode := pf.dnsRetCode
    dnsQueryId := pf.dnsQueryId
    osHint := pf.osHint
    srcIpAddrPreNat := pf.srcIpAddrPreNat
    dstIpAddrPreNat := pf.dstIpAddrPreNat
    srcIpAddrPostNat := pf.srcIpAddrPostNat
    dstIpAddrPostNat := pf.dstIpAddrPostNat
    srcPortPreNat := pf.srcPortPreNat
    dstPortPreNat := pf.dstPortPreNat
    srcPortPostNat := pf.srcPortPostNat
    dstPortPostNat := pf.dstPortPostNat
    customApp := pf.customApp
    hasParsedEbpf := pf.hasParsedEbpf
    isSwapped := pf.isSwapped
    flowVerdict := pf.flowVerdict
    confidence := pf.confidence
    flowSource := pf.flowSource
    l7ErrorCode := pf.l7ErrorCode
    qoe := pf.qoe }

def Rest.left (r : Rest) : UInt32 × UInt32 := (r.tcpStatsSrcToDst, r.tcpStatsDstToSrc)

def Rest.Agree (q p : Rest) : Prop :=
  q = { p with tcpStatsSrcToDst := q.tcpStatsSrcToDst, tcpStatsDstToSrc := q.tcpStatsDstToSrc }

theorem Rest.copy_agree (garbage pf : Rest) : (Rest.copy garbage pf).Agree pf := rfl

theorem Rest.copy_eq_iff (garbage pf : Rest) : Rest.copy garbage pf = pf ↔ garbage.left = pf.left := by
  constructor
  · intro h
    have hleft : (Rest.copy garbage pf).left = garbage.left := rfl
    rw [← hleft, h]
  · intro h
    simp only [Rest.left, Prod.mk.injEq] at h
    obtain ⟨h1, h2⟩ := h
    simp only [Rest.copy, h1, h2]

/-! ### Process and container information

`P` is a pointer to a text in a record and the text itself in what the record says. -/

structure ProcessInfo (P : Type) where
  pid : UInt32
  fatherPid : UInt32
  processName : P
  fatherProcessName : P
  cmdLine : P
  pkgName : P
  fatherPkgName : P
  uidName : P
  fatherUidName : P
  uid : UInt32
  gid : UInt32
  fatherUid : UInt32
  fatherGid : UInt32
  actualMemory : UInt32
  peakMemory : UInt32
  deriving DecidableEq, Repr

/-- The union and its tag `data_type`. -/
inductive ContainerData (P : Type) where
  | unknown
  | k8s (pod ns : P)
  | docker
  deriving DecidableEq, Repr

structure ContainerInfo (P : Type) where
  id : P
  name : P
  data : ContainerData P
  deriving DecidableEq, Repr

/-- `TcpInfo` of include/ntop_typedefs.h; a `double` is its bits. -/
structure SocketInfo where
  connState : Int
  rcvdBytes : UInt64
  sentBytes : UInt64
  retxPkts : UInt32
  lostPkts : UInt32
  inSegs : UInt32
  outSegs : UInt32
  unackedSegs : UInt32
  rtt : UInt64
  rttVar : UInt64
  deriving DecidableEq, Repr

structure ParsedeBPF (P : Type) where
  serverInfo : Bool
  srcProcessInfo : ProcessInfo P
  dstProcessInfo : ProcessInfo P
  srcContainerInfo : ContainerInfo P
  dstContainerInfo : ContainerInfo P
  srcTcpInfo : SocketInfo
  dstTcpInfo : SocketInfo
  eventType : Nat
  ifname : P
  processInfoSet : Bool
  containerInfoSet : Bool
  tcpInfoSet : Bool
  deriving DecidableEq, Repr

/-- The members that the destructor frees, in its order. -/
def ProcessInfo.texts {P : Type} (i : ProcessInfo P) : List P :=
  [i.processName, i.pkgName, i.cmdLine, i.uidName, i.fatherProcessName, i.fatherPkgName, i.fatherUidName]

def ContainerData.texts {P : Type} : ContainerData P → List P
  | .k8s pod ns => [pod, ns]
  | _ => []

def ContainerInfo.texts {P : Type} (i : ContainerInfo P) : List P := i.id :: i.name :: i.data.texts

def ParsedeBPF.texts {P : Type} (e : ParsedeBPF P) : List P :=
  e.ifname :: (e.srcProcessInfo.texts ++ e.dstProcessInfo.texts ++ e.srcContainerInfo.texts ++ e.dstContainerInfo.texts)

section Map

variable {P Q : Type}

def ProcessInfo.map (f : P → Q) (i : ProcessInfo P) : ProcessInfo Q :=
  { pid := i.pid, fatherPid := i.fatherPid, processName := f i.processName
    fatherProcessName := f i.fatherProcessName, cmdLine := f i.cmdLine, pkgName := f i.pkgName
    fatherPkgName := f i.fatherPkgName, uidName := f i.uidName, fatherUidName := f i.fatherUidName
    uid := i.uid, gid := i.gid, fatherUid := i.fatherUid, fatherGid := i.fatherGid
    actualMemory := i.actualMemory, peakMemory := i.peakMemory }

def ContainerData.map (f : P → Q) : ContainerData P → ContainerData Q
  | .unknown => .unknown
  | .k8s pod ns => .k8s (f pod) (f ns)
  | .docker => .docker

def ContainerInfo.map (f : P → Q) (i : ContainerInfo P) : ContainerInfo Q := ⟨f i.id, f i.name, i.data.map f⟩

def ParsedeBPF.map (f : P → Q) (e : ParsedeBPF P) : ParsedeBPF Q :=
  { serverInfo := e.serverInfo, srcProcessInfo := e.srcProcessInfo.map f, dstProcessInfo := e.dstProcessInfo.map f
    srcContainerInfo := e.srcContainerInfo.map f, dstContainerInfo := e.dstContainerInfo.map f
    srcTcpInfo := e.srcTcpInfo, dstTcpInfo := e.dstTcpInfo, eventType := e.eventType, ifname := f e.ifname
    processInfoSet := e.processInfoSet, containerInfoSet := e.containerInfoSet, tcpInfoSet := e.tcpInfoSet }

variable {f g : P → Q}

theorem ProcessInfo.map_congr {i : ProcessInfo P} (h : ∀ p ∈ i.texts, f p = g p) : i.map f = i.map g := by
  simp only [ProcessInfo.texts, List.forall_mem_cons] at h
  obtain ⟨h1, h2, h3, h4, h5, h6, h7, -⟩ := h
  simp only [ProcessInfo.map, h1, h2, h3, h4, h5, h6, h7]

theorem ContainerInfo.map_congr {i : ContainerInfo P} (h : ∀ p ∈ i.texts, f p = g p) : i.map f = i.map g := by
  simp only [ContainerInfo.texts, List.forall_mem_cons] at h
  obtain ⟨h1, h2, h3⟩ := h
  have hdata : i.data.map f = i.data.map g := by
    cases hd : i.data with
    | unknown => rfl
    | docker => rfl
    | k8s pod ns =>
      simp only [hd, ContainerData.texts, List.forall_mem_cons] at h3
      simp only [ContainerData.map, h3.1, h3.2.1]
  simp only [ContainerInfo.map, h1, h2, hdata]

theorem ParsedeBPF.map_congr {e : ParsedeBPF P} (h : ∀ p ∈ e.texts, f p = g p) : e.map f = e.map g := by
  simp only [ParsedeBPF.texts, List.forall_mem_cons, List.forall_mem_append] at h
  obtain ⟨h1, ⟨⟨h2, h3⟩, h4⟩, h5⟩ := h
  simp only [ParsedeBPF.map, h1, ProcessInfo.map_congr h2, ProcessInfo.map_congr h3, ContainerInfo.map_congr h4,
    ContainerInfo.map_congr h5]

end Map

/-! ### Texts -/

/-- The `char*` members of `ParsedFlow`. -/
inductive Text where
  | l7Info
  | httpUrl
  | httpSite
  | httpUserAgent
  | dhcpClientName
  | sipCallId
  | dnsQuery
  | endReason
  | tlsServerName
  | bittorrentHash
  | tcpFingerprint
  | ja4cHash
  | flowRiskInfo
  | externalAlert
  | l7Json
  | otInfo
  | smtpRcpTo
  | smtpMailFrom
  | ndpiFlowRiskName
  | wlanSsid
  | bgpSrc
  | bgpDst
  | hrSrcToDstBytes
  | hrDstToSrcBytes
  deriving DecidableEq, Repr

/-- In the order of the copy constructor. -/
def duplicated : List Text :=
  [.l7Info, .httpUrl, .httpSite, .httpUserAgent, .dnsQuery, .endReason, .tlsServerName, .bittorrentHash,
   .tcpFingerprint, .ja4cHash, .externalAlert, .flowRiskInfo, .otInfo, .ndpiFlowRiskName, .smtpRcpTo,
   .smtpMailFrom, .dhcpClientName, .sipCallId, .wlanSsid, .bgpSrc, .bgpDst, .l7Json, .hrSrcToDstBytes,
   .hrDstToSrcBytes]

/-- In the order of `freeMemory`. -/
def released : List Text :=
  [.l7Info, .httpUrl, .httpSite, .httpUserAgent, .dnsQuery, .endReason, .tlsServerName, .bittorrentHash,
   .tcpFingerprint, .ja4cHash, .externalAlert, .flowRiskInfo, .otInfo, .ndpiFlowRiskName, .smtpRcpTo,
   .smtpMailFrom, .dhcpClientName, .sipCallId, .wlanSsid, .bgpSrc, .bgpDst, .l7Json, .hrSrcToDstBytes,
   .hrDstToSrcBytes]

theorem duplicated_nodup : duplicated.Nodup := by decide

theorem mem_duplicated (t : Text) : t ∈ duplicated := by cases t <;> decide

theorem released_perm : released.Perm duplicated := by decide

structure ParsedFlow where
  core : Core
  ebpf : ParsedeBPF (Option Nat)
  rest : Rest
  additionalFieldsJson : Option Nat
  additionalFieldsTlv : Option Nat
  texts : Text → Option Nat

/-! ## The heap -/

/-- What the objects hold, by their number. -/
structure Store where
  mem : Mem
  text : Nat → Bytes
  json : Nat → JsonObject
  tlv : Nat → Bytes

def deleteOpt (m : Mem) : Option Nat → Mem
  | none => m
  | some id => m.delete id

def deleteEach (m : Mem) (ps : List (Option Nat)) : Mem := ps.foldl deleteOpt m

theorem deleteEach_eq (ps : List (Option Nat)) (m : Mem) :
    deleteEach m ps = { m with freed := ps.reduceOption.reverse ++ m.freed } := by
  induction ps generalizing m with
  | nil => rfl
  | cons p ps ih =>
    cases p with
    | none =>
      show deleteEach m ps = _
      rw [ih, List.reduceOption_cons_of_none]
    | some id =>
      show deleteEach (m.delete id) ps = _
      rw [ih, List.reduceOption_cons_of_some, List.reverse_cons, List.append_assoc]
      rfl

namespace Store

/-- `strdup`. -/
def strdup (st : Store) (id : Nat) : Store :=
  { st with mem := (st.mem.touch (some id)).new, text := Function.update st.text st.mem.created (st.text id) }

def dupText (st : Store) : Option Nat → Option Nat × Store
  | none => (none, st)
  | some id => (some st.mem.created, st.strdup id)

/-- The members `ts` one after the other, over what the copy holds so far. -/
def dupTexts (src : Text → Option Nat) :
    List Text → (Text → Option Nat) → Store → (Text → Option Nat) × Store
  | [], dst, st => (dst, st)
  | t :: ts, dst, st => dupTexts src ts (Function.update dst t (st.dupText (src t)).1) (st.dupText (src t)).2

def cloneJSON (st : Store) : Option Nat → Option Nat × Store
  | none => (none, st)
  | some id =>
    (some st.mem.created,
     { st with
       mem := (st.mem.touch (some id)).new
       json := Function.update st.json st.mem.created (cloneJSONSimple (st.json id)) })

end Store

/-- `new ParsedFlow(*pf)` in memory that holds `garbage`. -/
def ParsedFlow.copy (garbage : ParsedFlow) (st : Store) (pf : ParsedFlow) : ParsedFlow × Store :=
  let json := st.cloneJSON pf.additionalFieldsJson
  let texts := json.2.dupTexts pf.texts duplicated garbage.texts
  ({ core := Core.copy garbage.core pf.core
     ebpf := pf.ebpf
     rest := Rest.copy garbage.rest pf.rest
     additionalFieldsJson := json.1
     additionalFieldsTlv := none
     texts := texts.1 },
   texts.2)

/-- `~ParsedFlow`, then `~ParsedeBPF`. -/
def ParsedFlow.destroy (m : Mem) (pf : ParsedFlow) : Mem :=
  deleteEach
    (deleteEach (deleteOpt (deleteOpt m pf.additionalFieldsJson) pf.additionalFieldsTlv) (released.map pf.texts))
    pf.ebpf.texts

/-- The objects a record points to, in the order they are freed. -/
def ParsedFlow.owned (pf : ParsedFlow) : List Nat :=
  (pf.additionalFieldsJson :: pf.additionalFieldsTlv :: (released.map pf.texts ++ pf.ebpf.texts)).reduceOption

theorem destroy_eq (m : Mem) (pf : ParsedFlow) :
    pf.destroy m = { m with freed := pf.owned.reverse ++ m.freed } := by
  have h : pf.destroy m =
      deleteEach m (pf.additionalFieldsJson :: pf.additionalFieldsTlv :: (released.map pf.texts ++ pf.ebpf.texts)) := by
    simp only [ParsedFlow.destroy, deleteEach, List.foldl_cons, List.foldl_append]
  rw [h, deleteEach_eq]
  rfl

/-! ## What the copying leaves -/

/-- Nothing that was there changed. -/
structure Extends (st st' : Store) : Prop where
  created : st.mem.created ≤ st'.mem.created
  text : ∀ id < st.mem.created, st'.text id = st.text id
  json : ∀ id < st.mem.created, st'.json id = st.json id
  tlv : ∀ id < st.mem.created, st'.tlv id = st.tlv id

theorem Extends.refl (st : Store) : Extends st st := ⟨le_rfl, fun _ _ => rfl, fun _ _ => rfl, fun _ _ => rfl⟩

theorem Extends.trans {st st' st'' : Store} (h : Extends st st') (h' : Extends st' st'') : Extends st st'' where
  created := h.created.trans h'.created
  text id hid := (h'.text id (hid.trans_le h.created)).trans (h.text id hid)
  json id hid := (h'.json id (hid.trans_le h.created)).trans (h.json id hid)
  tlv id hid := (h'.tlv id (hid.trans_le h.created)).trans (h.tlv id hid)

section Copying

variable {st : Store} {os : List Nat}

theorem touch_new (h : Owned st.mem os) {id : Nat} (hid : id ∈ os) :
    (st.mem.touch (some id)).new = st.mem.new := by rw [h.touch_eq hid]

/-- One text: a new object, the same characters. -/
theorem dupText_spec (h : Owned st.mem os) {p : Option Nat} (hp : ∀ id ∈ p, id ∈ os) :
    Extends st (st.dupText p).2 ∧ Owned (st.dupText p).2.mem ((st.dupText p).1.toList ++ os) ∧
      (st.dupText p).1.map (st.dupText p).2.text = p.map st.text ∧
      ∀ id ∈ (st.dupText p).1, id < (st.dupText p).2.mem.created := by
  cases p with
  | none => exact ⟨.refl st, h, rfl, fun id hid => by cases hid⟩
  | some id =>
    have hmem : (st.strdup id).mem = st.mem.new := touch_new h (hp id rfl)
    simp only [Store.dupText, hmem]
    refine ⟨⟨?_, ?_, fun _ _ => rfl, fun _ _ => rfl⟩, h.new, ?_, ?_⟩
    · rw [hmem]
      exact Nat.le_succ _
    · intro i hi
      exact Function.update_of_ne (Nat.ne_of_lt hi) _ _
    · simp only [Option.map_some, Store.strdup, Function.update_self]
    · intro i hi
      cases hi
      exact Nat.lt_succ_self _

/-- The texts, one after the other: by induction on the members that are left. -/
theorem dupTexts_spec (src : Text → Option Nat) (ts : List Text) (hts : ts.Nodup) (dst : Text → Option Nat)
    (h : Owned st.mem os) (hsrc : ∀ t ∈ ts, ∀ id ∈ src t, id ∈ os) :
    Extends st (st.dupTexts src ts dst).2 ∧
      Owned (st.dupTexts src ts dst).2.mem (ts.filterMap (st.dupTexts src ts dst).1 ++ os) ∧
      (∀ t ∈ ts, ((st.dupTexts src ts dst).1 t).map (st.dupTexts src ts dst).2.text = (src t).map st.text) ∧
      ∀ t ∉ ts, (st.dupTexts src ts dst).1 t = dst t := by
  induction ts generalizing dst st os with
  | nil => exact ⟨.refl st, h, (fun t ht => by cases ht), fun _ _ => rfl⟩
  | cons t ts ih =>
    obtain ⟨ht, hts'⟩ := List.nodup_cons.mp hts
    obtain ⟨hext, hown, htext, hlt⟩ := dupText_spec h (hsrc t (List.mem_cons_self ..))
    have hstep : st.dupTexts src (t :: ts) dst =
        (st.dupText (src t)).2.dupTexts src ts (Function.update dst t (st.dupText (src t)).1) := rfl
    rw [hstep]
    generalize hq : (st.dupText (src t)).1 = q at *
    generalize hs : (st.dupText (src t)).2 = s at *
    have hsrc' : ∀ t' ∈ ts, ∀ id ∈ src t', id ∈ q.toList ++ os := fun t' ht' id hid =>
      List.mem_append_right _ (hsrc t' (List.mem_cons_of_mem _ ht') id hid)
    obtain ⟨hext', hown', htext', hrest'⟩ := ih hts' (Function.update dst t q) hown hsrc'
    have hqt : (s.dupTexts src ts (Function.update dst t q)).1 t = q := by
      rw [hrest' t ht, Function.update_self]
    refine ⟨hext.trans hext', ?_, ?_, ?_⟩
    · refine hown'.of_perm ?_
      cases hqv : q with
      | none =>
        rw [List.filterMap_cons_none (by rw [← hqv]; exact hqt)]
        simp
      | some o =>
        rw [List.filterMap_cons_some (by rw [← hqv]; exact hqt)]
        simp only [Option.toList_some, List.cons_append, List.nil_append]
        exact List.perm_middle.symm
    · intro t' ht'
      rcases List.mem_cons.mp ht' with rfl | ht'
      · rw [hqt, ← htext]
        exact Option.map_congr fun o ho => hext'.text o (hlt o ho)
      · rw [htext' t' ht']
        exact Option.map_congr fun o ho =>
          hext.text o (h.lt_created (hsrc t' (List.mem_cons_of_mem _ ht') o ho))
    · intro t' ht'
      obtain ⟨hne, hts''⟩ := not_or.mp (mt List.mem_cons.mpr ht')
      rw [hrest' t' hts'', Function.update_of_ne hne]

theorem cloneJSON_spec (h : Owned st.mem os) {p : Option Nat} (hp : ∀ id ∈ p, id ∈ os) :
    Extends st (st.cloneJSON p).2 ∧ Owned (st.cloneJSON p).2.mem ((st.cloneJSON p).1.toList ++ os) ∧
      (st.cloneJSON p).1.map (st.cloneJSON p).2.json = p.map (fun id => cloneJSONSimple (st.json id)) ∧
      ∀ id ∈ (st.cloneJSON p).1, id < (st.cloneJSON p).2.mem.created := by
  cases p with
  | none => exact ⟨.refl st, h, rfl, fun id hid => by cases hid⟩
  | some id =>
    have hmem : (st.mem.touch (some id)).new = st.mem.new := touch_new h (hp id rfl)
    simp only [Store.cloneJSON, hmem]
    refine ⟨⟨Nat.le_succ _, fun _ _ => rfl, ?_, fun _ _ => rfl⟩, h.new, ?_, ?_⟩
    · intro i hi
      exact Function.update_of_ne (Nat.ne_of_lt hi) _ _
    · simp only [Option.map_some, Function.update_self]
    · intro i hi
      cases hi
      exact Nat.lt_succ_self _

end Copying

/-! ## The copy -/

section Copy

variable (garbage : ParsedFlow) {p : ParsedFlow} {st : Store} {rest : List Nat}

/-- What the record has on its own: all but the eBPF strings. -/
def ParsedFlow.ownedHere (pf : ParsedFlow) : List Nat :=
  (pf.additionalFieldsJson :: pf.additionalFieldsTlv :: released.map pf.texts).reduceOption

theorem owned_eq (pf : ParsedFlow) : pf.owned = pf.ownedHere ++ pf.ebpf.texts.reduceOption := by
  simp only [ParsedFlow.owned, ParsedFlow.ownedHere, ← List.reduceOption_append, List.cons_append]

theorem mem_owned_json {id : Nat} (h : id ∈ p.additionalFieldsJson) : id ∈ p.owned :=
  List.reduceOption_mem_iff.mpr (h ▸ List.mem_cons_self ..)

theorem mem_owned_text {t : Text} {id : Nat} (h : id ∈ p.texts t) : id ∈ p.owned := by
  have ht : t ∈ released := released_perm.mem_iff.mpr (mem_duplicated t)
  refine List.reduceOption_mem_iff.mpr (List.mem_cons_of_mem _ (List.mem_cons_of_mem _ ?_))
  exact List.mem_append_left _ (List.mem_map.mpr ⟨t, ht, h⟩)

theorem mem_owned_ebpf {id : Nat} (h : some id ∈ p.ebpf.texts) : id ∈ p.owned :=
  List.reduceOption_mem_iff.mpr
    (List.mem_cons_of_mem _ (List.mem_cons_of_mem _ (List.mem_append_right _ h)))

theorem filterMap_released (f : Text → Option Nat) :
    (duplicated.filterMap f).Perm (released.map f).reduceOption := by
  have h : (released.map f).reduceOption = released.filterMap f := by
    rw [List.reduceOption, List.filterMap_map, Function.id_comp]
  rw [h]
  exact released_perm.symm.filterMap f

/-- The copy owns new objects, next to those of the original. -/
theorem copy_owned (h : Owned st.mem (p.owned ++ rest)) :
    Extends st (ParsedFlow.copy garbage st p).2 ∧
      Owned (ParsedFlow.copy garbage st p).2.mem
        ((ParsedFlow.copy garbage st p).1.ownedHere ++ (p.owned ++ rest)) ∧
      ((ParsedFlow.copy garbage st p).1.additionalFieldsJson.map (ParsedFlow.copy garbage st p).2.json =
        p.additionalFieldsJson.map fun id => cloneJSONSimple (st.json id)) ∧
      ∀ t, ((ParsedFlow.copy garbage st p).1.texts t).map (ParsedFlow.copy garbage st p).2.text =
        (p.texts t).map st.text := by
  have hjson : ∀ id ∈ p.additionalFieldsJson, id ∈ p.owned ++ rest := fun id hid =>
    List.mem_append_left _ (mem_owned_json hid)
  obtain ⟨hext, hown, hclone, hlt⟩ := cloneJSON_spec h hjson
  simp only [ParsedFlow.copy, ParsedFlow.ownedHere]
  generalize hq : (st.cloneJSON p.additionalFieldsJson).1 = q at *
  generalize hs : (st.cloneJSON p.additionalFieldsJson).2 = s at *
  have hsrc : ∀ t ∈ duplicated, ∀ id ∈ p.texts t, id ∈ q.toList ++ (p.owned ++ rest) := fun t _ id hid =>
    List.mem_append_right _ (List.mem_append_left _ (mem_owned_text hid))
  obtain ⟨hext', hown', htext', -⟩ := dupTexts_spec p.texts duplicated duplicated_nodup garbage.texts hown hsrc
  refine ⟨hext.trans hext', ?_, ?_, ?_⟩
  · refine hown'.of_perm ?_
    rw [← List.append_assoc (duplicated.filterMap _)]
    refine List.Perm.append_right _ ?_
    have hnew : (q :: none :: released.map (s.dupTexts p.texts duplicated garbage.texts).1).reduceOption =
        q.toList ++ (released.map (s.dupTexts p.texts duplicated garbage.texts).1).reduceOption := by
      cases q <;> simp
    rw [hnew]
    exact List.perm_append_comm.trans ((filterMap_released _).symm.append_right _)
  · rw [← hclone]
    exact Option.map_congr fun id hid => hext'.json id (hlt id hid)
  · intro t
    rw [htext' t (mem_duplicated t)]
    refine Option.map_congr fun id hid => ?_
    exact hext.text id (h.lt_created (List.mem_append_left _ (mem_owned_text hid)))

/-- The pointers of the process and container information are shared, and what they say is the same. -/
theorem copy_ebpf (h : Owned st.mem (p.owned ++ rest)) :
    (ParsedFlow.copy garbage st p).1.ebpf.map (Option.map (ParsedFlow.copy garbage st p).2.text) =
      p.ebpf.map (Option.map st.text) := by
  refine ParsedeBPF.map_congr fun q hq => ?_
  refine Option.map_congr fun id hid => (copy_owned garbage h).1.text id ?_
  have hmem : some id ∈ p.ebpf.texts := hid ▸ hq
  exact h.lt_created (List.mem_append_left _ (mem_owned_ebpf hmem))

/-! ### What the copy says -/

/-- The same on every member, what pointers lead to included. -/
structure Same (st : Store) (p : ParsedFlow) (st' : Store) (q : ParsedFlow) : Prop where
  core : q.core = p.core
  ebpf : q.ebpf.map (Option.map st'.text) = p.ebpf.map (Option.map st.text)
  rest : q.rest = p.rest
  json : q.additionalFieldsJson.map st'.json = p.additionalFieldsJson.map st.json
  tlv : q.additionalFieldsTlv.map st'.tlv = p.additionalFieldsTlv.map st.tlv
  texts : ∀ t, (q.texts t).map st'.text = (p.texts t).map st.text

/-- The same as far as the copy is meant to be; of nine members nothing is said. -/
structure Carried (st : Store) (p : ParsedFlow) (st' : Store) (q : ParsedFlow) : Prop where
  core : q.core.Agree p.core
  ebpf : q.ebpf.map (Option.map st'.text) = p.ebpf.map (Option.map st.text)
  rest : q.rest.Agree p.rest
  json : q.additionalFieldsJson.map (fun id => (st'.json id).fields) =
    p.additionalFieldsJson.map fun id => (st.json id).fields.filterMap copiedField
  tlv : q.additionalFieldsTlv = none
  texts : ∀ t, (q.texts t).map st'.text = (p.texts t).map st.text

theorem copy_carried (h : Owned st.mem (p.owned ++ rest)) :
    Carried st p (ParsedFlow.copy garbage st p).2 (ParsedFlow.copy garbage st p).1 where
  core := Core.copy_agree garbage.core p.core
  ebpf := copy_ebpf garbage h
  rest := Rest.copy_agree garbage.rest p.rest
  json := by
    have hjson := congrArg (Option.map JsonObject.fields) (copy_owned garbage h).2.2.1
    rw [Option.map_map, Option.map_map] at hjson
    refine hjson.trans (Option.map_congr fun id _ => ?_)
    exact cloneJSONSimple_fields (st.json id)
  tlv := rfl
  texts := (copy_owned garbage h).2.2.2

/-- When the copy is the original: memory happens to hold the nine members that are not
assigned, there are no TLV fields, and the JSON members are simple values. -/
theorem same_iff (h : Owned st.mem (p.owned ++ rest)) :
    Same st p (ParsedFlow.copy garbage st p).2 (ParsedFlow.copy garbage st p).1 ↔
      garbage.core.left = p.core.left ∧ garbage.rest.left = p.rest.left ∧ p.additionalFieldsTlv = none ∧
        ∀ id ∈ p.additionalFieldsJson, ∀ kv ∈ (st.json id).fields, kv.2.simple := by
  have hcarried := copy_carried garbage h
  obtain ⟨-, -, hjson, -⟩ := copy_owned garbage h
  have htlv : (ParsedFlow.copy garbage st p).1.additionalFieldsTlv = none := rfl
  have hsimple : (p.additionalFieldsJson.map (fun id => cloneJSONSimple (st.json id)) =
      p.additionalFieldsJson.map st.json) ↔
        ∀ id ∈ p.additionalFieldsJson, ∀ kv ∈ (st.json id).fields, kv.2.simple := by
    cases p.additionalFieldsJson with
    | none => simp
    | some id => simp [clone_eq_iff]
  constructor
  · intro hs
    have hnone : p.additionalFieldsTlv.map st.tlv = none := by rw [← hs.tlv, htlv]; rfl
    refine ⟨(Core.copy_eq_iff _ _).mp hs.core, (Rest.copy_eq_iff _ _).mp hs.rest, ?_, ?_⟩
    · exact Option.map_eq_none_iff.mp hnone
    · exact hsimple.mp (hjson ▸ hs.json)
  · rintro ⟨hcore, hrest, hnone, hall⟩
    exact
      { core := (Core.copy_eq_iff _ _).mpr hcore
        ebpf := hcarried.ebpf
        rest := (Rest.copy_eq_iff _ _).mpr hrest
        json := hjson.trans (hsimple.mpr hall)
        tlv := by rw [htlv, hnone]; rfl
        texts := hcarried.texts }

/-! ### Destroying both -/

/-- The order in which two lists of objects are freed does not matter. -/
theorem owned_freed_iff {m : Mem} {as bs os : List Nat} :
    Owned { m with freed := as ++ (bs ++ m.freed) } os ↔ Owned { m with freed := bs ++ (as ++ m.freed) } os := by
  have hperm : (os ++ (as ++ (bs ++ m.freed))).Perm (os ++ (bs ++ (as ++ m.freed))) := by
    refine List.Perm.append_left _ ?_
    rw [← List.append_assoc, ← List.append_assoc]
    exact List.perm_append_comm.append_right _
  exact ⟨fun h => ⟨hperm.symm.trans h.perm, h.clean⟩, fun h => ⟨hperm.trans h.perm, h.clean⟩⟩

/-- The two destructors free what the two records own once each, exactly when they share
no eBPF string. -/
theorem destroy_iff (h : Owned st.mem (p.owned ++ rest)) :
    Owned (p.destroy ((ParsedFlow.copy garbage st p).1.destroy (ParsedFlow.copy garbage st p).2.mem)) rest ↔
      p.ebpf.texts.reduceOption = [] := by
  obtain ⟨-, hown, -⟩ := copy_owned garbage h
  have hebpf : (ParsedFlow.copy garbage st p).1.ebpf = p.ebpf := rfl
  have hq := owned_eq (ParsedFlow.copy garbage st p).1
  rw [hebpf] at hq
  generalize (ParsedFlow.copy garbage st p).2.mem = m at *
  generalize (ParsedFlow.copy garbage st p).1 = q at *
  simp only [destroy_eq]
  constructor
  · intro hfree
    refine List.eq_nil_iff_forall_not_mem.mpr fun id hmem => ?_
    have hp : id ∈ p.owned.reverse := by rw [List.mem_reverse, owned_eq]; exact List.mem_append_right _ hmem
    have hq' : id ∈ q.owned.reverse ++ m.freed := by
      refine List.mem_append_left _ ?_
      rw [List.mem_reverse, hq]
      exact List.mem_append_right _ hmem
    exact (List.nodup_append.mp hfree.freed_nodup).2.2 id hp id hq' rfl
  · intro hnil
    rw [hnil, List.append_nil] at hq
    have h1 : Owned { m with freed := q.owned.reverse ++ m.freed } (p.owned ++ rest) := by
      rw [hq]
      exact hown.deleteAll
    exact h1.deleteAll

theorem destroy_comm (m : Mem) (p q : ParsedFlow) (os : List Nat) :
    Owned (p.destroy (q.destroy m)) os ↔ Owned (q.destroy (p.destroy m)) os := by
  simp only [destroy_eq]
  exact owned_freed_iff

end Copy

/-! ## Results -/

/-- Every member the copy is meant to have arrives, the original keeps what it says, and
where the record has no eBPF strings the two destructors, in either order, free every
object of both once. -/
theorem copy_law (garbage p : ParsedFlow) (st : Store) (rest : List Nat) (h : Owned st.mem (p.owned ++ rest)) :
    Extends st (ParsedFlow.copy garbage st p).2 ∧
      Carried st p (ParsedFlow.copy garbage st p).2 (ParsedFlow.copy garbage st p).1 ∧
      (p.ebpf.texts.reduceOption = [] →
        Owned (p.destroy ((ParsedFlow.copy garbage st p).1.destroy (ParsedFlow.copy garbage st p).2.mem)) rest ∧
        Owned ((ParsedFlow.copy garbage st p).1.destroy (p.destroy (ParsedFlow.copy garbage st p).2.mem)) rest) := by
  refine ⟨(copy_owned garbage h).1, copy_carried garbage h, fun hnil => ?_⟩
  have hfree := (destroy_iff garbage h).mpr hnil
  exact ⟨hfree, (destroy_comm _ _ _ _).mp hfree⟩

/-! ### Two records -/

def noProcess : ProcessInfo (Option Nat) :=
  ⟨0, 0, none, none, none, none, none, none, none, 0, 0, 0, 0, 0, 0⟩

def noSocket : SocketInfo := ⟨0, 0, 0, 0, 0, 0, 0, 0, 0, 0⟩

/-- A record with nothing set. -/
def blank : ParsedFlow where
  core :=
    { srcMac := List.replicate 6 0, dstMac := List.replicate 6 0, direction := 0, srcTos := 0, dstTos := 0
      srcIp := ⟨[], 0⟩, dstIp := ⟨[], 0⟩, firstSwitched := 0, lastSwitched := 0, observationPointId := 0
      icmpTypeCode := 0, version := 0, l4Proto := 0, exporterDeviceIp := [], mappedExporterDeviceIp := []
      exporterSiteId := 0, nextHop := [], mappedNextHop := [], nextHopSiteId := 0, nprobeIp := []
      uniqueSourceId := 0, nprobeSourceId := 0, srcPort := 0, dstPort := 0, inIndex := 0, outIndex := 0
      l7Proto := [], vlanId := 0, pktSamplingRate := 1, inPkts := 0, inBytes := 0, outPkts := 0, outBytes := 0
      vrfId := 0, inFragments := 0, outFragments := 0, srcAs := 0, dstAs := 0, prevAdjacentAs := 0
      nextAdjacentAs := 0, absolutePacketOctetCounters := 0
      tcp := ⟨0, 0, 0, 0, 0, 0, 0, 0, 0, ⟨0, 0⟩, ⟨0, 0⟩, 0, 0, 0⟩ }
  ebpf :=
    { serverInfo := false, srcProcessInfo := noProcess, dstProcessInfo := noProcess
      srcContainerInfo := ⟨none, none, .unknown⟩, dstContainerInfo := ⟨none, none, .unknown⟩
      srcTcpInfo := noSocket, dstTcpInfo := noSocket, eventType := 0, ifname := none
      processInfoSet := false, containerInfoSet := false, tcpInfoSet := false }
  rest :=
    { hasParsedEbpf := false, isSwapped := false, httpMethod := 0, srcIpAddrPreNat := 0, dstIpAddrPreNat := 0
      srcIpAddrPostNat := 0, dstIpAddrPostNat := 0, tcpStatsSrcToDst := 0, tcpStatsDstToSrc := 0
      tlsUnsafeCipher := 0, flowVerdict := 0, osHint := 0, tlsCipher := 0, httpRetCode := 0, dnsQueryType := 0
      dnsRetCode := 0, dnsQueryId := 0, l7ErrorCode := 0, srcPortPreNat := 0, dstPortPreNat := 0
      srcPortPostNat := 0, dstPortPostNat := 0, customApp := ⟨0, 0, 0⟩, confidence := 0, ndpiFlowRiskBitmap := 0
      flowSource := 0, wtpMacAddress := List.replicate 6 0, qoe := ⟨0, 0⟩ }
  additionalFieldsJson := none
  additionalFieldsTlv := none
  texts := fun _ => none

/-- One object, a TLV serializer with one byte. -/
def oneObject : Store := ⟨Mem.empty.new, fun _ => [104, 105], fun _ => .empty, fun _ => [1]⟩

def queryRecord : ParsedFlow := { blank with texts := Function.update blank.texts .dnsQuery (some 0) }

/-- Only `dns_query` is set: the copy has its own, and both are freed. -/
theorem copy_law_query :
    Owned oneObject.mem (queryRecord.owned ++ []) ∧
      Owned (queryRecord.destroy ((ParsedFlow.copy blank oneObject queryRecord).1.destroy
        (ParsedFlow.copy blank oneObject queryRecord).2.mem)) [] := by
  have h : Owned oneObject.mem (queryRecord.owned ++ []) := by
    have howned : queryRecord.owned ++ [] = [oneObject.mem.created - 1] := by decide
    rw [howned]
    exact owned_empty.new
  exact ⟨h, ((copy_law blank queryRecord oneObject [] h).2.2 (by decide)).1⟩

def tlvRecord : ParsedFlow := { blank with additionalFieldsTlv := some 0 }

/-- The TLV fields of a record do not reach its copy, whatever the memory held. -/
theorem tlv_left_behind :
    ¬ ∀ (garbage p : ParsedFlow) (st : Store) (rest : List Nat), Owned st.mem (p.owned ++ rest) →
      Same st p (ParsedFlow.copy garbage st p).2 (ParsedFlow.copy garbage st p).1 ∧
        Owned (p.destroy ((ParsedFlow.copy garbage st p).1.destroy (ParsedFlow.copy garbage st p).2.mem)) rest := by
  intro hall
  have h : Owned oneObject.mem (tlvRecord.owned ++ []) := by
    have howned : tlvRecord.owned ++ [] = [oneObject.mem.created - 1] := by decide
    rw [howned]
    exact owned_empty.new
  have htlv := (hall tlvRecord tlvRecord oneObject [] h).1.tlv
  cases htlv

end Ntopng.Collect.Companion
