/-
  Ntopng.Collect.Ebpf — the eBPF information of a record and of its flow
  (include/ParsedeBPF.h, src/ParsedeBPF.cpp; the structs of include/ntop_typedefs.h).

  Both peers have a process, a container and the TCP information of their socket. A flow
  without eBPF information gets a copy of the record's (`copy`), in the direction of the
  flow; one that has it takes the TCP information of the record as it stands (`update`),
  unless the record is of another container.
-/

namespace Ntopng.Collect

structure ProcessInfo where
  pid : UInt32
  fatherPid : UInt32
  processName : Option String
  fatherProcessName : Option String
  cmdLine : Option String
  pkgName : Option String
  fatherPkgName : Option String
  uidName : Option String
  fatherUidName : Option String
  uid : UInt32
  gid : UInt32
  fatherUid : UInt32
  fatherGid : UInt32
  actualMemory : UInt32
  peakMemory : UInt32
  deriving DecidableEq, Repr

inductive ContainerData where
  | unknown
  | k8s (pod ns : Option String)
  | docker
  deriving DecidableEq, Repr

structure ContainerInfo where
  id : Option String
  name : Option String
  data : ContainerData
  deriving DecidableEq, Repr

/-- The TCP information of eBPF; `rtt` and `rttVar` are `double`, in any unit. -/
structure EbpfTcpInfo where
  connState : Int
  rcvdBytes : UInt64
  sentBytes : UInt64
  retxPkts : UInt32
  lostPkts : UInt32
  inSegs : UInt32
  outSegs : UInt32
  unackedSegs : UInt32
  rtt : Nat
  rttVar : Nat
  deriving DecidableEq, Repr

structure ParsedeBPF where
  serverInfo : Bool
  srcProcessInfo : ProcessInfo
  dstProcessInfo : ProcessInfo
  srcContainerInfo : ContainerInfo
  dstContainerInfo : ContainerInfo
  srcTcpInfo : EbpfTcpInfo
  dstTcpInfo : EbpfTcpInfo
  eventType : Nat
  ifname : Option String
  processInfoSet : Bool
  containerInfoSet : Bool
  tcpInfoSet : Bool
  deriving DecidableEq, Repr

def ProcessInfo.init : ProcessInfo := ⟨0, 0, none, none, none, none, none, none, none, 0, 0, 0, 0, 0, 0⟩

def ContainerInfo.init : ContainerInfo := ⟨none, none, .unknown⟩

def EbpfTcpInfo.init : EbpfTcpInfo := ⟨0, 0, 0, 0, 0, 0, 0, 0, 0, 0⟩

namespace ParsedeBPF

/-- The constructor. -/
def init : ParsedeBPF :=
  { serverInfo := false
    srcProcessInfo := .init, dstProcessInfo := .init, srcContainerInfo := .init, dstContainerInfo := .init
    srcTcpInfo := .init, dstTcpInfo := .init, eventType := 0, ifname := none
    processInfoSet := false, containerInfoSet := false, tcpInfoSet := false }

/-- Only a marker. -/
def swap (e : ParsedeBPF) : ParsedeBPF := { e with serverInfo := !e.serverInfo }

/-- What is known of the two peers, the other way round. -/
def exchange (e : ParsedeBPF) : ParsedeBPF :=
  { e with
    srcProcessInfo := e.dstProcessInfo, dstProcessInfo := e.srcProcessInfo
    srcContainerInfo := e.dstContainerInfo, dstContainerInfo := e.srcContainerInfo
    srcTcpInfo := e.dstTcpInfo, dstTcpInfo := e.srcTcpInfo }

/-! ## The flow's own -/

/-- `ParsedeBPF(pe, swap_directions)`. -/
def copy (e : ParsedeBPF) (swapDirections : Bool) : ParsedeBPF := if swapDirections then e.exchange else e

/-- Two identifiers that are both known, and are not the same. -/
def differ : Option String → Option String → Bool
  | some id, some id' => id != id'
  | _, _ => false

/-- Another container. -/
def clash (q e : ParsedeBPF) : Bool :=
  q.containerInfoSet && e.containerInfoSet &&
    (differ q.srcContainerInfo.id e.srcContainerInfo.id || differ q.dstContainerInfo.id e.dstContainerInfo.id)

/-- The sockets are taken as source and destination of the record, whichever way round the flow is. -/
def update (q e : ParsedeBPF) : ParsedeBPF :=
  if q.clash e then q
  else if e.tcpInfoSet then { q with tcpInfoSet := true, srcTcpInfo := e.srcTcpInfo, dstTcpInfo := e.dstTcpInfo }
  else q

/-- The same is known of both peers. -/
structure Alike (e : ParsedeBPF) : Prop where
  processes : e.srcProcessInfo = e.dstProcessInfo
  containers : e.srcContainerInfo = e.dstContainerInfo
  sockets : e.srcTcpInfo = e.dstTcpInfo

theorem exchange_eq_iff (e : ParsedeBPF) : e.exchange = e ↔ e.Alike := by
  constructor
  · intro h
    exact ⟨congrArg dstProcessInfo h, congrArg dstContainerInfo h, congrArg dstTcpInfo h⟩
  · intro h
    obtain ⟨_, process, process', container, container', socket, socket', _, _, _, _, _⟩ := e
    obtain rfl : process = process' := h.processes
    obtain rfl : container = container' := h.containers
    obtain rfl : socket = socket' := h.sockets
    rfl

theorem exchange_exchange (e : ParsedeBPF) : e.exchange.exchange = e := rfl

/-- The two ways to copy, where they are not the same way. -/
theorem copy_eq_iff (e : ParsedeBPF) (s t : Bool) : e.copy s = e.copy t ↔ s = t ∨ e.Alike := by
  rw [← exchange_eq_iff]
  cases s <;> cases t <;> simp [copy, eq_comm]

/-- The sockets that an update brings. -/
def sockets (q e : ParsedeBPF) : Option (Bool × EbpfTcpInfo × EbpfTcpInfo) :=
  if q.clash e = false ∧ e.tcpInfoSet = true then some (true, e.srcTcpInfo, e.dstTcpInfo) else none

/-- The sockets of the flow, as far as they are known. -/
def knownSockets (q : ParsedeBPF) : Bool × EbpfTcpInfo × EbpfTcpInfo := (q.tcpInfoSet, q.srcTcpInfo, q.dstTcpInfo)

end ParsedeBPF

end Ntopng.Collect
