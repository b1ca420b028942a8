/-
  Ntopng.Hosts.Census — the counters of the live hosts of an interface (src/Host.cpp,
  src/LocalHost.cpp, src/RemoteHost.cpp; `NetworkInterface::incNumHosts`, `decNumHosts` and
  `findFlowHosts`, src/NetworkInterface.cpp; include/HostPools.h, include/Mac.h).

  The interface counts its hosts four ways, every pool its members in two arrays (what the
  packet thread did and what the others did), every MAC address the remote hosts behind it.
  Constructors, setters and destructors of the hosts move the counters. Hosts start as
  receive-only.

  `Env` is what the process knows of addresses, fixed while hosts live. A host is its place in
  the list of the live hosts. Counters of 64 bits are natural numbers, the parts of a pool
  integers.
-/

import Ntopng.Lib.Run
import Ntopng.Lib.Tally

namespace Ntopng.Hosts.Census

open Ntopng.Lib.Run

def NO_HOST_POOL_ID : Nat := 0
def DROP_HOST_POOL_ID : Nat := 1

/-! ## Hosts -/

/-- An address with the flags that `checkIP` computed. -/
structure IpAddress (A : Type) where
  addr : A
  localIP : Bool
  multicastIP : Bool
  broadcastIP : Bool
  deriving DecidableEq, Repr

def IpAddress.isLocalHost {A : Type} (ip : IpAddress A) : Bool := ip.localIP || ip.multicastIP || ip.broadcastIP

/-- The class of the object. -/
inductive HostClass where
  | localHost
  | remoteHost
  deriving DecidableEq, Repr

structure Host (M A : Type) where
  cls : HostClass
  ip : IpAddress A
  vlanId : Nat
  mac : Option M
  isRxOnly : Bool
  hostPoolId : Nat
  hostPoolIdIsFromMac : Bool
  localNetworkId : Option Nat
  idle : Bool
  deriving DecidableEq, Repr

/-- What the address tree of the pools answers. -/
structure PoolTree (M A : Type) where
  findMac : M → Option Nat
  findAddress : Nat → A → Option Nat

structure Env (M A : Type) where
  isBroadcast : M → Bool
  isSpecialMac : M → Bool
  isLocalInterfaceAddress : A → Bool
  isInLocalASN : A → Bool
  /-- The local network of an address. -/
  isLocalAddress : A → Option Nat
  useHostPoolsForLocal : Bool
  maxNumPools : Nat
  isShuttingDown : Bool

section Model

variable {M A : Type} [DecidableEq M]

namespace Host

variable (h : Host M A)

def isLocalHost : Bool := h.cls == .localHost

def isBroadcastHost (env : Env M A) : Bool := h.ip.broadcastIP || h.mac.any env.isBroadcast

def isMulticastHost : Bool := h.ip.multicastIP

def isUnicastHost (env : Env M A) : Bool := !h.isBroadcastHost env && !h.isMulticastHost

end Host

/-! ## Counters -/

inductive Counter where
  | totalNumHosts
  | numLocalHosts
  | numTotalRxOnlyHosts
  | numLocalRxOnlyHosts
  deriving DecidableEq, Repr

namespace Counter

def all : List Counter := [.totalNumHosts, .numLocalHosts, .numTotalRxOnlyHosts, .numLocalRxOnlyHosts]

/-- Which of the counters a host is in. -/
def counts (isLocal rxOnlyHost : Bool) : Counter → Bool
  | .totalNumHosts => true
  | .numLocalHosts => isLocal
  | .numTotalRxOnlyHosts => rxOnlyHost
  | .numLocalRxOnlyHosts => rxOnlyHost && isLocal

end Counter

structure Books (M : Type) where
  numHosts : Counter → Nat
  /-- The counters of the "Counter overflow" traces. -/
  internalErrors : List Counter
  numActiveHostsInline : Nat → Int
  numActiveHostsOffline : Nat → Int
  numRemoteHosts : M → Nat
  numUses : M → Int
  /-- How often a remote host was to be taken from a MAC that had none. -/
  noRemoteHosts : Nat
  networkHosts : Nat → UInt32

def add {K V : Type} [DecidableEq K] [Add V] (f : K → V) (k : K) (v : V) : K → V :=
  fun j => if j = k then f j + v else f j

namespace Books

variable (env : Env M A) (b : Books M)

def incNumHosts (h : Host M A) (rxOnlyHost : Bool) : Books M :=
  if !h.isUnicastHost env then b
  else if env.isShuttingDown then b
  else { b with numHosts := fun c => if c.counts h.isLocalHost rxOnlyHost then b.numHosts c + 1 else b.numHosts c }

/-- A counter at 0 stays there, with a trace. -/
def decNumHosts (h : Host M A) (rxOnlyHost : Bool) : Books M :=
  if !h.isUnicastHost env then b
  else if env.isShuttingDown then b
  else
    { b with
      numHosts := fun c => if c.counts h.isLocalHost rxOnlyHost then b.numHosts c - 1 else b.numHosts c
      internalErrors :=
        b.internalErrors ++ Counter.all.filter fun c => c.counts h.isLocalHost rxOnlyHost && b.numHosts c == 0 }

def addPoolNumHosts (poolId : Nat) (isInlineCall : Bool) (v : Int) : Books M :=
  if poolId < env.maxNumPools then
    if isInlineCall then { b with numActiveHostsInline := add b.numActiveHostsInline poolId v }
    else { b with numActiveHostsOffline := add b.numActiveHostsOffline poolId v }
  else b

def incPoolNumHosts (poolId : Nat) (isInlineCall : Bool) : Books M := b.addPoolNumHosts env poolId isInlineCall 1

def decPoolNumHosts (poolId : Nat) (isInlineCall : Bool) : Books M := b.addPoolNumHosts env poolId isInlineCall (-1)

def incNumRemoteHosts (m : M) : Books M := { b with numRemoteHosts := add b.numRemoteHosts m 1 }

def decNumRemoteHosts (m : M) : Books M :=
  if 0 < b.numRemoteHosts m then
    { b with numRemoteHosts := fun j => if j = m then b.numRemoteHosts j - 1 else b.numRemoteHosts j }
  else { b with noRemoteHosts := b.noRemoteHosts + 1 }

def incUses (m : M) : Books M := { b with numUses := add b.numUses m 1 }

def decUses (m : M) : Books M := { b with numUses := add b.numUses m (-1) }

/-- Only unicast hosts of a local network. -/
def addNetworkHosts (h : Host M A) (v : UInt32) : Books M :=
  match h.localNetworkId with
  | some n => if h.isUnicastHost env then { b with networkHosts := add b.networkHosts n v } else b
  | none => b

end Books

/-! ## What hosts do -/

variable (env : Env M A) (tree : Option (PoolTree M A))

/-- The MAC address first, then the address. -/
def getPool (h : Host M A) : Nat × Bool :=
  match h.mac.bind fun m => if env.isSpecialMac m then none else tree.bind fun t => t.findMac m with
  | some id => (id, true)
  | none => ((tree.bind fun t => t.findAddress h.vlanId h.ip.addr).getD NO_HOST_POOL_ID, false)

def updateHostPool (b : Books M) (h : Host M A) (isInlineCall firstUpdate : Bool) : Books M × Host M A :=
  let b := if !firstUpdate then b.decPoolNumHosts env h.hostPoolId isInlineCall else b
  let pool := getPool env tree h
  let h := { h with hostPoolId := pool.1, hostPoolIdIsFromMac := pool.2 }
  (b.incPoolNumHosts env h.hostPoolId isInlineCall, h)

def toggleRxOnlyHost (b : Books M) (h : Host M A) (rxOnly : Bool) : Books M × Host M A :=
  if h.isRxOnly = rxOnly then (b, h)
  else
    let b := if rxOnly = false then (b.decNumHosts env h true).incNumHosts env h false else b
    (b, { h with isRxOnly := rxOnly })

def leaveMac (b : Books M) (h : Host M A) : Books M :=
  match h.mac with
  | none => b
  | some m => (if !h.ip.isLocalHost then b.decNumRemoteHosts m else b).decUses m

def joinMac (b : Books M) (h : Host M A) (m : M) : Books M :=
  let b := b.incUses m
  if !h.ip.isLocalHost then b.incNumRemoteHosts m else b

def setMac (b : Books M) (h : Host M A) : Option M → Books M × Host M A
  | none => (b, h)
  | some m => if h.mac = some m then (b, h) else (joinMac (leaveMac b h) h m, { h with mac := some m })

/-- `Host::initialize`. -/
def hostInitialize (b : Books M) (cls : HostClass) (ip : IpAddress A) (vlanId : Nat) (mac : Option M) :
    Books M × Host M A :=
  let h : Host M A := ⟨cls, ip, vlanId, mac, false, NO_HOST_POOL_ID, false, none, false⟩
  let b := match mac with
    | some m => joinMac b h m
    | none => b
  toggleRxOnlyHost env b h true

def localHostInitialize (b : Books M) (h : Host M A) : Books M × Host M A :=
  let (b, h) := updateHostPool env tree b h true true
  let h := { h with
    localNetworkId := if h.ip.multicastIP || h.ip.broadcastIP then none else env.isLocalAddress h.ip.addr }
  ((b.addNetworkHosts env h 1).incNumHosts env h true, h)

def remoteHostInitialize (b : Books M) (h : Host M A) : Books M × Host M A :=
  let (b, h) := updateHostPool env tree b h true true
  (b.incNumHosts env h true, h)

/-- Which class `findFlowHosts` gives to a new host. -/
def isLocal (ip : IpAddress A) (vlanId : Nat) : Bool :=
  ip.isLocalHost || env.isLocalInterfaceAddress ip.addr || env.isInLocalASN ip.addr ||
    (env.useHostPoolsForLocal && (tree.bind fun t => t.findAddress vlanId ip.addr).any fun id =>
      id != NO_HOST_POOL_ID && id != DROP_HOST_POOL_ID)

def newHost (b : Books M) (ip : IpAddress A) (vlanId : Nat) (mac : Option M) : Books M × Host M A :=
  if isLocal env tree ip vlanId then
    let (b, h) := hostInitialize env b .localHost ip vlanId mac
    localHostInitialize env tree b h
  else
    let (b, h) := hostInitialize env b .remoteHost ip vlanId mac
    remoteHostInitialize env tree b h

def setHashEntryStateIdle (b : Books M) (h : Host M A) : Books M × Host M A :=
  let b := match h.cls with
    | .localHost => b.addNetworkHosts env h (-1)
    | .remoteHost => b
  (b, { h with idle := true })

/-- The destructor of the class, then that of `Host`. -/
def deleteHost (b : Books M) (h : Host M A) : Books M :=
  let b := b.decNumHosts env h h.isRxOnly
  (leaveMac b h).decPoolNumHosts env h.hostPoolId false

/-! ## The interface -/

structure Iface (M A : Type) where
  books : Books M
  tree : Option (PoolTree M A)
  hosts : List (Host M A)

inductive Ev (M A : Type) where
  | newHost (ip : IpAddress A) (vlanId : Nat) (mac : Option M)
  | toggleRxOnlyHost (i : Nat) (rxOnly : Bool)
  | setMac (i : Nat) (mac : Option M)
  | updateHostPool (i : Nat) (isInlineCall : Bool)
  | reloadPools (tree : PoolTree M A)
  | setHashEntryStateIdle (i : Nat)
  | deleteHost (i : Nat)

namespace Iface

variable (s : Iface M A)

/-- What one host does. -/
def onHost (i : Nat) (f : Books M → Host M A → Books M × Host M A) : Iface M A :=
  match s.hosts[i]? with
  | some h => { s with books := (f s.books h).1, hosts := s.hosts.set i (f s.books h).2 }
  | none => s

def step : Ev M A → Iface M A
  | .newHost ip vlanId mac =>
    let r := newHost env s.tree s.books ip vlanId mac
    { s with books := r.1, hosts := s.hosts ++ [r.2] }
  | .toggleRxOnlyHost i rxOnly => s.onHost i fun b h => Census.toggleRxOnlyHost env b h rxOnly
  | .setMac i mac => s.onHost i fun b h => Census.setMac b h mac
  | .updateHostPool i isInlineCall => s.onHost i fun b h => Census.updateHostPool env s.tree b h isInlineCall false
  | .reloadPools tree => { s with tree := some tree }
  | .setHashEntryStateIdle i => s.onHost i fun b h => Census.setHashEntryStateIdle env b h
  | .deleteHost i =>
    match s.hosts[i]? with
    | some h => { s with books := Census.deleteHost env s.books h, hosts := s.hosts.eraseIdx i }
    | none => s

end Iface

def Iface.init : Iface M A :=
  ⟨⟨fun _ => 0, [], fun _ => 0, fun _ => 0, fun _ => 0, fun _ => 0, 0, fun _ => 0⟩, none, []⟩

end Model

end Ntopng.Hosts.Census
