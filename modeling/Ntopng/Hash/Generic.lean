/-
  Ntopng.Hash.Generic — the hash table of flows, hosts, MACs, … (`GenericHash`,
  src/GenericHash.cpp) and the life of its entries.

  An entry is an id, its C++ object is `entries id` (`none` once deleted, or before it is
  created). `table` holds the bucket heads, `hashNext` the links. The vectors of idle
  entries are heap objects too, since `purgeIdle` passes them on by pointer. Reading an
  object that is not there is undefined behaviour: the step is then `none`.

  Two threads work on the table. The inline thread runs `purgeIdle`: one step per bucket
  taken, per entry of a locked bucket, and per detached entry set idle. The other thread
  runs `purgeQueuedIdleEntries`: one step per entry looked at. `add` and the holders'
  `incUses` and `decUses` come at any point between them, except that `add` waits for the
  lock of a bucket that is being walked. What the outside decides is in the event: the
  allocation of a vector, a busy lock, the virtual methods of the entry's class and the
  preferences.

  Ghost fields: `accepted` (what `add` took), `deleted` (what was deleted, each with its
  uses then) and `setIdle` (`set_hash_entry_state_idle` was called on the entry).
-/

import Ntopng.Lib.Run
import Ntopng.Lib.Chain

namespace Ntopng.Hash.Generic

open Ntopng.Lib.Run Ntopng.Lib.Chain

/-! ## Entries -/

inductive HashEntryState where
  | allocated
  | flowNotyetdetected
  | flowProtocoldetected
  | active
  | idle
  deriving DecidableEq, Repr

def HashEntryState.toNat : HashEntryState → Nat
  | allocated => 0
  | flowNotyetdetected => 1
  | flowProtocoldetected => 2
  | active => 3
  | idle => 4

/-- What `set_state` and the virtual methods of an entry read outside of it. -/
structure Env where
  /-- `trywrlock` on the bucket. -/
  lockFree : Bool
  /-- `iface->is_purge_idle_interface()`. -/
  purgeIdleInterface : Bool
  /-- `is_hash_entry_state_idle_transition_ready()`. -/
  idleTransitionReady : Bool
  /-- The state in which `housekeep` leaves the entry. -/
  housekeep : HashEntryState → HashEntryState
  /-- The class overrides `set_hash_entry_state_idle` with an empty body. -/
  idleOverridden : Bool
  /-- `!iface || iface->isRunning()`. -/
  running : Bool
  /-- `!iface->isPacketInterface() && skipDPIforCollectedFlows()`. -/
  skipDPI : Bool

structure GenericHashEntry where
  key : Nat
  hashNext : Option Nat
  hashEntryState : HashEntryState
  numUses : Int
  hashEntryId : Nat
  setIdle : Bool
  deriving DecidableEq, Repr

namespace GenericHashEntry

/-- An invalid transition is logged and not taken. -/
def setState (env : Env) (e : GenericHashEntry) (s : HashEntryState) : GenericHashEntry :=
  let cur := e.hashEntryState
  if (s.toNat < cur.toNat ∨
      (s.toNat ≠ cur.toNat + 1 ∧ ¬ (cur = .allocated ∧ s = .flowProtocoldetected) ∧
        ¬ (env.skipDPI ∧ cur = .allocated ∧ s = .active))) ∧ env.running then e
  else { e with hashEntryState := s }

def setHashEntryStateIdle (env : Env) (e : GenericHashEntry) : GenericHashEntry :=
  let e := { e with setIdle := true }
  if env.idleOverridden then e else e.setState env .idle

def setHashEntryStateActive (env : Env) (e : GenericHashEntry) : GenericHashEntry :=
  e.setState env .active

def housekeep (env : Env) (e : GenericHashEntry) : GenericHashEntry :=
  { e with hashEntryState := env.housekeep e.hashEntryState }

/-- What `purgeIdle` does to an entry that is not active yet. -/
def advance (env : Env) (e : GenericHashEntry) : GenericHashEntry :=
  let e := e.housekeep env
  if e.hashEntryState = .flowProtocoldetected then e.setHashEntryStateActive env else e

end GenericHashEntry

/-! ## The table -/

def purgeFraction : Nat := 60
def minNumVisitedEntries : Nat := 1024
def minNumIdleEntriesIf : Nat := 5000

/-- What the constructor is given. -/
structure Config where
  numHashes : Nat
  maxSize : Nat
  ifaceId : Nat
  numHashes_pos : 0 < numHashes

namespace Config

variable (c : Config)

/-- 30% more than asked for. -/
def maxHashSize : Nat := c.maxSize * 13 / 10
def upperNumVisitedEntries : Nat := min 200000 (c.maxHashSize / 10)
def purgeStep : Nat := max (c.numHashes / purgeFraction) 1
/-- The low 8 bits of the interface id, above the 24 bits of the serial. -/
def hashMask : Nat := (c.ifaceId &&& 0xFF) <<< 24
/-- The bucket of a key. -/
def bucket (key : Nat) : Nat := key % c.numHashes

end Config

/-- The locals of `purgeIdle`. -/
structure Call where
  forceIdle : Bool
  fullScan : Bool
  visitFraction : Nat
  bucketsChecked : Nat
  numDetached : Nat
  oldSize : Nat
  deriving DecidableEq, Repr

/-- Where the inline thread is in `purgeIdle`. -/
inductive PurgeIdle where
  | returned (numDetached : Nat)
  /-- At the head of the `for` loop. -/
  | buckets (call : Call) (j : Nat)
  /-- In the `while` loop over bucket `i`, whose lock it holds. -/
  | chain (call : Call) (j i : Nat) (prev head : Option Nat)
  /-- Setting idle the detached entries, at position `it` of the shadow vector. -/
  | settle (call : Call) (it : Nat)
  deriving DecidableEq, Repr

/-- Where the other thread is in `purgeQueuedIdleEntries`; `before` is `num_purged` at its start. -/
inductive PurgeQueued where
  | returned (numPurged : Nat)
  | drain (before curIdle it : Nat)
  | recheck (before it : Nat)
  deriving DecidableEq, Repr

structure GenericHash where
  table : Nat → Option Nat
  entries : Nat → Option GenericHashEntry
  created : Nat
  currentSize : Nat
  lastPurgedHash : Nat
  lastEntryId : Nat
  numIdleTransitions : Nat
  numPurged : Nat
  vectors : Nat → Option (List Nat)
  vectorsCreated : Nat
  idleEntriesInUse : List Nat
  idleEntries : Option Nat
  idleEntriesShadow : Option Nat
  purgeIdle : PurgeIdle
  purgeQueued : PurgeQueued
  accepted : List Nat
  deleted : List (Nat × Int)

/-- The constructor. -/
def new (c : Config) : GenericHash :=
  { table := fun _ => none
    entries := fun _ => none
    created := 0
    currentSize := 0
    lastPurgedHash := c.numHashes - 1
    lastEntryId := 0
    numIdleTransitions := 0
    numPurged := 0
    vectors := fun _ => none
    vectorsCreated := 0
    idleEntriesInUse := []
    idleEntries := none
    idleEntriesShadow := none
    purgeIdle := .returned 0
    purgeQueued := .returned 0
    accepted := []
    deleted := [] }

namespace GenericHash

variable (c : Config) (s : GenericHash)

def next (id : Nat) : Option Nat := (s.entries id).bind (·.hashNext)

def setEntry (id : Nat) (e : GenericHashEntry) : GenericHash :=
  { s with entries := Function.update s.entries id (some e) }

def setVector (v : Nat) (l : List Nat) : GenericHash :=
  { s with vectors := Function.update s.vectors v (some l) }

/-- The vector that `idle_entries_shadow` points to. -/
def shadow : Option (Nat × List Nat) := do
  let v ← s.idleEntriesShadow
  let l ← s.vectors v
  return (v, l)

def getNumEntries : Nat := s.currentSize

def getNumIdleEntries : Nat := s.numIdleTransitions - s.numPurged

def hasEmptyRoom : Bool :=
  if s.getNumIdleEntries > minNumIdleEntriesIf ∧ s.getNumIdleEntries > s.getNumEntries then false
  else s.getNumEntries + s.getNumIdleEntries ≤ c.maxHashSize

/-- The inline thread holds the lock of bucket `b`. -/
def locked (b : Nat) : Bool :=
  match s.purgeIdle with
  | .chain _ _ i _ _ => i == b
  | _ => false

/-- `add` of a new entry; the entry stays with the caller when there is no room. -/
def add (key : Nat) (state : HashEntryState) : GenericHash :=
  let h := s.created
  let e : GenericHashEntry :=
    { key := key, hashNext := none, hashEntryState := state, numUses := 0, hashEntryId := 0, setIdle := false }
  if s.hasEmptyRoom c then
    let hash := c.bucket key
    let lastEntryId := s.lastEntryId + 1
    { s with
      created := s.created + 1
      entries := Function.update s.entries h
        (some { e with hashEntryId := c.hashMask ||| s.lastEntryId, hashNext := s.table hash })
      table := Function.update s.table hash (some h)
      currentSize := s.currentSize + 1
      lastEntryId := if lastEntryId = 0x00FFFFFF then 0 else lastEntryId
      accepted := h :: s.accepted }
  else { s with created := s.created + 1, entries := Function.update s.entries h (some e) }

def addUses (id : Nat) (n : Int) : GenericHash :=
  match s.entries id with
  | some e => s.setEntry id { e with numUses := e.numUses + n }
  | none => s

/-- `delete` of an entry that was read as `e`. -/
def delete (id : Nat) (e : GenericHashEntry) : GenericHash :=
  { s with
    entries := Function.update s.entries id none
    deleted := (id, e.numUses) :: s.deleted
    numPurged := s.numPurged + 1 }

/-! ## purgeIdle -/

/-- From the call to the `for` loop. A vector that cannot be allocated ends the call after
    `idle_entries` was already moved. -/
def purgeIdleBegin (forceIdle fullScan disablePurge allocOk : Bool) : Option GenericHash :=
  let enter (s : GenericHash) : Option GenericHash := do
    let (_, l) ← s.shadow
    let visitFraction := if !forceIdle && !fullScan then c.purgeStep else c.numHashes
    return { s with purgeIdle := .buckets ⟨forceIdle, fullScan, visitFraction, 0, 0, l.length⟩ 0 }
  if disablePurge then some { s with purgeIdle := .returned 0 }
  else match s.idleEntries with
    | some _ => enter s
    | none =>
      let s := { s with idleEntries := s.idleEntriesShadow }
      if allocOk then
        enter { s with
          vectors := Function.update s.vectors s.vectorsCreated (some [])
          vectorsCreated := s.vectorsCreated + 1
          idleEntriesShadow := some s.vectorsCreated }
      else some { s with purgeIdle := .returned 0 }

/-- The `for` loop takes the bucket after the last purged one, unless enough were visited. -/
def nextBucket (env : Env) (call : Call) (j : Nat) : GenericHash :=
  if j < c.numHashes ∧ ¬ (!call.fullScan ∧ (call.bucketsChecked > c.upperNumVisitedEntries ∨
      (j > call.visitFraction ∧ call.bucketsChecked > minNumVisitedEntries))) then
    let i := if s.lastPurgedHash + 1 = c.numHashes then 0 else s.lastPurgedHash + 1
    let s := { s with lastPurgedHash := i }
    if (s.table i).isSome && env.lockFree then { s with purgeIdle := .chain call j i none (s.table i) }
    else { s with purgeIdle := .buckets call (j + 1) }
  else { s with purgeIdle := .settle call call.oldSize }

/-- The entry leaves its bucket for the shadow vector. -/
def detach (call : Call) (j i : Nat) (prev : Option Nat) (head : Nat) (next : Option Nat) :
    Option GenericHash := do
  let (v, l) ← s.shadow
  let s := s.setVector v (l ++ [head])
  let s ← match prev with
    | none => some { s with table := Function.update s.table i next }
    | some p => (s.entries p).map fun e => s.setEntry p { e with hashNext := next }
  let call := { call with numDetached := call.numDetached + 1 }
  return { s with currentSize := s.currentSize - 1, purgeIdle := .chain call j i prev next }

/-- The walk goes on behind `head`, which stays in its bucket as `e`. -/
def stepOver (call : Call) (j i head : Nat) (e : GenericHashEntry) : GenericHash :=
  { s.setEntry head e with purgeIdle := .chain call j i (some head) e.hashNext }

/-- One turn of the `while` loop on the entry `head`. -/
def visitEntry (env : Env) (call : Call) (j i : Nat) (prev : Option Nat) (head : Nat) :
    Option GenericHash := do
  let e ← s.entries head
  let call := { call with bucketsChecked := call.bucketsChecked + 1 }
  match e.hashEntryState with
  | .idle => return s.stepOver call j i head e
  | .allocated | .flowNotyetdetected | .flowProtocoldetected =>
    let e' := e.advance env
    if call.forceIdle then (s.setEntry head e').detach call j i prev head e.hashNext
    else return s.stepOver call j i head e'
  | .active =>
    if call.forceIdle || (env.purgeIdleInterface && env.idleTransitionReady) then
      s.detach call j i prev head e.hashNext
    else return s.stepOver call j i head (e.housekeep env)

/-- One detached entry is set idle and has its last housekeeping. -/
def settleNext (env : Env) (call : Call) (it : Nat) : Option GenericHash := do
  let (_, l) ← s.shadow
  match l[it]? with
  | none => return { s with purgeIdle := .returned call.numDetached }
  | some id =>
    let e ← s.entries id
    let s := s.setEntry id ((e.setHashEntryStateIdle env).housekeep env)
    return { s with numIdleTransitions := s.numIdleTransitions + 1, purgeIdle := .settle call (it + 1) }

/-! ## purgeQueuedIdleEntries -/

def purgeQueuedBegin : GenericHash :=
  match s.idleEntries with
  | some v => { s with idleEntries := none, purgeQueued := .drain s.numPurged v 0 }
  | none => { s with purgeQueued := .recheck s.numPurged 0 }

/-- The next entry of `cur_idle` is deleted, or kept apart while it is in use. -/
def drainNext (before curIdle it : Nat) : Option GenericHash := do
  let l ← s.vectors curIdle
  match l[it]? with
  | none =>
    return { s with vectors := Function.update s.vectors curIdle none, purgeQueued := .recheck before 0 }
  | some id =>
    let e ← s.entries id
    let s := { s with purgeQueued := .drain before curIdle (it + 1) }
    if e.numUses = 0 then return s.delete id e
    else return { s with idleEntriesInUse := s.idleEntriesInUse ++ [id] }

/-- The next entry kept apart is deleted if nobody uses it any more. -/
def recheckNext (before it : Nat) : Option GenericHash :=
  match s.idleEntriesInUse[it]? with
  | none => some { s with purgeQueued := .returned (s.numPurged - before) }
  | some id => do
    let e ← s.entries id
    if e.numUses = 0 then
      return { s with idleEntriesInUse := s.idleEntriesInUse.eraseIdx it }.delete id e
    else return { s with purgeQueued := .recheck before (it + 1) }

end GenericHash

/-! ## Runs -/

inductive Ev where
  | add (key : Nat) (state : HashEntryState)
  | incUses (id : Nat)
  | decUses (id : Nat)
  /-- The inline thread calls `purgeIdle`, or goes on with the call it is in. -/
  | purgeIdle (forceIdle fullScan disablePurge allocOk : Bool)
  | purgeIdleStep (env : Env)
  /-- The other thread calls `purgeQueuedIdleEntries`, or goes on with the call it is in. -/
  | purgeQueuedIdleEntries
  | purgeQueuedStep

variable (c : Config)

/-- An event whose thread is elsewhere, or waits for a lock, changes nothing. -/
def fire (s : GenericHash) : Ev → Option GenericHash
  | .add key state => if s.locked (c.bucket key) then some s else some (s.add c key state)
  | .incUses id => some (s.addUses id 1)
  | .decUses id => some (s.addUses id (-1))
  | .purgeIdle forceIdle fullScan disablePurge allocOk =>
    match s.purgeIdle with
    | .returned _ => s.purgeIdleBegin c forceIdle fullScan disablePurge allocOk
    | _ => some s
  | .purgeIdleStep env =>
    match s.purgeIdle with
    | .returned _ => some s
    | .buckets call j => some (s.nextBucket c env call j)
    | .chain call j _ _ none => some { s with purgeIdle := .buckets call (j + 1) }
    | .chain call j i prev (some head) => s.visitEntry env call j i prev head
    | .settle call it => s.settleNext env call it
  | .purgeQueuedIdleEntries =>
    match s.purgeQueued with
    | .returned _ => some s.purgeQueuedBegin
    | _ => some s
  | .purgeQueuedStep =>
    match s.purgeQueued with
    | .returned _ => some s
    | .drain before curIdle it => s.drainNext before curIdle it
    | .recheck before it => s.recheckNext before it

def step (σ : Option GenericHash) (e : Ev) : Option GenericHash := σ.bind fun s => fire c s e

/-! ## What holds in every state -/

namespace GenericHash

variable (s : GenericHash)

def shadowEntries : List Nat := (s.idleEntriesShadow.bind s.vectors).getD []

def queuedEntries : List Nat := (s.idleEntries.bind s.vectors).getD []

/-- What is left of the vector that `purgeQueuedIdleEntries` took from `idle_entries`. -/
def curIdleEntries : List Nat :=
  match s.purgeQueued with
  | .drain _ curIdle it => ((s.vectors curIdle).getD []).drop it
  | _ => []

/-- The entries waiting in the vectors. -/
def waiting : List Nat := s.shadowEntries ++ s.queuedEntries ++ s.curIdleEntries ++ s.idleEntriesInUse

def isSetIdle (id : Nat) : Bool := (s.entries id).any (·.setIdle)

end GenericHash

/-- Every accepted entry is in exactly one place, and the counters count the places. -/
structure Conserved (s : GenericHash) (chains : Nat → List Nat) : Prop where
  linked : ∀ b, b < c.numHashes → Linked s.next (s.table b) (chains b)
  ownBucket : ∀ b, b < c.numHashes → ∀ id ∈ chains b, ∃ e, s.entries id = some e ∧ c.bucket e.key = b
  nodup : s.accepted.Nodup
  onePlace : (flat c.numHashes chains ++ s.waiting ++ s.deleted.map (·.1)).Perm s.accepted
  currentSize : s.currentSize = (flat c.numHashes chains).length
  idleEntries : s.numIdleTransitions = s.numPurged + (s.waiting.filter s.isSetIdle).length
  unused : ∀ d ∈ s.deleted, d.2 = 0

def Holds : Option GenericHash → Prop
  | none => False
  | some s => ∃ chains, Conserved c s chains

/-- The one step that goes wrong: `purgeIdle` moves the shadow vector and then cannot
    allocate the new one. -/
def AllocFine (σ : Option GenericHash) : Ev → Prop
  | .purgeIdle _ _ disablePurge allocOk =>
    ∀ s, σ = some s → allocOk ∨ disablePurge ∨ s.idleEntries.isSome ∨ s.idleEntriesShadow = none
  | _ => True

end Ntopng.Hash.Generic
