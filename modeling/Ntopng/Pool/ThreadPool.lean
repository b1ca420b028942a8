/-
  Ntopng.Pool.ThreadPool — the pool that runs the periodic scripts (src/ThreadPool.cpp,
  src/QueuedThreadData.cpp, src/ThreadedActivity.cpp, src/ThreadedActivityStats.cpp).

  A caller of `queueJob` looks up the statistics of the script on the interface, gives up
  when its recorded state says that it is queued or running, and otherwise makes a job and
  pushes it under the mutex. A pool thread takes the oldest job under the mutex, marks the
  script running, runs it and marks it sleeping. The check of the state is outside the
  mutex, and once a shutdown is requested no statistics are found any more, so the state is
  no longer written.

  A step is what a thread does between two points where the others can see it. What the
  outside decides is in the event: who is next, allocations, `pthread_create`, and how the
  script went. Ghost fields: `created`, `accepted`, `started` and `dropped`.
-/

import Ntopng.Lib.Run

namespace Ntopng.Pool

open Ntopng.Lib.Run

/-! ## Scripts and jobs -/

inductive ThreadedActivityState where
  | unknown
  | sleeping
  | queued
  | running
  deriving DecidableEq, Repr

/-- `CONST_MAX_NUM_THREADED_ACTIVITIES`. -/
def maxNumThreadedActivities : Nat := 64

structure ThreadedActivityStats where
  state : ThreadedActivityState
  scheduledTime : Int
  deadline : Int
  notExecuted : Bool
  isSlow : Bool
  numNotExecuted : Nat
  numIsSlow : Nat
  deriving DecidableEq, Repr

namespace ThreadedActivityStats

variable (st : ThreadedActivityStats)

def new : ThreadedActivityStats :=
  { state := .unknown, scheduledTime := 0, deadline := 0, notExecuted := false, isSlow := false
    numNotExecuted := 0, numIsSlow := 0 }

/-- A transition that is not valid is only traced. -/
def setState (next : ThreadedActivityState) : ThreadedActivityStats :=
  if (st.state = .queued ∧ next ≠ .running) ∨ (st.state = .running ∧ next ≠ .sleeping) then st
  else { st with state := next }

def setScheduledTime (t : Int) : ThreadedActivityStats := { st with scheduledTime := t }
def setDeadline (t : Int) : ThreadedActivityStats := { st with deadline := t }

def setNotExecutedActivity (v : Bool) : ThreadedActivityStats :=
  { st with notExecuted := v, numNotExecuted := if v then st.numNotExecuted + 1 else st.numNotExecuted }

def setSlowPeriodicActivity (v : Bool) : ThreadedActivityStats :=
  { st with isSlow := v, numIsSlow := if v then st.numIsSlow + 1 else st.numIsSlow }

end ThreadedActivityStats

variable (κ : Type)

/-- A `QueuedThreadData`. The key is the interface and the script, of the activity that the script belongs to. -/
structure Job where
  id : Nat
  key : κ
  deadline : Int
  deriving DecidableEq, Repr

/-- Where a caller of `queueJob` is. -/
inductive Caller where
  | idle
  | called (key : κ) (scheduledTime deadline : Int)
  | checked (key : κ) (scheduledTime deadline : Int)
  | made (q : Job κ) (scheduledTime : Int)

/-- Where a thread of the pool is: at the top of `run`, in `dequeueJob`, with a job, in `QueuedThreadData::run`
    before, in and after the script. -/
inductive Worker where
  | absent
  | idle
  | waiting
  | holding (q : Job κ)
  | starting (q : Job κ)
  | running (q : Job κ)
  | ending (q : Job κ)
  | exited

variable {κ}

namespace Caller

def key : Caller κ → Option κ
  | .idle => none
  | .called key _ _ => some key
  | .checked key _ _ => some key
  | .made q _ => some q.key

/-- The key that was found queueable and is not pushed yet. -/
def passed : Caller κ → Option κ
  | .checked key _ _ => some key
  | .made q _ => some q.key
  | _ => none

def job : Caller κ → Option (Job κ)
  | .made q _ => some q
  | _ => none

end Caller

namespace Worker

def job : Worker κ → Option (Job κ)
  | .holding q | .starting q | .running q | .ending q => some q
  | _ => none

/-- `QueuedThreadData::run` was called. -/
def inRun : Worker κ → Bool
  | .starting _ | .running _ | .ending _ => true
  | _ => false

/-- The state is marked running. -/
def marked : Worker κ → Bool
  | .running _ | .ending _ => true
  | _ => false

end Worker

/-! ## The pool -/

structure Sys (κ : Type) where
  stats : κ → Option ThreadedActivityStats
  threads : List (Job κ)
  numThreads : Nat
  workers : Nat → Worker κ
  callers : Nat → Caller κ
  terminating : Bool
  shutdownRequested : Bool
  limitResourcesUsage : Bool
  created : Nat
  accepted : List (Job κ)
  started : List (Job κ)
  dropped : List (Job κ)

def start (limitResourcesUsage : Bool) : Sys κ :=
  { stats := fun _ => none, threads := [], numThreads := 0, workers := fun _ => .absent, callers := fun _ => .idle
    terminating := false, shutdownRequested := false, limitResourcesUsage := limitResourcesUsage, created := 0
    accepted := [], started := [], dropped := [] }

def isQueueable : ThreadedActivityState → Bool
  | .sleeping | .unknown => true
  | _ => false

namespace Sys

variable [DecidableEq κ] (s : Sys κ)

def setStats (k : κ) (st : ThreadedActivityStats) : Sys κ := { s with stats := Function.update s.stats k (some st) }

def setCaller (i : Nat) (c : Caller κ) : Sys κ := { s with callers := Function.update s.callers i c }

def setWorker (w : Nat) (x : Worker κ) : Sys κ := { s with workers := Function.update s.workers w x }

/-- `set_state`: without statistics, or in a shutdown, nothing is written. -/
def setState (k : κ) (next : ThreadedActivityState) : Sys κ :=
  if s.shutdownRequested then s
  else
    match s.stats k with
    | none => s
    | some st => s.setStats k (st.setState next)

def spawn (ok : Bool) : Sys κ :=
  if s.numThreads < maxNumThreadedActivities ∧ ok then
    { s.setWorker s.numThreads .idle with numThreads := s.numThreads + 1 }
  else s

/-- The first call makes five threads. -/
def spawnInitial (ok : Nat → Bool) : Sys κ :=
  if s.numThreads = 0 then (List.range 5).foldl (fun s n => s.spawn (ok n)) s else s

/-! ## queueJob -/

def queueJob (i : Nat) (k : κ) (scheduledTime deadline : Int) (spawnOk : Nat → Bool) : Sys κ :=
  if s.terminating then s else (s.spawnInitial spawnOk).setCaller i (.called k scheduledTime deadline)

/-- What is noted of a script that cannot be queued. -/
def noteBusy (k : κ) (st : ThreadedActivityStats) (scheduledTime : Int) : Sys κ :=
  if st.state = .queued then s.setStats k (st.setNotExecutedActivity true)
  else if st.state = .running ∧ st.deadline < scheduledTime then s.setStats k (st.setSlowPeriodicActivity true)
  else s

/-- In a shutdown there are none. -/
def getThreadedActivityStats (k : κ) (allocOk : Bool) : Option ThreadedActivityStats :=
  if s.shutdownRequested then none
  else
    match s.stats k with
    | some st => some st
    | none => if allocOk then some .new else none

/-- The statistics are looked up, or allocated, and the state is read. -/
def check (i : Nat) (k : κ) (scheduledTime deadline : Int) (allocOk : Bool) : Sys κ :=
  match s.getThreadedActivityStats k allocOk with
  | none => s.setCaller i .idle
  | some st =>
    let s := s.setStats k st
    if isQueueable st.state then s.setCaller i (.checked k scheduledTime deadline)
    else (s.noteBusy k st scheduledTime).setCaller i .idle

/-- The job is made, and a thread for it when many are waiting. -/
def make (i : Nat) (k : κ) (scheduledTime deadline : Int) (allocOk spawnOk : Bool) : Sys κ :=
  if allocOk then
    let s :=
      if !s.limitResourcesUsage && decide ((s.threads.length : Int) > s.numThreads - 3) then s.spawn spawnOk else s
    { s.setCaller i (.made ⟨s.created, k, deadline⟩ scheduledTime) with created := s.created + 1 }
  else s.setCaller i .idle

def noteScheduled (k : κ) (scheduledTime : Int) : Sys κ :=
  match s.stats k with
  | some st => s.setStats k (st.setScheduledTime scheduledTime)
  | none => s

/-- Under the mutex. -/
def push (i : Nat) (q : Job κ) (scheduledTime : Int) : Sys κ :=
  let s := (s.noteScheduled q.key scheduledTime).setState q.key .queued
  { s.setCaller i .idle with threads := s.threads ++ [q], accepted := s.accepted ++ [q] }

def callerStep (i : Nat) (allocOk spawnOk : Bool) : Sys κ :=
  match s.callers i with
  | .idle => s
  | .called k scheduledTime deadline => s.check i k scheduledTime deadline allocOk
  | .checked k scheduledTime deadline => s.make i k scheduledTime deadline allocOk spawnOk
  | .made q scheduledTime => s.push i q scheduledTime

/-! ## run -/

/-- Under the mutex. A thread that finds no job waits on. -/
def dequeueJob (w : Nat) : Sys κ :=
  if s.terminating then s.setWorker w .exited
  else
    match s.threads with
    | [] => s
    | q :: rest => { s.setWorker w (.holding q) with threads := rest }

/-- `ran` is false when the script cannot be loaded or is not for the interface. In a shutdown it is not run. -/
def runScript (q : Job κ) (ran slow : Bool) : Sys κ :=
  if s.shutdownRequested then s
  else
    let st := (s.stats q.key).getD .new
    let s := s.setStats q.key st
    if ran then
      let st := ((st.setDeadline q.deadline).setNotExecutedActivity false).setSlowPeriodicActivity false
      s.setStats q.key (if slow then st.setSlowPeriodicActivity true else st)
    else s

def workerStep (w : Nat) (ran slow : Bool) : Sys κ :=
  match s.workers w with
  | .absent => s
  | .idle => s.setWorker w (if s.terminating then .exited else .waiting)
  | .waiting => s.dequeueJob w
  | .holding q =>
    if s.terminating then { s.setWorker w .exited with dropped := s.dropped ++ [q] }
    else { s.setWorker w (.starting q) with started := s.started ++ [q] }
  | .starting q => (s.setState q.key .running).setWorker w (.running q)
  | .running q => (s.runScript q ran slow).setWorker w (.ending q)
  | .ending q => (s.setState q.key .sleeping).setWorker w .idle
  | .exited => s

end Sys

/-! ## Runs -/

inductive Ev (κ : Type) where
  | queueJob (i : Nat) (k : κ) (scheduledTime deadline : Int) (spawnOk : Nat → Bool)
  | callerStep (i : Nat) (allocOk spawnOk : Bool)
  | workerStep (w : Nat) (ran slow : Bool)
  /-- ntopng is asked to end. -/
  | requestShutdown
  /-- The pool is. -/
  | shutdown

variable [DecidableEq κ]

def step (s : Sys κ) : Ev κ → Sys κ
  | .queueJob i k scheduledTime deadline spawnOk =>
    match s.callers i with
    | .idle => s.queueJob i k scheduledTime deadline spawnOk
    | _ => s
  | .callerStep i allocOk spawnOk => s.callerStep i allocOk spawnOk
  | .workerStep w ran slow => s.workerStep w ran slow
  | .requestShutdown => { s with shutdownRequested := true }
  | .shutdown => { s with terminating := true }

/-! ## Jobs and states -/

/-- The state that is recorded of a script; there is none before it is first queued. -/
def recorded (s : Sys κ) (k : κ) : ThreadedActivityState := (s.stats k).elim .unknown (·.state)

/-- Queued, or with a thread until its state is marked sleeping. -/
def Active (s : Sys κ) (q : Job κ) : Prop := q ∈ s.threads ∨ ∃ w, (s.workers w).job = some q

/-- At most one job of the script is queued or running, in one place. -/
structure OneJob (k : κ) (s : Sys κ) : Prop where
  one : ∀ q q', Active s q → Active s q' → q.key = k → q'.key = k → q = q'
  queuedOnce : s.threads.Nodup
  oneWorker : ∀ w w' q, (s.workers w).job = some q → (s.workers w').job = some q → w = w'
  notBoth : ∀ w q, (s.workers w).job = some q → q ∉ s.threads

/-- Every job that was accepted is queued, in the hands of a thread that is about to run it, or was run once. Only a
    pool that is terminating drops one. -/
structure Accounted (s : Sys κ) : Prop where
  runOnce : s.started.Nodup
  accounted : ∀ q ∈ s.accepted,
    (q ∈ s.threads ∧ q ∉ s.started) ∨ ((∃ w, s.workers w = .holding q) ∧ q ∉ s.started) ∨
      (q ∈ s.started ∧ q ∉ s.threads) ∨ (q ∈ s.dropped ∧ s.terminating = true)

/-- The cycle of the states. -/
inductive Follows : ThreadedActivityState → ThreadedActivityState → Prop
  | queue : Follows .sleeping .queued
  | run : Follows .queued .running
  | sleep : Follows .running .sleeping

/-- And the first queueing of a script, of which no state was recorded. -/
inductive FollowsFromUnknown : ThreadedActivityState → ThreadedActivityState → Prop
  | first : FollowsFromUnknown .unknown .queued
  | cycle {a b : ThreadedActivityState} (h : Follows a b) : FollowsFromUnknown a b

/-- What a step does to the recorded state of the script. -/
def Moves (r : ThreadedActivityState → ThreadedActivityState → Prop) (k : κ) (s : Sys κ) (e : Ev κ) : Prop :=
  recorded (step s e) k = recorded s k ∨ r (recorded s k) (recorded (step s e) k)

/-- A call of `queueJob` for the script begins when no other is under way. -/
def Alone (k : κ) (s : Sys κ) : Ev κ → Prop
  | .queueJob i k' _ _ _ => k' = k → ∀ j, j ≠ i → (s.callers j).key ≠ some k
  | _ => True

end Ntopng.Pool
