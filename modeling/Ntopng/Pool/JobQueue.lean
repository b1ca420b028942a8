/-
  Ntopng.Pool.JobQueue — jobs of scripts, run as processes and collected later
  (src/JobQueue.cpp).

  `queueJob` appends a job under the next number. `idleTask`, called by the housekeeping
  and before each look for a result, starts queued jobs, reads what the running ones have
  written, and moves those that ended to the completed ones, where `getJobResult` finds
  their output. Whether `popen` succeeds, what a poll gives and what time it is comes from
  outside (`Env`). A log beside the queue notes what was accepted, started, read and
  delivered.

  Proved, for every run (`jobs_law`): all that is expected of the calls (`Good`) holds
  exactly if
  - the jobs that run after the start of queued ones are not more than eight: the limit is
    looked at once, then the whole queue is started (`limit_passed`),
  - no completed job is older than five minutes when `idleTask` is called: the flag that
    would have old results dropped is never set (`never_purged`),
  - a job that ends has written no zero byte: lines are kept as C strings,
  - fewer than 2^32 jobs were accepted.
  The rest holds in every such run: each accepted job is in one place, jobs start in order
  and once, and a result is what was read from its job, delivered once.
-/

import Ntopng.Lib.Run
import Ntopng.Lib.OrdMap

namespace Ntopng.Pool.Jobs

open Ntopng.Lib.Run Ntopng.Lib.OrdMap

/-! ## The code -/

/-- The characters of a job's command, or of its output. -/
abbrev Text := List UInt8

def maxNumConcurrentJobs : ℕ := 8
def maxNumQueuedJobs : ℕ := 256

structure JobQueue where
  jobId : UInt32
  jobQueue : List (UInt32 × Text)
  /-- What was read of each running job. -/
  runningJobs : List (UInt32 × Text)
  /-- When a job ended, and its output. -/
  completedJobs : List (UInt32 × ℕ × Text)
  isShutdown : Bool
  deriving DecidableEq, Repr

def JobQueue.new : JobQueue := ⟨0, [], [], [], false⟩

/-- What `pollSocket` and, where there is something to read, `fgets` give: the bytes `fgets` read. Nothing is to
    be read at the end of the list. -/
inductive Poll where
  | error
  | line (l : Text)
  | endOfFile
  deriving DecidableEq, Repr

structure Env where
  now : ℕ
  /-- Whether `popen` succeeds, job after job. -/
  popens : List Bool
  polls : UInt32 → List Poll

/-- `false` where the job is refused. -/
def queueJob (s : JobQueue) (job : Text) : Option UInt32 × JobQueue :=
  if s.isShutdown || decide (s.jobQueue.length > maxNumQueuedJobs) then (none, s)
  else (some s.jobId, { s with jobQueue := s.jobQueue ++ [(s.jobId, job)], jobId := s.jobId + 1 })

/-- `while (!job_queue.empty())`: the running and the completed jobs after it. -/
def startAll (now : ℕ) : List (UInt32 × Text) → List Bool → List (UInt32 × Text) → List (UInt32 × ℕ × Text) →
    List (UInt32 × Text) × List (UInt32 × ℕ × Text)
  | [], _, running, completed => (running, completed)
  | item :: queue, popens, running, completed =>
    if popens.headD true then startAll now queue popens.tail (put running item.1 []) completed
    else startAll now queue popens.tail running (put completed item.1 (now, []))

/-- Schedule a job if possible. -/
def startJobs (env : Env) (s : JobQueue) : JobQueue :=
  if s.runningJobs.length < maxNumConcurrentJobs then
    let (running, completed) := startAll env.now s.jobQueue env.popens s.runningJobs s.completedJobs
    { s with jobQueue := [], runningJobs := running, completedJobs := completed }
  else s

/-- One job of the loop: its output, and whether it ended. `append` takes the line as a C string. -/
def readJob : List Poll → Text → Text × Bool
  | [], out => (out, false)
  | .error :: _, out => (out, true)
  | .line l :: polls, out => readJob polls (out ++ l.takeWhile (· ≠ 0))
  | .endOfFile :: _, out => (out, true)

/-- Manage running jobs. -/
def manage (env : Env) : List (UInt32 × Text) → List (UInt32 × ℕ × Text) →
    List (UInt32 × Text) × List (UInt32 × ℕ × Text)
  | [], completed => ([], completed)
  | (id, out) :: running, completed =>
    let (out, ended) := readJob (env.polls id) out
    if ended then manage env running (put completed id (env.now, out))
    else
      let (running, completed) := manage env running completed
      ((id, out) :: running, completed)

/-- Delete results queued for 5 or more minutes. -/
def purgeOldResults (s : JobQueue) (now : ℕ) : JobQueue :=
  if s.isShutdown then s else { s with completedJobs := s.completedJobs.filter fun e => (now - 300) % 2 ^ 32 ≤ e.2.1 }

def idleTask (env : Env) (s : JobQueue) : JobQueue :=
  let jobCompleted := false
  if s.isShutdown then s
  else
    let s := startJobs env s
    let (running, completed) := manage env s.runningJobs s.completedJobs
    let s := { s with runningJobs := running, completedJobs := completed }
    if jobCompleted then purgeOldResults s env.now else s

/-- The refreshed queue is looked into. -/
def takeResult (s : JobQueue) (id : UInt32) : Option Text × JobQueue :=
  match find s.completedJobs id with
  | none => (none, s)
  | some (_, out) => (some out, { s with completedJobs := erase s.completedJobs id })

def getJobResult (env : Env) (s : JobQueue) (id : UInt32) : Option Text × JobQueue :=
  if s.isShutdown then (some [], s) else takeResult (idleTask env s) id

/-! ## The log -/

structure Log where
  accepted : List (UInt32 × Text)
  started : List (UInt32 × Text)
  /-- What was read from each job. -/
  read : UInt32 → Text
  delivered : List UInt32

structure Watched where
  queue : JobQueue
  log : Log

inductive Call where
  | queueJob (job : Text)
  | idleTask (env : Env)
  | getJobResult (id : UInt32) (env : Env)
  | shutdown

/-- The lines up to the first answer that is none. -/
def linesRead : List Poll → Text
  | .line l :: polls => l ++ linesRead polls
  | _ => []

/-- Whether a job ends before it has nothing more to say. -/
def ends : List Poll → Bool
  | [] => false
  | .line _ :: polls => ends polls
  | _ => true

/-- The jobs that `popen` starts, and those it does not. -/
def opened : List (UInt32 × Text) → List Bool → List UInt32
  | [], _ => []
  | item :: queue, popens => if popens.headD true then item.1 :: opened queue popens.tail else opened queue popens.tail

def failed : List (UInt32 × Text) → List Bool → List UInt32
  | [], _ => []
  | item :: queue, popens => if popens.headD true then failed queue popens.tail else item.1 :: failed queue popens.tail

/-- The jobs that run in a call: queued ones are started when there is room for one. -/
def active (env : Env) (s : JobQueue) : List UInt32 :=
  if s.runningJobs.length < maxNumConcurrentJobs then opened s.jobQueue env.popens ++ keys s.runningJobs
  else keys s.runningJobs

namespace Watched

def start : Watched := ⟨.new, ⟨[], [], fun _ => [], []⟩⟩

/-- Queued jobs are started when there was room for one. -/
def begun (env : Env) (s : Watched) : Watched :=
  { queue := startJobs env s.queue
    log := if s.queue.runningJobs.length < maxNumConcurrentJobs then
        { s.log with started := s.log.started ++ s.queue.jobQueue }
      else s.log }

def idle (env : Env) (s : Watched) : Watched :=
  if s.queue.isShutdown then s
  else
    { queue := idleTask env s.queue
      log := { (s.begun env).log with
        read := fun id =>
          if id ∈ keys (startJobs env s.queue).runningJobs then s.log.read id ++ linesRead (env.polls id)
          else s.log.read id } }

def step (s : Watched) : Call → Watched
  | .queueJob job =>
    { queue := (Jobs.queueJob s.queue job).2
      log := match (Jobs.queueJob s.queue job).1 with
        | some id => { s.log with accepted := s.log.accepted ++ [(id, job)] }
        | none => s.log }
  | .idleTask env => s.idle env
  | .getJobResult id env =>
    { queue := (Jobs.getJobResult env s.queue id).2
      -- The answer given during the shutdown is no job's output.
      log := if s.queue.isShutdown || (Jobs.getJobResult env s.queue id).1.isNone then (s.idle env).log
        else { (s.idle env).log with delivered := (s.idle env).log.delivered ++ [id] } }
  | .shutdown => { s with queue := { s.queue with isShutdown := true } }

/-- What is expected of every state. -/
structure Kept (s : Watched) : Prop where
  /-- No number is given twice. -/
  ids : (keys s.log.accepted).Nodup
  /-- Each accepted job is in one place, once. -/
  places : (keys s.queue.jobQueue ++ keys s.queue.runningJobs ++ keys s.queue.completedJobs ++ s.log.delivered).Perm
    (keys s.log.accepted)
  /-- Jobs are started once, in the order they were accepted. -/
  order : s.log.started ++ s.queue.jobQueue = s.log.accepted
  limit : s.queue.runningJobs.length ≤ maxNumConcurrentJobs
  outputs : ∀ e ∈ s.queue.completedJobs, e.2.2 = s.log.read e.1

/-- What is expected of `idleTask`: never too many jobs, and no old result left. -/
def IdleGood (env : Env) (s : Watched) : Prop :=
  (startJobs env s.queue).runningJobs.length ≤ maxNumConcurrentJobs ∧
    ∀ e ∈ (idleTask env s.queue).completedJobs, env.now ≤ e.2.1 + 300

/-- What is expected of a call. A result is what was read from the job, and was not delivered before. -/
def Good (s : Watched) (c : Call) : Prop :=
  Kept (s.step c) ∧
    match c with
    | .idleTask env => s.queue.isShutdown = false → IdleGood env s
    | .getJobResult id env => s.queue.isShutdown = false → IdleGood env s ∧
        ∀ out, (Jobs.getJobResult env s.queue id).1 = some out → id ∉ s.log.delivered ∧ out = (s.idle env).log.read id
    | _ => True

/-- The jobs that will run fit, no result is old, and what ends has written no zero byte. -/
structure IdleOk (env : Env) (s : Watched) : Prop where
  fit : (active env s.queue).length ≤ maxNumConcurrentJobs
  recent : ∀ e ∈ s.queue.completedJobs, env.now ≤ e.2.1 + 300
  noZero : ∀ id ∈ active env s.queue, ends (env.polls id) → 0 ∉ s.log.read id ++ linesRead (env.polls id)

def Ok (s : Watched) : Call → Prop
  | .queueJob _ =>
    s.queue.isShutdown = false → s.queue.jobQueue.length ≤ maxNumQueuedJobs → s.log.accepted.length < 2 ^ 32
  | .idleTask env => s.queue.isShutdown = false → IdleOk env s
  | .getJobResult _ env => s.queue.isShutdown = false → IdleOk env s
  | .shutdown => True

end Watched

/-! ## Starting jobs -/

theorem opened_failed_perm (queue : List (UInt32 × Text)) (popens : List Bool) :
    (opened queue popens ++ failed queue popens).Perm (keys queue) := by
  induction queue generalizing popens with
  | nil => exact List.Perm.refl _
  | cons item queue ih =>
    rw [opened, failed, keys, List.map_cons]
    split
    · exact (ih popens.tail).cons _
    · exact List.perm_middle.trans ((ih popens.tail).cons _)

theorem startAll_spec {now : ℕ} {queue : List (UInt32 × Text)} {popens : List Bool} {running : List (UInt32 × Text)}
    {completed : List (UInt32 × ℕ × Text)}
    (h : (keys queue ++ keys running ++ keys completed).Nodup) :
    (startAll now queue popens running completed).1.Perm ((opened queue popens).map (·, []) ++ running) ∧
      (startAll now queue popens running completed).2.Perm ((failed queue popens).map (·, now, []) ++ completed) := by
  induction queue generalizing popens running completed with
  | nil => exact ⟨List.Perm.refl _, List.Perm.refl _⟩
  | cons item queue ih =>
    rw [keys, List.map_cons, List.cons_append, List.cons_append, List.nodup_cons, ← keys] at h
    obtain ⟨hnew, hrest⟩ := h
    rw [List.mem_append, List.mem_append, not_or, not_or] at hnew
    rw [startAll, opened, failed]
    split
    · have hput := put_perm (v := ([] : Text)) hnew.1.2
      have hkeys : (keys (put running item.1 ([] : Text))).Perm (item.1 :: keys running) := hput.map Prod.fst
      have hnodup : (keys queue ++ keys (put running item.1 []) ++ keys completed).Nodup := by
        have hperm : (keys queue ++ keys (put running item.1 []) ++ keys completed).Perm
            (item.1 :: (keys queue ++ keys running ++ keys completed)) :=
          ((hkeys.append_left _).append_right _).trans (by
            rw [List.append_assoc, List.append_assoc]
            exact List.perm_middle)
        rw [hperm.nodup_iff, List.nodup_cons, List.mem_append, List.mem_append, not_or, not_or]
        exact ⟨hnew, hrest⟩
      obtain ⟨h1, h2⟩ := @ih popens.tail _ _ hnodup
      refine ⟨h1.trans ?_, h2⟩
      exact (hput.append_left _).trans List.perm_middle
    · have hput := put_perm (v := (now, ([] : Text))) hnew.2
      have hkeys : (keys (put completed item.1 (now, ([] : Text)))).Perm (item.1 :: keys completed) := hput.map Prod.fst
      have hnodup : (keys queue ++ keys running ++ keys (put completed item.1 (now, []))).Nodup := by
        have hperm : (keys queue ++ keys running ++ keys (put completed item.1 (now, []))).Perm
            (item.1 :: (keys queue ++ keys running ++ keys completed)) :=
          (hkeys.append_left _).trans List.perm_middle
        rw [hperm.nodup_iff, List.nodup_cons, List.mem_append, List.mem_append, not_or, not_or]
        exact ⟨hnew, hrest⟩
      obtain ⟨h1, h2⟩ := @ih popens.tail _ _ hnodup
      refine ⟨h1, h2.trans ?_⟩
      exact (hput.append_left _).trans List.perm_middle

/-! ## Reading jobs -/

/-- What is kept of the lines. -/
def linesKept : List Poll → Text
  | .line l :: polls => l.takeWhile (· ≠ 0) ++ linesKept polls
  | _ => []

theorem readJob_eq (polls : List Poll) (out : Text) : readJob polls out = (out ++ linesKept polls, ends polls) := by
  induction polls generalizing out with
  | nil => rw [readJob, linesKept, ends, List.append_nil]; intro l polls h; cases h
  | cons p polls ih =>
    cases p with
    | error => simp [readJob, linesKept, ends]
    | endOfFile => simp [readJob, linesKept, ends]
    | line l => rw [readJob, ih, linesKept, ends, List.append_assoc]

/-- A running job with what this call reads from it. -/
def heard (env : Env) (e : UInt32 × Text) : UInt32 × Text := (e.1, e.2 ++ linesKept (env.polls e.1))

theorem manage_spec {env : Env} {running : List (UInt32 × Text)} {completed : List (UInt32 × ℕ × Text)}
    (h : (keys running ++ keys completed).Nodup) :
    (manage env running completed).1 = (running.filter fun e => !ends (env.polls e.1)).map (heard env) ∧
      (manage env running completed).2.Perm
        ((running.filter fun e => ends (env.polls e.1)).map (fun e => (e.1, env.now, (heard env e).2)) ++
          completed) := by
  induction running generalizing completed with
  | nil => exact ⟨rfl, List.Perm.refl _⟩
  | cons e running ih =>
    obtain ⟨id, out⟩ := e
    rw [keys, List.map_cons, List.cons_append, List.nodup_cons, ← keys] at h
    obtain ⟨hnew, hrest⟩ := h
    rw [List.mem_append, not_or] at hnew
    rw [manage, readJob_eq]
    simp only
    by_cases hend : ends (env.polls id)
    · have hput := put_perm (v := (env.now, out ++ linesKept (env.polls id))) hnew.2
      have hkeys : (keys (put completed id (env.now, out ++ linesKept (env.polls id)))).Perm (id :: keys completed) :=
        hput.map Prod.fst
      have hnodup : (keys running ++ keys (put completed id (env.now, out ++ linesKept (env.polls id)))).Nodup := by
        rw [((hkeys.append_left _).trans List.perm_middle).nodup_iff, List.nodup_cons, List.mem_append, not_or]
        exact ⟨hnew, hrest⟩
      obtain ⟨h1, h2⟩ := ih hnodup
      rw [if_pos hend]
      refine ⟨?_, ?_⟩
      · rw [h1, List.filter_cons_of_neg (by simp [hend])]
      · rw [List.filter_cons_of_pos (p := fun e : UInt32 × Text => ends (env.polls e.1)) hend]
        exact h2.trans ((hput.append_left _).trans List.perm_middle)
    · obtain ⟨h1, h2⟩ := ih hrest
      rw [if_neg hend]
      refine ⟨?_, ?_⟩
      · rw [List.filter_cons_of_pos (by simp [hend]), List.map_cons, ← h1]
        rfl
      · rw [List.filter_cons_of_neg (p := fun e : UInt32 × Text => ends (env.polls e.1)) hend]
        exact h2

/-! ## Zero bytes -/

/-- What is kept of what was read: all of it, or less where there is a zero byte. -/
def Stored (out read : Text) : Prop := 0 ∉ read ∧ out = read ∨ 0 ∈ read ∧ out.length < read.length

theorem Stored.eq_iff {out read : Text} (h : Stored out read) : out = read ↔ 0 ∉ read := by
  rcases h with ⟨hno, rfl⟩ | ⟨hzero, hlen⟩
  · simp [hno]
  · constructor
    · intro heq
      rw [heq] at hlen
      exact absurd hlen (lt_irrefl _)
    · intro hno
      exact absurd hzero hno

theorem stored_line (l : Text) : Stored (l.takeWhile (· ≠ 0)) l := by
  by_cases h : 0 ∈ l
  · refine Or.inr ⟨h, lt_of_le_of_ne (List.takeWhile_prefix _).length_le fun hlen => ?_⟩
    have heq := (List.takeWhile_prefix (fun c : UInt8 => decide (c ≠ 0)) (l := l)).eq_of_length hlen
    rw [List.takeWhile_eq_self_iff] at heq
    simpa using heq 0 h
  · refine Or.inl ⟨h, List.takeWhile_eq_self_iff.mpr fun c hc => decide_eq_true fun hzero => h ?_⟩
    rw [← hzero]
    exact hc

theorem Stored.append {out read out' read' : Text} (h : Stored out read) (h' : Stored out' read') :
    Stored (out ++ out') (read ++ read') := by
  have hle : out.length ≤ read.length := by
    rcases h with ⟨_, rfl⟩ | ⟨_, hlen⟩
    · exact le_refl _
    · exact hlen.le
  have hle' : out'.length ≤ read'.length := by
    rcases h' with ⟨_, rfl⟩ | ⟨_, hlen⟩
    · exact le_refl _
    · exact hlen.le
  simp only [Stored, List.mem_append, List.length_append, not_or]
  rcases h with ⟨hno, rfl⟩ | ⟨hzero, hlen⟩
  · rcases h' with ⟨hno', rfl⟩ | ⟨hzero', hlen'⟩
    · exact Or.inl ⟨⟨hno, hno'⟩, rfl⟩
    · exact Or.inr ⟨Or.inr hzero', by omega⟩
  · exact Or.inr ⟨Or.inl hzero, by omega⟩

theorem stored_polls (polls : List Poll) : Stored (linesKept polls) (linesRead polls) := by
  induction polls with
  | nil => exact Or.inl ⟨List.not_mem_nil, rfl⟩
  | cons p polls ih =>
    cases p with
    | error => exact Or.inl ⟨List.not_mem_nil, rfl⟩
    | endOfFile => exact Or.inl ⟨List.not_mem_nil, rfl⟩
    | line l => exact (stored_line l).append ih

/-! ## One call of `idleTask` -/

theorem numbers_nodup_iff (n : ℕ) : ((List.range n).map UInt32.ofNat).Nodup ↔ n ≤ 2 ^ 32 := by
  constructor
  · intro h
    by_contra hn
    have heq := List.inj_on_of_nodup_map h (List.mem_range.mpr (show 0 < n by omega))
      (List.mem_range.mpr (show 2 ^ 32 < n by omega)) (by decide)
    exact absurd heq (by decide)
  · intro hn
    refine List.Nodup.map_on (fun a ha b hb heq => ?_) List.nodup_range
    have hnat := congrArg UInt32.toNat heq
    rw [List.mem_range] at ha hb
    rwa [UInt32.toNat_ofNat', UInt32.toNat_ofNat', Nat.mod_eq_of_lt (by omega), Nat.mod_eq_of_lt (by omega)] at hnat

namespace Watched

variable {s : Watched} {env : Env}

/-- What holds after every call, whether it is one of those the conditions are about or not. -/
structure Base (s : Watched) : Prop where
  ids : (keys s.log.accepted).Nodup
  places : (keys s.queue.jobQueue ++ keys s.queue.runningJobs ++ keys s.queue.completedJobs ++ s.log.delivered).Perm
    (keys s.log.accepted)
  order : s.log.started ++ s.queue.jobQueue = s.log.accepted
  numbered : keys s.log.accepted = (List.range s.log.accepted.length).map UInt32.ofNat
  next : s.queue.jobId = UInt32.ofNat s.log.accepted.length
  unread : ∀ id, id ∉ keys s.log.started → s.log.read id = []
  stored : ∀ e ∈ s.queue.runningJobs, Stored e.2 (s.log.read e.1)

theorem Base.nodup (h : Base s) :
    (keys s.queue.jobQueue ++ keys s.queue.runningJobs ++ keys s.queue.completedJobs ++ s.log.delivered).Nodup :=
  h.places.nodup_iff.mpr h.ids

theorem Base.queued_unread (h : Base s) {id : UInt32} (hid : id ∈ keys s.queue.jobQueue) : s.log.read id = [] := by
  refine h.unread id fun hstarted => ?_
  have hnodup := h.ids
  rw [← h.order, keys, List.map_append, List.nodup_append] at hnodup
  exact hnodup.2.2 id hstarted id hid rfl

/-- The jobs that are started now, and those that cannot be. -/
def starts (env : Env) (s : JobQueue) : List UInt32 :=
  if s.runningJobs.length < maxNumConcurrentJobs then opened s.jobQueue env.popens else []

def fails (env : Env) (s : JobQueue) : List UInt32 :=
  if s.runningJobs.length < maxNumConcurrentJobs then failed s.jobQueue env.popens else []

theorem active_eq (env : Env) (q : JobQueue) : active env q = starts env q ++ keys q.runningJobs := by
  rw [active, starts]
  split
  · rfl
  · rw [List.nil_append]

theorem startJobs_queue (env : Env) (q : JobQueue) :
    (keys (startJobs env q).jobQueue ++ (starts env q ++ fails env q)).Perm (keys q.jobQueue) := by
  rw [startJobs, starts, fails]
  split
  · exact opened_failed_perm ..
  · rw [List.append_nil, List.append_nil]

theorem startJobs_maps (h : Base s) (env : Env) :
    (startJobs env s.queue).runningJobs.Perm ((starts env s.queue).map (·, []) ++ s.queue.runningJobs) ∧
      (startJobs env s.queue).completedJobs.Perm
        ((fails env s.queue).map (·, env.now, []) ++ s.queue.completedJobs) := by
  rw [startJobs, starts, fails]
  split
  · exact startAll_spec (List.nodup_append.mp h.nodup).1
  · exact ⟨List.Perm.refl _, List.Perm.refl _⟩

theorem mem_starts {id : UInt32} (h : id ∈ starts env s.queue) : id ∈ keys s.queue.jobQueue :=
  (startJobs_queue env s.queue).subset (List.mem_append_right _ (List.mem_append_left _ h))

theorem mem_fails {id : UInt32} (h : id ∈ fails env s.queue) : id ∈ keys s.queue.jobQueue :=
  (startJobs_queue env s.queue).subset (List.mem_append_right _ (List.mem_append_right _ h))

theorem startJobs_running (h : Base s) (env : Env) :
    (keys (startJobs env s.queue).runningJobs).Perm (active env s.queue) := by
  have hperm := (startJobs_maps h env).1.map Prod.fst
  rw [List.map_append, List.map_map, Function.comp_def, List.map_id'] at hperm
  rw [active_eq]
  exact hperm

theorem startJobs_completed (h : Base s) (env : Env) :
    (keys (startJobs env s.queue).completedJobs).Perm (fails env s.queue ++ keys s.queue.completedJobs) := by
  have hperm := (startJobs_maps h env).2.map Prod.fst
  rw [List.map_append, List.map_map, Function.comp_def, List.map_id'] at hperm
  exact hperm

theorem startJobs_places (h : Base s) (env : Env) :
    (keys (startJobs env s.queue).jobQueue ++ keys (startJobs env s.queue).runningJobs ++
      keys (startJobs env s.queue).completedJobs ++ s.log.delivered).Perm (keys s.log.accepted) := by
  refine List.perm_iff_count.mpr fun id => ?_
  have hqueue := (startJobs_queue env s.queue).count_eq id
  have hrunning := (startJobs_running h env).count_eq id
  have hcompleted := (startJobs_completed h env).count_eq id
  have hplaces := h.places.count_eq id
  rw [active_eq] at hrunning
  simp only [List.count_append] at hqueue hrunning hcompleted hplaces ⊢
  omega

theorem startJobs_stored (h : Base s) {e : UInt32 × Text} (he : e ∈ (startJobs env s.queue).runningJobs) :
    Stored e.2 (s.log.read e.1) := by
  rcases List.mem_append.mp ((startJobs_maps h env).1.subset he) with he | he
  · obtain ⟨id, hid, rfl⟩ := List.mem_map.mp he
    rw [h.queued_unread (mem_starts hid)]
    exact Or.inl ⟨List.not_mem_nil, rfl⟩
  · exact h.stored e he

theorem manage_idle (h : Base s) (env : Env) :
    (manage env (startJobs env s.queue).runningJobs (startJobs env s.queue).completedJobs).1 =
        ((startJobs env s.queue).runningJobs.filter fun e => !ends (env.polls e.1)).map (heard env) ∧
      (manage env (startJobs env s.queue).runningJobs (startJobs env s.queue).completedJobs).2.Perm
        (((startJobs env s.queue).runningJobs.filter fun e => ends (env.polls e.1)).map
          (fun e => (e.1, env.now, (heard env e).2)) ++ (startJobs env s.queue).completedJobs) := by
  refine manage_spec ?_
  have hnodup := (startJobs_places h env).nodup_iff.mpr h.ids
  rw [List.append_assoc (keys (startJobs env s.queue).jobQueue)] at hnodup
  exact (List.nodup_append.mp (List.nodup_append.mp hnodup).1).2.1

theorem idle_read (hup : s.queue.isShutdown = false) (h : Base s) (id : UInt32) : (s.idle env).log.read id =
    if id ∈ active env s.queue then s.log.read id ++ linesRead (env.polls id) else s.log.read id := by
  rw [idle, hup]
  simp only [Bool.false_eq_true, if_false, (startJobs_running h env).mem_iff]

theorem idle_queue (hup : s.queue.isShutdown = false) : (s.idle env).queue =
    { startJobs env s.queue with
      runningJobs := (manage env (startJobs env s.queue).runningJobs (startJobs env s.queue).completedJobs).1
      completedJobs := (manage env (startJobs env s.queue).runningJobs (startJobs env s.queue).completedJobs).2 } := by
  rw [idle, hup, if_neg Bool.false_ne_true]
  simp only [idleTask, hup, Bool.false_eq_true, if_false]

theorem idle_keys (env : Env) (hup : s.queue.isShutdown = false) (h : Base s) :
    (keys (s.idle env).queue.runningJobs ++ keys (s.idle env).queue.completedJobs).Perm
      (keys (startJobs env s.queue).runningJobs ++ keys (startJobs env s.queue).completedJobs) := by
  obtain ⟨hrunning, hcompleted⟩ := manage_idle h env
  rw [idle_queue hup]
  have hkeys := hcompleted.map Prod.fst
  have hsame : (Prod.fst ∘ heard env) = Prod.fst := rfl
  have hended : (Prod.fst ∘ fun e : UInt32 × Text => (e.1, env.now, (heard env e).2)) = Prod.fst := rfl
  rw [List.map_append, List.map_map, hended] at hkeys
  have hfilter := (List.filter_append_perm (fun e : UInt32 × Text => ends (env.polls e.1))
    (startJobs env s.queue).runningJobs).map Prod.fst
  rw [List.map_append] at hfilter
  refine List.perm_iff_count.mpr fun id => ?_
  have hcount := hkeys.count_eq id
  have hsplit := hfilter.count_eq id
  simp only [keys, hrunning, List.map_map, hsame, List.count_append] at hcount hsplit ⊢
  omega

theorem idle_shutdown (hdown : s.queue.isShutdown = true) : s.idle env = s := by
  rw [idle, hdown, if_pos rfl]

theorem idle_accepted (s : Watched) (env : Env) : (s.idle env).log.accepted = s.log.accepted ∧
    (s.idle env).log.delivered = s.log.delivered ∧ (s.idle env).queue.jobId = s.queue.jobId := by
  rcases Bool.eq_false_or_eq_true s.queue.isShutdown with hdown | hup
  · rw [idle_shutdown hdown]
    exact ⟨rfl, rfl, rfl⟩
  · rw [idle_queue hup, idle, hup, if_neg Bool.false_ne_true, begun, startJobs]
    by_cases hroom : s.queue.runningJobs.length < maxNumConcurrentJobs
    · simp [hroom]
    · simp [hroom]

/-- Either the whole queue is started, or nothing. -/
theorem idle_started (env : Env) (hup : s.queue.isShutdown = false) : (s.idle env).log.started = s.log.started ++ s.queue.jobQueue ∧
      (s.idle env).queue.jobQueue = [] ∨
    (s.idle env).log.started = s.log.started ∧ (s.idle env).queue.jobQueue = s.queue.jobQueue ∧
      active env s.queue = keys s.queue.runningJobs := by
  rw [idle_queue hup, idle, hup, if_neg Bool.false_ne_true, begun, startJobs, active]
  by_cases hroom : s.queue.runningJobs.length < maxNumConcurrentJobs
  · simp [hroom]
  · simp [hroom]

theorem active_places (h : Base s) {id : UInt32} (hid : id ∈ active env s.queue) : id ∈ keys s.log.accepted := by
  refine h.places.subset (List.mem_append_left _ (List.mem_append_left _ ?_))
  rw [active_eq] at hid
  rcases List.mem_append.mp hid with hid | hid
  · exact List.mem_append_left _ (mem_starts hid)
  · exact List.mem_append_right _ hid

theorem running_started (h : Base s) {id : UInt32} (hid : id ∈ keys s.queue.runningJobs) : id ∈ keys s.log.started := by
  have haccepted : id ∈ keys s.log.accepted :=
    h.places.subset (List.mem_append_left _ (List.mem_append_left _ (List.mem_append_right _ hid)))
  rw [← h.order, keys, List.map_append] at haccepted
  rcases List.mem_append.mp haccepted with hstarted | hqueued
  · exact hstarted
  · have hnodup := (List.nodup_append.mp (List.nodup_append.mp h.nodup).1).1
    exact absurd rfl ((List.nodup_append.mp hnodup).2.2 id hqueued id hid)

theorem idle_unread (hup : s.queue.isShutdown = false) (h : Base s) {id : UInt32}
    (hid : id ∉ keys (s.idle env).log.started) : (s.idle env).log.read id = [] := by
  have hquiet : id ∉ active env s.queue ∧ id ∉ keys s.log.started := by
    rcases idle_started env hup with ⟨hstarted, _⟩ | ⟨hstarted, _, hactive⟩
    · rw [hstarted, h.order] at hid
      refine ⟨fun hactive => hid (active_places h hactive), fun hbefore => hid ?_⟩
      rw [← h.order, keys, List.map_append]
      exact List.mem_append_left _ hbefore
    · rw [hstarted] at hid
      rw [hactive]
      exact ⟨fun hrunning => hid (running_started h hrunning), hid⟩
  rw [idle_read hup h, if_neg hquiet.1]
  exact h.unread id hquiet.2

theorem mem_active (h : Base s) {e : UInt32 × Text} (he : e ∈ (startJobs env s.queue).runningJobs) :
    e.1 ∈ active env s.queue :=
  (startJobs_running h env).subset (List.mem_map_of_mem he)

theorem heard_stored (hup : s.queue.isShutdown = false) (h : Base s) {e : UInt32 × Text}
    (he : e ∈ (startJobs env s.queue).runningJobs) : Stored (heard env e).2 ((s.idle env).log.read e.1) := by
  rw [idle_read hup h, if_pos (mem_active h he)]
  exact (startJobs_stored h he).append (stored_polls _)

theorem base_idle (h : Base s) (env : Env) : Base (s.idle env) := by
  rcases Bool.eq_false_or_eq_true s.queue.isShutdown with hdown | hup
  · rw [idle_shutdown hdown]
    exact h
  · obtain ⟨haccepted, hdelivered, hjobId⟩ := idle_accepted s env
    refine ⟨?_, ?_, ?_, ?_, ?_, fun id => idle_unread hup h, ?_⟩
    · rw [haccepted]
      exact h.ids
    · have hqueue : (s.idle env).queue.jobQueue = (startJobs env s.queue).jobQueue := by rw [idle_queue hup]
      rw [haccepted, hdelivered, hqueue]
      refine List.perm_iff_count.mpr fun id => ?_
      have hkeys := (idle_keys env hup h).count_eq id
      have hplaces := (startJobs_places h env).count_eq id
      simp only [List.count_append] at hkeys hplaces ⊢
      omega
    · rw [haccepted]
      rcases idle_started env hup with ⟨hstarted, hqueue⟩ | ⟨hstarted, hqueue, _⟩
      · rw [hstarted, hqueue, List.append_nil, h.order]
      · rw [hstarted, hqueue, h.order]
    · rw [haccepted]
      exact h.numbered
    · rw [hjobId, haccepted]
      exact h.next
    · intro e he
      rw [idle_queue hup] at he
      simp only [(manage_idle h env).1] at he
      obtain ⟨e', he', rfl⟩ := List.mem_map.mp he
      exact heard_stored hup h (List.mem_of_mem_filter he')

/-- What is completed after the call: jobs that ended, jobs that could not be started, and what was before. -/
theorem mem_completed (hup : s.queue.isShutdown = false) (h : Base s) {e : UInt32 × ℕ × Text} :
    e ∈ (s.idle env).queue.completedJobs ↔
      (∃ e' ∈ (startJobs env s.queue).runningJobs, ends (env.polls e'.1) ∧ e = (e'.1, env.now, (heard env e').2)) ∨
      (∃ id ∈ fails env s.queue, e = (id, env.now, [])) ∨ e ∈ s.queue.completedJobs := by
  have hcompleted : e ∈ (s.idle env).queue.completedJobs ↔ e ∈ (manage env (startJobs env s.queue).runningJobs
      (startJobs env s.queue).completedJobs).2 := by rw [idle_queue hup]
  rw [hcompleted, (manage_idle h env).2.mem_iff, List.mem_append, (startJobs_maps h env).2.mem_iff, List.mem_append,
    List.mem_map, List.mem_map]
  simp only [List.mem_filter, and_assoc, eq_comm]

theorem idleGood_iff (hup : s.queue.isShutdown = false) (h : Base s) : IdleGood env s ↔
    (active env s.queue).length ≤ maxNumConcurrentJobs ∧ ∀ e ∈ s.queue.completedJobs, env.now ≤ e.2.1 + 300 := by
  have hlength := (startJobs_running h env).length_eq
  rw [keys, List.length_map] at hlength
  have hqueue : (idleTask env s.queue).completedJobs = (s.idle env).queue.completedJobs := by
    rw [idle, hup]
    rfl
  rw [IdleGood, hlength, hqueue]
  refine and_congr_right fun _ => ⟨fun hall e he => ?_, fun hall e he => ?_⟩
  · exact hall e ((mem_completed hup h).mpr (Or.inr (Or.inr he)))
  · rcases (mem_completed hup h).mp he with ⟨e', _, _, rfl⟩ | ⟨id, _, rfl⟩ | he
    · exact Nat.le_add_right ..
    · exact Nat.le_add_right ..
    · exact hall e he

theorem completed_quiet (h : Base s) {id : UInt32} (hid : id ∈ fails env s.queue ++ keys s.queue.completedJobs) :
    id ∉ active env s.queue := by
  intro hactive
  have hnodup := (startJobs_places h env).nodup_iff.mpr h.ids
  rw [List.append_assoc (keys (startJobs env s.queue).jobQueue)] at hnodup
  have hmaps := (List.nodup_append.mp (List.nodup_append.mp hnodup).1).2.1
  exact (List.nodup_append.mp hmaps).2.2 id ((startJobs_running h env).mem_iff.mpr hactive) id
    ((startJobs_completed h env).mem_iff.mpr hid) rfl

theorem outputs_iff (hup : s.queue.isShutdown = false) (h : Base s)
    (hbefore : ∀ e ∈ s.queue.completedJobs, e.2.2 = s.log.read e.1) :
    (∀ e ∈ (s.idle env).queue.completedJobs, e.2.2 = (s.idle env).log.read e.1) ↔
      ∀ id ∈ active env s.queue, ends (env.polls id) → 0 ∉ s.log.read id ++ linesRead (env.polls id) := by
  constructor
  · intro hall id hid hend
    obtain ⟨e, he, rfl⟩ := List.mem_map.mp ((startJobs_running h env).mem_iff.mpr hid)
    have heq := hall _ ((mem_completed hup h).mpr (Or.inl ⟨e, he, hend, rfl⟩))
    have hzero := (heard_stored hup h he).eq_iff.mp heq
    rwa [idle_read hup h, if_pos hid] at hzero
  · intro hall e he
    rcases (mem_completed hup h).mp he with ⟨e', he', hend, rfl⟩ | ⟨id, hid, rfl⟩ | he
    · have hzero := hall e'.1 (mem_active h he') hend
      rw [← if_pos (c := e'.1 ∈ active env s.queue) (mem_active h he')
        (t := s.log.read e'.1 ++ linesRead (env.polls e'.1)) (e := s.log.read e'.1), ← idle_read hup h] at hzero
      exact (heard_stored hup h he').eq_iff.mpr hzero
    · rw [idle_read hup h, if_neg (completed_quiet h (List.mem_append_left _ hid)), h.queued_unread (mem_fails hid)]
    · rw [idle_read hup h, if_neg (completed_quiet h (List.mem_append_right _ (List.mem_map_of_mem he)))]
      exact hbefore e he

/-! ## Calls -/

/-- What holds after a run of good calls. -/
structure Inv (s : Watched) : Prop where
  base : Base s
  limit : s.queue.runningJobs.length ≤ maxNumConcurrentJobs
  outputs : ∀ e ∈ s.queue.completedJobs, e.2.2 = s.log.read e.1

theorem Inv.kept (h : Inv s) : Kept s := ⟨h.base.ids, h.base.places, h.base.order, h.limit, h.outputs⟩

theorem Kept.inv (h : Kept s) (hbase : Base s) : Inv s := ⟨hbase, h.limit, h.outputs⟩

theorem inv_start : Inv start := by
  refine ⟨⟨List.nodup_nil, List.Perm.refl _, rfl, rfl, rfl, fun _ _ => rfl, fun e he => ?_⟩, ?_, fun e he => ?_⟩
  · exact absurd he List.not_mem_nil
  · exact Nat.zero_le _
  · exact absurd he List.not_mem_nil

theorem idle_limit (hup : s.queue.isShutdown = false) (h : Base s)
    (hfit : (active env s.queue).length ≤ maxNumConcurrentJobs) :
    (s.idle env).queue.runningJobs.length ≤ maxNumConcurrentJobs := by
  have hrunning : (s.idle env).queue.runningJobs =
      ((startJobs env s.queue).runningJobs.filter fun e => !ends (env.polls e.1)).map (heard env) := by
    rw [idle_queue hup]
    exact (manage_idle h env).1
  have hlength := (startJobs_running h env).length_eq
  rw [keys, List.length_map] at hlength
  rw [hrunning, List.length_map]
  exact (List.length_filter_le ..).trans (hlength ▸ hfit)

theorem inv_idle_iff (hup : s.queue.isShutdown = false) (h : Inv s) :
    Inv (s.idle env) ∧ IdleGood env s ↔ IdleOk env s := by
  rw [idleGood_iff hup h.base]
  constructor
  · rintro ⟨hinv, hfit, hrecent⟩
    exact ⟨hfit, hrecent, (outputs_iff hup h.base h.outputs).mp hinv.outputs⟩
  · rintro ⟨hfit, hrecent, hzero⟩
    exact ⟨⟨base_idle h.base env, idle_limit hup h.base hfit, (outputs_iff hup h.base h.outputs).mpr hzero⟩, hfit,
      hrecent⟩

/-! ### Queueing -/

theorem queueJob_refused {job : Text}
    (href : s.queue.isShutdown = true ∨ maxNumQueuedJobs < s.queue.jobQueue.length) :
    s.step (.queueJob job) = s := by
  have hcond : (s.queue.isShutdown || decide (s.queue.jobQueue.length > maxNumQueuedJobs)) = true := by
    simpa using href
  rw [step, queueJob, if_pos hcond]

theorem queueJob_taken {job : Text} (hup : s.queue.isShutdown = false)
    (hroom : s.queue.jobQueue.length ≤ maxNumQueuedJobs) : s.step (.queueJob job) =
    { queue := { s.queue with jobQueue := s.queue.jobQueue ++ [(s.queue.jobId, job)], jobId := s.queue.jobId + 1 }
      log := { s.log with accepted := s.log.accepted ++ [(s.queue.jobId, job)] } } := by
  have hcond : (s.queue.isShutdown || decide (s.queue.jobQueue.length > maxNumQueuedJobs)) = false := by
    simp [hup, hroom]
  rw [step, queueJob, hcond, if_neg Bool.false_ne_true]

theorem queueJob_keys (h : Base s) (job : Text) : keys (s.log.accepted ++ [(s.queue.jobId, job)]) =
    (List.range (s.log.accepted.length + 1)).map UInt32.ofNat := by
  rw [List.range_succ, List.map_append, ← h.numbered, keys, List.map_append, h.next]
  rfl

theorem queueJob_inv {job : Text} (hup : s.queue.isShutdown = false)
    (hroom : s.queue.jobQueue.length ≤ maxNumQueuedJobs) (h : Inv s) (hfew : s.log.accepted.length < 2 ^ 32) :
    Inv (s.step (.queueJob job)) := by
  rw [queueJob_taken hup hroom]
  have hkeys := queueJob_keys h.base job
  refine ⟨⟨?_, ?_, ?_, ?_, ?_, h.base.unread, h.base.stored⟩, h.limit, h.outputs⟩
  · rw [hkeys, numbers_nodup_iff]
    exact hfew
  · refine List.perm_iff_count.mpr fun id => ?_
    have hplaces := h.base.places.count_eq id
    simp only [keys, List.map_append, List.count_append] at hplaces ⊢
    omega
  · rw [← h.base.order, List.append_assoc]
  · rw [hkeys, List.length_append, List.length_singleton]
  · rw [List.length_append, List.length_singleton, h.base.next]
    exact (UInt32.ofNat_add ..).symm

theorem queueJob_good_iff (h : Inv s) (job : Text) : Kept (s.step (.queueJob job)) ↔ Ok s (.queueJob job) := by
  by_cases href : s.queue.isShutdown = true ∨ maxNumQueuedJobs < s.queue.jobQueue.length
  · rw [queueJob_refused href]
    refine iff_of_true h.kept fun hup hroom => ?_
    rcases href with hdown | hfull
    · rw [hup] at hdown
      cases hdown
    · exact absurd hroom (not_le.mpr hfull)
  · rw [not_or, Bool.not_eq_true, not_lt] at href
    obtain ⟨hup, hroom⟩ := href
    constructor
    · intro hkept _ _
      have hids := hkept.ids
      rw [queueJob_taken hup hroom] at hids
      simp only [queueJob_keys h.base] at hids
      exact (numbers_nodup_iff _).mp hids
    · intro hok
      exact (queueJob_inv hup hroom h (hok hup hroom)).kept

/-! ### Results -/

/-- A state after one of its results was taken. -/
def taken (s : Watched) (id : UInt32) : Watched :=
  { queue := { s.queue with completedJobs := erase s.queue.completedJobs id }
    log := { s.log with delivered := s.log.delivered ++ [id] } }

theorem getJobResult_up (hup : s.queue.isShutdown = false) (id : UInt32) :
    Jobs.getJobResult env s.queue id = takeResult (s.idle env).queue id := by
  rw [Jobs.getJobResult, hup, idle, hup]
  rfl

theorem step_none {id : UInt32} (hup : s.queue.isShutdown = false)
    (hnone : find (s.idle env).queue.completedJobs id = none) :
    (Jobs.getJobResult env s.queue id).1 = none ∧ s.step (.getJobResult id env) = s.idle env := by
  rw [step, getJobResult_up hup, takeResult, hnone, hup]
  exact ⟨rfl, rfl⟩

theorem step_some {id : UInt32} {ended : ℕ} {out : Text} (hup : s.queue.isShutdown = false)
    (hsome : find (s.idle env).queue.completedJobs id = some (ended, out)) :
    (Jobs.getJobResult env s.queue id).1 = some out ∧ s.step (.getJobResult id env) = (s.idle env).taken id := by
  rw [step, getJobResult_up hup, takeResult, hsome, hup]
  exact ⟨rfl, rfl⟩

theorem completed_perm {id : UInt32} {ended : ℕ} {out : Text} (h : Base s)
    (hsome : find s.queue.completedJobs id = some (ended, out)) :
    s.queue.completedJobs.Perm ((id, ended, out) :: erase s.queue.completedJobs id) :=
  erase_perm (List.nodup_append.mp (List.nodup_append.mp h.nodup).1).2.1 (find_some_mem hsome)

theorem completed_undelivered {id : UInt32} {ended : ℕ} {out : Text} (h : Base s)
    (hsome : find s.queue.completedJobs id = some (ended, out)) : id ∉ s.log.delivered := by
  intro hdelivered
  exact (List.nodup_append.mp h.nodup).2.2 id (List.mem_append_right _ (List.mem_map_of_mem (find_some_mem hsome))) id
    hdelivered rfl

theorem base_taken {id : UInt32} {ended : ℕ} {out : Text} (h : Base s)
    (hsome : find s.queue.completedJobs id = some (ended, out)) : Base (s.taken id) := by
  refine ⟨h.ids, ?_, h.order, h.numbered, h.next, h.unread, h.stored⟩
  refine List.perm_iff_count.mpr fun x => ?_
  have hplaces := h.places.count_eq x
  have htaken := ((completed_perm h hsome).map Prod.fst).count_eq x
  simp only [keys, taken, List.map_cons, List.count_append, List.count_cons, List.count_nil] at hplaces htaken ⊢
  omega

theorem outputs_taken_iff {id : UInt32} {ended : ℕ} {out : Text} (h : Base s)
    (hsome : find s.queue.completedJobs id = some (ended, out)) :
    (∀ e ∈ s.queue.completedJobs, e.2.2 = s.log.read e.1) ↔
      out = s.log.read id ∧ ∀ e ∈ (s.taken id).queue.completedJobs, e.2.2 = s.log.read e.1 := by
  simp only [(completed_perm h hsome).mem_iff, List.forall_mem_cons, taken]

theorem getJobResult_iff (hup : s.queue.isShutdown = false) (h : Inv s) (id : UInt32) :
    Good s (.getJobResult id env) ↔ Inv (s.idle env) ∧ IdleGood env s := by
  have hbase := base_idle h.base env
  rcases hfind : find (s.idle env).queue.completedJobs id with _ | ⟨ended, out⟩
  · obtain ⟨hanswer, hstep⟩ := step_none hup hfind
    rw [Good, hstep]
    simp only [hanswer, hup, reduceCtorEq, false_imp_iff, forall_const, and_true]
    exact and_congr_left fun _ => ⟨fun hkept => hkept.inv hbase, fun hinv => hinv.kept⟩
  · obtain ⟨hanswer, hstep⟩ := step_some hup hfind
    rw [Good, hstep]
    simp only [hanswer, hup, Option.some.injEq, forall_eq', true_imp_iff]
    have houtputs := outputs_taken_iff hbase hfind
    constructor
    · rintro ⟨hkept, hgood, _, hread⟩
      exact ⟨⟨hbase, hkept.limit, houtputs.mpr ⟨hread, hkept.outputs⟩⟩, hgood⟩
    · rintro ⟨hinv, hgood⟩
      obtain ⟨hread, htaken⟩ := houtputs.mp hinv.outputs
      have hkept : Kept ((s.idle env).taken id) := Inv.kept ⟨base_taken hbase hfind, hinv.limit, htaken⟩
      have hnew := completed_undelivered hbase hfind
      rw [(idle_accepted s env).2.1] at hnew
      exact ⟨hkept, hgood, hnew, hread⟩

/-! ## Runs -/

theorem shutdown_inv (h : Inv s) : Inv (s.step .shutdown) :=
  ⟨⟨h.base.ids, h.base.places, h.base.order, h.base.numbered, h.base.next, h.base.unread, h.base.stored⟩, h.limit,
    h.outputs⟩

theorem getJobResult_down (hdown : s.queue.isShutdown = true) (id : UInt32) : s.step (.getJobResult id env) = s := by
  rw [step, Jobs.getJobResult, hdown, if_pos rfl, idle_shutdown hdown]
  rfl

theorem base_getJobResult (h : Base s) (id : UInt32) (env : Env) : Base (s.step (.getJobResult id env)) := by
  rcases Bool.eq_false_or_eq_true s.queue.isShutdown with hdown | hup
  · rw [getJobResult_down hdown]
    exact h
  · rcases hfind : find (s.idle env).queue.completedJobs id with _ | ⟨ended, out⟩
    · rw [(step_none hup hfind).2]
      exact base_idle h env
    · rw [(step_some hup hfind).2]
      exact base_taken (base_idle h env) hfind

theorem idleTask_good_iff (h : Inv s) (env : Env) : Good s (.idleTask env) ↔ Ok s (.idleTask env) := by
  rcases Bool.eq_false_or_eq_true s.queue.isShutdown with hdown | hup
  · rw [Good, Ok, step, idle_shutdown hdown, hdown]
    exact iff_of_true ⟨h.kept, fun hup => by cases hup⟩ fun hup => by cases hup
  · rw [Good, Ok, step, hup, ← inv_idle_iff hup h]
    simp only [true_imp_iff]
    exact and_congr_left fun _ => ⟨fun hkept => hkept.inv (base_idle h.base env), Inv.kept⟩

theorem good_iff (h : Inv s) (c : Call) : Good s c ↔ Ok s c := by
  cases c with
  | queueJob job => exact (and_iff_left trivial).trans (queueJob_good_iff h job)
  | idleTask env => exact idleTask_good_iff h env
  | getJobResult id env =>
    rcases Bool.eq_false_or_eq_true s.queue.isShutdown with hdown | hup
    · rw [Good, Ok, getJobResult_down hdown, hdown]
      exact iff_of_true ⟨h.kept, fun hup => by cases hup⟩ fun hup => by cases hup
    · rw [getJobResult_iff hup h, Ok, inv_idle_iff hup h, hup]
      exact ⟨fun hok _ => hok, fun hok => hok rfl⟩
  | shutdown => exact iff_of_true ⟨(shutdown_inv h).kept, trivial⟩ trivial

/-- A call that is as expected leaves everything as it should be. -/
theorem inv_step (s : Watched) (c : Call) (h : Inv s) (hgood : Good s c) : Inv (s.step c) := by
  refine hgood.1.inv ?_
  cases c with
  | queueJob job =>
    by_cases href : s.queue.isShutdown = true ∨ maxNumQueuedJobs < s.queue.jobQueue.length
    · rw [queueJob_refused href]
      exact h.base
    · rw [not_or, Bool.not_eq_true, not_lt] at href
      exact (queueJob_inv href.1 href.2 h ((good_iff h _).mp hgood href.1 href.2)).base
  | idleTask env => exact base_idle h.base env
  | getJobResult id env => exact base_getJobResult h.base id env
  | shutdown => exact (shutdown_inv h).base

/-- A run goes as expected exactly if every call of it meets its condition. -/
theorem jobs_law (es : List Call) : Along step Good start es ↔ Along step Ok start es :=
  along_iff_of_inv step inv_step (fun _ c h => good_iff h c) inv_start

/-- Nine jobs are queued, and started in one call: there was room for one. -/
theorem limit_passed : ¬ ∀ es : List Call, Along step Good start es := by
  intro hall
  have h := hall (List.replicate 9 (.queueJob []) ++ [.idleTask ⟨0, [], fun _ => []⟩])
  have hlimit := ((along_append step).mp h).2.1.1.limit
  revert hlimit
  decide

/-- What is completed stays, as old as it may be, until someone asks for it. -/
theorem never_purged (hup : s.queue.isShutdown = false) (h : Inv s) (env : Env) :
    ∀ e ∈ s.queue.completedJobs, e ∈ (s.idle env).queue.completedJobs :=
  fun _ he => (mem_completed hup h.base).mpr (Or.inr (Or.inr he))

end Watched

end Ntopng.Pool.Jobs
