import Akerdock.Lib.Pool
import Akerdock.Deploy.Engine

/-!
# The workers of the queue

`internal/queue/worker.go` over the statements of `Store.Statements`: a worker
dequeues a job, marks it running, runs the handler of its type and records how
that went.  Any number of workers run side by side, each with any number of
goroutines, and next to them the API.

* `Stmt` are the statements of the workers and of the API, `sysSem` what they
  and the calls of a deployment attempt do.
* `process` is what a worker does with one job.
* `CancelDeployment` is the API's handler for a cancel request.
* `Others` are the statements that are not part of a modelled process: the
  heartbeats, the maintenance loop, the webhooks.  `workers` is the pool of
  all of it.

A worker that dies leaves its lease behind, and so does one that hangs: nothing
stops an attempt whose lease was reaped from making further calls.
-/

namespace Akerdock.Queue

open Store Deploy Proc Proc.Prog Table List

/-- The statements of the workers and of the API.  `runHandler` is the handler
of a job type that has no model of its own. -/
inductive Stmt where
  | markJobRunning (id : Nat) (worker : String)
  | runHandler (payload : JobPayload)
  | succeedJob (id : Nat) (worker : String)
  | failJob (id : Nat) (worker : String) (toDeadLetter : Bool) (delay : Nat)
  | cancelQueuedDeployment (id : Nat)
  | requestDeploymentJobCancel (deploymentId : Nat)

/-- The answers to the statements: whether a row was changed, or whether the
handler succeeded. -/
@[reducible] def StmtAns : Stmt → Type
  | .markJobRunning _ _ => Bool
  | .runHandler _ => Bool
  | _ => Unit

/-- The calls of a process: those of a deployment attempt, and the
statements. -/
abbrev SysCall := Call ⊕ Stmt

/-- The answers to the calls of a process. -/
abbrev SysAns : SysCall → Type := Sum.elim Ans StmtAns

/-- What a statement does. -/
def applyStmt : (s : Stmt) → Outcome → World → StmtAns s × World
  | .markJobRunning id worker, _, w =>
    (w.jobs.any (markJobRunningHits id worker),
      { w with jobs := markJobRunning id worker w.jobs })
  | .runHandler _, o, w => (decide (o = .succeeds), w)
  | .succeedJob id worker, _, w =>
    ((), { w with jobs := succeedJob id worker w.jobs })
  | .failJob id worker toDeadLetter delay, _, w =>
    ((), { w with
      jobs := failJob id worker toDeadLetter (w.clock + delay) w.jobs })
  | .cancelQueuedDeployment id, _, w =>
    ((), { w with deployments := cancelQueuedDeployment id w.deployments })
  | .requestDeploymentJobCancel id, _, w =>
    ((), { w with jobs := requestDeploymentJobCancel w.clock id w.jobs })

/-- What a call of a process does. -/
def sysSem : (c : SysCall) → Outcome → World → SysAns c × World
  | .inl c, o, w => sem c o w
  | .inr s, o, w => applyStmt s o w

/-- How a process ends: a worker with the result of its job, or the API with
its answer. -/
inductive Reply where
  | lostLease
  | worked (result : JobResult)
  | handled
  | accepted (deploymentId : Nat)
  | conflict (message : String)
  | notFound
  deriving DecidableEq

/-! ## The worker -/

def retryBase : Nat := 5

/-- `retryBackoff`: exponential, capped at five minutes.  The jitter, up to
400, stands for the random factor between 0.8 and 1.2. -/
def retryBackoff (attempt jitter : Nat) : Nat :=
  min (retryBase * 2 ^ (attempt - 1)) 300 * (800 + jitter) / 1000

def fail (worker : String) (jitter : Nat) (job : Job) (reply : Reply) : Prog SysAns Reply :=
  let toDead := decide (job.maxAttempts ≤ job.attempt)
  let delay := if toDead then 0 else retryBackoff job.attempt jitter
  .call (.inr (.failJob job.id worker toDead delay)) fun _ => .ret reply

def succeed (worker : String) (job : Job) (reply : Reply) : Prog SysAns Reply :=
  .call (.inr (.succeedJob job.id worker)) fun _ => .ret reply

/-- What `Worker.process` records of a deployment attempt.  After an
interruption it records nothing, the context of its statements has ended. -/
def record (worker : String) (jitter : Nat) (job : Job) : JobResult → Prog SysAns Reply
  | .deploymentStatus s =>
    succeed worker job (.worked (.deploymentStatus s))
  | .error msg => fail worker jitter job (.worked (.error msg))
  | .interrupted => .ret (.worked .interrupted)

def process (worker : String) (polls jitter : Nat) (job : Job) : Prog SysAns Reply :=
  .call (.inr (.markJobRunning job.id worker)) fun (running : Bool) =>
    if running then
      match job.payload with
      | .deploymentRun id =>
        (Execute polls job.id id).inl.bind (record worker jitter job)
      | payload => .call (.inr (.runHandler payload)) fun (ok : Bool) =>
        if ok then succeed worker job .handled
        else fail worker jitter job .handled
    else .ret .lostLease

/-! ## The API -/

/-- `CancelDeployment`, once the deployment is read. -/
def cancelRow (d : Deployment) : Prog SysAns Reply :=
  if d.status.terminal then
    .ret (.conflict "the deployment is already terminal")
  else if d.status.pastBarrier then
    .ret (.conflict ("the traffic switch has started — the deployment can " ++
      "no longer be cancelled (§21.1)"))
  else
    .call (.inr (.cancelQueuedDeployment d.id)) fun _ =>
      .call (.inr (.requestDeploymentJobCancel d.id)) fun _ =>
        .ret (.accepted d.id)

def CancelDeployment (id : Nat) : Prog SysAns Reply :=
  .call (.inl (.getDeploymentByID id)) fun row =>
    match row with
    | none => .ret .notFound
    | some d => cancelRow d

/-! ## The pool -/

/-- One statement from outside the modelled processes: a heartbeat, the
maintenance loop of a worker, an enqueued job, a webhook, or the clock. -/
inductive Others (mayEnqueue : Job → Prop) (w : World) : World → Prop where
  | heartbeatJob (id : Nat) (worker : String) : Others mayEnqueue w
      { w with jobs := heartbeatJob w.clock id worker w.jobs }
  | reapExpiredLeases : Others mayEnqueue w { w with jobs := reapExpiredLeases w.clock w.jobs }
  | promoteWaitingJobs : Others mayEnqueue w
      { w with jobs := promoteWaitingJobs w.clock w.jobs }
  | enqueueJob (j : Job) (hnew : ∀ r ∈ w.jobs, r.id ≠ j.id)
      (h : mayEnqueue j) : Others mayEnqueue w { w with jobs := w.jobs ++ [j] }
  | cancelJobsForDeployments (ids : List Nat) : Others mayEnqueue w
      { w with jobs := cancelJobsForDeployments ids w.jobs }
  | supersedeObsoletePreviewDeployments (previewId id : Nat) :
      Others mayEnqueue w { w with
        deployments :=
          supersedeObsoletePreviewDeployments previewId id w.deployments }
  | supersedeQueuedDeployments (ids : List Nat) : Others mayEnqueue w
      { w with deployments := supersedeQueuedDeployments ids w.deployments }
  | preview (previews : List Preview) : Others mayEnqueue w { w with previews := previews }
  | tick (seconds : Nat) : Others mayEnqueue w { w with clock := w.clock + seconds }

/-- How processes start: a worker dequeues a job, or a cancel request comes
in. -/
inductive Spawn (w : World) : Prog SysAns Reply → World → Prop where
  | worker (name : String) (polls jitter : Nat) (j : Job)
      (h : (dequeueJob w.clock name w.jobs).1 = some j) :
      Spawn w (process name polls jitter j)
        { w with jobs := (dequeueJob w.clock name w.jobs).2 }
  | cancel (id : Nat) : Spawn w (CancelDeployment id) w

/-- The statements and calls, with the outcomes that a run may take. -/
def sysSystem (ok : SysCall → Outcome → World → Prop)
    (mayEnqueue : Job → Prop) : System SysAns Outcome World where
  sem := sysSem
  ok := ok
  rely := Others mayEnqueue

/-- The workers and the API. -/
def workers (ok : SysCall → Outcome → World → Prop)
    (mayEnqueue : Job → Prop) : Pool (sysSystem ok mayEnqueue) Reply where
  spawn := Spawn

/-! ## What the queue keeps -/

structure JobOf (jobID id : Nat) (jobs : List Job) : Prop where
  present : (row? Job.id jobID jobs).isSome = true
  unique : ∀ j ∈ jobs, j.payload = .deploymentRun id ↔ j.id = jobID

/-- What every statement of the queue keeps: it leaves a job with its
deployment, and it takes no cancel request back. -/
structure QueueStep (jobID id : Nat) (jobs jobs' : List Job) : Prop where
  jobOf : JobOf jobID id jobs → JobOf jobID id jobs'
  flag : isJobCancelRequested jobID jobs = true →
    isJobCancelRequested jobID jobs' = true

variable {jobID id : Nat} {jobs : List Job}

theorem QueueStep.refl (jobs : List Job) : QueueStep jobID id jobs jobs :=
  ⟨fun h => h, fun h => h⟩

/-- An `UPDATE` that keeps them in every row it changes. -/
theorem QueueStep.updateWhere
    (hf : ∀ j, (f j).id = j.id ∧ (f j).payload = j.payload ∧
      (j.cancelRequestedAt.isSome = true → (f j).cancelRequestedAt.isSome = true)) :
    QueueStep jobID id jobs (updateWhere p f jobs) := by
  have hid : ∀ j, (f j).id = j.id := fun j => (hf j).1
  refine ⟨?_, ?_⟩
  · rintro ⟨hpresent, hunique⟩
    refine ⟨?_, ?_⟩
    · rw [row?_updateWhere p hid, Option.isSome_map]
      exact hpresent
    · refine forall_updateWhere hunique ?_
      intro j _ _ hj
      rw [hid, (hf j).2.1]
      exact hj
  · intro h
    unfold isJobCancelRequested at h ⊢
    rw [row?_updateWhere p hid]
    cases hr : row? Job.id jobID jobs with
    | none =>
      rw [hr] at h
      cases h
    | some j =>
      rw [hr] at h
      simp only [Option.map_some]
      split
      · exact (hf j).2.2 h
      · exact h

theorem QueueStep.enqueue (hnew : ∀ r ∈ jobs, r.id ≠ j.id)
    (hj : j.payload ≠ .deploymentRun id) :
    QueueStep jobID id jobs (jobs ++ [j]) := by
  refine ⟨?_, ?_⟩
  · rintro ⟨hpresent, hunique⟩
    obtain ⟨r, hr⟩ := Option.isSome_iff_exists.1 hpresent
    refine ⟨by rw [row?_append_of_some hr]; rfl, ?_⟩
    have hne := hnew r (row?_mem hr)
    rw [row?_key hr] at hne
    exact forall_concat hunique ⟨fun h => absurd h hj, fun h => absurd h.symm hne⟩
  · intro h
    unfold isJobCancelRequested at h ⊢
    cases hr : row? Job.id jobID jobs with
    | none =>
      rw [hr] at h
      cases h
    | some r =>
      rw [row?_append_of_some hr]
      rw [hr] at h
      exact h

theorem firstJob_mem (h : firstJob jobs = some j) : j ∈ jobs := by
  induction jobs generalizing j with
  | nil => cases h
  | cons r rs ih =>
    rw [firstJob] at h
    cases hrs : firstJob rs with
    | none =>
      rw [hrs] at h
      cases h
      exact mem_cons_self
    | some k =>
      rw [hrs] at h
      cases h
      split
      · exact mem_cons_self
      · exact mem_cons_of_mem _ (ih hrs)

/-- The job that a worker takes is one of the table, with its lease. -/
theorem dequeueJob_mem (h : (dequeueJob now worker jobs).1 = some j) :
    ∃ r ∈ jobs, j = r.leasedTo now worker := by
  unfold dequeueJob at h
  split at h
  · cases h
  · rename_i r hr
    cases h
    exact ⟨r, (mem_filter.1 (firstJob_mem hr)).1, rfl⟩

theorem queueStep_dequeueJob : QueueStep jobID id jobs (dequeueJob now worker jobs).2 := by
  unfold dequeueJob
  split
  · exact .refl jobs
  · exact .updateWhere fun _ => ⟨rfl, rfl, fun h => h⟩

theorem queueStep_applyStmt (s : Stmt) (o : Outcome) (w : World) :
    QueueStep jobID id w.jobs (applyStmt s o w).2.jobs := by
  cases s with
  | markJobRunning i worker | succeedJob i worker
  | failJob i worker dead delay =>
    exact .updateWhere fun _ => ⟨rfl, rfl, fun h => h⟩
  | runHandler payload | cancelQueuedDeployment i => exact .refl w.jobs
  | requestDeploymentJobCancel i =>
    exact .updateWhere fun _ => ⟨rfl, rfl, fun _ => rfl⟩

theorem Others.queueStep (h : Others mayEnqueue w w')
    (hj : ∀ j, mayEnqueue j → j.payload ≠ .deploymentRun id) :
    QueueStep jobID id w.jobs w'.jobs := by
  cases h with
  | heartbeatJob i worker | reapExpiredLeases | promoteWaitingJobs
  | cancelJobsForDeployments ids =>
    exact .updateWhere fun _ => ⟨rfl, rfl, fun h => h⟩
  | enqueueJob j hnew h => exact .enqueue hnew (hj j h)
  | supersedeObsoletePreviewDeployments | supersedeQueuedDeployments | preview | tick =>
    exact .refl w.jobs

end Akerdock.Queue
