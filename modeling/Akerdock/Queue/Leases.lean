import Akerdock.Lib.Machine
import Akerdock.Queue.Worker

/-!
# Leases and executions

The queue as its statements see it: the table of jobs, and every execution of
a job by a goroutine of a worker, from its `DequeueJob` to the end of its
`process` and of its heartbeats.  `apply` takes one action: a statement, a
handler that returns, a clock that advances, a context that ends.

* An `Execution` keeps the row that `DequeueJob` returned.  `Worker.fail`
  decides on that copy, and the statements of an execution name its worker,
  not the execution.
* `holder` says which execution has dequeued a job last.  It is not in the
  database: the lease in the row carries the name of the worker only.
* `RowChange` lists what can happen to a row, with the conditions under which
  it does.  `apply_row` and `apply_execs` are all that later proofs know about
  the single actions.
-/

namespace Akerdock.Queue

open Store Table List
open Bool (and_eq_true)

/-! ## The state -/

/-- How a handler returned. -/
inductive HandlerResult where
  | succeeded
  | failed
  deriving DecidableEq

/-- How far an execution is.

* `leased`: `DequeueJob` has returned.
* `running`: `MarkJobRunning` has succeeded, the handler runs.
* `returned`: the handler has returned, its outcome is not recorded yet.
* `closing`: `process` has returned, the last heartbeat may be under way.
* `finished`: nothing more comes from this execution. -/
inductive Stage where
  | leased
  | running
  | returned (r : HandlerResult)
  | closing
  | finished
  deriving DecidableEq

/-- The stages in which the heartbeats of an execution go on. -/
def Stage.beating : Stage → Bool
  | .running | .returned _ | .closing => true
  | _ => false

/-- One execution of a job.  `job` is the row that `DequeueJob` returned.
`deadline` is the end of the lease as the execution knows it, and `recorded`
the outcome that it has written into the row. -/
structure Execution where
  worker : String
  job : Job
  stage : Stage
  deadline : Nat
  recorded : Option HandlerResult

/-- The queue.  `nextJob` is the next value of the identity column,
`stopping` are the workers whose context has ended. -/
structure Leases where
  clock : Nat
  jobs : List Job
  nextJob : Nat
  execs : List Execution
  holder : Nat → Option Nat
  stopping : List String

/-- An empty queue. -/
def Leases.empty (clock : Nat) : Leases where
  clock := clock
  jobs := []
  nextJob := 1
  execs := []
  holder := fun _ => none
  stopping := []

structure EnqueueOptions where
  payload : JobPayload
  priority : Int
  runAt : Option Nat
  maxAttempts : Nat
  lockKey : Option String

/-- The row that `Enqueue` inserts: a job for later is `scheduled`, and no
limit means five attempts. -/
def EnqueueOptions.row (o : EnqueueOptions) (now id : Nat) : Job where
  id := id
  payload := o.payload
  status := if o.runAt.any (now < ·) then .scheduled else .queued
  priority := o.priority
  runAt := if o.runAt.any (now < ·) then o.runAt.getD now else now
  attempt := 0
  maxAttempts := if o.maxAttempts = 0 then 5 else o.maxAttempts
  resumeCount := 0
  lockKey := o.lockKey
  leasedBy := none
  leaseExpiresAt := none
  cancelRequestedAt := none

/-! ## The actions -/

/-- What can happen.  `loses` is a statement of an execution that fails, with
an error of the database or because its context has ended, and `dies` the end
of an execution with its process. -/
inductive Action where
  | enqueue (o : EnqueueOptions)
  | dequeue (worker : String)
  | markRunning (i : Nat)
  | heartbeat (i : Nat)
  | handlerReturns (i : Nat) (r : HandlerResult)
  | record (i : Nat) (jitter : Nat)
  | loses (i : Nat)
  | stopHeartbeat (i : Nat)
  | dies (i : Nat)
  | reap
  | promote
  | cancelJobs (deploymentIds : List Nat)
  | requestCancel (deploymentId : Nat)
  | forget (id : Nat)
  | purge (ids : List Nat)
  | tick (seconds : Nat)
  | stop (worker : String)

/-- The execution that an action belongs to. -/
def Action.exec? : Action → Option Nat
  | .markRunning i | .heartbeat i | .handlerReturns i _ | .record i _
  | .loses i | .stopHeartbeat i | .dies i => some i
  | _ => none

/-- The statements on the whole table. -/
def Action.onTable : Action → Bool
  | .reap | .promote | .cancelJobs _ | .requestCancel _ | .forget _
  | .purge _ => true
  | _ => false

variable {a : Action} {s : Leases} {r' r : Job} {i : Nat}

theorem Action.exec_of_onTable (h : a.onTable = true) : a.exec? = none := by
  cases a <;> first | rfl | cases h

/-- The execution that makes the statement, if it is one of `MarkJobRunning`,
`HeartbeatJob`, `SucceedJob` and `FailJob`. -/
def Action.statementOf : Action → Option Nat
  | .markRunning i | .heartbeat i | .record i _ => some i
  | _ => none

/-- The execution `i` becomes `e`. -/
def Leases.setExec (s : Leases) (i : Nat) (e : Execution) : Leases :=
  { s with execs := s.execs.set i e }

/-- `DequeueJob`, and the execution that it begins. -/
def Leases.dequeue (s : Leases) (worker : String) : Leases :=
  match (dequeueJob s.clock worker s.jobs).1 with
  | none => s
  | some j =>
    { s with
      jobs := (dequeueJob s.clock worker s.jobs).2
      execs := s.execs ++ [⟨worker, j, .leased, s.clock + leaseDuration, none⟩]
      holder := Function.update s.holder j.id (some s.execs.length) }

/-- `MarkJobRunning`.  With no row changed, `process` returns. -/
def Leases.markRunning (s : Leases) (i : Nat) (e : Execution) : Leases :=
  if s.jobs.any (markJobRunningHits e.job.id e.worker) then
    { s with jobs := markJobRunning e.job.id e.worker s.jobs }.setExec i
      { e with stage := .running }
  else s.setExec i { e with stage := .finished }

/-- `HeartbeatJob`.  The number of rows it has changed is not looked at by the
code; a handler that stops in time would look at it. -/
def Leases.heartbeat (s : Leases) (i : Nat) (e : Execution) : Leases :=
  { s with jobs := heartbeatJob s.clock e.job.id e.worker s.jobs }.setExec i
    { e with
      deadline :=
        if s.jobs.any (Job.heldBy e.job.id e.worker) then
          s.clock + leaseDuration
        else e.deadline }

/-- `SucceedJob` or `FailJob`, from the copy of the row. -/
def Execution.outcome (e : Execution) (r : HandlerResult) (now jitter : Nat)
    (jobs : List Job) : List Job :=
  match r with
  | .succeeded => succeedJob e.job.id e.worker jobs
  | .failed =>
    let toDead := decide (e.job.maxAttempts ≤ e.job.attempt)
    let delay := if toDead then 0 else retryBackoff e.job.attempt jitter
    failJob e.job.id e.worker toDead (now + delay) jobs

/-- The outcome is written. -/
def Leases.record (s : Leases) (i : Nat) (e : Execution) (r : HandlerResult)
    (jitter : Nat) : Leases :=
  { s with jobs := e.outcome r s.clock jitter s.jobs }.setExec i
    { e with
      stage := .closing
      recorded :=
        if s.jobs.any (Job.heldBy e.job.id e.worker) then some r
        else e.recorded }

/-- An action of the execution `e`, the `i`-th.  Statements are made with the
context of the worker, heartbeats are not. -/
def Leases.applyExec (s : Leases) (i : Nat) (e : Execution) : Action → Option Leases
  | .markRunning _ =>
    if e.stage = .leased && !s.stopping.contains e.worker then
      some (s.markRunning i e)
    else none
  | .heartbeat _ => if e.stage.beating then some (s.heartbeat i e) else none
  | .handlerReturns _ r =>
    if e.stage = .running then
      some (s.setExec i { e with stage := .returned r })
    else none
  | .record _ jitter =>
    match e.stage with
    | .returned r =>
      if s.stopping.contains e.worker then none
      else some (s.record i e r jitter)
    | _ => none
  | .loses _ =>
    match e.stage with
    | .leased => some (s.setExec i { e with stage := .finished })
    | .returned _ => some (s.setExec i { e with stage := .closing })
    | _ => none
  | .stopHeartbeat _ =>
    if e.stage = .closing then
      some (s.setExec i { e with stage := .finished })
    else none
  | .dies _ => some (s.setExec i { e with stage := .finished })
  | _ => none

def forgetDeadLetterJob (id : Nat) (jobs : List Job) : List Job :=
  updateWhere (fun j => j.id = id && j.status = .deadLetter)
    (fun j => { j with status := .cancelled }) jobs

/-- `PurgeTerminalJobs`, of those of `ids` that are old enough. -/
def purgeTerminalJobs (ids : List Nat) (jobs : List Job) : List Job :=
  deleteWhere (fun j => (j.status = .succeeded || j.status = .cancelled) &&
    ids.contains j.id) jobs

def Leases.apply (a : Action) (s : Leases) : Option Leases :=
  match a with
  | .enqueue o =>
    some { s with
      jobs := s.jobs ++ [o.row s.clock s.nextJob], nextJob := s.nextJob + 1 }
  | .dequeue worker =>
    if s.stopping.contains worker then none else some (s.dequeue worker)
  | .reap => some { s with jobs := reapExpiredLeases s.clock s.jobs }
  | .promote => some { s with jobs := promoteWaitingJobs s.clock s.jobs }
  | .cancelJobs ids =>
    some { s with jobs := cancelJobsForDeployments ids s.jobs }
  | .requestCancel id =>
    some { s with jobs := requestDeploymentJobCancel s.clock id s.jobs }
  | .forget id => some { s with jobs := forgetDeadLetterJob id s.jobs }
  | .purge ids => some { s with jobs := purgeTerminalJobs ids s.jobs }
  | .tick seconds => some { s with clock := s.clock + seconds }
  | .stop worker => some { s with stopping := worker :: s.stopping }
  | a =>
    match a.exec? with
    | none => none
    | some i =>
      match s.execs[i]? with
      | none => none
      | some e => s.applyExec i e a

/-! ## What an action does -/

def Execution.outcomeRow (e : Execution) (r : HandlerResult) (now jitter : Nat) (j : Job) : Job :=
  match r with
  | .succeeded =>
    { j with status := .succeeded, leasedBy := none, leaseExpiresAt := none }
  | .failed =>
    let toDead := decide (e.job.maxAttempts ≤ e.job.attempt)
    let delay := if toDead then 0 else retryBackoff e.job.attempt jitter
    { j with
      status := if toDead then .deadLetter else .retryWait
      runAt := now + delay
      leasedBy := none
      leaseExpiresAt := none }

/-- What an action makes of a row.  A row stays the `same` if the statement
does not match it; a heartbeat does match the rows that its worker holds. -/
inductive RowChange (s : Leases) : Action → Job → Job → Prop where
  | same (a : Action) (r : Job)
      (h : ∀ (i : Nat) (e : Execution), a = .heartbeat i →
        s.execs[i]? = some e → r.heldBy e.job.id e.worker = false) :
      RowChange s a r r
  | leased (worker : String) (r : Job) (h : r.eligible s.jobs s.clock = true) :
      RowChange s (.dequeue worker) r (r.leasedTo s.clock worker)
  | running (i : Nat) (e : Execution) (r : Job) (he : s.execs[i]? = some e)
      (hstage : e.stage = .leased)
      (h : markJobRunningHits e.job.id e.worker r = true) :
      RowChange s (.markRunning i) r { r with status := .running }
  | extended (i : Nat) (e : Execution) (r : Job) (he : s.execs[i]? = some e)
      (hstage : e.stage.beating = true)
      (h : r.heldBy e.job.id e.worker = true) :
      RowChange s (.heartbeat i) r { r with leaseExpiresAt := some (s.clock + leaseDuration) }
  | recorded (i jitter : Nat) (e : Execution) (o : HandlerResult) (r : Job)
      (he : s.execs[i]? = some e) (hstage : e.stage = .returned o)
      (h : r.heldBy e.job.id e.worker = true) :
      RowChange s (.record i jitter) r (e.outcomeRow o s.clock jitter r)
  | reaped (r : Job) (h : r.leaseExpired s.clock = true) :
      RowChange s .reap r (r.reaped s.clock)
  | promoted (r : Job) (h : r.status = .retryWait ∨ r.status = .scheduled) :
      RowChange s .promote r { r with status := .queued }
  | cancelled (ids : List Nat) (r : Job) (h : r.status = .queued) :
      RowChange s (.cancelJobs ids) r { r with status := .cancelled }
  | flagged (id : Nat) (r : Job) :
      RowChange s (.requestCancel id) r { r with cancelRequestedAt := some s.clock }
  | forgotten (id : Nat) (r : Job) (h : r.status = .deadLetter) :
      RowChange s (.forget id) r { r with status := .cancelled }

/-- Any other statement may leave a row alone. -/
theorem RowChange.kept (ha : ∀ i, a ≠ .heartbeat i) (r : Job) : RowChange s a r r :=
  .same a r fun i _ h => absurd h (ha i)

/-- A row after an `UPDATE` is the row before, changed or not. -/
theorem rowChange_updateWhere (hf : ∀ r, p r = true → RowChange s a r (f r))
    (hn : ∀ r, p r = false → RowChange s a r r)
    (h : r' ∈ updateWhere p f s.jobs) : ∃ r ∈ s.jobs, RowChange s a r r' := by
  rcases of_mem_updateWhere h with ⟨r, hr, hp, rfl⟩ | ⟨hr, hp⟩
  · exact ⟨r, hr, hf r hp⟩
  · exact ⟨_, hr, hn _ hp⟩

/-- `MarkJobRunning` changes a row only if its worker holds it. -/
theorem markJobRunningHits_eq_false {id : Nat} (h : r.heldBy id worker = false) :
    markJobRunningHits id worker r = false := by
  by_contra hhits
  simp only [markJobRunningHits, Bool.not_eq_false, and_eq_true,
    decide_eq_true_eq] at hhits
  simp [Job.heldBy, hhits, JobStatus.held] at h

theorem Execution.outcome_eq (e : Execution) (o : HandlerResult)
    (now jitter : Nat) (jobs : List Job) :
    e.outcome o now jitter jobs =
      updateWhere (Job.heldBy e.job.id e.worker) (e.outcomeRow o now jitter) jobs := by
  cases o <;> rfl

theorem Job.eligible_queued (h : r.eligible jobs now = true) : r.status = .queued := by
  simp only [Job.eligible, and_eq_true, decide_eq_true_eq] at h
  exact h.1.1

theorem dequeueJob_some (h : (dequeueJob now worker jobs).1 = some j) :
    ∃ r ∈ jobs, r.eligible jobs now = true ∧ j = r.leasedTo now worker ∧
      (dequeueJob now worker jobs).2 =
        updateWhere (fun q => q.id = r.id) (Job.leasedTo now worker) jobs := by
  unfold dequeueJob at h ⊢
  split at h
  · cases h
  · rename_i r hr
    cases h
    obtain ⟨hmem, heligible⟩ := mem_filter.1 (firstJob_mem hr)
    exact ⟨r, hmem, heligible, rfl, rfl⟩

/-- An execution takes its actions where it is. -/
theorem apply_of_exec (ha : a.exec? = some i) (h : s.apply a = some s') :
    ∃ e, s.execs[i]? = some e ∧ s.applyExec i e a = some s' := by
  have happly : (match s.execs[i]? with
      | none => none
      | some e => s.applyExec i e a) = some s' := by
    cases a <;> first | cases ha; exact h | cases ha
  cases he : s.execs[i]? with
  | none =>
    rw [he] at happly
    cases happly
  | some e =>
    rw [he] at happly
    exact ⟨e, rfl, happly⟩

/-- What an action makes of the execution that takes it. -/
inductive ExecChange (s : Leases) (i : Nat) (e : Execution) : Action → Execution → Prop where
  | marked (hstage : e.stage = .leased)
      (hhits : s.jobs.any (markJobRunningHits e.job.id e.worker) = true) :
      ExecChange s i e (.markRunning i) { e with stage := .running }
  | unmarked (hstage : e.stage = .leased) :
      ExecChange s i e (.markRunning i) { e with stage := .finished }
  | beat (hstage : e.stage.beating = true) :
      ExecChange s i e (.heartbeat i) { e with
        deadline :=
          if s.jobs.any (Job.heldBy e.job.id e.worker) then
            s.clock + leaseDuration
          else e.deadline }
  | returned (o : HandlerResult) (hstage : e.stage = .running) :
      ExecChange s i e (.handlerReturns i o) { e with stage := .returned o }
  | recorded (o : HandlerResult) (jitter : Nat) (hstage : e.stage = .returned o)
      (hstop : e.worker ∉ s.stopping) :
      ExecChange s i e (.record i jitter) { e with
        stage := .closing
        recorded :=
          if s.jobs.any (Job.heldBy e.job.id e.worker) then some o
          else e.recorded }
  | lost (hstage : e.stage = .leased) :
      ExecChange s i e (.loses i) { e with stage := .finished }
  | unrecorded (o : HandlerResult) (hstage : e.stage = .returned o) :
      ExecChange s i e (.loses i) { e with stage := .closing }
  | stopped (hstage : e.stage = .closing) :
      ExecChange s i e (.stopHeartbeat i) { e with stage := .finished }
  | died : ExecChange s i e (.dies i) { e with stage := .finished }

/-- The states that an action can lead to.

* `exec` is an action of an execution,
* `dequeue` a job that a worker takes, with the execution that begins,
* `enqueue` a new job,
* `idle` a `DequeueJob` that finds nothing,
* `table` any other statement. -/
inductive Applied (s : Leases) (a : Action) : Leases → Prop where
  | exec {i : Nat} {e e' : Execution} {jobs : List Job}
      (ha : a.exec? = some i) (he : s.execs[i]? = some e)
      (hchange : ExecChange s i e a e')
      (hrows : ∀ r' ∈ jobs, ∃ r ∈ s.jobs, RowChange s a r r')
      (hids : jobs.map Job.id = s.jobs.map Job.id)
      (hnone : (∀ r ∈ s.jobs, r.heldBy e.job.id e.worker = false) → jobs = s.jobs) :
      Applied s a { s with jobs := jobs, execs := s.execs.set i e' }
  | dequeue {worker : String} {r : Job} (ha : a = .dequeue worker)
      (hstop : worker ∉ s.stopping) (hr : r ∈ s.jobs)
      (heligible : r.eligible s.jobs s.clock = true)
      (htaken : (dequeueJob s.clock worker s.jobs).1 = some (r.leasedTo s.clock worker)) :
      Applied s a { s with
        jobs := updateWhere (fun q => q.id = r.id) (Job.leasedTo s.clock worker) s.jobs
        execs := s.execs ++ [⟨worker, r.leasedTo s.clock worker, .leased,
          s.clock + leaseDuration, none⟩]
        holder := Function.update s.holder r.id (some s.execs.length) }
  | enqueue {o : EnqueueOptions} (ha : a = .enqueue o) :
      Applied s a { s with
        jobs := s.jobs ++ [o.row s.clock s.nextJob]
        nextJob := s.nextJob + 1 }
  | idle {worker : String} (ha : a = .dequeue worker) : Applied s a s
  | table {jobs : List Job} (ha : a.onTable = true)
      (hrows : ∀ r' ∈ jobs, ∃ r ∈ s.jobs, RowChange s a r r')
      (hids : (jobs.map Job.id).Sublist (s.jobs.map Job.id))
      (hheld : ∀ r ∈ s.jobs, r.status.held = true → r.id ∈ jobs.map Job.id) :
      Applied s a { s with jobs := jobs }
  | tick {seconds : Nat} (ha : a = .tick seconds) :
      Applied s a { s with clock := s.clock + seconds }
  | stop {worker : String} (ha : a = .stop worker) :
      Applied s a { s with stopping := worker :: s.stopping }

theorem map_id_leasedTo (now : Nat) (worker : String) (p : Job → Bool) (jobs : List Job) :
    (updateWhere p (Job.leasedTo now worker) jobs).map Job.id = jobs.map Job.id := by
  apply map_updateWhere
  intro r
  rfl

theorem Execution.outcomeRow_id (e : Execution) (o : HandlerResult)
    (now jitter : Nat) (r : Job) : (e.outcomeRow o now jitter r).id = r.id := by
  cases o <;> rfl

theorem rowChange_self (ha : ∀ i, a ≠ .heartbeat i) :
    ∀ r' ∈ s.jobs, ∃ r ∈ s.jobs, RowChange s a r r' :=
  fun r hr => ⟨r, hr, .kept ha r⟩

theorem Applied.updateWhere (ha : a.onTable = true)
    (hf : ∀ r, p r = true → RowChange s a r (f r)) (hid : ∀ r, (f r).id = r.id) :
    Applied s a { s with jobs := Table.updateWhere p f s.jobs } :=
  .table ha
    (fun _ h => rowChange_updateWhere hf (fun r _ => .kept (by
      rintro i rfl
      cases ha) r) h)
    (by rw [map_updateWhere hid])
    (fun r hr _ => by
      rw [map_updateWhere hid]
      exact mem_map_of_mem hr)

theorem applied_exec (ha : a.exec? = some i) (he : s.execs[i]? = some e)
    (h : s.applyExec i e a = some s') : Applied s a s' := by
  cases a <;> simp only [Action.exec?, Option.some.injEq, reduceCtorEq] at ha
  all_goals
    subst ha
    rw [Leases.applyExec] at h
  case markRunning =>
    split at h
    · rename_i hstage
      simp only [and_eq_true, decide_eq_true_eq] at hstage
      cases h
      unfold Leases.markRunning
      split
      · rename_i hhits
        exact .exec rfl he (.marked hstage.1 hhits)
          (fun _ h => rowChange_updateWhere
            (fun r hr => .running _ e r he hstage.1 hr)
            (fun r _ => RowChange.kept (a := .markRunning _) nofun r) h)
          (by apply map_updateWhere; intro r; rfl)
          (fun h => updateWhere_eq_self fun r hr =>
            markJobRunningHits_eq_false (h r hr))
      · exact .exec rfl he (.unmarked hstage.1) (rowChange_self nofun) rfl fun _ => rfl
    · cases h
  case heartbeat =>
    obtain ⟨hstage, rfl⟩ := Machine.of_guard h
    exact .exec rfl he (.beat hstage)
      (fun _ h => rowChange_updateWhere
        (fun r hr => .extended _ e r he hstage hr)
        (fun r hr => .same _ r fun k e' hk he' => by
          cases hk
          cases he.symm.trans he'
          exact hr) h)
      (by apply map_updateWhere; intro r; rfl)
      (fun h => updateWhere_eq_self h)
  case handlerReturns r =>
    obtain ⟨hstage, rfl⟩ := Machine.of_guard h
    exact .exec rfl he (.returned _ hstage) (rowChange_self nofun) rfl fun _ => rfl
  case record jitter =>
    split at h
    · rename_i o hstage
      split at h
      · cases h
      · rename_i hstop
        cases h
        rw [Leases.record, Execution.outcome_eq]
        exact .exec rfl he (.recorded o jitter hstage (by simpa using hstop))
          (fun _ h => rowChange_updateWhere
            (fun r hr => .recorded _ jitter e o r he hstage hr)
            (fun r _ => RowChange.kept (a := .record _ _) nofun r) h)
          (map_updateWhere (e.outcomeRow_id o s.clock jitter) _ _)
          (fun h => updateWhere_eq_self h)
    · cases h
  case loses =>
    split at h
    · rename_i hstage
      cases h
      exact .exec rfl he (.lost hstage) (rowChange_self nofun) rfl fun _ => rfl
    · rename_i o hstage
      cases h
      exact .exec rfl he (.unrecorded o hstage) (rowChange_self nofun) rfl fun _ => rfl
    · cases h
  case stopHeartbeat =>
    obtain ⟨hstage, rfl⟩ := Machine.of_guard h
    exact .exec rfl he (.stopped hstage) (rowChange_self nofun) rfl fun _ => rfl
  case dies =>
    cases h
    exact .exec rfl he .died (rowChange_self nofun) rfl fun _ => rfl

theorem applied_dequeue (hstop : worker ∉ s.stopping) :
    Applied s (.dequeue worker) (s.dequeue worker) := by
  unfold Leases.dequeue
  split
  · exact .idle rfl
  · rename_i j hj
    obtain ⟨r, hr, heligible, rfl, htable⟩ := dequeueJob_some hj
    rw [htable]
    exact .dequeue rfl hstop hr heligible hj

theorem applied_of_apply (h : s.apply a = some s') : Applied s a s' := by
  cases ha : a.exec? with
  | some i =>
    obtain ⟨e, he, happly⟩ := apply_of_exec ha h
    exact applied_exec ha he happly
  | none =>
    cases a <;> simp only [Action.exec?, reduceCtorEq] at ha
    case enqueue o =>
      cases h
      exact .enqueue rfl
    case dequeue worker =>
      rw [Leases.apply] at h
      split at h
      · cases h
      · rename_i hstop
        cases h
        exact applied_dequeue (by simpa using hstop)
    case reap =>
      cases h
      exact .updateWhere rfl (fun r hr => .reaped r hr) fun _ => rfl
    case promote =>
      cases h
      refine .updateWhere rfl (fun r hr => .promoted r ?_) fun _ => rfl
      simp only [and_eq_true, Bool.or_eq_true, decide_eq_true_eq] at hr
      exact hr.1
    case cancelJobs ids =>
      cases h
      refine .updateWhere rfl (fun r hr => .cancelled ids r ?_) fun _ => rfl
      simp only [and_eq_true, decide_eq_true_eq] at hr
      exact hr.1
    case requestCancel id =>
      cases h
      exact .updateWhere rfl (fun r _ => .flagged id r) fun _ => rfl
    case forget id =>
      cases h
      refine .updateWhere rfl (fun r hr => .forgotten id r ?_) fun _ => rfl
      simp only [and_eq_true, decide_eq_true_eq] at hr
      exact hr.2
    case purge ids =>
      cases h
      refine .table rfl
        (fun r hr => ⟨r, (mem_filter.1 hr).1, RowChange.kept (a := .purge _) nofun r⟩)
        (filter_sublist.map _) ?_
      intro r hr hheld
      refine mem_map_of_mem (mem_filter.2 ⟨hr, ?_⟩)
      cases hstatus : r.status <;> simp_all [JobStatus.held]
    case tick seconds =>
      cases h
      exact .tick rfl
    case stop worker =>
      cases h
      exact .stop rfl

/-! ## What an action keeps -/

theorem RowChange.id_eq (h : RowChange s a r r') : r'.id = r.id := by
  cases h with
  | recorded i jitter e o r he hstage hheld =>
    exact e.outcomeRow_id o s.clock jitter r
  | _ => rfl

/-- The columns that no statement changes. -/
theorem RowChange.frame (h : RowChange s a r r') :
    r'.maxAttempts = r.maxAttempts ∧ r'.lockKey = r.lockKey := by
  cases h with
  | recorded i jitter e o r he hstage hheld => cases o <;> exact ⟨rfl, rfl⟩
  | _ => exact ⟨rfl, rfl⟩

theorem RowChange.payload_eq (h : RowChange s a r r') : r'.payload = r.payload := by
  cases h with
  | recorded i jitter e o r he hstage hheld => cases o <;> rfl
  | _ => rfl

theorem RowChange.held (h : RowChange s a r r') (hheld : r'.status.held = true) :
    (r.status.held = true ∧ r'.leasedBy = r.leasedBy ∧ r'.attempt = r.attempt) ∨
      ∃ worker, a = .dequeue worker ∧ r' = r.leasedTo s.clock worker := by
  cases h with
  | same | flagged | extended i e r _ _ hby => exact .inl ⟨hheld, rfl, rfl⟩
  | leased worker r _ => exact .inr ⟨worker, rfl, rfl⟩
  | running i e r _ _ hhits =>
    simp only [markJobRunningHits, and_eq_true, decide_eq_true_eq] at hhits
    exact .inl ⟨by rw [hhits.2]; rfl, rfl, rfl⟩
  | recorded i jitter e o r =>
    cases o with
    | succeeded => cases hheld
    | failed =>
      simp only [Execution.outcomeRow] at hheld
      split at hheld <;> cases hheld
  | reaped r =>
    simp only [Job.reaped] at hheld
    split at hheld <;> cases hheld
  | promoted | cancelled | forgotten => cases hheld

theorem EnqueueOptions.row_held (o : EnqueueOptions) (now id : Nat) :
    (o.row now id).status.held = false := by
  simp only [EnqueueOptions.row]
  split <;> rfl

theorem ExecChange.frame (h : ExecChange s i e a e') : e'.worker = e.worker ∧ e'.job = e.job := by
  cases h <;> exact ⟨rfl, rfl⟩

theorem frame_of_change (h : e' = e ∨ ExecChange s i e a e') :
    e'.worker = e.worker ∧ e'.job = e.job := by
  rcases h with rfl | h
  · exact ⟨rfl, rfl⟩
  · exact h.frame

theorem ExecChange.finished (h : ExecChange s i e a e')
    (hstage : e.stage = .finished) : e'.stage = .finished := by
  cases h with
  | unmarked | lost | stopped | died => rfl
  | beat hbeat =>
    rw [hstage] at hbeat
    cases hbeat
  | marked h | returned _ h | recorded _ _ h | unrecorded _ h =>
    cases hstage.symm.trans h

namespace Applied

section

variable (h : Applied s a s')

include h

theorem row (hd : (s.jobs.map Job.id).Nodup) (hr' : r' ∈ s'.jobs) :
    (∃ r ∈ s.jobs, RowChange s a r r') ∨
      ∃ o, a = .enqueue o ∧ s'.nextJob = s.nextJob + 1 ∧ r' = o.row s.clock s.nextJob := by
  cases h with
  | exec _ _ _ hrows _ _ | table _ hrows _ _ => exact .inl (hrows r' hr')
  | idle ha | tick ha | stop ha =>
    exact .inl ⟨r', hr', .kept (by rw [ha]; nofun) r'⟩
  | @enqueue o ha =>
    rcases mem_append.1 hr' with hold | hnew
    · exact .inl ⟨r', hold, .kept (by rw [ha]; nofun) r'⟩
    · exact .inr ⟨o, ha, rfl, mem_singleton.1 hnew⟩
  | @dequeue worker r ha _ hr heligible _ =>
    rw [ha]
    rcases of_mem_updateKey hr' with ⟨q, hq, hid, rfl⟩ | ⟨hq, -⟩
    · rw [inj_on_of_nodup_map hd hq hr hid]
      exact .inl ⟨r, hr, .leased worker r heligible⟩
    · exact .inl ⟨r', hq, RowChange.kept (a := .dequeue _) nofun r'⟩

theorem exec_at (he' : s'.execs[i]? = some e') :
    (∃ e, s.execs[i]? = some e ∧ (e' = e ∨ ExecChange s i e a e')) ∨
      ∃ worker r, a = .dequeue worker ∧ i = s.execs.length ∧ r ∈ s.jobs ∧
        r.eligible s.jobs s.clock = true ∧
        e' = ⟨worker, r.leasedTo s.clock worker, .leased, s.clock + leaseDuration, none⟩ := by
  cases h with
  | idle | table | tick | stop | enqueue => exact .inl ⟨e', he', .inl rfl⟩
  | @exec k e e₁ jobs _ he hchange _ _ _ =>
    rcases of_getElem?_set he' with ⟨rfl, rfl⟩ | ⟨_, he'⟩
    · exact .inl ⟨e, he, .inr hchange⟩
    · exact .inl ⟨e', he', .inl rfl⟩
  | @dequeue worker r ha _ hr heligible _ =>
    rcases of_getElem?_concat he' with he' | ⟨hi, rfl⟩
    · exact .inl ⟨e', he', .inl rfl⟩
    · exact .inr ⟨worker, r, ha, hi, hr, heligible, rfl⟩

theorem exec_change (he : s.execs[i]? = some e) (he' : s'.execs[i]? = some e') :
    e' = e ∨ ExecChange s i e a e' := by
  rcases exec_at h he' with ⟨e₀, he₀, heq⟩ | ⟨_, _, _, hi, _⟩
  · cases he₀.symm.trans he
    exact heq
  · cases (getElem?_eq_none (by omega)).symm.trans he

theorem exec_stays (he : s.execs[i]? = some e) :
    ∃ e', s'.execs[i]? = some e' ∧ e'.worker = e.worker ∧ e'.job = e.job := by
  have hi : i < s.execs.length := (List.getElem?_eq_some_iff.1 he).1
  cases h with
  | idle | table | tick | stop | enqueue => exact ⟨e, he, rfl, rfl⟩
  | @exec k e₀ e₁ jobs _ he₀ hchange _ _ _ =>
    by_cases hk : k = i
    · subst hk
      cases he₀.symm.trans he
      refine ⟨e₁, ?_, hchange.frame⟩
      rw [getElem?_set_self hi]
    · refine ⟨e, ?_, rfl, rfl⟩
      rw [getElem?_set_ne hk]
      exact he
  | dequeue =>
    refine ⟨e, ?_, rfl, rfl⟩
    rw [getElem?_append_left hi]
    exact he

theorem distinct (hd : (s.jobs.map Job.id).Nodup)
    (hfresh : ∀ r ∈ s.jobs, r.id < s.nextJob) :
    (s'.jobs.map Job.id).Nodup := by
  cases h with
  | exec _ _ _ _ hids _ =>
    rw [hids]
    exact hd
  | table _ _ hids _ => exact hd.sublist hids
  | idle | tick | stop => exact hd
  | dequeue =>
    show (map Job.id _).Nodup
    rw [map_id_leasedTo]
    exact hd
  | enqueue =>
    exact nodup_concat hd fun r hr => Nat.ne_of_lt (hfresh r hr)

theorem nextJob_le : s.nextJob ≤ s'.nextJob := by
  cases h with
  | enqueue => exact Nat.le_succ _
  | _ => exact Nat.le_refl _

theorem clock_le : s.clock ≤ s'.clock := by
  cases h with
  | tick => exact Nat.le_add_right _ _
  | _ => exact Nat.le_refl _

theorem fresh (hd : (s.jobs.map Job.id).Nodup)
    (hfresh : ∀ r ∈ s.jobs, r.id < s.nextJob) (hr' : r' ∈ s'.jobs) :
    r'.id < s'.nextJob := by
  rcases h.row hd hr' with ⟨r, hr, hchange⟩ | ⟨o, _, hnext, rfl⟩
  · rw [hchange.id_eq]
    exact Nat.lt_of_lt_of_le (hfresh r hr) h.nextJob_le
  · rw [hnext]
    exact Nat.lt_succ_self _

/-- Where a held row comes from: it was held before, by the same worker and
with the same holder, or it is the one that a worker takes. -/
theorem held (hd : (s.jobs.map Job.id).Nodup)
    (hr' : r' ∈ s'.jobs) (hheld : r'.status.held = true) :
    (∃ r ∈ s.jobs, RowChange s a r r' ∧ r.status.held = true ∧
        r'.leasedBy = r.leasedBy ∧ r'.attempt = r.attempt ∧
        s'.holder r.id = s.holder r.id) ∨
      ∃ worker r, a = .dequeue worker ∧ r ∈ s.jobs ∧
        r.eligible s.jobs s.clock = true ∧
        (dequeueJob s.clock worker s.jobs).1 = some r' ∧
        r' = r.leasedTo s.clock worker ∧
        s'.holder r.id = some s.execs.length ∧
        s'.execs = s.execs ++ [⟨worker, r', .leased, s.clock + leaseDuration, none⟩] := by
  cases h with
  | idle ha | tick ha | stop ha =>
    exact .inl ⟨r', hr', .kept (by rw [ha]; nofun) r', hheld, rfl, rfl, rfl⟩
  | enqueue ha =>
    rcases mem_append.1 hr' with hold | hnew
    · exact .inl ⟨r', hold, .kept (by rw [ha]; nofun) r', hheld, rfl, rfl, rfl⟩
    · rw [mem_singleton.1 hnew, EnqueueOptions.row_held] at hheld
      cases hheld
  | exec ha _ _ hrows _ _ | table ha hrows _ _ =>
    obtain ⟨r, hr, hchange⟩ := hrows r' hr'
    rcases hchange.held hheld with ⟨hold, hby, hatt⟩ | ⟨worker, hdeq, _⟩
    · exact .inl ⟨r, hr, hchange, hold, hby, hatt, rfl⟩
    · rw [hdeq] at ha
      cases ha
  | @dequeue worker r ha _ hr heligible htaken =>
    rcases of_mem_updateKey hr' with ⟨q, hq, hid, rfl⟩ | ⟨hq, hid⟩
    · obtain rfl := inj_on_of_nodup_map hd hq hr hid
      exact .inr ⟨worker, q, ha, hr, heligible, htaken, rfl, by simp, rfl⟩
    · exact .inl ⟨r', hq, .kept (by rw [ha]; nofun) r', hheld, rfl, rfl,
        Function.update_of_ne hid _ _⟩

/-- No action removes a held row. -/
theorem row_of_held (hd : (s.jobs.map Job.id).Nodup)
    (hfresh : ∀ r ∈ s.jobs, r.id < s.nextJob) (hr : r ∈ s.jobs)
    (hheld : r.status.held = true) : ∃ r' ∈ s'.jobs, RowChange s a r r' := by
  have hmem : r.id ∈ s'.jobs.map Job.id := by
    cases h with
    | exec _ _ _ _ hids _ =>
      rw [hids]
      exact mem_map_of_mem hr
    | table _ _ _ hkeep => exact hkeep r hr hheld
    | idle | tick | stop => exact mem_map_of_mem hr
    | enqueue =>
      rw [map_append]
      exact mem_append_left _ (mem_map_of_mem hr)
    | dequeue =>
      show r.id ∈ map Job.id _
      rw [map_id_leasedTo]
      exact mem_map_of_mem hr
  obtain ⟨r', hr', hid⟩ := mem_map.1 hmem
  refine ⟨r', hr', ?_⟩
  rcases h.row hd hr' with ⟨q, hq, hchange⟩ | ⟨o, ha, _, rfl⟩
  · have hqr : q = r := inj_on_of_nodup_map hd hq hr (by rw [← hchange.id_eq, hid])
    rw [← hqr]
    exact hchange
  · have hlt := hfresh r hr
    have hnew : s.nextJob = r.id := hid
    omega

end

end Applied

/-! ## The table of jobs in every run -/

/-- The lease columns are set exactly in the held statuses. -/
def LeaseFields (r : Job) : Prop :=
  r.leasedBy.isSome = r.status.held ∧ r.leaseExpiresAt.isSome = r.status.held

theorem RowChange.leaseFields (h : RowChange s a r r') (hr : LeaseFields r) : LeaseFields r' := by
  cases h with
  | same | flagged => exact hr
  | leased => exact ⟨rfl, rfl⟩
  | running i e r _ _ hhits =>
    simp only [markJobRunningHits, and_eq_true, decide_eq_true_eq] at hhits
    rw [LeaseFields, hhits.2] at hr
    exact hr
  | extended i e r _ _ hby =>
    simp only [Job.heldBy, and_eq_true, decide_eq_true_eq] at hby
    exact ⟨hr.1, hby.2.symm⟩
  | recorded i jitter e o r =>
    cases o with
    | succeeded => exact ⟨rfl, rfl⟩
    | failed =>
      simp only [LeaseFields, Execution.outcomeRow]
      split <;> exact ⟨rfl, rfl⟩
  | reaped r =>
    simp only [LeaseFields, Job.reaped]
    split <;> exact ⟨rfl, rfl⟩
  | promoted r h =>
    rcases h with h | h
    all_goals
      rw [LeaseFields, h] at hr
      exact hr
  | cancelled ids r h | forgotten id r h =>
    rw [LeaseFields, h] at hr
    exact hr

/-- The execution `i` is the last one that dequeued the job of the row `r`,
and its copy of the row is up to date. -/
def HeldCopy (s : Leases) (r : Job) (i : Nat) (e : Execution) : Prop :=
  s.holder r.id = some i ∧ s.execs[i]? = some e ∧ e.job.id = r.id ∧
    r.leasedBy = some e.worker ∧ e.job.attempt = r.attempt ∧
    e.job.maxAttempts = r.maxAttempts ∧ e.job.lockKey = r.lockKey

/-- What holds of the table in every run.  A held row has a holder. -/
structure Sound (s : Leases) : Prop where
  distinct : (s.jobs.map Job.id).Nodup
  fresh : ∀ r ∈ s.jobs, r.id < s.nextJob
  fields : ∀ r ∈ s.jobs, LeaseFields r
  copies : ∀ r ∈ s.jobs, r.status.held = true → ∃ i e, HeldCopy s r i e

theorem sound_empty (clock : Nat) : Sound (.empty clock) where
  distinct := nodup_nil
  fresh := forall_mem_nil _
  fields := forall_mem_nil _
  copies := forall_mem_nil _

theorem Sound.eq_of_id (hs : Sound s) (hr : r ∈ s.jobs) (hr' : r' ∈ s.jobs)
    (hid : r.id = r'.id) : r = r' :=
  inj_on_of_nodup_map hs.distinct hr hr' hid

theorem Sound.fields_step (hs : Sound s) (h : Applied s a s')
    (hr' : r' ∈ s'.jobs) : LeaseFields r' := by
  rcases h.row hs.distinct hr' with ⟨r, hr, hchange⟩ | ⟨o, _, _, rfl⟩
  · exact hchange.leaseFields (hs.fields r hr)
  · exact ⟨(o.row_held _ _).symm, (o.row_held _ _).symm⟩

theorem Sound.copies_step (hs : Sound s) (h : Applied s a s')
    (hr' : r' ∈ s'.jobs) (hheld : r'.status.held = true) :
    ∃ i e, HeldCopy s' r' i e := by
  rcases h.held hs.distinct hr' hheld with
    ⟨r, hr, hchange, hold, hby, hatt, hholder⟩ |
    ⟨worker, r, _, _, _, _, rfl, hholder, hexecs⟩
  · obtain ⟨i, e, hi, he, hid, hw, ha, hm, hk⟩ := hs.copies r hr hold
    obtain ⟨e', he', hworker, hjob⟩ := h.exec_stays he
    refine ⟨i, e', ?_⟩
    rw [HeldCopy, hchange.id_eq, hholder, hi, he', hworker, hjob, hby, hatt,
      hchange.frame.1, hchange.frame.2]
    exact ⟨rfl, rfl, hid, hw, ha, hm, hk⟩
  · refine ⟨s.execs.length, ⟨worker, r.leasedTo s.clock worker, .leased,
      s.clock + leaseDuration, none⟩, hholder, ?_, rfl, rfl, rfl, rfl,
      rfl⟩
    rw [hexecs, getElem?_append_right le_rfl, Nat.sub_self]
    rfl

theorem Sound.step (hs : Sound s) (h : s.apply a = some s') : Sound s' := by
  have happlied := applied_of_apply h
  exact {
    distinct := happlied.distinct hs.distinct hs.fresh
    fresh := fun _ hr => happlied.fresh hs.distinct hs.fresh hr
    fields := fun _ hr => hs.fields_step happlied hr
    copies := fun _ hr hheld => hs.copies_step happlied hr hheld }

theorem sound_of_reaches (h : Machine.Reaches Leases.apply may (.empty clock) s) : Sound s :=
  h.invariant (fun _ _ _ _ happly hs => hs.step happly) (sound_empty clock)

end Akerdock.Queue
