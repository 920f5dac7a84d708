import Akerdock.Cron.Earliest
import Akerdock.Lib.Turns
import Akerdock.Queue.Leases

/-!
# Scheduled tasks

The rows of `scheduled_tasks` and `task_executions`, and the three pieces of
code that work on them, each as the list of places it can be at between two
statements.

* `Client` is a pass of the scheduler (`runDueScheduledTasks`, with
  `scheduleTask`, `recordSkip`, `enqueueTask` and `advanceTask`) or a request
  of the API (`RunScheduledTask`).  Both open the execution row first and
  queue its job after that; a `Caller` says which of the two is at work and
  what it has left to do.
* `Handler` is `ScheduledTaskRun.Execute`, with `dispatchWorkflow` and `fail`.
* Cron expressions are not looked into here: a `Calendar` gives the occurrences
  of an expression in a time zone, and they come strictly later.  `Schedule.ofCron`
  has them from the search of `Akerdock.Cron`, for a zone of one offset.

Every statement may fail, and may report an error although it took effect:
the end of a call is a `CallEnd` for the clients.  For a handler it is a
`HandlerEnd`, which also says how the command exited.
-/

namespace Akerdock.Tasks

open Store Queue Table Proc

/-! ## Rows -/

inductive TaskKind where
  | containerCommand
  | githubWorkflow

inductive OverlapPolicy where
  | skip
  | queue
  deriving DecidableEq

inductive MissedRunPolicy where
  | run
  | skip
  deriving DecidableEq

inductive ExecutionStatus where
  | running
  | succeeded
  | failed
  | skipped
  deriving DecidableEq

/-- A parsed cron expression in its time zone.  `next` is `Schedule.Next`, with
`none` for the zero time of an expression that never matches. -/
structure Schedule where
  next : Nat → Option Nat
  later : ∀ t u, next t = some u → t < u

def Schedule.ofCron (s : Cron.Schedule) {offset : Int} (h : 60 ∣ offset) : Schedule where
  next t := ((s.Next (.fixed offset) 158112001 (t * 1000000000)).bind id).map Int.toNat
  later t u hu := by
    obtain ⟨r, hr, hfirst⟩ := Cron.Schedule.search_earliest (s := s) h 158112000
      (Cron.Schedule.start_dvd (t * 1000000000))
      (show Cron.Schedule.deadline (t * 1000000000) ≤ _ by unfold Cron.Schedule.deadline; omega)
    rw [Cron.Schedule.Next, hr] at hu
    cases r with
    | none => cases hu
    | some v =>
      cases hu
      have hstart := hfirst.1.2.1
      unfold Cron.Schedule.start at hstart
      omega

/-- `cronexpr.Parse` and `time.LoadLocation`. -/
abbrev Calendar := String → String → Option Schedule

/-- A row of `scheduled_tasks`.  `resourceLive` is the column of the resource
that `ListSchedulableTasks` joins. -/
structure ScheduledTask where
  id : Nat
  uuid : String
  kind : TaskKind
  cronExpression : String
  timezone : String
  enabled : Bool
  overlapPolicy : OverlapPolicy
  missedRunPolicy : MissedRunPolicy
  nextRunAt : Option Nat
  deleted : Bool
  resourceLive : Bool

/-- A row of `task_executions`.  `occurrence` is not a column: it is the
`next_run_at` that the scheduler opened the row for, and `none` for a run that
an operator asked for. -/
structure TaskExecution where
  id : Nat
  scheduledTaskId : Nat
  status : ExecutionStatus
  occurrence : Option Nat

/-! ## Statements -/

def listSchedulableTasks (ts : List ScheduledTask) : List ScheduledTask :=
  ts.filter fun t => t.enabled && !t.deleted && t.resourceLive

def getScheduledTaskByID (id : Nat) (ts : List ScheduledTask) : Option ScheduledTask :=
  ts.find? fun t => t.id = id && !t.deleted

/-- `SetScheduledTaskSchedule`: no new time keeps the old one. -/
def setScheduledTaskSchedule (id : Nat) (nextRunAt : Option Nat)
    (ts : List ScheduledTask) : List ScheduledTask :=
  updateWhere (fun t => t.id = id)
    (fun t => { t with nextRunAt := nextRunAt.or t.nextRunAt }) ts

/-- The arguments of `UpdateScheduledTask` that the modelled code reads. -/
structure TaskEdit where
  cronExpression : Option String
  timezone : Option String
  enabled : Option Bool
  overlapPolicy : Option OverlapPolicy
  missedRunPolicy : Option MissedRunPolicy

/-- A new cron expression or time zone drops the window. -/
def TaskEdit.apply (e : TaskEdit) (t : ScheduledTask) : ScheduledTask :=
  { t with
    cronExpression := e.cronExpression.getD t.cronExpression
    timezone := e.timezone.getD t.timezone
    enabled := e.enabled.getD t.enabled
    overlapPolicy := e.overlapPolicy.getD t.overlapPolicy
    missedRunPolicy := e.missedRunPolicy.getD t.missedRunPolicy
    nextRunAt :=
      if e.cronExpression.isSome || e.timezone.isSome then none
      else t.nextRunAt }

def updateScheduledTask (id : Nat) (e : TaskEdit) (ts : List ScheduledTask) : List ScheduledTask :=
  updateWhere (fun t => t.id = id && !t.deleted) e.apply ts

def softDeleteScheduledTask (id : Nat) (ts : List ScheduledTask) : List ScheduledTask :=
  updateWhere (fun t => t.id = id && !t.deleted)
    (fun t => { t with deleted := true, enabled := false }) ts

def finishTaskExecution (id : Nat) (status : ExecutionStatus)
    (xs : List TaskExecution) : List TaskExecution :=
  updateWhere (fun x => x.id = id) (fun x => { x with status := status }) xs

def countRunningTaskExecutions (taskId : Nat) (xs : List TaskExecution) : Nat :=
  xs.countP fun x => x.scheduledTaskId = taskId && x.status = .running

def enqueueOptions (t : ScheduledTask) (executionId : Nat) : EnqueueOptions where
  payload := .scheduledTaskRun t.id executionId
  priority := 0
  runAt := none
  maxAttempts := 0
  lockKey := some ("scheduled_task:" ++ t.uuid)

/-! ## The scheduler and the API -/

/-- Who opens an execution: a pass that has read the time `now` and has the
tasks `todo` left, or a request. -/
inductive Caller where
  | pass (now : Nat) (todo : List ScheduledTask)
  | request

/-- Where a pass or a request is.  Each constructor is named after the
statement that comes next; `tasks` is the head of the loop. -/
inductive Client where
  | list
  | clock (todo : List ScheduledTask)
  | tasks (now : Nat) (todo : List ScheduledTask)
  | count (c : Caller) (t : ScheduledTask)
  | skip (now : Nat) (todo : List ScheduledTask) (t : ScheduledTask)
  | create (c : Caller) (t : ScheduledTask)
  | enqueue (c : Caller) (t : ScheduledTask) (executionId : Nat)
  | advance (now : Nat) (todo : List ScheduledTask) (t : ScheduledTask) (fired : Bool)
  | done

/-- Where the caller goes on: a pass logs an error and takes the next task,
a request answers. -/
def Caller.back : Caller → Client
  | .pass now todo => .tasks now todo
  | .request => .done

/-- The occurrence that the caller opens an execution for. -/
def Caller.occurrence (t : ScheduledTask) : Caller → Option Nat
  | .pass _ _ => t.nextRunAt
  | .request => none

/-- `schedule.Next(task.NextRunAt).Sub(task.NextRunAt)` has gone by. -/
def missed (schedule : Schedule) (due now : Nat) : Bool :=
  match schedule.next due with
  | none => false
  | some u => u - due < now - due

/-- The decisions of `scheduleTask` before its first statement. -/
def scheduleTask (cal : Calendar) (now : Nat) (todo : List ScheduledTask)
    (t : ScheduledTask) : Client :=
  match cal t.cronExpression t.timezone with
  | none => .tasks now todo
  | some schedule =>
    match t.nextRunAt with
    | none => .advance now todo t false
    | some due =>
      if now < due then .tasks now todo
      else if missed schedule due now && t.missedRunPolicy = .skip then
        .skip now todo t
      else if t.overlapPolicy = .skip then .count (.pass now todo) t
      else .create (.pass now todo) t

/-- `RunScheduledTask`, once it has the row of the task. -/
def runScheduledTask (t : ScheduledTask) : Client :=
  if t.overlapPolicy = .skip then .count .request t else .create .request t

/-- What comes after a count that found nothing or something running. -/
def Caller.counted (t : ScheduledTask) (running : Nat) : Caller → Client
  | .pass now todo =>
    if running = 0 then .create (.pass now todo) t else .skip now todo t
  | .request => if running = 0 then .create .request t else .done

/-- What comes after the job is queued. -/
def Caller.enqueued (t : ScheduledTask) : Caller → Client
  | .pass now todo => .advance now todo t true
  | .request => .done

def nextRun (cal : Calendar) (t : ScheduledTask) (now : Nat) : Option Nat :=
  (cal t.cronExpression t.timezone).bind fun schedule => schedule.next now

/-! ## The handler -/

/-- How a call of the handler ends: well, with the exit code if it is the
command; with an error and without effect; with an error after it took
effect, as a command that ran into its timeout. -/
inductive HandlerEnd where
  | done (exitCode : Nat)
  | failed
  | lost
  deriving DecidableEq

def HandlerEnd.isDone : HandlerEnd → Bool
  | .done _ => true
  | _ => false

/-- What `Execute` does with an error of `FinishTaskExecution`: it returns it
after a command that ran, and logs it everywhere else. -/
inductive Closing where
  | returned
  | logged (r : HandlerResult)

/-- Where `Execute` is.  Each constructor is named after the call that comes
next.  `resolve` is what `dispatchWorkflow` looks up before it dispatches: the
file, the GitHub App and its token, the ref, the inputs. -/
inductive Handler where
  | getTask
  | getApplication (kind : TaskKind)
  | getDestination
  | getServer
  | runtime
  | exec
  | resolve
  | dispatch
  | finish (status : ExecutionStatus) (closing : Closing)
  | returns (r : HandlerResult)

/-- The result that `Execute` returns after its closing write. -/
def Closing.result (ok : Bool) : Closing → HandlerResult
  | .returned => if ok then .succeeded else .failed
  | .logged r => r

/-- One call of `Execute`.  `task` is the row that `GetScheduledTaskByID` finds
if it does not fail. -/
def Handler.next (task : Option ScheduledTask) (o : HandlerEnd) : Handler → Handler
  | .getTask =>
    match o, task with
    | .done _, some t => .getApplication t.kind
    | _, _ => .returns .failed
  | .getApplication kind =>
    if o.isDone then
      match kind with
      | .githubWorkflow => .resolve
      | .containerCommand => .getDestination
    else .returns .failed
  | .getDestination => if o.isDone then .getServer else .returns .failed
  | .getServer => if o.isDone then .runtime else .returns .failed
  | .runtime =>
    if o.isDone then .exec else .finish .failed (.logged .failed)
  | .exec =>
    match o with
    | .done exitCode =>
      .finish (if exitCode = 0 then .succeeded else .failed) .returned
    | _ => .finish .failed (.logged .succeeded)
  | .resolve =>
    if o.isDone then .dispatch else .finish .failed (.logged .succeeded)
  | .dispatch =>
    .finish (if o.isDone then .succeeded else .failed) (.logged .succeeded)
  | .finish _ closing => .returns (closing.result o.isDone)
  | .returns r => .returns r

/-- The call is the operator's command or the dispatch, and it takes effect. -/
def Handler.performs (o : HandlerEnd) : Handler → Bool
  | .exec | .dispatch => o ≠ .failed
  | _ => false

/-- The status that the call writes into the execution row. -/
def Handler.writes (o : HandlerEnd) : Handler → Option ExecutionStatus
  | .finish status _ => if o = .failed then none else some status
  | _ => none

end Akerdock.Tasks
