import Akerdock.Lib.Pool
import Akerdock.Lib.Table
import Akerdock.Store.Rows

/-!
# Cleanups and deployments on one server

`ServerCleanup.Execute` of `internal/jobs/servercleanup.go` prunes a server, and
must not do so while a deployment uses it.  Both sides ask the database first:
a deployment by `StartDeploymentUnlessCleanupRunning` and
`AssignDeploymentBuildServerUnlessCleanupRunning`, a cleanup by
`CanStartServerCleanup`.

A statement runs at READ COMMITTED.  It takes its snapshot when it begins, then
waits for the lock of the server's row, and what its `NOT EXISTS` reads is the
snapshot, however long the statement waited.  `execute` has these three steps;
the row that an update changes is read as it is at the commit.

* `deploymentRun` and `serverCleanup` are the programs of the two jobs, any
  number of attempts of which run side by side.  `Elsewhere` is what happens
  besides: new rows, reaped leases, lost connections, crashes.
* `Excluded` is the exclusion.  It fails, since two snapshots can both be older
  than the other side's commit, and since a cleanup goes on when its lease is
  reaped: `cleanup_overlaps`.
* `cleanup_excluded` has the condition under which it holds.
-/

namespace Akerdock.Cleanup

open Store (DeploymentStatus JobStatus)
open Proc Table List

/-! ## Rows -/

/-- `deployments`: a row, as far as the guards read it. -/
structure Deployment where
  id : Nat
  serverId : Nat
  buildServerId : Option Nat
  status : DeploymentStatus
  deriving DecidableEq

def Deployment.active (d : Deployment) : Bool :=
  d.status != .queued && !d.status.terminal

def Deployment.uses (server : Nat) (d : Deployment) : Bool :=
  d.serverId == server || d.buildServerId == some server

structure CleanupJob where
  id : Nat
  serverId : Nat
  status : JobStatus
  leasedBy : Option Nat
  deriving DecidableEq

/-- What a statement sees of the database. -/
structure Tables where
  deployments : List Deployment
  jobs : List CleanupJob

def Tables.cleanupRunning (t : Tables) (server : Nat) : Bool :=
  t.jobs.any fun j => j.serverId == server && j.status.held

/-- A deployment past `queued` and not terminal uses the server. -/
def Tables.deploying (t : Tables) (server : Nat) : Bool :=
  t.deployments.any fun d => d.active && d.uses server

/-- The database, and the cleanups that are past their guard.

* `locks` are the locked rows of `servers`, with the transaction that holds
  each of them.
* `cleaning` are the jobs whose handler has been told to go on and has not
  returned, with their servers. -/
structure Db where
  tables : Tables
  locks : List (Nat × Nat)
  nextTicket : Nat
  cleaning : List (Nat × Nat)

def Db.empty : Db :=
  ⟨⟨[], []⟩, [], 0, []⟩

/-- No cleanup is past its guard on a server that a deployment uses. -/
def Excluded (s : Db) : Prop :=
  ∀ c ∈ s.cleaning, ∀ d ∈ s.tables.deployments, d.active = true → d.uses c.2 = false

instance (s : Db) : Decidable (Excluded s) :=
  inferInstanceAs (Decidable (∀ c ∈ s.cleaning, _))

/-! ## The statements that lock a server -/

/-- The statements of the guards.  `job` is the cleanup that asks. -/
inductive Guarded where
  | startDeployment (id : Nat)
  | assignBuildServer (id buildServer : Nat)
  | canStartServerCleanup (job server : Nat)

/-- The server whose row is locked; none for a deployment that is not there. -/
def Guarded.server (t : Tables) : Guarded → Option Nat
  | .startDeployment id => (row? Deployment.id id t.deployments).map Deployment.serverId
  | .assignBuildServer _ buildServer => some buildServer
  | .canStartServerCleanup _ server => some server

/-- The row that `StartDeploymentUnlessCleanupRunning` changes.  The row is
queued in the snapshot and still is. -/
def startHits (snapshot : Tables) (id : Nat) (d : Deployment) : Bool :=
  d.id == id && d.status == .queued &&
    snapshot.deployments.any (fun d' => d'.id == id && d'.status == .queued) &&
    !snapshot.cleanupRunning d.serverId

/-- The row that `AssignDeploymentBuildServerUnlessCleanupRunning` changes. -/
def assignHits (snapshot : Tables) (id buildServer : Nat) (d : Deployment) : Bool :=
  d.id == id && !snapshot.cleanupRunning buildServer

/-- What a statement of the guards answers and does: whether it changed a row,
or whether the cleanup can start. -/
def Guarded.run (snapshot : Tables) : Guarded → Db → Bool × Db
  | .startDeployment id, s =>
    (s.tables.deployments.any (startHits snapshot id), { s with
      tables.deployments := updateWhere (startHits snapshot id)
        (fun d => { d with status := .preparing }) s.tables.deployments })
  | .assignBuildServer id buildServer, s =>
    (s.tables.deployments.any (assignHits snapshot id buildServer), { s with
      tables.deployments := updateWhere (assignHits snapshot id buildServer)
        (fun d => { d with buildServerId := some buildServer })
        s.tables.deployments })
  | .canStartServerCleanup job server, s =>
    if snapshot.deploying server then (false, s)
    else (true, { s with cleaning := (job, server) :: s.cleaning })

/-! ## The calls -/

/-- The calls of the two jobs.  `beginStatement`, `lockServer` and `commit` are
the parts of a statement of the guards; `returned` says that the handler of a
cleanup is over. -/
inductive Call where
  | getDeploymentStatus (id : Nat)
  | setDeploymentStatus (id : Nat) (status : DeploymentStatus)
  | beginStatement
  | lockServer (ticket server : Nat)
  | commit (stmt : Guarded) (ticket : Nat) (snapshot : Tables)
  | markJobRunning (job worker : Nat)
  | prune (job server : Nat)
  | returned (job : Nat)
  | deferCleanup (job server : Nat)
  | finishJob (job worker : Nat) (status : JobStatus)

/-- The answers.  A commit answers nothing if the transaction was rolled
back. -/
def Ans : Call → Type
  | .getDeploymentStatus _ => Option DeploymentStatus
  | .beginStatement => Nat × Tables
  | .commit _ _ _ => Option Bool
  | .markJobRunning _ _ => Bool
  | .prune _ _ => Bool
  | _ => Unit

/-- The row of the job, as long as the worker holds its lease. -/
def CleanupJob.heldBy (job worker : Nat) (j : CleanupJob) : Bool :=
  j.id == job && j.leasedBy == some worker && j.status.held

/-- What a call does.  The outcome is whether a step of the cleanup
succeeds. -/
def Call.act : (c : Call) → Bool → Db → Ans c × Db
  | .getDeploymentStatus id, _, s =>
    ((row? Deployment.id id s.tables.deployments).map Deployment.status, s)
  | .setDeploymentStatus id status, _, s => ((), { s with
      tables.deployments := updateWhere (fun d => d.id == id)
        (fun d => { d with status }) s.tables.deployments })
  | .beginStatement, _, s =>
    ((s.nextTicket, s.tables), { s with nextTicket := s.nextTicket + 1 })
  | .lockServer ticket server, _, s =>
    ((), { s with locks := (server, ticket) :: s.locks })
  | .commit stmt ticket snapshot, _, s =>
    if s.locks.any fun l => l.2 == ticket then
      (some (stmt.run snapshot s).1, { (stmt.run snapshot s).2 with
        locks := s.locks.filter fun l => l.2 != ticket })
    else (none, s)
  | .markJobRunning job worker, _, s =>
    (s.tables.jobs.any (fun j => j.heldBy job worker && j.status == .leased),
      { s with
        tables.jobs := updateWhere
          (fun j => j.heldBy job worker && j.status == .leased)
          (fun j => { j with status := .running }) s.tables.jobs })
  | .prune _ _, o, s => (o, s)
  | .returned job, _, s =>
    ((), { s with cleaning := s.cleaning.filter fun c => c.1 != job })
  | .deferCleanup _ server, _, s => ((), { s with
      tables.jobs := s.tables.jobs ++
        [⟨nextId CleanupJob.id s.tables.jobs, server, .scheduled, none⟩] })
  | .finishJob job worker status, _, s => ((), { s with
      tables.jobs := updateWhere (CleanupJob.heldBy job worker)
        (fun j => { j with status, leasedBy := none }) s.tables.jobs })

/-- A lock is granted only when nobody holds it. -/
def Call.enabled : Call → Db → Prop
  | .lockServer _ server, s => ∀ l ∈ s.locks, l.1 ≠ server
  | _, _ => True

/-! ## The jobs -/

def execute (stmt : Guarded) : Prog Ans (Option Bool) :=
  .call .beginStatement fun (began : Nat × Tables) =>
    match stmt.server began.2 with
    | none => .ret (some false)
    | some server => .call (.lockServer began.1 server) fun _ =>
        .call (.commit stmt began.1 began.2) fun (r : Option Bool) => .ret r

/-- The first `setStatus` of an attempt that found the deployment queued. -/
def startDeployment (id : Nat) : Nat → Prog Ans Bool
  | 0 => .ret false
  | polls + 1 => (execute (.startDeployment id)).bind fun
    | none => .ret false
    | some true => .ret true
    | some false => .call (.getDeploymentStatus id)
        fun (status : Option DeploymentStatus) =>
          if status = some .queued then startDeployment id polls
          else .ret false

def reserveBuildServer (id server : Nat) : Nat → Prog Ans Bool
  | 0 => .ret false
  | polls + 1 => (execute (.assignBuildServer id server)).bind fun
    | none => .ret false
    | some true => .ret true
    | some false => reserveBuildServer id server polls

/-- What an attempt does to its row after it has started. -/
inductive DeployStep where
  | setStatus (status : DeploymentStatus)
  | reserve (server : Nat)

/-- The steps of an attempt, in the order that its pipeline has. -/
def pipeline (id polls : Nat) : List DeployStep → Prog Ans Unit
  | [] => .ret ()
  | .setStatus status :: rest =>
    .call (.setDeploymentStatus id status) fun _ => pipeline id polls rest
  | .reserve server :: rest => (reserveBuildServer id server polls).bind fun
    | true => pipeline id polls rest
    | false => .ret ()

/-- An attempt to run a deployment, the first one or one that resumes it. -/
def deploymentRun (id polls : Nat) (steps : List DeployStep) : Prog Ans Unit :=
  .call (.getDeploymentStatus id) fun (status : Option DeploymentStatus) =>
    match status with
    | none => .ret ()
    | some .queued => (startDeployment id polls).bind fun
      | true => pipeline id polls steps
      | false => .ret ()
    | some status =>
      if status.terminal then .ret () else pipeline id polls steps

/-- The steps of a cleanup, up to the first that fails. -/
def cleanupSteps (job server : Nat) : Nat → Prog Ans JobStatus
  | 0 => .ret .succeeded
  | steps + 1 => .call (.prune job server) fun (ok : Bool) =>
      if ok then cleanupSteps job server steps else .ret .retryWait

/-- An attempt to run a cleanup. -/
def serverCleanup (job server worker steps : Nat) : Prog Ans Unit :=
  .call (.markJobRunning job worker) fun (running : Bool) =>
    if running then (execute (.canStartServerCleanup job server)).bind fun
      | none => .call (.finishJob job worker .retryWait) fun _ => .ret ()
      | some false => .call (.deferCleanup job server) fun _ =>
          .call (.finishJob job worker .succeeded) fun _ => .ret ()
      | some true => (cleanupSteps job server steps).bind fun status =>
          .call (.returned job) fun _ =>
            .call (.finishJob job worker status) fun _ => .ret ()
    else .ret ()

/-! ## The runs -/

/-- What may happen in a run: the calls, and the lapse of a lease. -/
structure Regime where
  may : Call → Db → Prop
  lapse : Nat → Db → Prop

/-- What happens besides the two jobs. -/
inductive Elsewhere (R : Regime) : Db → Db → Prop where
  | createDeployment (s : Db) (server : Nat) :
      Elsewhere R s { s with
        tables.deployments := s.tables.deployments ++
          [⟨nextId Deployment.id s.tables.deployments, server, none, .queued⟩] }
  | withdraw (s : Db) (id : Nat) (status : DeploymentStatus) (h : status.terminal = true) :
      Elsewhere R s { s with
        tables.deployments := updateWhere
          (fun d => d.id == id && d.status == .queued)
          (fun d => { d with status }) s.tables.deployments }
  | enqueueCleanup (s : Db) (server : Nat) :
      Elsewhere R s { s with
        tables.jobs := s.tables.jobs ++
          [⟨nextId CleanupJob.id s.tables.jobs, server, .queued, none⟩] }
  | promoteWaitingJob (s : Db) (job : Nat) :
      Elsewhere R s { s with
        tables.jobs := updateWhere
          (fun j => j.id == job && (j.status == .retryWait || j.status == .scheduled))
          (fun j => { j with status := .queued }) s.tables.jobs }
  | reapExpiredLease (s : Db) (job : Nat) (deadLetter : Bool) (h : R.lapse job s) :
      Elsewhere R s { s with
        tables.jobs := updateWhere
          (fun j => j.id == job && j.status.held)
          (fun j => { j with
            status := if deadLetter then .deadLetter else .retryWait
            leasedBy := none }) s.tables.jobs }
  | rollback (s : Db) (ticket : Nat) :
      Elsewhere R s { s with locks := s.locks.filter fun l => l.2 != ticket }
  | crash (s : Db) (job : Nat) :
      Elsewhere R s { s with
        cleaning := s.cleaning.filter fun c => c.1 != job }

def database (R : Regime) : System Ans Bool Db where
  sem := Call.act
  ok c _ s := c.enabled s ∧ R.may c s
  rely := Elsewhere R

def dequeueJob (job worker : Nat) (s : Db) : Db :=
  { s with
    tables.jobs := updateWhere (fun j => j.id == job && j.status == .queued)
      (fun j => { j with status := .leased, leasedBy := some worker })
      s.tables.jobs }

/-- Any number of attempts of deployments and of cleanups, side by side.  No
step of a pipeline goes back to `queued`. -/
def attempts (R : Regime) : Pool (database R) Unit where
  spawn s p s' :=
    (∃ id polls steps, (∀ step ∈ steps, step ≠ .setStatus .queued) ∧
      p = deploymentRun id polls steps ∧ s' = s) ∨
    ∃ j ∈ s.tables.jobs, j.status = .queued ∧ ∃ worker steps,
      p = serverCleanup j.id j.serverId worker steps ∧
      s' = dequeueJob j.id worker s

/-! ## Watching one attempt -/

/-- Whether an attempt knows its deployment to have started. -/
inductive Progress where
  | unstarted
  | started (id : Nat)

def Progress.next : Progress → (c : Call) → Ans c → Progress
  | st, .getDeploymentStatus _, none => st
  | st, .getDeploymentStatus id, some status =>
    if status = .queued then st else .started id
  | _, .commit (.startDeployment id) _ _, some true => .started id
  | st, _, _ => st

/-- Only a deployment that has started is changed by other statements than the
first one. -/
def Progress.calls : Progress → Call → Prop
  | .started id, .setDeploymentStatus id' status => id' = id ∧ status ≠ .queued
  | .started id, .commit (.assignBuildServer id' _) _ _ => id' = id
  | .unstarted, .setDeploymentStatus _ _ => False
  | .unstarted, .commit (.assignBuildServer _ _) _ _ => False
  | _, _ => True

section Follows

variable {α : Type} {st : Progress}

/-- The attempts keep the order of the pipeline. -/
abbrev InOrder (Q : Progress → α → Prop) (st : Progress) (p : Prog Ans α) : Prop :=
  Prog.Follows Progress.next Progress.calls Q st p

/-- A statement of the guards, at a stage where it is allowed. -/
theorem inOrder_execute
    (hcalls : ∀ ticket snapshot, st.calls (.commit stmt ticket snapshot))
    (hnone : Q st (some false)) (hcommit : ∀ ticket snapshot (r : Option Bool),
      Q (st.next (.commit stmt ticket snapshot) r) r) :
    InOrder Q st (execute stmt) := by
  refine .call _ _ _ (by cases st <;> trivial) ?_
  intro (began : Nat × Tables)
  have hbegan : st.next .beginStatement began = st := by cases st <;> rfl
  show InOrder Q st (match stmt.server began.2 with
    | none => _
    | some server => _)
  split
  · exact .ret _ _ hnone
  · next server _ =>
    refine .call _ _ _ (by cases st <;> trivial) ?_
    intro u
    exact .call _ _ _ (hcalls _ _) fun r => .ret _ _ (hcommit _ _ r)

theorem inOrder_startDeployment (id polls : Nat) :
    InOrder (fun st started => started = true → st = .started id) .unstarted
      (startDeployment id polls) := by
  induction polls with
  | zero => exact .ret _ _ (by simp)
  | succ polls ih =>
    refine Prog.Follows.bind (Q := fun st r => (r = some true →
      st = .started id) ∧ (r = some false → st = .unstarted)) ?_ ?_
    · refine inOrder_execute (fun _ _ => trivial) (by simp) ?_
      intro ticket snapshot r
      match r with
      | none => simp
      | some true => simp [Progress.next]
      | some false => simp [Progress.next]
    · intro st r hr
      match r with
      | none => exact .ret _ _ (by simp)
      | some true => exact .ret _ _ fun _ => hr.1 rfl
      | some false =>
        obtain rfl := hr.2 rfl
        refine .call _ _ _ trivial ?_
        intro (status : Option DeploymentStatus)
        show InOrder _ _ (if status = some .queued then _ else _)
        split
        · next hqueued =>
          subst hqueued
          exact ih
        · exact .ret _ _ (by simp)

theorem inOrder_reserveBuildServer (id server polls : Nat) :
    InOrder (fun st _ => st = .started id) (.started id)
      (reserveBuildServer id server polls) := by
  induction polls with
  | zero => exact .ret _ _ rfl
  | succ polls ih =>
    refine Prog.Follows.bind (Q := fun st _ => st = .started id) ?_ ?_
    · exact inOrder_execute (fun _ _ => rfl) rfl fun _ _ _ => rfl
    · intro st r hr
      subst hr
      match r with
      | none => exact .ret _ _ rfl
      | some true => exact .ret _ _ rfl
      | some false => exact ih

theorem inOrder_pipeline (id polls : Nat) (h : ∀ step ∈ steps, step ≠ .setStatus .queued) :
    InOrder (fun _ _ => True) (.started id) (pipeline id polls steps) := by
  induction steps with
  | nil => exact .ret _ _ trivial
  | cons step rest ih =>
    have hrest := ih fun step hstep => h step (mem_cons_of_mem _ hstep)
    cases step with
    | setStatus status =>
      have hne : status ≠ .queued := by
        intro heq
        exact h _ mem_cons_self (by rw [heq])
      exact .call _ _ _ ⟨rfl, hne⟩ fun _ => hrest
    | reserve server =>
      refine Prog.Follows.bind (inOrder_reserveBuildServer id server polls) ?_
      intro st reserved hst
      subst hst
      cases reserved with
      | true => exact hrest
      | false => exact .ret _ _ trivial

theorem inOrder_deploymentRun (id polls : Nat) {steps : List DeployStep}
    (h : ∀ step ∈ steps, step ≠ .setStatus .queued) :
    InOrder (fun _ _ => True) .unstarted (deploymentRun id polls steps) := by
  refine .call _ _ _ trivial ?_
  intro (status : Option DeploymentStatus)
  match status with
  | none => exact .ret _ _ trivial
  | some status =>
    by_cases hqueued : status = .queued
    · subst hqueued
      refine Prog.Follows.bind (inOrder_startDeployment id polls) ?_
      intro st started hst
      cases started with
      | true =>
        obtain rfl := hst rfl
        exact inOrder_pipeline id polls h
      | false => exact .ret _ _ trivial
    · have hnext : Progress.unstarted.next (.getDeploymentStatus id)
          (some status) = .started id := if_neg hqueued
      have hpipeline : InOrder (fun _ _ => True) (.started id)
          (if status.terminal then .ret () else pipeline id polls steps) := by
        split
        · exact .ret _ _ trivial
        · exact inOrder_pipeline id polls h
      cases status <;> first | exact absurd rfl hqueued | exact hpipeline

theorem inOrder_serverCleanup (job server worker steps : Nat) :
    InOrder (fun _ _ => True) .unstarted (serverCleanup job server worker steps) := by
  have hsteps : InOrder (fun st _ => st = .unstarted) .unstarted
      (cleanupSteps job server steps) := by
    induction steps with
    | zero => exact .ret _ _ rfl
    | succ steps ih =>
      refine .call _ _ _ trivial ?_
      intro (ok : Bool)
      cases ok with
      | true => exact ih
      | false => exact .ret _ _ rfl
  refine .call _ _ _ trivial ?_
  intro (running : Bool)
  cases running with
  | false => exact .ret _ _ trivial
  | true =>
    refine Prog.Follows.bind (Q := fun st _ => st = .unstarted) ?_ ?_
    · exact inOrder_execute (fun _ _ => trivial) rfl fun _ _ _ => rfl
    · intro st r hr
      subst hr
      match r with
      | none => exact .call _ _ _ trivial fun _ => .ret _ _ trivial
      | some false =>
        exact .call _ _ _ trivial fun _ =>
          .call _ _ _ trivial fun _ => .ret _ _ trivial
      | some true =>
        refine Prog.Follows.bind hsteps ?_
        intro st status hst
        subst hst
        exact .call _ _ _ trivial fun _ =>
          .call _ _ _ trivial fun _ => .ret _ _ trivial

end Follows

/-! ## When cleanups and deployments exclude each other -/

/-- What the `NOT EXISTS` of a statement did not find in the snapshot is not
there at the commit either, and the cleanup that asks still holds its lease. -/
def UpToDate (snapshot : Tables) : Guarded → Tables → Prop
  | .startDeployment id, t => ∀ d ∈ t.deployments, d.id = id →
      snapshot.cleanupRunning d.serverId = false →
      t.cleanupRunning d.serverId = false
  | .assignBuildServer _ buildServer, t =>
    snapshot.cleanupRunning buildServer = false → t.cleanupRunning buildServer = false
  | .canStartServerCleanup job server, t =>
    (snapshot.deploying server = false → t.deploying server = false) ∧
      ∃ j ∈ t.jobs, j.id = job ∧ j.serverId = server ∧ j.status.held = true

/-- The job is not a cleanup that is past its guard. -/
def NotCleaning (job : Nat) (s : Db) : Prop :=
  ∀ c ∈ s.cleaning, c.1 ≠ job

/-- The condition on the calls of a run. -/
def Orderly : Call → Db → Prop
  | .commit stmt _ snapshot, s => UpToDate snapshot stmt s.tables
  | .setDeploymentStatus id status, s => status.terminal = true ∨
      ∀ d ∈ s.tables.deployments, d.id = id → d.status.terminal = false
  | .finishJob job _ _, s => NotCleaning job s
  | _, _ => True

/-- The condition on the calls and the leases of a run. -/
def orderly : Regime :=
  ⟨Orderly, NotCleaning⟩

/-- What the database keeps under the condition. -/
structure Sound (s : Db) : Prop where
  unique : ∀ d ∈ s.tables.deployments, ∀ d' ∈ s.tables.deployments,
    d.id = d'.id → d = d'
  unreserved : ∀ d ∈ s.tables.deployments, d.status = .queued →
    d.buildServerId = none
  excluded : Excluded s
  held : ∀ c ∈ s.cleaning, ∃ j ∈ s.tables.jobs,
    j.id = c.1 ∧ j.serverId = c.2 ∧ j.status.held = true

structure Begun (s : Db) (id : Nat) : Prop where
  found : ∃ d ∈ s.tables.deployments, d.id = id
  started : ∀ d ∈ s.tables.deployments, d.id = id → d.status ≠ .queued

section Updates

variable {s : Db} {p : Deployment → Bool} {f : Deployment → Deployment} {id : Nat}

/-- `UPDATE deployments`: it may not give a queued row a build server, nor make
a row active on a server that is cleaned. -/
theorem Sound.updateDeployments (h : Sound s) (hid : ∀ d, (f d).id = d.id)
    (hqueued : ∀ d ∈ s.tables.deployments, p d = true →
      (f d).status = .queued → (f d).buildServerId = none)
    (hactive : ∀ d ∈ s.tables.deployments, p d = true →
      (f d).active = true → ∀ c ∈ s.cleaning, (f d).uses c.2 = false) :
    Sound { s with
      tables.deployments := updateWhere p f s.tables.deployments } := by
  refine ⟨?_, ?_, ?_, h.held⟩
  · intro d hd d' hd' heq
    obtain ⟨r, hr, rfl⟩ := mem_updateWhere.1 hd
    obtain ⟨r', hr', rfl⟩ := mem_updateWhere.1 hd'
    simp only [apply_ite Deployment.id, hid, ite_self] at heq
    rw [h.unique r hr r' hr' heq]
  · refine forall_updateWhere h.unreserved ?_
    intro d hd hp _
    exact hqueued d hd hp
  · intro c hc
    refine forall_updateWhere (h.excluded c hc) ?_
    intro d hd hp _ hact
    exact hactive d hd hp hact c hc

/-- `UPDATE jobs`: it may not release a cleanup that is past its guard. -/
theorem Sound.updateJobs (h : Sound s)
    (hkeep : ∀ j ∈ s.tables.jobs, q j = true → j.status.held = true →
      ¬NotCleaning j.id s →
      (g j).id = j.id ∧ (g j).serverId = j.serverId ∧ (g j).status.held = true) :
    Sound { s with tables.jobs := updateWhere q g s.tables.jobs } := by
  refine ⟨h.unique, h.unreserved, h.excluded, ?_⟩
  intro c hc
  obtain ⟨j, hj, hid, hserver, hheld⟩ := h.held c hc
  refine ⟨if q j then g j else j, mem_updateWhere.2 ⟨j, hj, rfl⟩, ?_⟩
  split
  · next hq =>
    have hcleaning : ¬NotCleaning j.id s := fun hno => hno c hc hid.symm
    obtain ⟨hid', hserver', hheld'⟩ := hkeep j hj hq hheld hcleaning
    exact ⟨hid'.trans hid, hserver'.trans hserver, hheld'⟩
  · exact ⟨hid, hserver, hheld⟩

theorem Sound.appendJob (h : Sound s) (j : CleanupJob) :
    Sound { s with tables.jobs := s.tables.jobs ++ [j] } := by
  refine ⟨h.unique, h.unreserved, h.excluded, ?_⟩
  intro c hc
  obtain ⟨j', hj', hrest⟩ := h.held c hc
  exact ⟨j', mem_append_left _ hj', hrest⟩

theorem Sound.createDeployment (h : Sound s) (server : Nat) :
    Sound { s with
      tables.deployments := s.tables.deployments ++
        [⟨nextId Deployment.id s.tables.deployments, server, none, .queued⟩] } := by
  refine ⟨?_, ?_, ?_, h.held⟩
  · exact unique_concat h.unique fun d hd => Nat.ne_of_lt (lt_nextId hd)
  · exact forall_concat h.unreserved fun _ => rfl
  · exact fun c hc => forall_concat (h.excluded c hc) (by simp [Deployment.active])

/-- Cleanups that are over. -/
theorem Sound.forget (h : Sound s) (job : Nat) :
    Sound { s with cleaning := s.cleaning.filter fun c => c.1 != job } := by
  refine ⟨h.unique, h.unreserved, ?_, ?_⟩
  · intro c hc
    exact h.excluded c (mem_filter.1 hc).1
  · intro c hc
    exact h.held c (mem_filter.1 hc).1

theorem Begun.update (h : Begun s id) (hid : ∀ d, (f d).id = d.id)
    (hstatus : ∀ d ∈ s.tables.deployments, p d = true →
      d.status ≠ .queued → (f d).status ≠ .queued) :
    Begun { s with
      tables.deployments := updateWhere p f s.tables.deployments } id := by
  refine ⟨?_, ?_⟩
  · obtain ⟨d, hd, hdid⟩ := h.found
    refine ⟨if p d then f d else d, mem_updateWhere.2 ⟨d, hd, rfl⟩, ?_⟩
    split
    · rw [hid, hdid]
    · exact hdid
  · refine forall_updateWhere h.started ?_
    intro d hd hp hd' hdid
    rw [hid] at hdid
    exact hstatus d hd hp (hd' hdid)

theorem Begun.createDeployment (h : Begun s id) (server : Nat) :
    Begun { s with
      tables.deployments := s.tables.deployments ++
        [⟨nextId Deployment.id s.tables.deployments, server, none, .queued⟩] } id := by
  obtain ⟨d, hd, hdid⟩ := h.found
  refine ⟨⟨d, mem_append_left _ hd, hdid⟩, ?_⟩
  refine forall_concat h.started fun hdid' => ?_
  exact absurd (hdid.trans hdid'.symm) (Nat.ne_of_lt (lt_nextId hd))

end Updates

section Statements

variable {s : Db} {snapshot : Tables} {id : Nat}

/-- Where no cleanup job is held, none is past its guard. -/
theorem Sound.not_cleaning (h : Sound s)
    (hrunning : s.tables.cleanupRunning server = false) (hc : c ∈ s.cleaning) :
    c.2 ≠ server := by
  obtain ⟨j, hj, -, hserver, hheld⟩ := h.held c hc
  intro heq
  have hnone := any_eq_false.1 hrunning j hj
  rw [hserver, heq, hheld] at hnone
  simp at hnone

theorem sound_start (h : Sound s) (hok : UpToDate snapshot (.startDeployment id) s.tables) :
    Sound ((Guarded.startDeployment id).run snapshot s).2 := by
  have hhits : ∀ d, startHits snapshot id d = true →
      d.id = id ∧ d.status = .queued ∧ snapshot.cleanupRunning d.serverId = false := by
    intro d hd
    simp only [startHits, Bool.and_eq_true, beq_iff_eq, Bool.not_eq_true'] at hd
    exact ⟨hd.1.1.1, hd.1.1.2, hd.2⟩
  refine h.updateDeployments (fun _ => rfl) ?_ ?_
  · intro d _ _ hqueued
    cases hqueued
  · intro d hd hp _ c hc
    obtain ⟨hdid, hqueued, hsnapshot⟩ := hhits d hp
    have hne := h.not_cleaning (hok d hd hdid hsnapshot) hc
    have hnone := h.unreserved d hd hqueued
    simp [Deployment.uses, hnone, hne.symm]

theorem sound_assign (h : Sound s) (hbegun : Begun s id)
    (hok : UpToDate snapshot (.assignBuildServer id buildServer) s.tables) :
    Sound ((Guarded.assignBuildServer id buildServer).run snapshot s).2 := by
  have hhits : ∀ d, assignHits snapshot id buildServer d = true →
      d.id = id ∧ snapshot.cleanupRunning buildServer = false := by
    intro d hd
    simpa [assignHits] using hd
  refine h.updateDeployments (fun _ => rfl) ?_ ?_
  · intro d hd hp hqueued
    exact absurd hqueued (hbegun.started d hd (hhits d hp).1)
  · intro d hd hp hact c hc
    have hne := h.not_cleaning (hok (hhits d hp).2) hc
    have hold := h.excluded c hc d hd hact
    have hserver : d.serverId ≠ c.2 := by
      intro heq
      simp [Deployment.uses, heq] at hold
    simp [Deployment.uses, hserver, hne.symm]

theorem sound_canStart (h : Sound s)
    (hok : UpToDate snapshot (.canStartServerCleanup job server) s.tables) :
    Sound ((Guarded.canStartServerCleanup job server).run snapshot s).2 := by
  show Sound (if snapshot.deploying server = true then _ else _ : _ × _).2
  split
  · exact h
  · next hsnapshot =>
    have hidle := hok.1 (Bool.eq_false_iff.2 hsnapshot)
    refine ⟨h.unique, h.unreserved, ?_, ?_⟩
    · refine forall_mem_cons.2 ⟨fun d hd hact => ?_, h.excluded⟩
      have hnone := any_eq_false.1 hidle d hd
      simpa [hact] using hnone
    · exact forall_mem_cons.2 ⟨hok.2, h.held⟩

/-- No statement of the guards puts a deployment back into the queue. -/
theorem Begun.run {stmt : Guarded} (h : Begun s id) : Begun (stmt.run snapshot s).2 id := by
  cases stmt with
  | startDeployment id' =>
    exact h.update (fun _ => rfl) fun _ _ _ _ => by simp
  | assignBuildServer id' buildServer =>
    exact h.update (fun _ => rfl) fun _ _ _ hne => hne
  | canStartServerCleanup job server =>
    show Begun (if snapshot.deploying server = true then _ else _ : _ × _).2 id
    split
    · exact h
    · exact ⟨h.found, h.started⟩

theorem begun_start (h : Sound s)
    (hrow : ((Guarded.startDeployment id).run snapshot s).1 = true) :
    Begun ((Guarded.startDeployment id).run snapshot s).2 id := by
  obtain ⟨d, hd, hhits⟩ := any_eq_true.1 hrow
  have hdid : d.id = id := by
    simp only [startHits, Bool.and_eq_true, beq_iff_eq] at hhits
    exact hhits.1.1.1
  refine ⟨⟨{ d with status := .preparing }, mem_updateWhere.2 ⟨d, hd, ?_⟩, hdid⟩, ?_⟩
  · rw [if_pos hhits]
  · intro d' hd' hdid'
    obtain ⟨r, hr, rfl⟩ := mem_updateWhere.1 hd'
    by_cases hp : startHits snapshot id r = true
    · rw [if_pos hp]
      simp
    · rw [if_neg hp] at hdid'
      have hsame : r = d := h.unique r hr d hd (hdid'.trans hdid.symm)
      rw [hsame] at hp
      exact absurd hhits hp

end Statements

section Steps

variable {s : Db} {st : Progress} {c : Call} {o : Bool}

/-- What an attempt knows. -/
def Progress.Holds : Progress → Db → Prop
  | .unstarted, _ => True
  | .started id, s => Begun s id

theorem Progress.Holds.mono (h : st.Holds s) (hbegun : ∀ id, Begun s id → Begun s' id) :
    st.Holds s' := by
  cases st with
  | unstarted => trivial
  | started id => exact hbegun id h

theorem sound_act (h : Sound s) (hst : st.Holds s) (hcalls : st.calls c)
    (hok : Orderly c s) : Sound (c.act o s).2 := by
  cases c with
  | setDeploymentStatus id status =>
    cases st with
    | unstarted => cases hcalls
    | started id' =>
      obtain ⟨rfl, hne⟩ := hcalls
      refine h.updateDeployments (fun _ => rfl) ?_ ?_
      · intro d _ _ hqueued
        exact absurd hqueued hne
      · intro d hd hp hact c hc
        have hdid : d.id = id := by simpa using hp
        have hterminal : status.terminal = false := by
          simp only [Deployment.active, Bool.and_eq_true] at hact
          simpa using hact.2
        have hrow := hok.resolve_left (by rw [hterminal]; simp) d hd hdid
        have hqueued := hst.started d hd hdid
        have hold : d.active = true := by simp [Deployment.active, hqueued, hrow]
        exact h.excluded c hc d hd hold
  | commit stmt ticket snapshot =>
    show Sound (if (s.locks.any fun l => l.2 == ticket) = true then _ else _ : _ × _).2
    split
    · have hrun : Sound (stmt.run snapshot s).2 := by
        cases stmt with
        | startDeployment id => exact sound_start h hok
        | canStartServerCleanup job server => exact sound_canStart h hok
        | assignBuildServer id buildServer =>
          cases st with
          | unstarted => cases hcalls
          | started id' =>
            obtain rfl : id = id' := hcalls
            exact sound_assign h hst hok
      exact ⟨hrun.unique, hrun.unreserved, hrun.excluded, hrun.held⟩
    · exact h
  | markJobRunning job worker =>
    refine h.updateJobs ?_
    intro j _ _ _ _
    exact ⟨rfl, rfl, rfl⟩
  | finishJob job worker status =>
    refine h.updateJobs ?_
    intro j _ hq _ hcleaning
    simp only [CleanupJob.heldBy, Bool.and_eq_true, beq_iff_eq] at hq
    rw [hq.1.1] at hcleaning
    exact absurd hok hcleaning
  | returned job => exact h.forget job
  | deferCleanup job server => exact h.appendJob _
  | lockServer ticket server =>
    exact ⟨h.unique, h.unreserved, h.excluded, h.held⟩
  | beginStatement => exact ⟨h.unique, h.unreserved, h.excluded, h.held⟩
  | getDeploymentStatus id | prune job server => exact h

/-- A deployment that has started has started for good. -/
theorem begun_act {id : Nat} (h : Begun s id) (hcalls : st.calls c) : Begun (c.act o s).2 id := by
  cases c with
  | setDeploymentStatus id' status =>
    cases st with
    | unstarted => cases hcalls
    | started id'' => exact h.update (fun _ => rfl) fun _ _ _ _ => hcalls.2
  | commit stmt ticket snapshot =>
    show Begun (if (s.locks.any fun l => l.2 == ticket) = true then _ else _ : _ × _).2 id
    split
    · exact ⟨h.run.found, h.run.started⟩
    · exact h
  | _ => exact ⟨h.found, h.started⟩

theorem holds_next (h : Sound s) (hst : st.Holds s) (hcalls : st.calls c) :
    (st.next c (c.act o s).1).Holds (c.act o s).2 := by
  have hold : st.Holds (c.act o s).2 := hst.mono fun _ hbegun => begun_act hbegun hcalls
  cases c with
  | getDeploymentStatus id =>
    show (Progress.next st (.getDeploymentStatus id) (Option.map _ _)).Holds s
    cases hrow : row? Deployment.id id s.tables.deployments with
    | none => exact hst
    | some d =>
      show Progress.Holds (if d.status = .queued then st else .started id) s
      split
      · exact hst
      · next hqueued =>
        have hd := row?_mem hrow
        have hdid := row?_key hrow
        refine ⟨⟨d, hd, hdid⟩, ?_⟩
        intro d' hd' hdid'
        rw [h.unique d' hd' d hd (hdid'.trans hdid.symm)]
        exact hqueued
  | commit stmt ticket snapshot =>
    cases stmt with
    | startDeployment id =>
      by_cases hlocked : (s.locks.any fun l => l.2 == ticket) = true
      · cases hrow : ((Guarded.startDeployment id).run snapshot s).1 with
        | true =>
          have hact : (Call.commit (.startDeployment id) ticket snapshot).act o
              s = (some true, { ((Guarded.startDeployment id).run snapshot s).2
                with locks := s.locks.filter fun l => l.2 != ticket }) := by
            rw [← hrow]
            exact if_pos hlocked
          rw [hact]
          have hbegun := begun_start h hrow
          cases st <;> exact ⟨hbegun.found, hbegun.started⟩
        | false =>
          have hans : ((Call.commit (.startDeployment id) ticket snapshot).act
              o s).1 = some false := by
            rw [← hrow]
            exact congrArg Prod.fst (if_pos hlocked)
          rw [hans]
          cases st <;> exact hold
      · have hact : (Call.commit (.startDeployment id) ticket snapshot).act o
            s = (none, s) := if_neg hlocked
        rw [hact]
        cases st <;> exact hst
    | assignBuildServer id buildServer | canStartServerCleanup job server =>
      cases st <;> exact hold
  | _ => cases st <;> exact hold

theorem sound_elsewhere {s' : Db} (h : Sound s) (hmove : Elsewhere orderly s s') : Sound s' := by
  cases hmove with
  | createDeployment server => exact h.createDeployment server
  | withdraw id status hterminal =>
    refine h.updateDeployments (fun _ => rfl) ?_ ?_
    · intro d _ _ hqueued
      obtain rfl : status = .queued := hqueued
      cases hterminal
    · intro d _ _ hact
      simp [Deployment.active, hterminal] at hact
  | enqueueCleanup server => exact h.appendJob _
  | promoteWaitingJob job =>
    refine h.updateJobs ?_
    intro j _ hq hheld _
    simp only [Bool.and_eq_true, Bool.or_eq_true, beq_iff_eq] at hq
    rcases hq.2 with hstatus | hstatus <;> rw [hstatus] at hheld <;>
      cases hheld
  | reapExpiredLease job deadLetter hlapse =>
    refine h.updateJobs ?_
    intro j _ hq _ hcleaning
    simp only [Bool.and_eq_true, beq_iff_eq] at hq
    rw [hq.1] at hcleaning
    exact absurd hlapse hcleaning
  | rollback ticket => exact ⟨h.unique, h.unreserved, h.excluded, h.held⟩
  | crash job => exact h.forget job

theorem begun_elsewhere {id : Nat} (h : Begun s id)
    (hmove : Elsewhere orderly s s') : Begun s' id := by
  cases hmove with
  | createDeployment server => exact h.createDeployment server
  | withdraw id' status hterminal =>
    refine h.update (fun _ => rfl) ?_
    intro d _ _ _ hqueued
    obtain rfl : status = .queued := hqueued
    cases hterminal
  | _ => exact ⟨h.found, h.started⟩

end Steps

/-- What holds in every run under the condition. -/
structure Kept (m : Nat → Option Progress) (s : Db) (_t : List (Event Ans Unit)) : Prop where
  sound : Sound s
  holds : ∀ k st, m k = some st → st.Holds s

theorem Kept.start (h : Kept m s t) (hsound : Sound s')
    (hholds : ∀ st : Progress, st.Holds s → st.Holds s') (k : Nat) :
    Kept (Function.update m k (some .unstarted)) s' t := by
  refine ⟨hsound, ?_⟩
  intro i st hi
  rcases Pool.update_some hi with ⟨-, rfl⟩ | hold
  · trivial
  · exact hholds st (h.holds i st hold)

theorem watch_kept : Pool.Watch (attempts orderly) Progress.next Progress.calls
    (fun _ _ => True) Kept where
  start := by
    intro m s t k p s' h _ _ hspawn
    rcases hspawn with ⟨id, polls, steps, hsteps, rfl, rfl⟩ |
      ⟨j, hj, hqueued, worker, steps, rfl, rfl⟩
    · exact ⟨.unstarted, inOrder_deploymentRun id polls hsteps,
        h.start h.sound (fun _ hst => hst) k⟩
    · refine ⟨.unstarted, inOrder_serverCleanup j.id j.serverId worker steps,
        h.start ?_ (fun _ hst => hst.mono ?_) k⟩
      · refine h.sound.updateJobs ?_
        intro j' _ hq hheld _
        simp only [Bool.and_eq_true, beq_iff_eq] at hq
        rw [hq.2] at hheld
        cases hheld
      · exact fun _ hbegun => ⟨hbegun.found, hbegun.started⟩
  call := by
    intro m s t k st c o h hk hcalls hok
    have hst := h.holds k st hk
    refine ⟨sound_act h.sound hst hcalls hok.2, ?_⟩
    intro i st' hi
    rcases Pool.update_some hi with ⟨-, rfl⟩ | hold
    · exact holds_next h.sound hst hcalls
    · exact (h.holds i st' hold).mono fun _ hbegun => begun_act hbegun hcalls
  done h _ _ := ⟨h.sound, fun i st hi => h.holds i st (Pool.update_none hi)⟩
  die h := ⟨h.sound, fun i st hi => h.holds i st (Pool.update_none hi)⟩
  other := by
    intro m s s' t h hmove
    refine ⟨sound_elsewhere h.sound hmove, ?_⟩
    intro k st hk
    exact (h.holds k st hk).mono fun _ hbegun => begun_elsewhere hbegun hmove

theorem sound_empty : Sound .empty :=
  ⟨nofun, nofun, nofun, nofun⟩

/-- Cleanups and deployments exclude each other, in the runs in which no
statement decides on an outdated snapshot, no cleanup outlives its lease and no
deployment comes back from a terminal status. -/
theorem cleanup_excluded {x : Pool.Config Ans Db Unit}
    (hx : (attempts orderly).Reaches .empty x) : Excluded x.state := by
  have hinit : Kept (fun _ => none) .empty [] := ⟨sound_empty, by simp⟩
  obtain ⟨m, h⟩ := watch_kept.reaches hinit hx
  exact h.sound.excluded

/-! ## Runs -/

/-- A run, as far as it has come. -/
abbrev Run := Pool.Config Ans Db Unit

def Run.createDeployment (server : Nat) (x : Run) : Run :=
  x.moved { x.state with
    tables.deployments := x.state.tables.deployments ++
      [⟨nextId Deployment.id x.state.tables.deployments, server, none, .queued⟩] }

def Run.enqueueCleanup (server : Nat) (x : Run) : Run :=
  x.moved { x.state with
    tables.jobs := x.state.tables.jobs ++
      [⟨nextId CleanupJob.id x.state.tables.jobs, server, .queued, none⟩] }

def Run.reapExpiredLease (job : Nat) (x : Run) : Run :=
  x.moved { x.state with
    tables.jobs := updateWhere (fun j => j.id == job && j.status.held)
      (fun j => { j with
        status := if false then .deadLetter else .retryWait
        leasedBy := none }) x.state.tables.jobs }

/-- A worker dequeues the job and makes the first `n` calls. -/
def Run.launchCleanup (R : Regime) (j : CleanupJob) (n : Nat) (x : Run) : Run :=
  (x.started (serverCleanup j.id j.serverId 1 1)
    (dequeueJob j.id 1 x.state)).calls (database R) true x.next n

section Reaches

variable {R : Regime} {s : Db} {x : Run}

section

variable (h : (attempts R).Reaches s x)

include h

theorem reaches_createDeployment (server : Nat) :
    (attempts R).Reaches s (x.createDeployment server) :=
  h.tail (.other x _ (.createDeployment x.state server))

theorem reaches_enqueueCleanup (server : Nat) : (attempts R).Reaches s (x.enqueueCleanup server) :=
  h.tail (.other x _ (.enqueueCleanup x.state server))

theorem reaches_reap (hlapse : R.lapse job x.state) :
    (attempts R).Reaches s (x.reapExpiredLease job) :=
  h.tail (.other x _ (.reapExpiredLease x.state job false hlapse))

theorem reaches_launchCleanup (hj : j ∈ x.state.tables.jobs ∧ j.status = .queued)
    (hok : (x.started (serverCleanup j.id j.serverId 1 1) (dequeueJob j.id 1
      x.state)).CallsOk (database R) true x.next n) :
    (attempts R).Reaches s (x.launchCleanup R j n) :=
  Pool.Reaches.calls (h.tail (.start x _ _ (.inr ⟨j, hj.1, hj.2, 1, 1, rfl, rfl⟩))) hok

end

theorem spawns_deploymentRun (id : Nat) : (attempts R).spawn s (deploymentRun id 1 []) s :=
  .inl ⟨id, 1, [], by simp, rfl, rfl⟩

end Reaches

/-- The first deployment and the first cleanup, both of the server 1. -/
def bothQueued : Run :=
  Run.enqueueCleanup 1 (Run.createDeployment 1 (.initial .empty))

theorem reaches_bothQueued (R : Regime) : (attempts R).Reaches .empty bothQueued :=
  reaches_enqueueCleanup (reaches_createDeployment .refl 1) 1

def firstCleanup : CleanupJob :=
  ⟨1, 1, .queued, none⟩

instance (c : Call) (s : Db) : Decidable (c.enabled s) := by
  unfold Call.enabled
  split <;> infer_instance

instance (snapshot : Tables) (stmt : Guarded) (t : Tables) :
    Decidable (UpToDate snapshot stmt t) := by
  unfold UpToDate
  split <;> infer_instance

instance (job : Nat) (s : Db) : Decidable (NotCleaning job s) :=
  inferInstanceAs (Decidable (∀ c ∈ s.cleaning, c.1 ≠ job))

instance (c : Call) (s : Db) : Decidable (Orderly c s) := by
  unfold Orderly
  split <;> infer_instance

instance (c : Call) (o : Bool) (s : Db) : Decidable ((database orderly).ok c o s) :=
  inferInstanceAs (Decidable (c.enabled s ∧ Orderly c s))

/-- The cleanup has pruned the server, and the deployment has asked to start in
vain. -/
def deploymentWaits : Run :=
  (Run.launchCleanup orderly firstCleanup 5 bothQueued).launch
    (database orderly) true (deploymentRun 1 1 []) 4

theorem cleanup_excluded_waits :
    (attempts orderly).Reaches .empty deploymentWaits ∧
      deploymentWaits.state.cleaning = [(1, 1)] ∧
      deploymentWaits.state.tables.deployments = [⟨1, 1, none, .queued⟩] ∧
      Excluded deploymentWaits.state := by
  have hx : (attempts orderly).Reaches .empty deploymentWaits :=
    (reaches_launchCleanup (reaches_bothQueued orderly) (by decide)
      (by decide)).launch (spawns_deploymentRun 1) (by decide)
  exact ⟨hx, by decide, by decide, cleanup_excluded hx⟩

/-- Any call may be made, and any lease may lapse. -/
def anyhow : Regime :=
  ⟨fun _ _ => True, fun _ _ => True⟩

instance (c : Call) (o : Bool) (s : Db) : Decidable ((database anyhow).ok c o s) :=
  inferInstanceAs (Decidable (c.enabled s ∧ True))

/-- Both sides take their snapshots before the other one commits. -/
def snapshotsCross : Run :=
  ((Run.launchCleanup anyhow firstCleanup 2 (bothQueued.launch
    (database anyhow) true (deploymentRun 1 1 []) 2)).calls (database anyhow)
      true 0 2).calls (database anyhow) true 1 3

/-- The cleanup passes its guard, its lease is reaped, the deployment starts,
and the cleanup goes on. -/
def leaseReaped : Run :=
  ((Run.reapExpiredLease 1 (Run.launchCleanup anyhow firstCleanup 4
    bothQueued)).launch (database anyhow) true (deploymentRun 1 1 []) 4).calls
      (database anyhow) true 0 1

/-- The server is pruned while the deployment to it is being prepared. -/
theorem cleanup_overlaps :
    ((attempts anyhow).Reaches .empty snapshotsCross ∧
      (∃ t, snapshotsCross.trace = .called 1 (.prune 1 1) true :: t) ∧
      snapshotsCross.state.tables.deployments = [⟨1, 1, none, .preparing⟩] ∧
      ¬Excluded snapshotsCross.state) ∧
    ((attempts anyhow).Reaches .empty leaseReaped ∧
      (∃ t, leaseReaped.trace = .called 0 (.prune 1 1) true :: t) ∧
      leaseReaped.state.tables.deployments = [⟨1, 1, none, .preparing⟩] ∧
      ¬Excluded leaseReaped.state) := by
  refine ⟨⟨?_, ⟨_, rfl⟩, by decide, by decide⟩, ?_, ⟨_, rfl⟩, by decide,
    by decide⟩
  · have hstart := Pool.Reaches.launch (reaches_bothQueued anyhow)
      (spawns_deploymentRun 1) (n := 2) (o := true) (by decide)
    exact ((reaches_launchCleanup hstart (by decide) (by decide)).calls
      (by decide)).calls (by decide)
  · have hcleared := reaches_launchCleanup (reaches_bothQueued anyhow)
      (j := firstCleanup) (n := 4) (by decide) (by decide)
    have hreaped : (attempts anyhow).Reaches .empty (Run.reapExpiredLease 1
        (Run.launchCleanup anyhow firstCleanup 4 bothQueued)) :=
      reaches_reap hcleared trivial
    exact (hreaped.launch (spawns_deploymentRun 1) (by decide)).calls (by decide)

end Akerdock.Cleanup
