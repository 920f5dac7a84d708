import Akerdock.Lib.Table
import Akerdock.Store.Rows

/-!
# The statements on jobs, deployments and previews

Each definition is one SQL statement of `db/queries`, as a function on the
table it changes.  PostgreSQL runs a single statement atomically, so one
application of such a function is one step of the system.  A statement that
reports the number of changed rows (`:execrows`) comes with a test of the row
it would change, named `...Hits`.
-/

namespace Akerdock.Store

open Table

/-! ## Jobs -/

/-- `EnqueueJob` with the defaults of `Enqueue`: a job that may run at once.
An attempt limit of 0 stands for the default of 5. -/
def enqueueJob (now : Nat) (payload : JobPayload) (lockKey : Option String)
    (maxAttempts : Nat) (jobs : List Job) : List Job :=
  jobs ++ [{
    id := nextId Job.id jobs
    payload := payload
    status := .queued
    priority := 0
    runAt := now
    attempt := 0
    maxAttempts := if maxAttempts = 0 then 5 else maxAttempts
    resumeCount := 0
    lockKey := lockKey
    leasedBy := none
    leaseExpiresAt := none
    cancelRequestedAt := none }]

def lockHeld (jobs : List Job) (k : String) : Bool :=
  jobs.any fun h => h.lockKey = some k && h.status.held

/-- The jobs that `DequeueJob` may take. -/
def Job.eligible (jobs : List Job) (now : Nat) (j : Job) : Bool :=
  j.status = .queued && j.runAt ≤ now &&
    match j.lockKey with
    | none => true
    | some k => !lockHeld jobs k

def Job.before (a b : Job) : Bool :=
  a.priority > b.priority ||
    (a.priority = b.priority && (a.runAt < b.runAt || (a.runAt = b.runAt && a.id ≤ b.id)))

/-- The first job in the order of consumption. -/
def firstJob : List Job → Option Job
  | [] => none
  | j :: js =>
    match firstJob js with
    | none => some j
    | some k => some (if j.before k then j else k)

def leaseDuration : Nat := 90

/-- The lease that `DequeueJob` writes. -/
def Job.leasedTo (now : Nat) (worker : String) (j : Job) : Job :=
  { j with
    status := .leased
    leasedBy := some worker
    leaseExpiresAt := some (now + leaseDuration)
    attempt := j.attempt + 1 }

/-- `DequeueJob`: the job taken, with its lease, and the table. -/
def dequeueJob (now : Nat) (worker : String) (jobs : List Job) : Option Job × List Job :=
  match firstJob (jobs.filter (Job.eligible jobs now)) with
  | none => (none, jobs)
  | some j =>
    (some (j.leasedTo now worker),
      updateWhere (fun r => r.id = j.id) (Job.leasedTo now worker) jobs)

def Job.heldBy (id : Nat) (worker : String) (j : Job) : Bool :=
  j.id = id && j.leasedBy = some worker && j.status.held

def markJobRunningHits (id : Nat) (worker : String) (j : Job) : Bool :=
  j.id = id && j.leasedBy = some worker && j.status = .leased

def markJobRunning (id : Nat) (worker : String) (jobs : List Job) : List Job :=
  updateWhere (markJobRunningHits id worker) (fun j => { j with status := .running }) jobs

def heartbeatJob (now id : Nat) (worker : String) (jobs : List Job) : List Job :=
  updateWhere (Job.heldBy id worker)
    (fun j => { j with leaseExpiresAt := some (now + leaseDuration) }) jobs

def succeedJob (id : Nat) (worker : String) (jobs : List Job) : List Job :=
  updateWhere (Job.heldBy id worker)
    (fun j => { j with
      status := .succeeded, leasedBy := none, leaseExpiresAt := none }) jobs

def failJob (id : Nat) (worker : String) (toDeadLetter : Bool)
    (nextRunAt : Nat) (jobs : List Job) : List Job :=
  updateWhere (Job.heldBy id worker)
    (fun j => { j with
      status := if toDeadLetter then .deadLetter else .retryWait
      runAt := nextRunAt
      leasedBy := none
      leaseExpiresAt := none }) jobs

def maxResumes : Nat := 3

/-- The rows `ReapExpiredLeases` changes. -/
def Job.leaseExpired (now : Nat) (j : Job) : Bool :=
  j.status.held &&
    match j.leaseExpiresAt with
    | none => false
    | some t => t < now

/-- What `ReapExpiredLeases` makes of a job: the attempt is given back, and
`resume_count` bounds how often. -/
def Job.reaped (now : Nat) (j : Job) : Job :=
  { j with
    status := if maxResumes ≤ j.resumeCount then .deadLetter else .retryWait
    resumeCount := j.resumeCount + 1
    attempt :=
      if maxResumes ≤ j.resumeCount then j.attempt else j.attempt - 1
    runAt := now
    leasedBy := none
    leaseExpiresAt := none }

def reapExpiredLeases (now : Nat) (jobs : List Job) : List Job :=
  updateWhere (Job.leaseExpired now) (Job.reaped now) jobs

def promoteWaitingJobs (now : Nat) (jobs : List Job) : List Job :=
  updateWhere
    (fun j => (j.status = .retryWait || j.status = .scheduled) && j.runAt ≤ now)
    (fun j => { j with status := .queued }) jobs

def requestDeploymentJobCancelHits (deploymentId : Nat) (j : Job) : Bool :=
  j.payload = .deploymentRun deploymentId &&
    (j.status = .scheduled || j.status = .queued || j.status = .leased || j.status = .running)

def requestDeploymentJobCancel (now deploymentId : Nat) (jobs : List Job) : List Job :=
  updateWhere (requestDeploymentJobCancelHits deploymentId)
    (fun j => { j with cancelRequestedAt := some now }) jobs

def isJobCancelRequested (id : Nat) (jobs : List Job) : Bool :=
  match row? Job.id id jobs with
  | none => false
  | some j => j.cancelRequestedAt.isSome

def cancelJobsForDeployments (deploymentIds : List Nat) (jobs : List Job) : List Job :=
  updateWhere
    (fun j => j.status = .queued &&
      match j.payload with
      | .deploymentRun d => deploymentIds.contains d
      | _ => false)
    (fun j => { j with status := .cancelled }) jobs

def cleanupRunning (serverId : Nat) (jobs : List Job) : Bool :=
  jobs.any fun j => j.payload = .serverCleanup serverId && j.status.held

/-! ## Deployments -/

def setDeploymentStatus (id : Nat) (s : DeploymentStatus)
    (ds : List Deployment) : List Deployment :=
  updateWhere (fun d => d.id = id) (fun d => { d with status := s }) ds

/-- The row `StartDeploymentUnlessCleanupRunning` changes. -/
def startDeploymentHits (id : Nat) (jobs : List Job) (d : Deployment) : Bool :=
  d.id = id && d.status = .queued && !cleanupRunning d.serverId jobs

def startDeploymentUnlessCleanupRunning (id : Nat) (jobs : List Job)
    (ds : List Deployment) : List Deployment :=
  updateWhere (startDeploymentHits id jobs) (fun d => { d with status := .preparing }) ds

def cancelQueuedDeployment (id : Nat) (ds : List Deployment) : List Deployment :=
  updateWhere (fun d => d.id = id && d.status = .queued)
    (fun d => { d with status := .cancelled }) ds

def setDeploymentError (id : Nat) (msg : String) (ds : List Deployment) : List Deployment :=
  updateWhere (fun d => d.id = id) (fun d => { d with errorMessage := some msg }) ds

def setDeploymentImage (id : Nat) (name tag : Option String)
    (ds : List Deployment) : List Deployment :=
  updateWhere (fun d => d.id = id) (fun d => { d with imageName := name, imageTag := tag }) ds

def setDeploymentImageDigest (id : Nat) (digest : Option String)
    (ds : List Deployment) : List Deployment :=
  updateWhere (fun d => d.id = id) (fun d => { d with imageDigest := digest }) ds

def setDeploymentCommit (id : Nat) (sha : Option String) (ds : List Deployment) : List Deployment :=
  updateWhere (fun d => d.id = id) (fun d => { d with commitSha := sha }) ds

/-- `SupersedeObsoletePreviewDeployments`: the new table. -/
def supersedeObsoletePreviewDeployments (previewId id : Nat)
    (ds : List Deployment) : List Deployment :=
  updateWhere
    (fun d => d.previewId = some previewId && d.status = .queued && d.id ≠ id)
    (fun d => { d with status := .superseded }) ds

/-- `SupersedeQueuedDeployments`, where `ids` are the deployments of the resource
that a webhook triggered, but for the new one. -/
def supersedeQueuedDeployments (ids : List Nat) (ds : List Deployment) : List Deployment :=
  updateWhere (fun d => ids.contains d.id && d.status = .queued)
    (fun d => { d with status := .superseded }) ds

def countActiveDeploymentsForServer (serverId : Nat) (ds : List Deployment) : Nat :=
  ds.countP fun d => d.serverId = serverId && !d.status.terminal

/-! ## Artifacts

The queries join an artifact with the deployment that recorded it. -/

/-- `deployment_artifacts a JOIN deployments d ON d.id = a.deployment_id`. -/
def artifactsWithDeployment (ds : List Deployment) (as : List Artifact) :
    List (Artifact × Deployment) :=
  as.filterMap fun a =>
    (row? Deployment.id a.deploymentId ds).map fun d => (a, d)

/-- The rows of `GetArtifactForDeployment`.  The query has no order, so any of
them may be the one it answers with. -/
def getArtifactForDeployment (uuid : String) (resourceId : Nat)
    (ads : List (Artifact × Deployment)) : List (Artifact × Deployment) :=
  ads.filter fun p => p.2.uuid = uuid && p.2.resourceId = resourceId

/-- The rows that `GetArtifactByDigest` orders. -/
def artifactsByDigest (digest : String) (resourceId : Nat)
    (ads : List (Artifact × Deployment)) : List (Artifact × Deployment) :=
  ads.filter fun p =>
    p.1.imageDigest = some digest && p.2.resourceId = resourceId

def getArtifactByDigest (digest : String) (resourceId : Nat)
    (ads : List (Artifact × Deployment)) : Option (Artifact × Deployment) :=
  latest (fun p => p.1.id) (artifactsByDigest digest resourceId ads)

/-- `SELECT max(id) FROM deployments WHERE resource_id = $1 AND status =
'succeeded'`. -/
def lastSucceededID (resourceId : Nat) (ds : List Deployment) : Option Nat :=
  (latest Deployment.id (ds.filter fun d =>
    d.resourceId = resourceId && d.status = .succeeded)).map Deployment.id

/-- The rows that `GetPreviousArtifact` orders. -/
def previousArtifacts (resourceId : Nat) (ds : List Deployment)
    (ads : List (Artifact × Deployment)) : List (Artifact × Deployment) :=
  ads.filter fun p =>
    p.2.resourceId = resourceId && p.2.status = .succeeded &&
      (lastSucceededID resourceId ds).any (p.2.id < ·)

def getPreviousArtifact (resourceId : Nat) (ds : List Deployment)
    (ads : List (Artifact × Deployment)) : Option (Artifact × Deployment) :=
  latest (fun p => p.1.id) (previousArtifacts resourceId ds ads)

def deleteDeploymentArtifact (id : Nat) (as : List Artifact) : List Artifact :=
  deleteWhere (fun a => a.id = id) as

/-- `CreateRollbackDeployment`: the row it inserts. -/
def rollbackDeployment (id : Nat) (uuid : String) (resourceId serverId : Nat)
    (a : Artifact) : Deployment where
  id := id
  uuid := uuid
  resourceId := resourceId
  serverId := serverId
  previewId := none
  status := .queued
  isRollback := true
  skipBuild := false
  commitSha := none
  imageName := some a.imageName
  imageTag := a.imageTag
  imageDigest := a.imageDigest
  errorMessage := none

/-! ## Previews -/

def setPreviewStatus (now id : Nat) (s : PreviewStatus)
    (cleanupError : Option String) (ps : List Preview) : List Preview :=
  updateWhere (fun p => p.id = id)
    (fun p => { p with
      status := s
      cleanupError := cleanupError
      destroyedAt := if s = .destroyed then some now else p.destroyedAt
      updatedAt := now }) ps

def setPreviewDeployed (now id : Nat) (ps : List Preview) : List Preview :=
  updateWhere (fun p => p.id = id)
    (fun p => { p with
      status := .active
      lastDeployedAt := some now
      lastActivityAt := some now
      expiryWarnedAt := none
      updatedAt := now }) ps

end Akerdock.Store
