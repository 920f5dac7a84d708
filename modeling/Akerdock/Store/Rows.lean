import Mathlib

/-!
# The rows of the control plane's database

The enumerations of the schema and the tables that deployments, previews and
the job queue live in, with the columns that the modelled statements read or
write.  A `timestamptz` is a natural number of the clock, a nullable column is
an `Option`.

* `DeploymentStatus`, `JobStatus` and `PreviewStatus` are the enumerations,
  with the groups of statuses that the statements and handlers test.
* `Application`, `Deployment`, `Artifact`, `Job` and `Preview` are the rows.
-/

namespace Akerdock.Store

inductive DeploymentStatus where
  | queued | preparing | cloning | building | pushing | starting
  | healthchecking | switching | finishing | succeeded | failed | cancelled
  | retrying | superseded
  deriving DecidableEq

/-- The statuses that `Execute` never runs again. -/
def DeploymentStatus.terminal : DeploymentStatus → Bool
  | .succeeded | .failed | .cancelled | .superseded => true
  | _ => false

/-- The statuses in which the traffic switch has started. -/
def DeploymentStatus.pastBarrier : DeploymentStatus → Bool
  | .switching | .finishing => true
  | _ => false

/-- The statuses that an attempt writes before the switch. -/
def DeploymentStatus.early : DeploymentStatus → Bool
  | .preparing | .cloning | .building | .starting | .healthchecking => true
  | _ => false

theorem DeploymentStatus.early_not_pastBarrier {s : DeploymentStatus}
    (h : s.early = true) : s.pastBarrier = false := by
  cases s <;> first | rfl | cases h

inductive JobStatus where
  | scheduled | queued | leased | running | retryWait | succeeded | cancelled
  | deadLetter
  deriving DecidableEq

/-- A job that some worker holds a lease on. -/
def JobStatus.held : JobStatus → Bool
  | .leased | .running => true
  | _ => false

/-- The statuses that a cancel request applies to.  A job in `retry_wait` waits
for its next attempt and is not among them. -/
def JobStatus.cancellable : JobStatus → Bool
  | .scheduled | .queued | .leased | .running => true
  | _ => false

inductive PreviewStatus where
  | queued | deploying | active | failed | destroying | cleanupFailed
  | destroyed | sleeping | waking
  deriving DecidableEq

/-- `build_pack`, without the compose stacks: those have a pipeline of their
own. -/
inductive BuildPack where
  | image | dockerfile | static | nixpacks
  deriving DecidableEq

inductive GitProvider where
  | github | gitlab | bitbucket | gitea | other
  deriving DecidableEq

/-- An application with the settings of its build and runtime configuration,
its server and its domains.

* `adoption` is the container name of the adoption pointer.
* `buildServer` is the ready build server of the team, if there is one, and
  `pushRegistry` the registry that images built there are pushed to.
* `traefik` is whether the server's proxy is managed, `hasDomain` whether the
  application has a domain to route. -/
structure Application where
  uuid : String
  adoption : Option String
  buildPack : BuildPack
  gitRepositoryUrl : Option String
  useBuildServer : Bool
  buildServer : Option Nat
  pushRegistry : Option String
  healthCheck : Bool
  preDeploymentCommand : Option String
  postDeploymentCommand : Option String
  traefik : Bool
  hasDomain : Bool
  scaleToZero : Bool
  previewScaleToZero : Bool
  previewsEnabled : Bool
  previewMaxConcurrent : Option Nat
  previewForkApprovalEnabled : Bool
  previewExcludeDrafts : Bool
  previewDeployOnOpen : Bool
  previewRequireLabel : Option String
  previewCommentCommandsEnabled : Bool
  previewCancelObsoleteBuilds : Bool
  deriving DecidableEq

/-- A row of `deployments`. -/
structure Deployment where
  id : Nat
  uuid : String
  resourceId : Nat
  serverId : Nat
  previewId : Option Nat
  status : DeploymentStatus
  isRollback : Bool
  skipBuild : Bool
  commitSha : Option String
  imageName : Option String
  imageTag : Option String
  imageDigest : Option String
  errorMessage : Option String
  deriving DecidableEq

structure Artifact where
  id : Nat
  deploymentId : Nat
  imageName : String
  imageTag : Option String
  imageDigest : Option String
  serverId : Nat

/-- The payloads of the job types that act on deployments, previews, servers
and scheduled tasks. -/
inductive JobPayload where
  | deploymentRun (deploymentId : Nat)
  | previewDestroy (previewId : Nat)
  | serverCleanup (serverId : Nat)
  | scheduledTaskRun (taskId executionId : Nat)
  | other (jobType : String)
  deriving DecidableEq

/-- A row of `jobs`. -/
structure Job where
  id : Nat
  payload : JobPayload
  status : JobStatus
  priority : Int
  runAt : Nat
  attempt : Nat
  maxAttempts : Nat
  resumeCount : Nat
  lockKey : Option String
  leasedBy : Option String
  leaseExpiresAt : Option Nat
  cancelRequestedAt : Option Nat

/-- A row of `previews`. -/
structure Preview where
  id : Nat
  uuid : String
  applicationId : Nat
  provider : GitProvider
  prId : Nat
  sourceBranch : Option String
  headSha : Option String
  isFork : Bool
  forkApprovedAt : Option Nat
  fqdn : Option String
  status : PreviewStatus
  cleanupError : Option String
  lastDeployedAt : Option Nat
  lastActivityAt : Option Nat
  destroyedAt : Option Nat
  updatedAt : Nat
  repoReference : Option String
  expiryWarnedAt : Option Nat
  deployRequestedAt : Option Nat
  deriving DecidableEq

end Akerdock.Store
