import Akerdock.Deploy.Calls

/-!
# The deployment engine

`Execute` runs one attempt of a `deployment.run` job for an application with a
single container.  It is `internal/jobs/deploymentrun.go` as a program over
the calls of `Deploy.Calls`, under the names of the source:

* `checkpoint`, `setStatus`, `step`-like helpers and the container helpers
  `removeNamedContainers`, `containerState`, `promoteCandidate`;
* `connect`, the head of `execute` up to the point where the Docker runtime of
  the server is known, then `resume` and the pipeline `prepare`, `build`,
  `startCandidate`, `awaitHealthy` and `switchTraffic`;
* `finish`, the idempotent tail, and the compensations `markFailed` and
  `markCancelled`.

Two things differ in form only.  The source keeps `r.rt`, the runtime of the
server, as a nil pointer until it is resolved, and the compensations test it;
here `execute` returns the test with its result.  The two waiting loops poll
until the context ends, so they take the number of polls after which it does.
A context that ended stops every later call of the attempt, compensation
included: such an attempt ends `interrupted`, like one whose worker died.
-/

namespace Akerdock.Deploy

open Store Docker Proc Proc.Prog

/-- Why `execute` stops early. -/
inductive RunError where
  | cancelled
  | stateChanged (s : DeploymentStatus)
  | failed (msg : String)
  | contextDone
  deriving DecidableEq

/-- What `Execute` reports to the worker. -/
inductive JobResult where
  | deploymentStatus (s : DeploymentStatus)
  | error (msg : String)
  | interrupted
  deriving DecidableEq

/-- Code of an attempt: calls, with the errors of `execute`. -/
abbrev RunM := ExceptT RunError (Prog Ans)

def ask (c : Call) : RunM (Ans c) :=
  ExceptT.mk (.call c fun a => .ret (.ok a))

def must (s : RemoteStep) (msg : String) : RunM Unit := do
  if ← ask (.remote s) then pure () else throw (.failed msg)

/-- `deploymentRun`: the job and the rows as `newRun` read them. -/
structure Run where
  jobID : Nat
  d : Deployment
  app : Application
  preview : Option Preview
  deriving DecidableEq

namespace Run

variable (r : Run)

/-- The base of the Docker names of this run. -/
def namingIdentity : String :=
  match r.preview with
  | some p => p.uuid
  | none => r.app.uuid

def candidate : String :=
  r.namingIdentity ++ "-next"

/-- The container currently serving: the uuid-derived name, except for an
adopted application that is not normalized yet. -/
def oldName : String :=
  match r.preview with
  | some p => p.uuid
  | none => r.app.adoption.getD r.app.uuid

/-- The deployment runs an image that exists already. -/
def reusesArtifact : Bool :=
  r.d.isRollback || r.d.skipBuild

def rolling : Bool :=
  r.app.healthCheck

def forkGateClosed : Bool :=
  match r.preview with
  | some p => p.isFork && p.forkApprovedAt.isNone
  | none => false

/-- The image named by the deployment's row. -/
def image : Image where
  name := r.d.imageName
  tag := r.d.imageTag
  digest := none

end Run

/-- `checkpoint`: honour a pending cancellation request. -/
def checkpoint (r : Run) : RunM Unit := do
  if ← ask (.isJobCancelRequested r.jobID) then throw .cancelled
  else pure ()

/-- The loop of `setStatus` for the first transition: wait while a cleanup
owns the server. -/
def awaitStart (r : Run) : Nat → RunM Unit
  | 0 => throw .contextDone
  | polls + 1 => do
    if ← ask (.startDeploymentUnlessCleanupRunning r.d.id) then pure ()
    else
      match ← ask (.getDeploymentStatus r.d.id) with
      | none => throw (.failed "no rows in result set")
      | some .queued => do
        checkpoint r
        awaitStart r polls
      | some s => throw (.stateChanged s)

/-- `setStatus`.  Only the first transition of a deployment that was read as
queued is conditional. -/
def setStatus (polls : Nat) (r : Run) (s : DeploymentStatus) : RunM Unit :=
  if s = .preparing && r.d.status = .queued then awaitStart r polls
  else ask (.setDeploymentStatus r.d.id s)

/-! ## Containers and routes -/

def removeNamedContainers (site : Site) : List String → Prog Ans (Except DockerError Unit)
  | [] => .ret (.ok ())
  | n :: ns => .call (.docker site (.remove n)) fun a =>
    match a with
    | .ok () => removeNamedContainers site ns
    | .error .notFound => removeNamedContainers site ns
    | .error e => .ret (.error e)

def orFail (msg : String) (p : Prog Ans (Except DockerError Unit)) :
    RunM Unit := do
  match ← ExceptT.lift p with
  | .ok () => pure ()
  | .error _ => throw (.failed msg)

def containerState (site : Site) (n : String) :
    RunM (Option ContainerStatus) := do
  match ← ask (.containerInspect site n) with
  | .ok c => pure (some c.status)
  | .error .notFound => pure none
  | .error _ => throw (.failed "inspect failed")

/-- The first half of `promoteCandidate`: stop and remove the old container,
and only warn when that fails. -/
def discardOld (r : Run) : RunM Unit := do
  let _ ← ask (.docker .switch (.stop r.oldName))
  let _ ← ExceptT.lift (removeNamedContainers .switch [r.oldName])

/-- `promoteCandidate`: stop and remove the old container, then rename the
candidate.  Only the rename can fail the step. -/
def promoteCandidate (r : Run) : RunM Unit := do
  discardOld r
  orFail "rename failed" (perform (Call.docker .switch (.rename r.candidate r.namingIdentity)))

/-- The endpoint of a direct route: an address during the rolling switch, the
container's name once stable. -/
def Run.endpoint (r : Run) : Option Nat → Target
  | some a => .ip a
  | none => .name r.namingIdentity

/-- What the routing file of this run points at.  `none` is an apply that the
engine skips, `some none` a file without a route. -/
def routeTarget (r : Run) (endpoint : Option Nat) : Option (Option Target) :=
  if !r.app.traefik then none
  else
    match r.preview with
    | some p =>
      if p.fqdn.isNone then some none
      else if r.app.previewScaleToZero then some (some .waker)
      else some (some (r.endpoint endpoint))
    | none =>
      if r.app.scaleToZero then
        if endpoint.isSome then none
        else if r.app.hasDomain then some (some .waker)
        else some none
      else if r.app.hasDomain then some (some (r.endpoint endpoint))
      else some none

/-- The waker is provisioned before a route points at it. -/
def ensureWaker (t : Option Target) : RunM Unit :=
  if t = some .waker then
    must .ensureAgent "provisioning the agent failed"
  else pure ()

/-- The step that applies a route to `endpoint`. -/
def routingSite (endpoint : Option Nat) : Site :=
  if endpoint.isSome then .switchRouting else .applyRouting

def applyRoutingTo (r : Run) (endpoint : Option Nat) : RunM Unit :=
  match routeTarget r endpoint with
  | none => pure ()
  | some t => do
    ensureWaker t
    if ← ask (.applyProxy (routingSite endpoint) t) then pure ()
    else throw (.failed "routing apply failed")

/-- `applyRouting`: route to the stable name. -/
def applyRouting (r : Run) : RunM Unit :=
  applyRoutingTo r none

/-! ## The tail of a deployment and its compensations -/

/-- `ClearResourceAdoption`, once the containers have their final names. -/
def clearAdoption (r : Run) : RunM Unit :=
  if r.preview.isNone && r.app.adoption.isSome then
    ask .clearResourceAdoption
  else pure ()

def recordArtifact (r : Run) (image : Image) : RunM Unit :=
  if r.reusesArtifact || image.name.isNone then pure ()
  else ask (.createDeploymentArtifact r.d.id image)

def pruneOldImages : RunM Unit := do
  let _ ← ask (.remote .pruneOldImages)

def markPreviewDeployed (r : Run) : RunM Unit :=
  match r.preview with
  | some p => ask (.setPreviewDeployed p.id)
  | none => pure ()

/-- The bookkeeping of `finish`. -/
def settle (polls : Nat) (r : Run) (image : Image) : RunM Unit := do
  setStatus polls r .finishing
  clearAdoption r
  recordArtifact r image
  pruneOldImages
  markPreviewDeployed r

def finish (polls : Nat) (r : Run) (image : Image) : RunM Unit := do
  settle polls r image
  setStatus polls r .succeeded

/-- The removal of the candidate by a compensation, when the runtime of the
server is known.  Its errors are ignored. -/
def compensate (r : Run) (rt : Bool) : RunM Unit :=
  if rt then do
    let _ ← ExceptT.lift (removeNamedContainers .compensation [r.candidate])
  else pure ()

def markCancelled (polls : Nat) (r : Run) (rt : Bool) : RunM Unit := do
  compensate r rt
  setStatus polls r .cancelled

def markPreviewFailed (r : Run) : RunM Unit :=
  match r.preview with
  | some p => ask (.setPreviewStatus p.id .failed none)
  | none => pure ()

def markFailed (polls : Nat) (r : Run) (rt : Bool) (msg : String) :
    RunM Unit := do
  markPreviewFailed r
  compensate r rt
  ask (.setDeploymentError r.d.id msg)
  setStatus polls r .failed

/-! ## Resuming after a crash -/

/-- The vocabulary of the resume inspection. -/
def stateText : Option ContainerStatus → String
  | none => "absent"
  | some .created => "created"
  | some .running => "running"
  | some .paused => "paused"
  | some .restarting => "restarting"
  | some .removing => "removing"
  | some .exited => "exited"
  | some .dead => "dead"

/-- The text of the error of a switch that cannot be resumed. -/
def unrecoverable (oldState nextState : Option ContainerStatus) : String :=
  "crashed during the switch and neither container is usable (old=" ++
    stateText oldState ++ ", candidate=" ++ stateText nextState ++ ")"

/-- The cases of `resume`, in their order. -/
def resumeFrom (polls : Nat) (r : Run) (oldState nextState : Option ContainerStatus) : RunM Unit :=
  if nextState = none ∧ oldState = some .running then do
    applyRouting r
    finish polls r r.image
  else if nextState = some .running ∧ oldState = none then do
    orFail "rename failed"
      (perform (Call.docker .switch (.rename r.candidate r.namingIdentity)))
    applyRouting r
    finish polls r r.image
  else if nextState = some .running ∧ oldState = some .running then do
    promoteCandidate r
    applyRouting r
    finish polls r r.image
  else throw (.failed (unrecoverable oldState nextState))

/-- The inspection of `resume`: what exists on the server decides. -/
def resumeSwitch (polls : Nat) (r : Run) : RunM Unit := do
  let oldState ← containerState .resumeInspect r.oldName
  let nextState ← containerState .resumeInspect r.candidate
  resumeFrom polls r oldState nextState

/-- `resume`: whether the deployment was carried to its end here.  It goes by
the status that `newRun` read. -/
def resume (polls : Nat) (r : Run) : RunM Bool :=
  if r.d.status.pastBarrier then do
    resumeSwitch polls r
    pure true
  else pure false

/-! ## The pipeline -/

/-- The head of `execute`, up to the resolution of the Docker runtime. -/
def connect (polls : Nat) (r : Run) : RunM Unit := do
  if r.forkGateClosed then
    throw (.failed "fork preview without maintainer approval (INV-010)")
  else do
    checkpoint r
    setStatus polls r .preparing
    must .sshConnect "ssh connect"
    must .agentRuntime "the server's agent is not connected"

/-- `reserveBuildServer`: wait while a cleanup owns the build server. -/
def reserveBuildServer (r : Run) (server : Nat) : Nat → RunM Unit
  | 0 => throw .contextDone
  | polls + 1 => do
    if ← ask (.assignDeploymentBuildServerUnlessCleanupRunning server) then
      pure ()
    else do
      checkpoint r
      reserveBuildServer r server polls

/-- Whether `execute` dials a build server. -/
def Run.buildsRemotely (r : Run) : Bool :=
  r.app.useBuildServer && r.app.buildPack ≠ .image && !r.reusesArtifact

def dialBuildServer (polls : Nat) (r : Run) : RunM Unit :=
  if r.buildsRemotely then
    match r.app.buildServer with
    | none => throw (.failed
        ("this application is configured to build on a build server, " ++ "and none is ready"))
    | some b => do
      reserveBuildServer r b polls
      must .dialBuildServer "ssh connect to the build server"
  else pure ()

/-- `runHook`: nothing to do without a command.  The hook before the build is
skipped when the container is not running. -/
def runHook (s : RemoteStep) (command : Option String) (inside : String) : RunM Unit :=
  match command with
  | none => pure ()
  | some _ =>
    if s = .preDeploymentHook then do
      match ← ask (.containerInspect .startCandidate inside) with
      | .error .notFound => pure ()
      | .error _ => throw (.failed "inspect failed")
      | .ok c =>
        if c.status = .running then must s "pre_deployment" else pure ()
    else must s "post_deployment"

def prepare (r : Run) : RunM Unit := do
  must .renderRuntimeEnv "runtime variables"
  must .prepare "prepare"
  runHook .preDeploymentHook r.app.preDeploymentCommand r.oldName

/-- The step `resolve_digest`: the inspection of the image has to answer, and
a digest it gives is recorded. -/
def resolveDigest (r : Run) (q : ImageQuery) : RunM (Option String) := do
  match ← ask (.imageInspect q) with
  | none => throw (.failed "resolve_digest")
  | some none => pure none
  | some (some digest) => do
    ask (.setDeploymentImageDigest r.d.id (some digest))
    pure (some digest)

/-- The head of the pull request as the preview's row had it. -/
def Run.pinnedSha (r : Run) : Option String :=
  match r.preview with
  | some p => p.headSha.filter (· ≠ "")
  | none => none

/-- `resolve_sha`: a preview deploys the head of its pull request, everything
else what the branch resolves to. -/
def resolveSha (r : Run) : RunM String :=
  match r.pinnedSha with
  | some sha => do
    ask (.setDeploymentCommit r.d.id (some sha))
    pure sha
  | none => do
    match ← ask .lsRemote with
    | none => throw (.failed "branch not found")
    | some sha => do
      ask (.setDeploymentCommit r.d.id (some sha))
      pure sha

/-- The clone fetches the head ref of the pull request (`previewFetchRef`),
and then has to be at the announced commit. -/
def verifyHead (r : Run) : RunM Unit :=
  match r.preview with
  | some p =>
    match p.provider with
    | .github | .gitea | .gitlab =>
      must .verifyHead "the pull request moved"
    | .bitbucket | .other => pure ()
  | none => pure ()

def clone (sha : String) : RunM Unit := do
  if ← ask (.clone sha) then pure () else throw (.failed "clone")

def recordBuilt (r : Run) (tag : Option String) : RunM Image := do
  let name := some ("akerdock/" ++ r.namingIdentity)
  ask (.setDeploymentImage r.d.id name tag)
  let digest ← resolveDigest r .built
  pure { name := name, tag := tag, digest := digest }

def buildFromGit (polls : Nat) (r : Run) : RunM Image := do
  setStatus polls r .cloning
  must .installDeployKey "installing the deploy key failed"
  let sha ← resolveSha r
  clone sha
  verifyHead r
  setStatus polls r .building
  must .renderBuildEnv "build variables"
  must .build "build"
  recordBuilt r (some (String.ofList (sha.toList.take 12)))

def buildFromDockerfile (r : Run) : RunM Image := do
  must .renderBuildEnv "build variables"
  must .writeDockerfile "writing the Dockerfile failed"
  must .build "build"
  recordBuilt r (some (String.ofList ((r.d.uuid.toList.filter (· ≠ '-')).take 12)))

/-- The image of the `image` build pack: pulled, then pinned. -/
def pullImage (r : Run) : RunM Image := do
  must .pull "pull"
  let digest ← resolveDigest r .pulled
  pure { name := r.d.imageName, tag := r.d.imageTag, digest := digest }

def buildImage (polls : Nat) (r : Run) : RunM Image :=
  if r.reusesArtifact then do
    must .verifyArtifact "the image is no longer present on the server"
    pure r.image
  else
    match r.app.buildPack with
    | .image => pullImage r
    | .dockerfile =>
      if r.app.gitRepositoryUrl.isSome then buildFromGit polls r
      else buildFromDockerfile r
    | .static => buildFromGit polls r
    | .nixpacks => buildFromGit polls r

/-- `pushBuiltImage`, when the image was built elsewhere: the target pulls it
back from the registry by its digest. -/
def pushBuiltImage (r : Run) (image : Image) : RunM Image :=
  if r.buildsRemotely then
    match r.app.pushRegistry with
    | none => throw (.failed
        ("no push registry is configured, so the image built on the " ++
          "build server could never be pulled here"))
    | some registry => do
      must .push "push"
      match ← ask (.imageInspect .pushed) with
      | some (some digest) => do
        must .pullFromRegistry "pull_from_registry"
        let name := image.name.map fun n => registry ++ "/" ++ n
        ask (.setDeploymentImage r.d.id name image.tag)
        ask (.setDeploymentImageDigest r.d.id (some digest))
        pure { name := name, tag := image.tag, digest := some digest }
      | _ => throw (.failed "the registry returned no digest for the pushed image")
  else pure image

def pruneOldSources (r : Run) : RunM Unit :=
  if r.reusesArtifact then pure ()
  else do
    let _ ← ask (.remote .pruneOldSources)

/-- The part of `execute` that builds. -/
def build (polls : Nat) (r : Run) : RunM Image := do
  checkpoint r
  setStatus polls r .building
  let built ← buildImage polls r
  let image ← pushBuiltImage r built
  pruneOldSources r
  pure image

/-- The container that the new version starts in. -/
def Run.target (r : Run) : String :=
  if r.rolling then r.candidate else r.namingIdentity

/-- A `stop` that tolerates a missing container. -/
def stopOld (r : Run) : RunM Unit := do
  match ← ask (.docker .startCandidate (.stop r.oldName)) with
  | .ok () => pure ()
  | .error .notFound => pure ()
  | .error _ => throw (.failed "start_candidate")

/-- Without a health check the old container goes first. -/
def retireOld (r : Run) : RunM Unit :=
  if r.rolling then pure ()
  else do
    stopOld r
    orFail "start_candidate" (removeNamedContainers .startCandidate [r.oldName])

/-- The part of `execute` that starts the candidate. -/
def startCandidate (polls : Nat) (r : Run) : RunM Unit := do
  checkpoint r
  setStatus polls r .starting
  must .prepareStorages "storages"
  retireOld r
  orFail "start_candidate" (removeNamedContainers .startCandidate [r.target])
  orFail "start_candidate" (perform (Call.docker .startCandidate (.create r.target)))
  orFail "start_candidate" (perform (Call.docker .startCandidate (.start r.target)))

/-- The part of `execute` that waits for the candidate. -/
def awaitHealthy (polls : Nat) (r : Run) : RunM Unit := do
  checkpoint r
  setStatus polls r .healthchecking
  must .healthcheck "the new container did not become healthy in time"
  runHook .postDeploymentHook r.app.postDeploymentCommand r.target

def resolveEndpoint (r : Run) : RunM Nat := do
  match ← ask (.containerInspect .resolveEndpoint r.candidate) with
  | .error _ => throw (.failed "resolve_endpoint")
  | .ok c =>
    match c.ip with
    | some a => pure a
    | none => throw (.failed "could not resolve the candidate IP")

/-- The switch of a rolling deployment: the route first, then the old
container. -/
def rollingSwitch (r : Run) : RunM Unit := do
  let a ← resolveEndpoint r
  applyRoutingTo r (some a)
  promoteCandidate r

/-- The switch without a health check: the final name must exist. -/
def plainSwitch (r : Run) : RunM Unit := do
  match ← ask (.containerInspect .switch r.namingIdentity) with
  | .ok _ => pure ()
  | .error _ => throw (.failed "switch")

/-- What `execute` does past the cancellation barrier. -/
def switchTraffic (polls : Nat) (r : Run) (image : Image) : RunM Unit := do
  if r.rolling then rollingSwitch r else plainSwitch r
  applyRouting r
  finish polls r image

/-- The part of the pipeline that can still be cancelled. -/
def beforeSwitch (polls : Nat) (r : Run) : RunM Image := do
  prepare r
  let image ← build polls r
  startCandidate polls r
  awaitHealthy polls r
  checkpoint r
  pure image

/-- The pipeline of an attempt that is not resumed. -/
def pipeline (polls : Nat) (r : Run) : RunM Unit := do
  let image ← beforeSwitch polls r
  setStatus polls r .switching
  switchTraffic polls r image

/-- `execute` from the resolution of the Docker runtime on. -/
def deploy (polls : Nat) (r : Run) : RunM Unit := do
  must .agentHostOps "the server's agent is not connected"
  dialBuildServer polls r
  if ← resume polls r then pure () else pipeline polls r

/-- `execute`, with whether the Docker runtime was resolved. -/
def execute (polls : Nat) (r : Run) : Prog Ans (Bool × Except RunError Unit) :=
  (connect polls r).run.bind fun x =>
    match x with
    | .error e => .ret (false, .error e)
    | .ok () => (deploy polls r).run.bind fun y => .ret (true, y)

/-- What `Execute` does with the result of `execute`. -/
def conclude (polls : Nat) (r : Run) : Bool × Except RunError Unit → Prog Ans JobResult
  | (_, .ok ()) => .ret (.deploymentStatus .succeeded)
  | (_, .error (.stateChanged s)) => .ret (.deploymentStatus s)
  | (rt, .error .cancelled) =>
    (markCancelled polls r rt).run.bind fun _ =>
      .ret (.deploymentStatus .cancelled)
  | (rt, .error (.failed msg)) =>
    (markFailed polls r rt msg).run.bind fun _ =>
      .ret (.deploymentStatus .failed)
  | (_, .error .contextDone) => .ret .interrupted

/-- The end of `newRun`: the preview of the deployment `d`, if it has one. -/
def readPreview (jobID : Nat) (d : Deployment) (app : Application) : Prog Ans (Option Run) :=
  match d.previewId with
  | none => .ret (some ⟨jobID, d, app, none⟩)
  | some pid => .call (.getPreviewByID pid) fun p =>
    .ret (p.map fun p => ⟨jobID, d, app, some p⟩)

def newRun (jobID : Nat) (d : Deployment) : Prog Ans (Option Run) :=
  .call .getApplicationByID fun app =>
    match app with
    | none => .ret none
    | some app => readPreview jobID d app

/-- `Execute` once the rows are read. -/
def executeRun (polls : Nat) : Option Run → Prog Ans JobResult
  | none => .ret (.error "vanished")
  | some r => (execute polls r).bind (conclude polls r)

/-- `Execute` once the deployment is read.  A terminal one is never run
again. -/
def executeRow (polls jobID : Nat) : Option Deployment → Prog Ans JobResult
  | none => .ret (.error "deployment not found")
  | some d =>
    if d.status.terminal then .ret (.deploymentStatus d.status)
    else (newRun jobID d).bind (executeRun polls)

def Execute (polls jobID id : Nat) : Prog Ans JobResult :=
  .call (.getDeploymentByID id) (executeRow polls jobID)

/-- The run that `newRun` builds from the rows of `w`. -/
def World.run? (w : World) (jobID id : Nat) : Option Run :=
  match Table.row? Deployment.id id w.deployments with
  | none => none
  | some d =>
    match d.previewId with
    | none => some ⟨jobID, d, w.app, none⟩
    | some pid =>
      (Table.row? Preview.id pid w.previews).map fun p =>
        ⟨jobID, d, w.app, some p⟩

/-! ## A sample application -/

def shopApp : Application where
  uuid := "shop"
  adoption := none
  buildPack := .image
  gitRepositoryUrl := none
  useBuildServer := false
  buildServer := none
  pushRegistry := none
  healthCheck := true
  preDeploymentCommand := none
  postDeploymentCommand := none
  traefik := true
  hasDomain := true
  scaleToZero := false
  previewScaleToZero := false
  previewsEnabled := false
  previewMaxConcurrent := none
  previewForkApprovalEnabled := false
  previewExcludeDrafts := false
  previewDeployOnOpen := false
  previewRequireLabel := none
  previewCommentCommandsEnabled := false
  previewCancelObsoleteBuilds := false

def shopDeployment : Deployment where
  id := 1
  uuid := "d1"
  resourceId := 1
  serverId := 1
  previewId := none
  status := .queued
  isRollback := false
  skipBuild := false
  commitSha := none
  imageName := some "shop"
  imageTag := some "2"
  imageDigest := none
  errorMessage := none

def shopPreview : Preview where
  id := 1
  uuid := "pr1"
  applicationId := 1
  provider := .github
  prId := 12
  sourceBranch := some "feature"
  headSha := some "c1"
  isFork := false
  forkApprovedAt := none
  fqdn := none
  status := .queued
  cleanupError := none
  lastDeployedAt := none
  lastActivityAt := none
  destroyedAt := none
  updatedAt := 0
  repoReference := none
  expiryWarnedAt := none
  deployRequestedAt := none

def shopJob : Job where
  id := 7
  payload := .deploymentRun 1
  status := .running
  priority := 0
  runAt := 0
  attempt := 1
  maxAttempts := 1
  resumeCount := 0
  lockKey := some "deploy:shop"
  leasedBy := some "worker"
  leaseExpiresAt := some 90
  cancelRequestedAt := none

/-- The container of the application is running and routed. -/
def shopWorld : World where
  clock := 0
  app := shopApp
  deployments := [shopDeployment]
  artifacts := []
  jobs := [shopJob]
  previews := []
  server := (Server.empty.up "shop").routeTo (some (.name "shop"))
  branchHead := ""
  imageDigest := fun _ => some "sha256:2"
  log := []

/-- The run of that job. -/
def shopRun : Run :=
  ⟨7, shopDeployment, shopApp, none⟩

end Akerdock.Deploy
