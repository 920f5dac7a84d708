import Akerdock.Lib.Program
import Akerdock.Docker.Server
import Akerdock.Store.Statements

/-!
# The calls of the deployment engine

A deployment attempt acts on two things: the control plane's database and the
target server.  `Call` lists the statements and the remote operations that it
makes, `Ans` the type of each answer, and `sem` what a call does to the
`World`.

A call to the server or to one of its tools may fail.  Its `Outcome` says so,
and a failing call leaves the state unchanged.  The statements on the
database are atomic and succeed, but for the read of the cancel flag, whose
error `checkpoint` takes for a flag that is not set.  Remote steps that only touch sources, images
or logs (`Call.remote`) do not change the modelled state at all, so what is
left of them is whether they succeed.

`World.log` is not a part of the system.  It records the calls made so far,
newest first, so that a property can speak about them.
-/

namespace Akerdock.Deploy

open Store Docker Table Option

/-- Whether a remote call succeeds. -/
inductive Outcome where
  | succeeds | fails
  deriving DecidableEq

/-- The remote steps of an attempt that leave containers and routes alone. -/
inductive RemoteStep where
  | sshConnect | agentRuntime | agentHostOps | dialBuildServer
  | renderRuntimeEnv | prepare | preDeploymentHook | verifyArtifact | pull
  | installDeployKey | verifyHead | renderBuildEnv | writeDockerfile | build
  | push | pullFromRegistry | pruneOldSources | prepareStorages
  | healthcheck | postDeploymentHook | ensureAgent | pruneOldImages
  deriving DecidableEq

/-- Where in the engine a container operation is made. -/
inductive Site where
  | startCandidate | resolveEndpoint | switchRouting | switch | applyRouting
  | resumeInspect | compensation | teardown
  deriving DecidableEq

/-- The operations that change containers. -/
inductive DockerOp where
  | stop (n : String)
  | remove (n : String)
  | create (n : String)
  | start (n : String)
  | rename (m n : String)
  deriving DecidableEq

/-- The image a deployment runs, as far as `recordArtifact` needs it. -/
structure Image where
  name : Option String
  tag : Option String
  digest : Option String
  deriving DecidableEq

/-- The images that the engine inspects: one it pulled, one it built, one it
pushed. -/
inductive ImageQuery where
  | pulled | built | pushed
  deriving DecidableEq

inductive Call where
  | getDeploymentByID (id : Nat)
  | getApplicationByID
  | getPreviewByID (id : Nat)
  | isJobCancelRequested (jobId : Nat)
  | startDeploymentUnlessCleanupRunning (id : Nat)
  | getDeploymentStatus (id : Nat)
  | setDeploymentStatus (id : Nat) (s : DeploymentStatus)
  | setDeploymentError (id : Nat) (msg : String)
  | setDeploymentImage (id : Nat) (name tag : Option String)
  | setDeploymentImageDigest (id : Nat) (digest : Option String)
  | setDeploymentCommit (id : Nat) (sha : Option String)
  | assignDeploymentBuildServerUnlessCleanupRunning (serverId : Nat)
  | createDeploymentArtifact (id : Nat) (image : Image)
  | clearResourceAdoption
  | setPreviewStatus (id : Nat) (s : PreviewStatus) (cleanupError : Option String)
  | setPreviewDeployed (id : Nat)
  | remote (step : RemoteStep)
  | lsRemote
  | clone (sha : String)
  | imageInspect (q : ImageQuery)
  | containerInspect (site : Site) (n : String)
  | docker (site : Site) (op : DockerOp)
  | applyProxy (site : Site) (t : Option Target)
  deriving DecidableEq

/-- The type of the answer to a call.  A failed read is `none`, a failed
remote step is `false`. -/
@[reducible] def Ans : Call → Type
  | .getDeploymentByID _ => Option Deployment
  | .getApplicationByID => Option Application
  | .getPreviewByID _ => Option Preview
  | .isJobCancelRequested _ => Bool
  | .startDeploymentUnlessCleanupRunning _ => Bool
  | .getDeploymentStatus _ => Option DeploymentStatus
  | .assignDeploymentBuildServerUnlessCleanupRunning _ => Bool
  | .remote _ => Bool
  | .lsRemote => Option String
  | .clone _ => Bool
  | .imageInspect _ => Option (Option String)
  | .containerInspect _ _ => Except DockerError Container
  | .docker _ _ => Except DockerError Unit
  | .applyProxy _ _ => Bool
  | .setDeploymentStatus _ _ | .setDeploymentError _ _
  | .setDeploymentImage _ _ _ | .setDeploymentImageDigest _ _
  | .setDeploymentCommit _ _ | .createDeploymentArtifact _ _
  | .clearResourceAdoption | .setPreviewStatus _ _ _
  | .setPreviewDeployed _ => Unit

/-- The database, the server, and the calls made so far.

`branchHead` is the commit that the branch of the application resolves to,
`imageDigest` what the inspection of an image answers. -/
structure World where
  clock : Nat
  app : Application
  deployments : List Deployment
  artifacts : List Artifact
  jobs : List Job
  previews : List Preview
  server : Server
  branchHead : String
  imageDigest : ImageQuery → Option String
  log : List Call

namespace World

def status? (w : World) (id : Nat) : Option DeploymentStatus :=
  (row? Deployment.id id w.deployments).map Deployment.status

def cancelFlag (w : World) (id : Nat) : Bool :=
  isJobCancelRequested id w.jobs

def withServer (w : World) (s : Server) : World :=
  { w with server := s }

def logged (w : World) (c : Call) : World :=
  { w with log := c :: w.log }

@[simp] theorem withServer_server (w : World) (s : Server) : (w.withServer s).server = s := rfl

@[simp] theorem withServer_log (w : World) (s : Server) : (w.withServer s).log = w.log := rfl

@[simp] theorem logged_server (w : World) (c : Call) : (w.logged c).server = w.server := rfl

@[simp] theorem logged_app (w : World) (c : Call) : (w.logged c).app = w.app := rfl

@[simp] theorem logged_log (w : World) (c : Call) : (w.logged c).log = c :: w.log := rfl

/-- `StartDeploymentUnlessCleanupRunning` would change the row `id`. -/
def canStart (w : World) (id : Nat) : Bool :=
  (row? Deployment.id id w.deployments).any (startDeploymentHits id w.jobs)

end World

/-- The effect of a container operation. -/
def DockerOp.run (s : Server) : DockerOp → Except DockerError Unit × Server
  | .stop n => s.containerStop n
  | .remove n => s.containerRemove n
  | .create n => s.containerCreate n
  | .start n => s.containerStart n
  | .rename m n => s.containerRename m n

def Artifact.ofImage (w : World) (id : Nat) (image : Image) : Artifact where
  id := nextId Artifact.id w.artifacts
  deploymentId := id
  imageName := image.name.getD ""
  imageTag := image.tag
  imageDigest := image.digest
  serverId := (row? Deployment.id id w.deployments).elim 0 Deployment.serverId

/-- The answer to a call and the state it leaves, the log apart. -/
def apply : (c : Call) → Outcome → World → Ans c × World
  | .getDeploymentByID id, _, w => (row? Deployment.id id w.deployments, w)
  | .getApplicationByID, o, w =>
    (if o = .succeeds then some w.app else none, w)
  | .getPreviewByID id, _, w => (row? Preview.id id w.previews, w)
  | .isJobCancelRequested id, o, w => (decide (o = .succeeds) && w.cancelFlag id, w)
  | .startDeploymentUnlessCleanupRunning id, _, w =>
    (w.canStart id,
      { w with
        deployments :=
          startDeploymentUnlessCleanupRunning id w.jobs w.deployments })
  | .getDeploymentStatus id, _, w => (w.status? id, w)
  | .setDeploymentStatus id s, _, w =>
    ((), { w with deployments := setDeploymentStatus id s w.deployments })
  | .setDeploymentError id msg, _, w =>
    ((), { w with deployments := setDeploymentError id msg w.deployments })
  | .setDeploymentImage id name tag, _, w =>
    ((), { w with
      deployments := setDeploymentImage id name tag w.deployments })
  | .setDeploymentImageDigest id digest, _, w =>
    ((), { w with
      deployments := setDeploymentImageDigest id digest w.deployments })
  | .setDeploymentCommit id sha, _, w =>
    ((), { w with deployments := setDeploymentCommit id sha w.deployments })
  | .assignDeploymentBuildServerUnlessCleanupRunning serverId, _, w =>
    (!cleanupRunning serverId w.jobs, w)
  | .createDeploymentArtifact id image, _, w =>
    ((), { w with
      artifacts := w.artifacts ++ [Artifact.ofImage w id image] })
  | .clearResourceAdoption, _, w =>
    ((), { w with app := { w.app with adoption := none } })
  | .setPreviewStatus id s err, _, w =>
    ((), { w with
      previews := setPreviewStatus w.clock id s err w.previews })
  | .setPreviewDeployed id, _, w =>
    ((), { w with previews := setPreviewDeployed w.clock id w.previews })
  | .remote _, o, w => (decide (o = .succeeds), w)
  | .lsRemote, o, w => (if o = .succeeds then some w.branchHead else none, w)
  | .clone _, o, w => (decide (o = .succeeds), w)
  | .imageInspect q, o, w =>
    (if o = .succeeds then some (w.imageDigest q) else none, w)
  | .containerInspect _ n, o, w =>
    (if o = .succeeds then w.server.containerInspect n else .error .other, w)
  | .docker _ op, o, w =>
    if o = .succeeds then
      ((op.run w.server).1, { w with server := (op.run w.server).2 })
    else (.error .other, w)
  | .applyProxy _ t, o, w =>
    if o = .succeeds then (true, { w with server := w.server.routeTo t })
    else (false, w)

/-- The answer to a call and the state it leaves. -/
def sem (c : Call) (o : Outcome) (w : World) : Ans c × World :=
  ((apply c o w).1, { (apply c o w).2 with log := c :: w.log })

def smoothly (c : Call) (w : World) : Ans c × World :=
  sem c .succeeds w

@[simp] theorem sem_fst (c : Call) (o : Outcome) (w : World) :
    (sem c o w).1 = (apply c o w).1 := rfl

@[simp] theorem sem_log (c : Call) (o : Outcome) (w : World) : (sem c o w).2.log = c :: w.log := rfl

theorem sem_docker_fails (site : Site) (op : DockerOp) (w : World) :
    sem (.docker site op) .fails w = (.error .other, w.logged (.docker site op)) := rfl

/-! ## What a call changes -/

/-- Everything an attempt does leaves the jobs alone: the worker that runs
it, not the attempt, moves its job. -/
@[simp] theorem sem_jobs (c : Call) (o : Outcome) (w : World) : (sem c o w).2.jobs = w.jobs := by
  cases c <;> simp only [sem, apply] <;> split <;> rfl

def Call.writesStatus (id : Nat) : Call → Bool
  | .setDeploymentStatus i _ | .startDeploymentUnlessCleanupRunning i =>
    i = id
  | _ => false

def Call.touchesServer : Call → Bool
  | .docker _ _ | .applyProxy _ _ => true
  | _ => false

theorem sem_server_of_not (h : c.touchesServer = false) (o : Outcome)
    (w : World) : (sem c o w).2.server = w.server := by
  cases c <;> first | rfl | simp [Call.touchesServer] at h

/-- A statement that keeps the identifiers and the statuses of all rows keeps
every status. -/
private theorem status?_updateWhere_of_same {w : World} {w' : World}
    {f : Deployment → Deployment}
    (hw : w'.deployments = updateWhere p f w.deployments)
    (hid : ∀ d, (f d).id = d.id) (id : Nat)
    (hst : ∀ d, d.id = id → p d = true → (f d).status = d.status) :
    w'.status? id = w.status? id := by
  unfold World.status?
  rw [hw, row?_updateWhere p hid, map_map]
  cases h : row? Deployment.id id w.deployments with
  | none => rfl
  | some d =>
    have hd := row?_key h
    simp only [map_some, Function.comp_apply, some.injEq]
    split
    · rename_i hp
      exact hst d hd hp
    · rfl

/-- A call that does not write the status of a deployment keeps it. -/
theorem status?_sem_of_not {id : Nat} (h : c.writesStatus id = false)
    (o : Outcome) (w : World) : (sem c o w).2.status? id = w.status? id := by
  cases c with
  | setDeploymentStatus i s =>
    refine status?_updateWhere_of_same rfl (by intro _; rfl) id ?_
    intro d hd hp
    have hi : i = id := (of_decide_eq_true hp).symm.trans hd
    exact absurd h (by simp [Call.writesStatus, hi])
  | startDeploymentUnlessCleanupRunning i =>
    refine status?_updateWhere_of_same rfl (by intro _; rfl) id ?_
    intro d hd hp
    simp only [startDeploymentHits, Bool.and_eq_true, decide_eq_true_eq] at hp
    exact absurd h (by simp [Call.writesStatus, ← hp.1.1, hd])
  | setDeploymentError i msg | setDeploymentImage i name tag
  | setDeploymentImageDigest i digest | setDeploymentCommit i sha =>
    exact status?_updateWhere_of_same rfl (by intro _; rfl) id (by intro _ _ _; rfl)
  | docker site op | applyProxy site t =>
    simp only [sem, apply]
    split <;> rfl
  | _ => rfl

theorem status?_setDeploymentStatus (id : Nat) (s : DeploymentStatus)
    (o : Outcome) (w : World) :
    (sem (.setDeploymentStatus id s) o w).2.status? id = (w.status? id).map fun _ => s := by
  simp only [sem, apply, World.status?, setDeploymentStatus]
  rw [row?_updateWhere, map_map]
  · cases h : row? Deployment.id id w.deployments with
    | none => rfl
    | some d => simp [row?_key h]
  · intro d
    rfl

/-- The atomic start: it moves a queued deployment to `preparing` exactly when
it answers so, and otherwise changes nothing. -/
theorem status?_startDeployment (id : Nat) (o : Outcome) (w : World) :
    (sem (.startDeploymentUnlessCleanupRunning id) o w).2.status? id =
      if w.canStart id then some .preparing else w.status? id := by
  simp only [sem, apply, World.status?, startDeploymentUnlessCleanupRunning]
  rw [row?_updateWhere, map_map, World.canStart]
  · cases row? Deployment.id id w.deployments with
    | none => rfl
    | some d =>
      simp only [map_some, any_some, Function.comp_apply]
      split <;> rfl
  · intro d
    rfl

theorem status?_sem_ne_none {id : Nat} (h : w.status? id ≠ none) (c : Call)
    (o : Outcome) : (sem c o w).2.status? id ≠ none := by
  by_cases hc : c.writesStatus id = true
  · cases c with
    | setDeploymentStatus i s =>
      obtain rfl : i = id := of_decide_eq_true hc
      rw [status?_setDeploymentStatus]
      simpa using h
    | startDeploymentUnlessCleanupRunning i =>
      obtain rfl : i = id := of_decide_eq_true hc
      rw [status?_startDeployment]
      split
      · simp
      · exact h
    | _ => cases hc
  · rw [status?_sem_of_not (Bool.eq_false_iff.2 hc)]
    exact h

/-- The atomic start succeeds only on a queued deployment. -/
theorem World.canStart_queued {id : Nat} {w : World}
    (h : w.canStart id = true) : w.status? id = some .queued := by
  unfold World.canStart at h
  unfold World.status?
  cases hr : row? Deployment.id id w.deployments with
  | none => simp [hr] at h
  | some d =>
    simp only [hr, any_some, startDeploymentHits, Bool.and_eq_true,
      decide_eq_true_eq] at h
    simp [h.1.2]

end Akerdock.Deploy
