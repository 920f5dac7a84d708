import Akerdock.Lib.Wp
import Akerdock.Deploy.Engine

/-!
# What an attempt does before the switch

Everything `execute` does before it writes `switching` is harmless in the same
way, and this file says so once.  `PreSwitch r c` are the calls that such code
makes: statements and remote steps that change neither a status nor the
server, the checkpoints, the writes of the early statuses, and operations on
the container that is being started, which for a rolling deployment is the
candidate only.

`Phase R x` says that `x` makes only calls in `R`, stops at once when a
checkpoint finds the cancel flag, and reports `cancelled` for no other reason.
There is one lemma per function of the engine, named `phase_...`.  The
functions that every attempt goes through, resumed or not, make only the few
calls of `Opening`.
-/

namespace Akerdock.Deploy

open Store Docker Proc Proc.Prog

/-- Calls that change no status, no container, no route and no adoption
pointer. -/
def Call.neutral : Call → Bool
  | .getDeploymentByID _ | .getApplicationByID | .getPreviewByID _
  | .getDeploymentStatus _ | .setDeploymentError _ _
  | .setDeploymentImage _ _ _ | .setDeploymentImageDigest _ _
  | .setDeploymentCommit _ _
  | .assignDeploymentBuildServerUnlessCleanupRunning _
  | .createDeploymentArtifact _ _ | .remote _ | .lsRemote | .clone _
  | .imageInspect _ | .containerInspect _ _ => true
  | _ => false

/-- The containers an operation acts on. -/
def DockerOp.names : DockerOp → List String
  | .stop n | .remove n | .create n | .start n => [n]
  | .rename m n => [m, n]

theorem DockerOp.run_of_notMem {op : DockerOp} (h : n ∉ op.names) (s : Server) :
    (op.run s).2.containers n = s.containers n := by
  cases op with
  | stop m => exact Server.containerStop_of_ne (by simpa [names] using h)
  | remove m => exact Server.containerRemove_of_ne (by simpa [names] using h)
  | create m => exact Server.containerCreate_of_ne (by simpa [names] using h)
  | start m => exact Server.containerStart_of_ne (by simpa [names] using h)
  | rename m m' =>
    have h' : n ≠ m ∧ n ≠ m' := by simpa [names] using h
    exact Server.containerRename_of_ne h'.1 h'.2

@[simp] theorem DockerOp.run_route (op : DockerOp) (s : Server) : (op.run s).2.route = s.route := by
  cases op <;> simp [DockerOp.run]

/-- The calls that the run `r` makes before it writes `switching`. -/
inductive PreSwitch (r : Run) : Call → Prop where
  | neutral (c : Call) (h : c.neutral = true) : PreSwitch r c
  | checkpoint : PreSwitch r (.isJobCancelRequested r.jobID)
  | start : PreSwitch r (.startDeploymentUnlessCleanupRunning r.d.id)
  | status (s : DeploymentStatus) (h : s.early = true) :
      PreSwitch r (.setDeploymentStatus r.d.id s)
  | container (op : DockerOp) (h : r.rolling = true → ∀ n ∈ op.names, n = r.candidate) :
      PreSwitch r (.docker .startCandidate op)

/-- The calls of `connect` and `dialBuildServer`, which come before the run
`r` knows whether it is resumed. -/
inductive Opening (r : Run) : Call → Prop where
  | checkpoint : Opening r (.isJobCancelRequested r.jobID)
  | start : Opening r (.startDeploymentUnlessCleanupRunning r.d.id)
  | row : Opening r (.getDeploymentStatus r.d.id)
  | preparing : Opening r (.setDeploymentStatus r.d.id .preparing)
  | reserve (server : Nat) : Opening r (.assignDeploymentBuildServerUnlessCleanupRunning server)
  | remote (s : RemoteStep) (h : s ∈ [.sshConnect, .agentRuntime,
      .agentHostOps, .dialBuildServer]) : Opening r (.remote s)

theorem Opening.preSwitch (h : Opening r c) : PreSwitch r c := by
  cases h with
  | checkpoint => exact .checkpoint
  | start => exact .start
  | row | reserve server | remote s h => exact .neutral _ rfl
  | preparing => exact .status _ rfl

/-- Some checkpoint found the cancel flag. -/
def flagSeen (s : Bool) : (c : Call) → Ans c → Bool
  | .isJobCancelRequested _, a => s || a
  | _, _ => s

/-- `x` makes only calls in `R`, and leaves with `cancelled` exactly when a
checkpoint found the flag. -/
def Phase {α : Type} (R : Call → Prop) (x : RunM α) : Prop :=
  Follows flagSeen (fun s c => s = false ∧ R c)
    (fun s y => s = true ↔ y = .error .cancelled) false x.run

variable {α β : Type}

/-! ## The shapes of code -/

theorem Phase.mono (h : Phase R x) (hR : ∀ c, R c → R' c) : Phase R' x :=
  Follows.mono h (fun _ c hc => ⟨hc.1, hR c hc.2⟩) fun _ _ h => h

theorem phase_pure (a : α) : Phase R (pure a : RunM α) :=
  .ret false _ (by simp)

theorem phase_throw (h : e ≠ .cancelled) : Phase R (throw e : RunM α) := by
  refine .ret false _ ?_
  simp only [Bool.false_eq_true, false_iff]
  intro he
  injection he with he
  exact h he

theorem Phase.bind (h : Phase R x) (hf : ∀ a, Phase R (f a)) : Phase R (x >>= f) := by
  refine Follows.run_bind h ?_ ?_
  · intro s a hs
    have hs' : s = false := by simpa using hs
    rw [hs']
    exact hf a
  · intro s e hs
    rw [hs]
    constructor
    all_goals
      intro he
      injection he with he
      rw [he]

theorem phase_ask (h : R c) (hc : ∀ a, flagSeen false c a = false) : Phase R (ask c) := by
  refine .call false c _ ⟨rfl, h⟩ ?_
  intro a
  refine .ret _ _ ?_
  simp [hc a]

theorem phase_ask_neutral (h : c.neutral = true) : Phase (PreSwitch r) (ask c) := by
  refine phase_ask (.neutral c h) ?_
  intro a
  cases c <;> first | rfl | simp [Call.neutral] at h

theorem phase_must (h : R (.remote s)) : Phase R (must s msg) := by
  refine Phase.bind (phase_ask h fun _ => rfl) ?_
  intro a
  cases a
  · exact phase_throw (by simp)
  · exact phase_pure ()

theorem phase_must_neutral : Phase (PreSwitch r) (must s msg) :=
  phase_must (.neutral _ rfl)

theorem phase_checkpoint (h : R (.isJobCancelRequested r.jobID)) : Phase R (checkpoint r) := by
  refine .call false _ _ ⟨rfl, h⟩ ?_
  intro a
  cases a <;> exact .ret _ _ (by simp [flagSeen])

/-- A container helper: its calls are allowed, and its error is not a
cancellation. -/
theorem phase_orFail (h : Follows flagSeen (fun s c => s = false ∧ R c)
      (fun s _ => s = false) false p) : Phase R (orFail msg p) := by
  refine Phase.bind (x := ExceptT.lift p) ?_ ?_
  · refine Follows.bind h ?_
    intro s a hs
    exact .ret s _ (by simp [hs])
  · intro a
    cases a
    · exact phase_throw (by simp)
    · exact phase_pure ()

/-! ## The functions of the engine -/

theorem phase_awaitStart : ∀ polls, Phase (Opening r) (awaitStart r polls) := by
  intro polls
  induction polls with
  | zero => exact phase_throw (by simp)
  | succ polls ih =>
    refine Phase.bind (phase_ask .start fun _ => rfl) ?_
    intro started
    cases started with
    | true => exact phase_pure ()
    | false =>
      refine Phase.bind (phase_ask .row fun _ => rfl) ?_
      intro s
      split
      · exact phase_throw (by simp)
      · exact Phase.bind (phase_checkpoint .checkpoint) fun _ => ih
      · exact phase_throw (by simp)

theorem phase_setPreparing : Phase (Opening r) (setStatus polls r .preparing) := by
  unfold setStatus
  split
  · exact phase_awaitStart polls
  · exact phase_ask .preparing fun _ => rfl

theorem phase_setStatus (h : s.early = true) : Phase (PreSwitch r) (setStatus polls r s) := by
  unfold setStatus
  split
  · exact (phase_awaitStart polls).mono fun _ => Opening.preSwitch
  · exact phase_ask (.status s h) fun _ => rfl

theorem phase_connect : Phase (Opening r) (connect polls r) := by
  unfold connect
  split
  · exact phase_throw (by simp)
  · exact Phase.bind (phase_checkpoint .checkpoint) fun _ =>
      Phase.bind phase_setPreparing fun _ =>
        Phase.bind (phase_must (.remote _ (by simp))) fun _ =>
          phase_must (.remote _ (by simp))

theorem phase_reserveBuildServer :
    ∀ polls, Phase (Opening r) (reserveBuildServer r server polls) := by
  intro polls
  induction polls with
  | zero => exact phase_throw (by simp)
  | succ polls ih =>
    refine Phase.bind (phase_ask (.reserve server) fun _ => rfl) ?_
    intro assigned
    cases assigned with
    | true => exact phase_pure ()
    | false => exact Phase.bind (phase_checkpoint .checkpoint) fun _ => ih

theorem phase_dialBuildServer : Phase (Opening r) (dialBuildServer polls r) := by
  unfold dialBuildServer
  split
  · split
    · exact phase_throw (by simp)
    · exact Phase.bind (phase_reserveBuildServer polls) fun _ => phase_must (.remote _ (by simp))
  · exact phase_pure ()

/-- What `deploy` does before it decides whether it is resumed. -/
theorem phase_agentHostOps : Phase (Opening r) (must .agentHostOps msg) :=
  phase_must (.remote _ (by simp))

theorem phase_runHook : Phase (PreSwitch r) (runHook s command inside) := by
  unfold runHook
  split
  · exact phase_pure ()
  · split
    · refine Phase.bind (phase_ask_neutral rfl) ?_
      intro c
      split
      · exact phase_pure ()
      · exact phase_throw (by simp)
      · split
        · exact phase_must_neutral
        · exact phase_pure ()
    · exact phase_must_neutral

theorem phase_prepare : Phase (PreSwitch r) (prepare r) :=
  Phase.bind (phase_must_neutral) fun _ =>
    Phase.bind (phase_must_neutral) fun _ => phase_runHook

theorem phase_resolveDigest : Phase (PreSwitch r) (resolveDigest r q) := by
  refine Phase.bind (phase_ask_neutral rfl) ?_
  intro digest
  split
  · exact phase_throw (by simp)
  · exact phase_pure none
  · exact Phase.bind (phase_ask_neutral rfl) fun _ => phase_pure _

theorem phase_resolveSha : Phase (PreSwitch r) (resolveSha r) := by
  unfold resolveSha
  split
  · exact Phase.bind (phase_ask_neutral rfl) fun _ => phase_pure _
  · refine Phase.bind (phase_ask_neutral rfl) ?_
    intro sha
    split
    · exact phase_throw (by simp)
    · exact Phase.bind (phase_ask_neutral rfl) fun _ => phase_pure _

theorem phase_verifyHead : Phase (PreSwitch r) (verifyHead r) := by
  unfold verifyHead
  split
  · split <;> first | exact phase_must_neutral | exact phase_pure ()
  · exact phase_pure ()

theorem phase_clone : Phase (PreSwitch r) (clone sha) := by
  refine Phase.bind (phase_ask_neutral rfl) ?_
  intro ok
  cases ok
  · exact phase_throw (by simp)
  · exact phase_pure ()

theorem phase_recordBuilt : Phase (PreSwitch r) (recordBuilt r tag) :=
  Phase.bind (phase_ask_neutral rfl) fun _ =>
    Phase.bind phase_resolveDigest fun _ => phase_pure _

theorem phase_buildFromGit : Phase (PreSwitch r) (buildFromGit polls r) :=
  Phase.bind (phase_setStatus rfl) fun _ =>
    Phase.bind (phase_must_neutral) fun _ =>
      Phase.bind phase_resolveSha fun _ =>
        Phase.bind phase_clone fun _ =>
          Phase.bind phase_verifyHead fun _ =>
            Phase.bind (phase_setStatus rfl) fun _ =>
              Phase.bind (phase_must_neutral) fun _ =>
                Phase.bind (phase_must_neutral) fun _ => phase_recordBuilt

theorem phase_buildFromDockerfile : Phase (PreSwitch r) (buildFromDockerfile r) :=
  Phase.bind (phase_must_neutral) fun _ =>
    Phase.bind (phase_must_neutral) fun _ =>
      Phase.bind (phase_must_neutral) fun _ => phase_recordBuilt

theorem phase_pullImage : Phase (PreSwitch r) (pullImage r) :=
  Phase.bind (phase_must_neutral) fun _ =>
    Phase.bind phase_resolveDigest fun _ => phase_pure _

theorem phase_buildImage : Phase (PreSwitch r) (buildImage polls r) := by
  unfold buildImage
  split
  · exact Phase.bind (phase_must_neutral) fun _ => phase_pure _
  · split
    · exact phase_pullImage
    · split
      · exact phase_buildFromGit
      · exact phase_buildFromDockerfile
    · exact phase_buildFromGit
    · exact phase_buildFromGit

theorem phase_pushBuiltImage : Phase (PreSwitch r) (pushBuiltImage r image) := by
  unfold pushBuiltImage
  split
  · split
    · exact phase_throw (by simp)
    · refine Phase.bind (phase_must_neutral) fun _ => ?_
      refine Phase.bind (phase_ask_neutral rfl) ?_
      intro digest
      split
      · exact Phase.bind (phase_must_neutral) fun _ =>
          Phase.bind (phase_ask_neutral rfl) fun _ =>
            Phase.bind (phase_ask_neutral rfl) fun _ => phase_pure _
      · exact phase_throw (by simp)
  · exact phase_pure _

theorem phase_pruneOldSources : Phase (PreSwitch r) (pruneOldSources r) := by
  unfold pruneOldSources
  split
  · exact phase_pure ()
  · exact Phase.bind (phase_ask_neutral rfl) fun _ => phase_pure _

theorem phase_build : Phase (PreSwitch r) (build polls r) :=
  Phase.bind (phase_checkpoint .checkpoint) fun _ =>
    Phase.bind (phase_setStatus rfl) fun _ =>
      Phase.bind phase_buildImage fun _ =>
        Phase.bind phase_pushBuiltImage fun _ =>
          Phase.bind phase_pruneOldSources fun _ => phase_pure _

/-- The container operations of the step `start_candidate`. -/
theorem PreSwitch.target (h : ∀ n ∈ op.names, n = r.target) :
    PreSwitch r (.docker .startCandidate op) := by
  refine .container op ?_
  intro hr n hn
  rw [h n hn, Run.target, if_pos hr]

theorem phase_retireOld : Phase (PreSwitch r) (retireOld r) := by
  unfold retireOld
  split
  · exact phase_pure ()
  · rename_i hroll
    have hop : ∀ op, PreSwitch r (.docker .startCandidate op) := fun op =>
      .container op fun h => absurd h hroll
    refine Phase.bind ?_ fun _ => ?_
    · refine Phase.bind (phase_ask (hop _) fun _ => rfl) ?_
      intro a
      split
      · exact phase_pure ()
      · exact phase_pure ()
      · exact phase_throw (by simp)
    · refine phase_orFail (.call _ _ _ ⟨rfl, hop _⟩ ?_)
      intro a
      split <;> exact .ret _ _ rfl

theorem phase_startCandidate : Phase (PreSwitch r) (startCandidate polls r) := by
  refine Phase.bind (phase_checkpoint .checkpoint) fun _ => ?_
  refine Phase.bind (phase_setStatus rfl) fun _ => ?_
  refine Phase.bind (phase_must_neutral) fun _ => ?_
  refine Phase.bind phase_retireOld fun _ => ?_
  refine Phase.bind (phase_orFail ?_) fun _ => ?_
  · refine .call _ _ _ ⟨rfl, .target (by simp [DockerOp.names])⟩ ?_
    intro a
    split <;> exact .ret _ _ rfl
  refine Phase.bind (phase_orFail ?_) fun _ => phase_orFail ?_
  all_goals
    exact .call _ _ _ ⟨rfl, .target (by simp [DockerOp.names])⟩ fun _ =>
      .ret _ _ rfl

theorem phase_awaitHealthy : Phase (PreSwitch r) (awaitHealthy polls r) :=
  Phase.bind (phase_checkpoint .checkpoint) fun _ =>
    Phase.bind (phase_setStatus rfl) fun _ =>
      Phase.bind (phase_must_neutral) fun _ => phase_runHook

theorem phase_beforeSwitch : Phase (PreSwitch r) (beforeSwitch polls r) :=
  Phase.bind phase_prepare fun _ =>
    Phase.bind phase_build fun _ =>
      Phase.bind phase_startCandidate fun _ =>
        Phase.bind phase_awaitHealthy fun _ =>
          Phase.bind (phase_checkpoint .checkpoint) fun _ => phase_pure _

end Akerdock.Deploy
