import Akerdock.Deploy.Attempts

/-!
# Zero downtime

A rolling deployment moves the route to the candidate before it touches the
old container, so in a run without crashes and without failing Docker or
routing calls the proxy always reaches a running container.  A resumed attempt
does not look at the route.  This file says in which states a worker may die
so that the next attempt keeps the proxy on a running container as well.

* `OnOther`, the route is on a container other than the candidate, is what all
  code before the switch and the compensations keep.  `OnCandidate` is the
  window between the routing apply and the rename.
* `Restartable r s` are the server states from which the attempt `r` is safe,
  and `CrashSafe` says that of the attempt that would be made next.
* `SameInstance` is what no call changes about the runs of one job, so that
  the names and the route of one attempt are those of the next.
* `rolling_stays_up` puts them together for every run.
-/

namespace Akerdock.Deploy

open Store Docker Proc Proc.Prog Option Table

/-! ## The instance that a job deploys -/

/-- What the calls of an attempt keep about the run that the next one
builds. -/
structure SameInstance (r r' : Run) : Prop where
  identity : r'.namingIdentity = r.namingIdentity
  rolling : r'.rolling = r.rolling
  direct : r'.direct = r.direct
  remote : r'.buildsRemotely = r.buildsRemotely
  buildServer : r'.app.buildServer = r.app.buildServer
  oldName : r'.oldName = r.oldName ∨ r'.oldName = r'.namingIdentity

/-- The rows that the run of a deployment is built from are there, with the
same instance, after a step from `w` to `w'`. -/
structure KeepsRows (w w' : World) : Prop where
  deployments : ∀ id d, Table.row? Deployment.id id w.deployments = some d →
    ∃ d', Table.row? Deployment.id id w'.deployments = some d' ∧
      d'.previewId = d.previewId ∧ d'.isRollback = d.isRollback ∧
      d'.skipBuild = d.skipBuild
  previews : ∀ id p, Table.row? Preview.id id w.previews = some p →
    ∃ p', Table.row? Preview.id id w'.previews = some p' ∧ p'.uuid = p.uuid ∧ p'.fqdn = p.fqdn
  app : w'.app = w.app ∨ w'.app = { w.app with adoption := none }

variable {w : World} {jobID id : Nat} {r : Run} {s : Server}

/-- The runs of the job before and after such a step are of one instance. -/
theorem KeepsRows.run? (h : KeepsRows w w') (hr : w.run? jobID id = some r) :
    ∃ r', w'.run? jobID id = some r' ∧ SameInstance r r' := by
  unfold World.run? at hr ⊢
  cases hd : row? Deployment.id id w.deployments with
  | none => simp [hd] at hr
  | some d =>
    obtain ⟨d', hd', hpid, hroll, hskip⟩ := h.deployments id d hd
    simp only [hd, hd', hpid] at hr ⊢
    cases hp : d.previewId with
    | none =>
      simp only [hp, some.injEq] at hr ⊢
      refine ⟨_, rfl, ?_⟩
      subst hr
      rcases h.app with happ | happ <;> constructor <;>
        simp [Run.namingIdentity, Run.rolling, Run.direct, Run.buildsRemotely,
          Run.reusesArtifact, Run.oldName, happ, hroll, hskip]
    | some pid =>
      simp only [hp] at hr ⊢
      obtain ⟨p, hrow, rfl⟩ := map_eq_some_iff.1 hr
      obtain ⟨p', hrow', huuid, hfqdn⟩ := h.previews pid p hrow
      refine ⟨_, by rw [hrow']; rfl, ?_⟩
      rcases h.app with happ | happ <;> constructor <;>
        simp [Run.namingIdentity, Run.rolling, Run.direct, Run.buildsRemotely,
          Run.reusesArtifact, Run.oldName, happ, hroll, hskip, huuid, hfqdn]

theorem KeepsRows.of_eq (hd : w'.deployments = w.deployments)
    (hp : w'.previews = w.previews) (happ : w'.app = w.app) :
    KeepsRows w w' := by
  refine ⟨?_, ?_, .inl happ⟩
  · intro id d h
    exact ⟨d, by rw [hd]; exact h, rfl, rfl, rfl⟩
  · intro id p h
    exact ⟨p, by rw [hp]; exact h, rfl, rfl⟩

/-- A statement on the deployments that changes their progress only. -/
private theorem KeepsRows.of_deployments
    (hw : w'.deployments = updateWhere q f w.deployments)
    (hp : w'.previews = w.previews) (happ : w'.app = w.app)
    (hid : ∀ d, (f d).id = d.id) (hf : ∀ d, (f d).previewId = d.previewId ∧
      (f d).isRollback = d.isRollback ∧ (f d).skipBuild = d.skipBuild) :
    KeepsRows w w' := by
  refine ⟨?_, ?_, .inl happ⟩
  · intro id d h
    refine ⟨if q d then f d else d, ?_, ?_⟩
    · rw [hw, row?_updateWhere q hid, h]
      rfl
    · split
      · exact hf d
      · exact ⟨rfl, rfl, rfl⟩
  · intro id p h
    exact ⟨p, by rw [hp]; exact h, rfl, rfl⟩

/-- A statement on the previews that changes their progress only. -/
private theorem KeepsRows.of_previews (hd : w'.deployments = w.deployments)
    (hw : w'.previews = updateWhere q f w.previews)
    (happ : w'.app = w.app) (hid : ∀ p, (f p).id = p.id)
    (hf : ∀ p, (f p).uuid = p.uuid ∧ (f p).fqdn = p.fqdn) : KeepsRows w w' := by
  refine ⟨?_, ?_, .inl happ⟩
  · intro id d h
    exact ⟨d, by rw [hd]; exact h, rfl, rfl, rfl⟩
  · intro id p h
    refine ⟨if q p then f p else p, ?_, ?_⟩
    · rw [hw, row?_updateWhere q hid, h]
      rfl
    · split
      · exact hf p
      · exact ⟨rfl, rfl⟩

/-- No call of an attempt changes the instance that its job deploys. -/
theorem sem_keepsRows (c : Call) (o : Outcome) (w : World) : KeepsRows w (sem c o w).2 := by
  cases c with
  | startDeploymentUnlessCleanupRunning i | setDeploymentStatus i s
  | setDeploymentError i msg | setDeploymentImage i name tag
  | setDeploymentImageDigest i digest | setDeploymentCommit i sha =>
    exact .of_deployments rfl rfl rfl (fun _ => rfl) fun _ => ⟨rfl, rfl, rfl⟩
  | setPreviewStatus i s err | setPreviewDeployed i =>
    exact .of_previews rfl rfl rfl (fun _ => rfl) fun _ => ⟨rfl, rfl⟩
  | clearResourceAdoption =>
    refine ⟨fun _ d h => ⟨d, h, rfl, rfl, rfl⟩, fun _ p h => ⟨p, h, rfl, rfl⟩, .inr rfl⟩
  | docker site op | applyProxy site t => cases o <;> exact .of_eq rfl rfl rfl
  | _ => exact .of_eq rfl rfl rfl

/-- A directly routed rolling deployment of the instance `n`. -/
structure Rolls (n : String) (r : Run) : Prop where
  identity : r.namingIdentity = n
  rolling : r.rolling = true
  direct : r.direct = true
  oldName : r.oldName ≠ r.candidate
  buildServer : r.buildsRemotely = true → r.app.buildServer ≠ none

theorem SameInstance.rolls (h : SameInstance r r') (hr : Rolls n r) : Rolls n r' := by
  have hcand : r'.candidate = r.candidate := by
    rw [Run.candidate, h.identity, Run.candidate]
  refine ⟨h.identity.trans hr.identity, h.rolling.trans hr.rolling,
    h.direct.trans hr.direct, ?_, ?_⟩
  · rcases h.oldName with hold | hold
    · rw [hold, hcand]
      exact hr.oldName
    · rw [hold]
      exact r'.candidate_ne.symm
  · rw [h.remote, h.buildServer]
    exact hr.buildServer

def DeploysInstance (n : String) (jobID id : Nat) (w : World) : Prop :=
  ∃ r, w.run? jobID id = some r ∧ Rolls n r

theorem DeploysInstance.step (h : DeploysInstance n jobID id w)
    (hw : KeepsRows w w') : DeploysInstance n jobID id w' := by
  obtain ⟨r, hr, hroll⟩ := h
  obtain ⟨r', hr', hsame⟩ := hw.run? hr
  exact ⟨r', hr', hsame.rolls hroll⟩

/-! ## The states between two calls -/

/-- The route is on a running container other than the candidate. -/
def OnOther (r : Run) (s : Server) : Prop :=
  ∃ n, n ≠ r.candidate ∧ s.Serves n

/-- The states that `resume` brings to their end without downtime: the route
is on the candidate and the old container does not stand in its way, or the
candidate has its final name already. -/
def Resumes (r : Run) (s : Server) : Prop :=
  (OnCandidate r s ∧
      (s.containers r.oldName = none ∨ s.Running r.oldName) ∧
      FinalNameFree r s) ∨
    (s.Serves r.namingIdentity ∧ s.containers r.candidate = none)

/-- The states from which the attempt `r` has no downtime. -/
def Restartable (r : Run) (s : Server) : Prop :=
  r.d.status.terminal = false →
    if r.d.status.pastBarrier then Resumes r s
    else OnOther r s ∧ FinalNameFree r s

/-- The states in which a worker of the job may die. -/
def CrashSafe (jobID id : Nat) (w : World) : Prop :=
  ∀ r, w.run? jobID id = some r → Restartable r w.server

/-- A call that lets an attempt go on: a remote step that succeeds, a
checkpoint that does not find the flag, a build server that is free. -/
def Call.goesOn (c : Call) (o : Outcome) (w : World) : Prop :=
  match c with
  | .remote _ => o = .succeeds
  | .isJobCancelRequested jobID => w.cancelFlag jobID = false
  | .assignDeploymentBuildServerUnlessCleanupRunning server =>
    cleanupRunning server w.jobs = false
  | _ => True

def Call.toServer : Call → Bool
  | .containerInspect _ _ | .docker _ _ | .applyProxy _ _ => true
  | _ => false

/-- The runs without Docker or routing failures in which, while the route is
on the candidate of the instance `n`, nothing stops an attempt either. -/
def NoFailures (n : String) (c : Call) (o : Outcome) (w : World) : Prop :=
  (c.toServer = true → o = .succeeds) ∧ (w.server.ServesByIp (n ++ "-next") → c.goesOn o w)

/-- The setting of such a run, with the uptime as the invariant. -/
abbrev upSetting (n : String) : Setting Ans Outcome World :=
  setting (NoFailures n) JobsOnly fun w => w.server.Up

theorem OnOther.up (h : OnOther r s) : s.Up := by
  obtain ⟨n, _, hn⟩ := h
  exact ⟨n, hn⟩

theorem OnCandidate.up (h : OnCandidate r s) : s.Up :=
  ⟨_, h.serves⟩

theorem onOther_final (h : s.Serves r.namingIdentity) : OnOther r s :=
  ⟨_, r.candidate_ne.symm, h⟩

section

variable {α : Type}

/-! ## Code that spares the serving container -/

/-- Code that touches at most the candidate keeps the route where it is. -/
theorem wp_spares (hp : Makes (Spares r) p)
    (hw : OnOther r w.server ∧ FinalNameFree r w.server) :
    wp (upSetting n) p (fun _ w => OnOther r w.server ∧ FinalNameFree r w.server) w := by
  refine wp_of_makes hp (fun _ h => h.1.up) ?_ ?_ hw
  · intro w w' h hw
    rw [hw.server]
    exact h
  · rintro c o w hc ⟨⟨m, hm, hserves⟩, hfinal⟩ _
    refine ⟨⟨m, hm, hserves.congr (hc.containers hm o w) (hc.route o w)⟩, ?_⟩
    refine hfinal.imp_right fun hfree => ?_
    exact (hc.containers r.candidate_ne.symm o w).trans hfree

/-- Code that touches at most the candidate keeps a container that serves
under another name. -/
theorem wp_sparesServes (hp : Makes (Spares r) p) (hm : m ≠ r.candidate)
    (hw : w.server.Serves m) :
    wp (upSetting n) p (fun _ w => w.server.Serves m) w := by
  refine wp_of_makes hp (fun _ h => ⟨m, h⟩) ?_ ?_ hw
  · intro w w' h hw
    rw [hw.server]
    exact h
  · intro c o w hc hserves _
    exact hserves.congr (hc.containers hm o w) (hc.route o w)

theorem makes_spares_conclude : Makes (Spares r) (conclude polls r (rt, y)) :=
  (makes_conclude y).mono fun _ => Concluding.spares

/-- The compensations keep the uptime while the route is on another
container. -/
theorem conclude_up (hw : OnOther r w.server) :
    wp (upSetting n) (conclude polls r (rt, y)) (fun _ w => w.server.Up)
      w := by
  obtain ⟨m, hm, hserves⟩ := hw
  exact wp_mono (wp_sparesServes makes_spares_conclude hm hserves) fun _ _ h => ⟨m, h⟩

/-! ## The switch -/

/-- A Docker or routing call does not fail. -/
theorem NoFailures.not_fails (h : NoFailures n c .fails w) (hc : c.toServer = true) : False := by
  cases h.1 hc

/-- From the final name on: the new container serves. -/
theorem land_up (hdirect : r.direct = true) (hw : w.server.Serves r.namingIdentity) :
    wp (upSetting n) (do
      applyRouting r
      finish polls r image : RunM Unit).run
      (fun _ w => w.server.Serves r.namingIdentity) w := by
  refine wp_run_bind ?_
  unfold applyRouting applyRoutingTo
  rw [routeTarget_direct hdirect]
  refine wp_run_bind (wp_pure ?_)
  refine wp_run_bind (wp_proxy ?_)
  intro w₁ hw₁
  rw [← hw₁.server] at hw
  refine ⟨⟨_, hw⟩, fun _ => wp_pure ?_, fun hf => (hf.not_fails rfl).elim⟩
  refine wp_of_makes (within_finish.makes) (fun _ h => ⟨_, h⟩) ?_ ?_
    (Server.serves_routeTo_name hw.running)
  · intro w w' h hw
    rw [hw.server]
    exact h
  · intro c o w hc h _
    have hs : (sem c o w).2.server = w.server :=
      sem_server_of_not hc.not_touchesServer o w
    exact hs.symm ▸ h

theorem rename_up (hw : OnCandidate r w.server)
    (hfree : w.server.containers r.namingIdentity = none) :
    wp (upSetting n) (orFail "rename failed" (perform
      (Call.docker .switch (.rename r.candidate r.namingIdentity)))).run
      (fun y w => y = .ok () ∧ w.server.Serves r.namingIdentity) w := by
  refine wp_orFail (wp_docker ?_)
  intro w₁ hw₁
  rw [← hw₁.server] at hw hfree
  refine ⟨hw.up, fun _ => ?_, fun hf => (hf.not_fails rfl).elim⟩
  obtain ⟨c, a, hc, hrun, hip, hroute⟩ := hw
  simp only [DockerOp.run]
  rw [Server.containerRename_free hc hfree]
  exact ⟨trivial, Server.serves_move hc hrun hip hroute⟩

/-- The old container is stopped and removed, with the route on the
candidate. -/
theorem discardOld_up (hne : r.oldName ≠ r.candidate)
    (hw : OnCandidate r w.server) (hfinal : FinalNameFree r w.server) :
    wp (upSetting n) (discardOld r).run
      (fun y w => y = .ok () ∧ OnCandidate r w.server ∧
        w.server.containers r.namingIdentity = none) w := by
  refine wp_run_bind (wp_ask ?_)
  intro w₁ hw₁
  rw [← hw₁.server] at hw hfinal
  refine ⟨hw.up, fun o ho => ?_⟩
  obtain rfl := ho.1 rfl
  have hw₂ : OnCandidate r (sem (.docker .switch (.stop r.oldName)) .succeeds w₁).2.server :=
    hw.docker (by simp [DockerOp.names, hne.symm]) .succeeds
  have hfinal₂ : FinalNameFree r (w₁.server.containerStop r.oldName).2 :=
    hfinal.imp_right Server.containerStop_eq_none.2
  refine wp_run_bind (wp_lift ?_)
  rw [removeNamedContainers_one]
  intro w₃ hw₃
  rw [← hw₃.server] at hw₂
  refine ⟨hw₂.up, fun o ho => ?_⟩
  obtain rfl := ho.1 rfl
  refine ⟨rfl, hw₂.docker (by simp [DockerOp.names, hne.symm]) .succeeds, ?_⟩
  change (w₃.server.containerRemove r.oldName).2.containers r.namingIdentity = none
  have hserver : w₃.server = (w₁.server.containerStop r.oldName).2 :=
    hw₃.server
  by_cases heq : r.namingIdentity = r.oldName
  · rw [heq]
    exact w₃.server.containerRemove_self r.oldName
  · rw [Server.containerRemove_of_ne heq, hserver]
    exact hfinal₂.resolve_left fun h => heq h.symm

theorem promoteCandidate_up (hne : r.oldName ≠ r.candidate)
    (hw : OnCandidate r w.server) (hfinal : FinalNameFree r w.server) :
    wp (upSetting n) (promoteCandidate r).run
      (fun y w => y = .ok () ∧ w.server.Serves r.namingIdentity) w := by
  refine wp_run_bind (wp_mono (discardOld_up hne hw hfinal) ?_)
  rintro _ w ⟨rfl, hw, hfree⟩
  exact rename_up hw hfree

/-- The whole switch: the route is moved before anything is stopped. -/
theorem switchTraffic_up (hr : Rolls n r) (hw : OnOther r w.server ∧ FinalNameFree r w.server) :
    wp (upSetting n) (switchTraffic polls r image).run (fun _ w => OnOther r w.server) w := by
  unfold switchTraffic
  rw [if_pos hr.rolling]
  refine wp_run_bind (wp_run_bind (wp_run_bind (wp_inspect ?_)))
  intro w₁ hw₁
  rw [← hw₁.server] at hw
  refine ⟨hw.1.up, fun _ => ?_, fun hf => (hf.not_fails rfl).elim⟩
  simp only [Server.containerInspect]
  cases hc : w₁.server.containers r.candidate with
  | none => exact wp_throw hw.1
  | some c =>
    cases hip : c.ip with
    | none =>
      simp only [hip]
      exact wp_throw hw.1
    | some a =>
      simp only [hip]
      refine wp_pure (wp_run_bind ?_)
      unfold applyRoutingTo
      rw [routeTarget_direct hr.direct]
      refine wp_run_bind (wp_pure ?_)
      refine wp_run_bind (wp_proxy ?_)
      intro w₂ hw₂
      have hserver : w₂.server = w₁.server := hw₂.server
      rw [← hserver] at hw hc
      refine ⟨hw.1.up, fun _ => wp_pure ?_, fun hf => (hf.not_fails rfl).elim⟩
      have hon : OnCandidate r (w₂.server.routeTo (some (r.endpoint (some a)))) :=
        ⟨c, a, hc, w₂.server.ip_running hc hip, hip, rfl⟩
      refine wp_mono (promoteCandidate_up hr.oldName hon hw.2) ?_
      rintro _ w ⟨rfl, hserves⟩
      exact wp_mono (land_up hr.direct hserves) fun _ _ => onOther_final

/-! ## A resumed switch -/

theorem containerState_up
    (h : ∀ w₁ : World, w₁.server = w.server → w₁.server.Up ∧
      Q (.ok ((w₁.server.containers m).map Container.status))
        (w₁.logged (.containerInspect site m))) :
    wp (upSetting n) (containerState site m).run Q w := by
  refine wp_run_bind (wp_inspect ?_)
  intro w₁ hw₁
  obtain ⟨hup, hQ⟩ := h w₁ hw₁.server
  refine ⟨hup, fun _ => ?_, fun hf => (hf.not_fails rfl).elim⟩
  simp only [Server.containerInspect]
  cases hm : w₁.server.containers m with
  | none | some c =>
    rw [hm] at hQ
    exact wp_pure hQ

/-- The cases of `resume` from a state that it can resume. -/
theorem resumeFrom_up (hr : Rolls n r) (hw : Resumes r w.server)
    (hold : oldState = (w.server.containers r.oldName).map Container.status)
    (hnext : nextState = (w.server.containers r.candidate).map Container.status) :
    wp (upSetting n) (resumeFrom polls r oldState nextState).run
      (fun _ w => OnOther r w.server) w := by
  unfold resumeFrom
  rcases hw with ⟨hon, hold', hfinal⟩ | ⟨hserves, habsent⟩
  · -- the route is on the candidate, so the candidate runs
    have hrunning : nextState = some .running := by
      obtain ⟨c, _, hc, hrun, _⟩ := hon
      rw [hnext, hc, map_some, hrun]
    rw [if_neg (by simp [hrunning])]
    rcases hold' with hgone | ⟨d, hd, hdrun⟩
    · rw [if_pos ⟨hrunning, by rw [hold, hgone]; rfl⟩]
      have hfree : w.server.containers r.namingIdentity = none := by
        rcases hfinal with heq | hfree
        · rw [← heq]
          exact hgone
        · exact hfree
      refine wp_run_bind (wp_mono (rename_up hon hfree) ?_)
      rintro _ w ⟨rfl, hserves⟩
      exact wp_mono (land_up hr.direct hserves) fun _ _ => onOther_final
    · have holdState : oldState = some .running := by rw [hold, hd, map_some, hdrun]
      rw [if_neg (by simp [holdState]), if_pos ⟨hrunning, holdState⟩]
      refine wp_run_bind (wp_mono (promoteCandidate_up hr.oldName hon hfinal) ?_)
      rintro _ w ⟨rfl, hserves⟩
      exact wp_mono (land_up hr.direct hserves) fun _ _ => onOther_final
  · have hnone : nextState = none := by
      rw [hnext, habsent]
      rfl
    split
    · exact wp_mono (land_up hr.direct hserves) fun _ _ => onOther_final
    · rw [if_neg (by simp [hnone]), if_neg (by simp [hnone])]
      exact wp_throw (onOther_final hserves)

theorem Resumes.up (h : Resumes r s) : s.Up := by
  rcases h with ⟨hon, _⟩ | ⟨hserves, _⟩
  · exact hon.up
  · exact ⟨_, hserves⟩

theorem resumeSwitch_up (hr : Rolls n r) (hw : Resumes r w.server) :
    wp (upSetting n) (resumeSwitch polls r).run (fun _ w => OnOther r w.server) w := by
  refine wp_run_bind (containerState_up ?_)
  intro w₁ hw₁
  rw [← hw₁] at hw
  refine ⟨hw.up, wp_run_bind (containerState_up ?_)⟩
  intro w₂ hw₂
  have hserver : w₂.server = w₁.server := hw₂
  rw [← hserver] at hw
  have hw₃ : Resumes r (w₂.logged (.containerInspect .resumeInspect r.candidate)).server := hw
  exact ⟨hw.up, resumeFrom_up hr hw₃ (by rw [← hserver]; rfl) rfl⟩

/-! ## The opening of a resumed attempt -/

/-- The state of the server does not change before the attempt is known to be
resumed. -/
theorem wp_sameServer (hp : Makes (fun c => c.touchesServer = false) p) (hw : w.server.Up) :
    wp (upSetting n) p (fun _ w' => w'.server = w.server) w := by
  refine wp_of_makes hp (J := fun w' : World => w'.server = w.server) ?_ ?_ ?_
    rfl
  · intro w' h
    change w'.server.Up
    rw [h]
    exact hw
  · intro w₁ w₂ h hw₂
    exact hw₂.server.trans h
  · intro c o w₁ hc h _
    exact (sem_server_of_not hc o w₁).trans h

theorem Opening.not_touchesServer (h : Opening r c) : c.touchesServer = false := by
  cases h <;> rfl

theorem makes_connect : Makes (fun c => c.touchesServer = false) (connect polls r).run :=
  within_connect.makes.mono fun _ => Opening.not_touchesServer

/-- Without the Docker runtime the compensations leave the server alone. -/
theorem makes_conclude_noRuntime :
    Makes (fun c => c.touchesServer = false) (conclude polls r (false, y)) := by
  cases y with
  | ok _ => exact makes_ret _ _
  | error e =>
    cases e with
    | cancelled =>
      refine Makes.bind ?_ fun _ => makes_ret _ _
      exact Makes.run_bind (makes_ret _ _) fun _ =>
        Makes.call rfl fun _ => makes_ret _ _
    | stateChanged s | contextDone => exact makes_ret _ _
    | failed msg =>
      refine Makes.bind ?_ fun _ => makes_ret _ _
      refine Makes.run_bind ?_ fun _ => ?_
      · unfold markPreviewFailed
        split
        · exact Makes.call rfl fun _ => makes_ret _ _
        · exact makes_ret _ _
      refine Makes.run_bind (makes_ret _ _) fun _ => ?_
      refine Makes.run_bind (Makes.call rfl fun _ => makes_ret _ _) ?_
      exact fun _ => Makes.call rfl fun _ => makes_ret _ _

/-- A remote step while the route is on the candidate. -/
theorem must_up {s : RemoteStep} (hn : r.namingIdentity = n) (hw : OnCandidate r w.server) :
    wp (upSetting n) (must s msg).run (fun y w' => y = .ok () ∧ w'.server = w.server) w := by
  have hcand : n ++ "-next" = r.candidate := by rw [Run.candidate, hn]
  refine wp_run_bind (wp_ask ?_)
  intro w₁ hw₁
  have hon : OnCandidate r w₁.server := by
    rw [hw₁.server]
    exact hw
  refine ⟨hon.up, fun o ho => ?_⟩
  have hgo : o = .succeeds := ho.2 (hcand ▸ hon)
  subst hgo
  exact wp_pure ⟨rfl, hw₁.server⟩

/-- With the route on the candidate, nothing but the end of the context stops
the attempt on the way to `resume`. -/
theorem dialBuildServer_up (hr : Rolls n r) (hw : OnCandidate r w.server) :
    wp (upSetting n) (dialBuildServer polls r).run
      (fun y w' => (y = .ok () ∨ y = .error .contextDone) ∧ w'.server = w.server) w := by
  have hcand : n ++ "-next" = r.candidate := by
    rw [Run.candidate, hr.identity]
  unfold dialBuildServer
  split
  · rename_i hremote
    cases hb : r.app.buildServer with
    | none => exact absurd hb (hr.buildServer hremote)
    | some b =>
      cases polls with
      | zero => exact wp_run_bind (wp_throw ⟨.inr rfl, rfl⟩)
      | succ polls =>
        refine wp_run_bind (wp_run_bind (wp_ask ?_))
        intro w₁ hw₁
        have hon : OnCandidate r w₁.server := by
          rw [hw₁.server]
          exact hw
        refine ⟨hon.up, fun o ho => ?_⟩
        have hfree : cleanupRunning b w₁.jobs = false := ho.2 (hcand ▸ hon)
        have hans : (sem (.assignDeploymentBuildServerUnlessCleanupRunning b)
            o w₁).1 = true := by
          simp [apply, hfree]
        rw [hans]
        refine wp_pure ?_
        have hserver : (sem (.assignDeploymentBuildServerUnlessCleanupRunning
            b) o w₁).2.server = w.server := hw₁.server
        refine wp_mono (must_up hr.identity (hserver ▸ hw)) ?_
        rintro y w' ⟨hy, hw'⟩
        exact ⟨.inl hy, hw'.trans hserver⟩
  · exact wp_pure ⟨.inl rfl, rfl⟩

/-! ## A whole attempt -/

/-- `deploy` of an attempt that is not resumed, with its compensation. -/
theorem deploy_fresh_up (hr : Rolls n r)
    (hpast : r.d.status.pastBarrier = false)
    (hw : OnOther r w.server ∧ FinalNameFree r w.server) :
    wp (upSetting n) (deploy polls r).run (fun _ w => OnOther r w.server) w := by
  have hspares : ∀ {α : Type} {x : RunM α}, Phase (PreSwitch r) x →
      Makes (Spares r) x.run := fun h =>
    Follows.makes h fun _ _ hc => hc.2.spares hr.rolling
  have hopen : ∀ {α : Type} {x : RunM α}, Phase (Opening r) x →
      Makes (Spares r) x.run := fun h =>
    hspares (h.mono fun _ => Opening.preSwitch)
  refine wp_run_bind (wp_mono (wp_spares (hopen phase_agentHostOps) hw) ?_)
  intro y w hw
  cases y with
  | error e => exact hw.1
  | ok _ =>
  refine wp_run_bind (wp_mono (wp_spares (hopen phase_dialBuildServer) hw) ?_)
  intro y w hw
  cases y with
  | error e => exact hw.1
  | ok _ =>
  unfold resume
  rw [hpast]
  refine wp_run_bind (wp_pure ?_)
  refine wp_run_bind (wp_mono (wp_spares (hspares phase_beforeSwitch) hw) ?_)
  intro y w hw
  cases y with
  | error e => exact hw.1
  | ok image =>
  refine wp_run_bind (wp_ask ?_)
  intro w₁ hw₁
  rw [← hw₁.server] at hw
  exact ⟨hw.1.up, fun o _ => switchTraffic_up hr hw⟩

/-- `deploy` of a resumed attempt: it leaves the route on a container other
than the candidate, or it was interrupted. -/
theorem deploy_resumed_up (hr : Rolls n r)
    (hpast : r.d.status.pastBarrier = true) (hw : Resumes r w.server) :
    wp (upSetting n) (deploy polls r).run
      (fun y w => OnOther r w.server ∨ (y = .error .contextDone ∧ w.server.Up)) w := by
  have hresume : ∀ {w : World}, Resumes r w.server →
      wp (upSetting n) ((do
        if ← resume polls r then pure () else pipeline polls r) :
          RunM Unit).run (fun y w => OnOther r w.server ∨
        (y = .error .contextDone ∧ w.server.Up)) w := by
    intro w hw
    unfold resume
    rw [hpast]
    refine wp_run_bind (wp_run_bind (wp_mono (resumeSwitch_up hr hw) ?_))
    intro y w hw
    cases y with
    | error e => exact .inl hw
    | ok _ => exact wp_pure (wp_pure (.inl hw))
  rcases id hw with ⟨hon, _⟩ | ⟨hserves, _⟩
  · refine wp_run_bind (wp_mono (must_up hr.identity hon) ?_)
    rintro _ w₁ ⟨rfl, hw₁⟩
    rw [← hw₁] at hon hw
    refine wp_run_bind (wp_mono (dialBuildServer_up hr hon) ?_)
    rintro y w₂ ⟨hy, hw₂⟩
    rw [← hw₂] at hw
    rcases hy with rfl | rfl
    · exact hresume hw
    · exact .inr ⟨rfl, hw.up⟩
  · have hops : Makes (fun c => c.touchesServer = false)
        (must .agentHostOps "the server's agent is not connected").run :=
      Follows.makes phase_agentHostOps fun _ _ hc => Opening.not_touchesServer (r := r) hc.2
    refine wp_run_bind (wp_mono (wp_sameServer hops ⟨_, hserves⟩) ?_)
    intro y w₁ hw₁
    rw [← hw₁] at hserves hw
    cases y with
    | error e => exact .inl (onOther_final hserves)
    | ok _ =>
    refine wp_run_bind (wp_mono (wp_sameServer
      (within_dialBuildServer.makes.mono fun _ => Opening.not_touchesServer)
      ⟨_, hserves⟩) ?_)
    intro y w₂ hw₂
    rw [← hw₂] at hserves hw
    cases y with
    | error e => exact .inl (onOther_final hserves)
    | ok _ => exact hresume hw

theorem attempt_up (hr : Rolls n r) (hterm : r.d.status.terminal = false)
    (hw : Restartable r w.server) :
    wp (upSetting n) ((execute polls r).bind (conclude polls r))
      (fun _ w => w.server.Up) w := by
  have hstart := hw hterm
  have hup : w.server.Up := by
    split at hstart
    · exact hstart.up
    · exact hstart.1.up
  refine wp_attempt (wp_mono (wp_sameServer makes_connect hup) ?_)
  intro y w₁ hw₁
  rw [← hw₁] at hstart hup
  cases y with
  | error e =>
    refine wp_mono (wp_sameServer makes_conclude_noRuntime hup) ?_
    intro _ w₂ hw₂
    rw [hw₂]
    exact hup
  | ok _ =>
    cases hpast : r.d.status.pastBarrier with
    | true =>
      rw [if_pos hpast] at hstart
      refine wp_mono (deploy_resumed_up hr hpast hstart) ?_
      rintro y w₂ (hon | ⟨rfl, hup⟩)
      · exact conclude_up hon
      · exact hup
    | false =>
      rw [if_neg (by simp [hpast])] at hstart
      refine wp_mono (deploy_fresh_up hr hpast hstart) ?_
      intro y w₂ hon
      exact conclude_up hon

end

/-! ## Every run -/

/-- The job of a rolling deployment, without Docker or routing failures.  An
attempt that ends without having closed the deployment counts as a crash. -/
def rollingJob (n : String) (mayDie : World → Prop) (jobID id : Nat) :
    Retry (system (NoFailures n) JobsOnly) JobResult where
  attempt := fun p => ∃ polls, p = Execute polls jobID id
  mayDie := mayDie
  mayEnd := fun _ w =>
    StatusIs (fun s => s.terminal = true) id w ∨ mayDie w

theorem JobsOnly.trans {w₁ w₂ w₃ : World} (h : JobsOnly w₁ w₂)
    (h' : JobsOnly w₂ w₃) : JobsOnly w₁ w₃ :=
  ⟨h'.app.trans h.app, h'.deployments.trans h.deployments,
    h'.previews.trans h.previews, h'.server.trans h.server,
    h'.log.trans h.log⟩

theorem JobsOnly.keepsRows (h : JobsOnly w w') : KeepsRows w w' :=
  .of_eq h.deployments h.previews h.app

theorem JobsOnly.run? (h : JobsOnly w w') (jobID id : Nat) :
    w'.run? jobID id = w.run? jobID id := by
  unfold World.run?
  rw [h.deployments, h.previews, h.app]

theorem CrashSafe.jobsOnly (h : CrashSafe jobID id w) (hw : JobsOnly w w') :
    CrashSafe jobID id w' := by
  intro r hr
  rw [hw.run?] at hr
  rw [hw.server]
  exact h r hr

theorem Execute_up (hup : w.server.Up) (hcrash : CrashSafe jobID id w)
    (hinst : DeploysInstance n jobID id w) :
    wp ((system (NoFailures n) JobsOnly).keeping fun w =>
        w.server.Up ∧ DeploysInstance n jobID id w) (Execute polls jobID id)
      (fun _ w => w.server.Up ∧ DeploysInstance n jobID id w) w := by
  have hrolls := hinst
  obtain ⟨r, hrun, hr⟩ := hrolls
  have hkeep : ∀ w' : World, w'.server = w.server → w'.server.Up := by
    intro w' h
    rw [h]
    exact hup
  refine wp_frame ?_ (fun _ _ h hw => h.step hw.keepsRows)
    (fun c o w h => h.step (sem_keepsRows c o w)) hinst
  refine wp_Execute (K := fun w' : World => w'.server = w.server)
    (fun _ _ h => h) hkeep (fun _ _ h hw => hw.server.trans h)
    (fun _ _ _ h => h) hrun (fun w' h _ => hkeep w' h)
    (fun w' h _ => hkeep _ h) ?_ rfl
  intro hterm w' hw'
  refine attempt_up hr hterm ?_
  rw [hw']
  exact hcrash r hrun

/-- A closed deployment is not attempted again. -/
theorem CrashSafe.of_terminal (h : StatusIs (fun s => s.terminal = true) id w) :
    CrashSafe jobID id w := by
  intro r hr hterm
  have hs : w.status? id = some r.d.status := by
    rw [← World.run?_id hr]
    exact World.run?_status hr
  cases (h _ hs).symm.trans hterm

theorem up_sound (n : String) (jobID id : Nat) :
    (rollingJob n (CrashSafe jobID id) jobID id).Sound
      (fun w => w.server.Up ∧ DeploysInstance n jobID id w)
      (fun w => (w.server.Up ∧ DeploysInstance n jobID id w) ∧ CrashSafe jobID id w)
      (fun _ w => w.server.Up ∧ DeploysInstance n jobID id w) where
  refl := JobsOnly.refl
  trans := JobsOnly.trans
  attempt := by
    rintro _ w ⟨polls, rfl⟩ ⟨⟨hup, hinst⟩, hcrash⟩
    exact Execute_up hup hcrash hinst
  pre_inv := fun _ h => h.1
  pre_stable := by
    rintro w w' ⟨⟨hup, hinst⟩, hcrash⟩ hw
    exact ⟨⟨by rw [hw.server]; exact hup, hinst.step hw.keepsRows⟩, hcrash.jobsOnly hw⟩
  post_inv := fun _ _ h => h
  post_stable := by
    rintro _ w w' ⟨hup, hinst⟩ hw
    exact ⟨by rw [hw.server]; exact hup, hinst.step hw.keepsRows⟩
  done := fun _ _ h hend => ⟨h, hend.elim .of_terminal fun h => h⟩
  die := fun _ h hdie => ⟨h, hdie⟩

/-- Zero downtime: from an old container that is running and routed, the proxy
reaches a running container in every state of every run of a rolling
deployment in which no Docker or routing call fails, every crash leaves a
state that the next attempt can start from, and nothing stops an attempt while
the route is on the candidate. -/
theorem rolling_stays_up (jobID id : Nat) (w : World) (r : Run)
    (hrun : w.run? jobID id = some r) (hroll : r.rolling = true)
    (hdirect : r.direct = true) (hne : r.oldName ≠ r.candidate)
    (hbuild : r.buildsRemotely = true → r.app.buildServer ≠ none)
    (hstatus : r.d.status.pastBarrier = false)
    (hold : w.server.Serves r.oldName) (hfree : FinalNameFree r w.server)
    (x : Retry.Config Ans World JobResult)
    (hx : (rollingJob r.namingIdentity (CrashSafe jobID id) jobID id).Reaches
      w x) : x.state.server.Up := by
  have hinst : DeploysInstance r.namingIdentity jobID id w :=
    ⟨r, hrun, rfl, hroll, hdirect, hne, hbuild⟩
  have hcrash : CrashSafe jobID id w := by
    intro r' hr' _
    cases hrun.symm.trans hr'
    rw [if_neg (by simp [hstatus])]
    exact ⟨⟨_, hne, hold⟩, hfree⟩
  exact ((up_sound r.namingIdentity jobID id).reaches_inv ⟨⟨⟨_, hold⟩, hinst⟩, hcrash⟩ hx).1

instance (c : Call) (o : Outcome) (w : World) : Decidable (c.goesOn o w) := by
  cases c <;> first
    | exact isTrue trivial
    | exact inferInstanceAs (Decidable (_ = _))

instance (n : String) (c : Call) (o : Outcome) (w : World) : Decidable (NoFailures n c o w) :=
  inferInstanceAs (Decidable (_ ∧ _))

/-- The first attempt dies while the image is built. -/
theorem rolling_stays_up_shop : ((shopWorld.after 1 7 1 12).after 1 7 1 29).server.Up := by
  have hfirst : (rollingJob "shop" (CrashSafe 7 1) 7 1).Reaches shopWorld
      ⟨_, shopWorld.after 1 7 1 12⟩ :=
    reaches_after .refl ⟨1, rfl⟩ (by decide : (Execute 1 7 1).AllN smoothly
      (fun c => NoFailures "shop" c .succeeds) 12 shopWorld)
  have hsafe : CrashSafe 7 1 (shopWorld.after 1 7 1 12) := by
    intro r hr _
    have hread : ((shopWorld.after 1 7 1 12).run? 7 1).all (fun r => !r.d.status.pastBarrier &&
        "shop" ≠ r.candidate && r.oldName = r.namingIdentity) = true := by decide
    rw [hr] at hread
    simp only [Option.all_some, Bool.and_eq_true, Bool.not_eq_true', decide_eq_true_eq] at hread
    rw [if_neg (by simp [hread.1.1])]
    exact ⟨⟨"shop", hread.1.2, by decide⟩, .inl hread.2⟩
  exact rolling_stays_up 7 1 shopWorld shopRun rfl rfl rfl (by decide)
    (nofun) rfl (by decide) (.inl rfl) _
    (reaches_after (hfirst.die hsafe) ⟨1, rfl⟩ (by decide : (Execute 1 7 1).AllN smoothly
      (fun c => NoFailures "shop" c .succeeds) 29 (shopWorld.after 1 7 1 12)))

/-- A crash between the write of `switching` and the routing apply: the
resumed attempt stops the old container while the route is still on it. -/
theorem resume_stops_routed_container :
    shopWorld.server.Serves shopRun.oldName ∧
      ∃ x, (rollingJob "shop" (fun _ => True) 7 1).Reaches shopWorld x ∧
        ¬ x.state.server.Up := by
  have hswitching : (rollingJob "shop" (fun _ => True) 7 1).Reaches shopWorld
      ⟨_, shopWorld.after 1 7 1 26⟩ :=
    reaches_after .refl ⟨1, rfl⟩ (by decide : (Execute 1 7 1).AllN smoothly
      (fun c => NoFailures "shop" c .succeeds) 26 shopWorld)
  have hcrash := hswitching.die trivial
  refine ⟨by decide, _, reaches_after hcrash ⟨1, rfl⟩ (by decide :
    (Execute 1 7 1).AllN smoothly (fun c => NoFailures "shop" c .succeeds) 10
      (shopWorld.after 1 7 1 26)), ?_⟩
  refine Server.not_up_of_name (n := "shop") (by decide) ?_
  rintro ⟨c, hc, hrun⟩
  have hexited : ((shopWorld.after 1 7 1 26).after 1 7 1 10).server.containers
      "shop" = some ⟨none, .exited⟩ := by
    decide
  cases hexited.symm.trans hc
  cases hrun

end Akerdock.Deploy
