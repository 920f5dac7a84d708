import Akerdock.Deploy.Rules

/-!
# Resuming a switch after a crash

A worker that dies past the cancellation barrier leaves the deployment in
`switching` or `finishing`, and the next attempt of the job goes by the
inspection of `resume`.  From the crash on no call fails and nobody else
acts: that is the setting `smooth`.

* `Pending` holds while the resumed attempt has done nothing to the server.
  It covers `connect` and `dialBuildServer`, which come before the inspection.
* `Resumable` are the container states that the inspection can carry to the
  end, and `Recovered` is that end.  `resumeSwitch_spec` relates the two.
* `resume_recovers_iff` is the whole attempt: it recovers exactly from the
  states in which it gets past its head and that are `Resumable`.
-/

namespace Akerdock.Deploy

open Store Docker Proc Proc.Prog

/-- Every call succeeds and nobody else acts. -/
abbrev smooth : Setting Ans Outcome World :=
  setting (fun _ o _ => o = .succeeds) Eq fun _ => True

/-- The build server that the attempt dials is there, and no cleanup owns
it. -/
def BuildServerReady (r : Run) (w : World) : Prop :=
  r.buildsRemotely = true → ∃ b, r.app.buildServer = some b ∧ cleanupRunning b w.jobs = false

/-- The container states that `resume` carries to the end: the candidate was
promoted already, or it runs, the old container is gone or runs, and the final
name can be had. -/
def Resumable (r : Run) (s : Server) : Prop :=
  (s.containers r.candidate = none ∧ s.Running r.oldName ∧ s.Running r.namingIdentity) ∨
    (s.Running r.candidate ∧
      (s.containers r.oldName = none ∨ s.Running r.oldName) ∧
      (r.oldName = r.namingIdentity ∨ s.containers r.namingIdentity = none))

/-- The state `w₀` of a crash that the next attempt recovers from. -/
structure Recoverable (r : Run) (w₀ : World) : Prop where
  approved : r.forkGateClosed = false
  notCancelled : w₀.cancelFlag r.jobID = false
  buildServer : BuildServerReady r w₀
  containers : Resumable r w₀.server

/-- The end that a resumed switch has to reach from `w₀`.  By `kept`, a
candidate that was running is the container that ends up serving. -/
structure Recovered (r : Run) (w₀ w : World) : Prop where
  status : w.status? r.d.id = some .succeeded
  running : w.server.Running r.namingIdentity
  candidate : w.server.containers r.candidate = none
  route : w.server.route = some (.name r.namingIdentity)
  kept : ∀ c, w₀.server.containers r.candidate = some c →
    c.status = .running → w.server.containers r.namingIdentity = some c

/-- The deployment is on record and has not succeeded. -/
def Unfinished (r : Run) (w : World) : Prop :=
  ∃ s, w.status? r.d.id = some s ∧ s ≠ .succeeded

/-- The resumed attempt has changed neither the server nor the jobs. -/
structure Pending (r : Run) (w₀ w : World) : Prop where
  server : w.server = w₀.server
  jobs : w.jobs = w₀.jobs
  status : Unfinished r w

variable {y : Except RunError Unit}

section

variable {r : Run} {w₀ w : World}

theorem wp_smooth {Q : Except RunError (Ans c) → World → Prop}
    (h : Q (.ok (sem c .succeeds w).1) (sem c .succeeds w).2) :
    wp smooth (ask c).run Q w := by
  refine wp_ask ?_
  rintro w₁ rfl
  refine ⟨trivial, ?_⟩
  rintro o rfl
  exact h

theorem wp_smooth_must {msg : String} (h : Q (.ok ()) (w.logged (.remote s))) :
    wp smooth (must s msg).run Q w :=
  wp_run_bind (wp_smooth (wp_pure h))

theorem Pending.logged (h : Pending r w₀ w) (c : Call) : Pending r w₀ (w.logged c) :=
  ⟨h.server, h.jobs, h.status⟩

theorem Unfinished.write (h : Unfinished r w) {s : DeploymentStatus}
    (hs : s ≠ .succeeded) (o : Outcome) :
    Unfinished r (sem (.setDeploymentStatus r.d.id s) o w).2 := by
  obtain ⟨t, ht, _⟩ := h
  exact ⟨s, by rw [status?_setDeploymentStatus, ht]; rfl, hs⟩

/-! ## The head of the attempt -/

/-- `checkpoint` passes exactly when the flag is not set. -/
theorem checkpoint_smooth (hw : Pending r w₀ w) :
    wp smooth (checkpoint r).run (fun y w => Pending r w₀ w ∧
      (y = .ok () ↔ w₀.cancelFlag r.jobID = false)) w := by
  have hflag : (sem (.isJobCancelRequested r.jobID) .succeeds w).1 = w₀.cancelFlag r.jobID := by
    simp [apply, World.cancelFlag, hw.jobs]
  have hp : Pending r w₀ (sem (.isJobCancelRequested r.jobID) .succeeds w).2 := hw.logged _
  refine wp_run_bind (wp_smooth ?_)
  rw [hflag]
  cases w₀.cancelFlag r.jobID with
  | true => exact wp_throw ⟨hp, by simp⟩
  | false => exact wp_pure ⟨hp, by simp⟩

/-- The head of `execute` is passed by an attempt that is allowed to deploy
and not cancelled. -/
theorem connect_smooth (hstatus : r.d.status.pastBarrier = true) (hw : Pending r w₀ w) :
    wp smooth (connect polls r).run (fun y w => Pending r w₀ w ∧
      (y = .ok () ↔ r.forkGateClosed = false ∧ w₀.cancelFlag r.jobID = false)) w := by
  have hqueued : (decide (DeploymentStatus.preparing = .preparing) &&
      decide (r.d.status = .queued)) = false := by
    cases hs : r.d.status <;>
      simp [hs, DeploymentStatus.pastBarrier] at hstatus ⊢
  unfold connect
  cases hgate : r.forkGateClosed with
  | true => exact wp_throw ⟨hw, by simp⟩
  | false =>
    refine wp_run_bind (wp_mono (checkpoint_smooth hw) ?_)
    rintro y w ⟨hw, hy⟩
    cases y with
    | error e => exact ⟨hw, by simpa using hy⟩
    | ok _ =>
      refine wp_run_bind ?_
      rw [setStatus, hqueued]
      refine wp_smooth ?_
      refine wp_run_bind (wp_smooth_must (wp_smooth_must ⟨?_, by simpa using hy⟩))
      refine Pending.logged (Pending.logged ?_ _) _
      exact ⟨hw.server, hw.jobs, hw.status.write (by simp) .succeeds⟩

theorem reserveBuildServer_smooth (b : Nat) (hw : Pending r w₀ w) :
    wp smooth (reserveBuildServer r b polls).run (fun y w => Pending r w₀ w ∧
      (y = .ok () → cleanupRunning b w₀.jobs = false) ∧
      (cleanupRunning b w₀.jobs = false → 0 < polls → y = .ok ())) w := by
  induction polls generalizing w with
  | zero => exact wp_throw ⟨hw, by simp, by simp⟩
  | succ polls ih =>
    refine wp_run_bind (wp_smooth ?_)
    have hp : Pending r w₀
        (sem (.assignDeploymentBuildServerUnlessCleanupRunning b) .succeeds w).2 := hw.logged _
    have hans : (sem (.assignDeploymentBuildServerUnlessCleanupRunning b)
        .succeeds w).1 = !cleanupRunning b w₀.jobs := by
      simp [apply, hw.jobs]
    rw [hans]
    cases hclean : cleanupRunning b w₀.jobs with
    | false => exact wp_pure ⟨hp, by simp, by simp⟩
    | true =>
      refine wp_run_bind (wp_mono (checkpoint_smooth hp) ?_)
      rintro y w ⟨hw, _⟩
      cases y with
      | error e => exact ⟨hw, by simp, by simp⟩
      | ok _ =>
        refine wp_mono (ih hw) ?_
        rintro y w ⟨hw, hy, _⟩
        exact ⟨hw, by simpa [hclean] using hy, by simp⟩

/-- The build server is dialled when it is there and free. -/
theorem dialBuildServer_smooth (hw : Pending r w₀ w) :
    wp smooth (dialBuildServer (polls + 1) r).run
      (fun y w => Pending r w₀ w ∧ (y = .ok () ↔ BuildServerReady r w₀)) w := by
  unfold dialBuildServer BuildServerReady
  cases r.buildsRemotely with
  | false => exact wp_pure ⟨hw, by simp⟩
  | true =>
    cases r.app.buildServer with
    | none => exact wp_throw ⟨hw, by simp⟩
    | some b =>
      refine wp_run_bind (wp_mono (reserveBuildServer_smooth b hw) ?_)
      rintro y w ⟨hw, hfree, hok⟩
      cases y with
      | error e =>
        refine ⟨hw, iff_of_false (by simp) ?_⟩
        intro h
        obtain ⟨_, ⟨⟩, hb⟩ := h rfl
        exact absurd (hok hb (Nat.succ_pos polls)) (by simp)
      | ok _ =>
        refine wp_smooth_must ⟨hw.logged _, iff_of_true rfl fun _ => ?_⟩
        exact ⟨b, rfl, hfree rfl⟩

/-! ## The inspection -/

theorem containerState_smooth
    (h : Q (.ok ((w.server.containers n).map Container.status))
      (w.logged (.containerInspect site n))) :
    wp smooth (containerState site n).run Q w := by
  refine wp_run_bind (wp_inspect ?_)
  rintro w₁ rfl
  refine ⟨trivial, fun _ => ?_, nofun⟩
  simp only [Server.containerInspect]
  cases hn : w.server.containers n with
  | none | some c =>
    rw [hn] at h
    exact wp_pure h

/-- The tail of a deployment leaves the server alone and succeeds. -/
theorem finish_smooth (hw : Unfinished r w) :
    wp smooth (finish polls r image).run (fun y w' => y = .ok () ∧
      w'.server = w.server ∧ w'.status? r.d.id = some .succeeded) w := by
  have hsome : w.status? r.d.id ≠ none := by
    obtain ⟨s, hs, _⟩ := hw
    simp [hs]
  have hquiet : Within (Settling r) (fun _ => False) (settle polls r image) := within_settle
  have hsettle := wp_of_follows (S := smooth) (w := w)
    (J := fun _ w' => w'.server = w.server ∧ w'.status? r.d.id ≠ none)
    hquiet (fun _ _ _ => trivial) ?_ ?_ ⟨rfl, hsome⟩
  · refine wp_run_bind (wp_mono hsettle ?_)
    rintro y w' ⟨_, hok, hserver, hstatus⟩
    cases y with
    | error e => exact absurd rfl (hok e)
    | ok _ =>
    refine wp_smooth ⟨rfl, hserver, ?_⟩
    rw [status?_setDeploymentStatus]
    obtain ⟨s, hs⟩ := Option.ne_none_iff_exists'.1 hstatus
    rw [hs]
    rfl
  · rintro _ w₁ w₂ hw₁ rfl
    exact hw₁
  · rintro _ c o w₁ hc ⟨hserver, hstatus⟩ _
    exact ⟨(sem_server_of_not hc.not_touchesServer o w₁).trans hserver,
      status?_sem_ne_none hstatus c o⟩

/-- The last step of every branch of `resume`: route the final name, then the
tail. -/
theorem land_smooth (hdirect : r.direct = true) (hw : Unfinished r w) :
    wp smooth (do
      applyRouting r
      finish polls r image : RunM Unit).run (fun y w' => y = .ok () ∧
      w'.server = w.server.routeTo (some (.name r.namingIdentity)) ∧
      w'.status? r.d.id = some .succeeded) w := by
  refine wp_run_bind ?_
  unfold applyRouting applyRoutingTo
  rw [routeTarget_direct hdirect]
  refine wp_run_bind (wp_pure (wp_run_bind (wp_smooth (wp_pure ?_))))
  exact finish_smooth hw

/-- It recovers once the new container has its final name. -/
theorem land_recovered (w₀ : World) (hdirect : r.direct = true)
    (hw : Unfinished r w) (hc : w.server.containers r.namingIdentity = some c)
    (hrun : c.status = .running)
    (hnext : w.server.containers r.candidate = none)
    (hkept : ∀ d, w₀.server.containers r.candidate = some d → d = c) :
    wp smooth (do
      applyRouting r
      finish polls r image : RunM Unit).run
      (fun y w' => y = .ok () ∧ Recovered r w₀ w') w := by
  refine wp_mono (land_smooth hdirect hw) ?_
  rintro y w' ⟨hy, hserver, hstatus⟩
  refine ⟨hy, hstatus, ?_, ?_, ?_, ?_⟩
  · rw [hserver]
    exact ⟨c, hc, hrun⟩
  · rw [hserver]
    exact hnext
  · rw [hserver]
    rfl
  · intro d hd _
    rw [hserver, hkept d hd]
    exact hc

/-- How an attempt ends that does not recover: it leaves with an error, or it
declares success with nothing running under the final name. -/
inductive Missed (r : Run) : Except RunError Unit → World → Prop where
  | left (e : RunError) (w : World) (h : Unfinished r w) : Missed r (.error e) w
  | nothing (w : World) (h : ¬ w.server.Running r.namingIdentity) : Missed r (.ok ()) w

/-- The attempt recovers if `good`, and otherwise does not. -/
def EndsWhen (good : Prop) (r : Run) (w₀ : World) (y : Except RunError Unit) (w : World) : Prop :=
  (good → y = .ok () ∧ Recovered r w₀ w) ∧ (¬ good → Missed r y w)

theorem EndsWhen.congr (h : EndsWhen good r w₀ y w) (hg : good' ↔ good) : EndsWhen good' r w₀ y w :=
  ⟨fun hgood => h.1 (hg.1 hgood), fun hgood => h.2 fun hg' =>
    hgood (hg.2 hg')⟩

theorem Unfinished.keep (h : Unfinished r w) {c : Call}
    (hc : c.writesStatus r.d.id = false) (o : Outcome) :
    Unfinished r (sem c o w).2 := by
  obtain ⟨s, hs, hne⟩ := h
  exact ⟨s, (status?_sem_of_not hc o w).trans hs, hne⟩

/-- The rename of a running candidate goes through when the final name is
free. -/
theorem rename_smooth (hc : w.server.containers r.candidate = some c)
    (hfree : w.server.containers r.namingIdentity = none →
      wp smooth (f ()).run Q
        ((w.withServer (w.server.move r.candidate r.namingIdentity)).logged
          (.docker .switch (.rename r.candidate r.namingIdentity))))
    (htaken : w.server.containers r.namingIdentity ≠ none →
      Q (.error (.failed "rename failed"))
        (w.logged (.docker .switch (.rename r.candidate r.namingIdentity)))) :
    wp smooth (orFail "rename failed" (perform
      (Call.docker .switch (.rename r.candidate r.namingIdentity))) >>= f).run Q w := by
  refine wp_run_bind (wp_orFail (wp_docker ?_))
  rintro w₁ rfl
  refine ⟨trivial, fun _ => ?_, nofun⟩
  simp only [DockerOp.run]
  cases hfinal : w.server.containers r.namingIdentity with
  | none =>
    rw [Server.containerRename_free hc hfinal]
    exact hfree hfinal
  | some d =>
    rw [Server.containerRename_taken hc hfinal]
    exact htaken (by simp [hfinal])

theorem renamed_spec (w₀ : World) (hdirect : r.direct = true)
    (hw : Unfinished r w) (hc : w.server.containers r.candidate = some c)
    (hrun : c.status = .running)
    (hkept : ∀ d, w₀.server.containers r.candidate = some d → d = c) :
    wp smooth (do
      orFail "rename failed" (perform
        (Call.docker .switch (.rename r.candidate r.namingIdentity)))
      applyRouting r
      finish polls r image : RunM Unit).run
      (EndsWhen (w.server.containers r.namingIdentity = none) r w₀) w := by
  refine rename_smooth hc (fun hfree => ?_) fun htaken => ?_
  · refine wp_mono (land_recovered w₀ (c := c) hdirect hw ?_ hrun ?_ hkept) ?_
    · simp [Server.move_containers, hc]
    · simp [Server.move_containers, r.candidate_ne]
    · rintro y w' hend
      exact ⟨fun _ => hend, fun hgood => absurd hfree hgood⟩
  · exact ⟨fun hgood => absurd hgood htaken, fun _ => .left _ _ hw⟩

theorem discardOld_smooth (hw : Unfinished r w) :
    wp smooth (discardOld r).run (fun y w' => y = .ok () ∧
      Unfinished r w' ∧ w'.server.containers r.oldName = none ∧
      ∀ n, n ≠ r.oldName → w'.server.containers n = w.server.containers n) w := by
  refine wp_run_bind (wp_smooth ?_)
  have h₁ := hw.keep (c := .docker .switch (.stop r.oldName)) rfl .succeeds
  refine wp_run_bind (wp_lift ?_)
  rw [removeNamedContainers_one]
  rintro w₁ rfl
  refine ⟨trivial, ?_⟩
  rintro o rfl
  refine ⟨rfl, h₁.keep rfl .succeeds, Server.containerRemove_self _ _, ?_⟩
  intro n hn
  exact (Server.containerRemove_of_ne hn).trans (Server.containerStop_of_ne hn)

/-- What the inspection says about a running container. -/
theorem state_running {s : Server} :
    (s.containers n).map Container.status = some .running ↔ s.Running n := by
  rw [Option.map_eq_some_iff]
  rfl

/-- The case of a candidate that has been promoted already. -/
theorem resume_promoted (hdirect : r.direct = true) (hw : Pending r w₀ w)
    (hnext : w₀.server.containers r.candidate = none)
    (hold : w₀.server.Running r.oldName) :
    wp smooth (do
      applyRouting r
      finish polls r image : RunM Unit).run
      (EndsWhen (Resumable r w₀.server) r w₀) w := by
  have hnot : ¬ w₀.server.Running r.candidate := by
    rintro ⟨c, hc, _⟩
    simp [hnext] at hc
  by_cases hfinal : w₀.server.Running r.namingIdentity
  · have hgood : Resumable r w₀.server := .inl ⟨hnext, hold, hfinal⟩
    obtain ⟨c, hc, hrun⟩ := hfinal
    refine wp_mono (land_recovered w₀ (c := c) hdirect hw.status
      (by rw [hw.server]; exact hc) hrun (by rw [hw.server]; exact hnext)
      (by simp [hnext])) ?_
    intro y w' hend
    exact ⟨fun _ => hend, fun hbad => absurd hgood hbad⟩
  · refine wp_mono (land_smooth hdirect hw.status) ?_
    rintro y w' ⟨rfl, hserver, _⟩
    refine ⟨?_, fun _ => .nothing w' ?_⟩
    · rintro (⟨_, _, h⟩ | ⟨h, _⟩)
      · exact absurd h hfinal
      · exact absurd h hnot
    · rw [hserver, hw.server]
      exact hfinal

/-- The cases in which the candidate runs and the old container does not block
it. -/
theorem resumable_of_running (hrun : w₀.server.Running r.candidate)
    (hold : w₀.server.containers r.oldName = none ∨ w₀.server.Running r.oldName) :
    Resumable r w₀.server ↔ r.oldName = r.namingIdentity ∨
      w₀.server.containers r.namingIdentity = none := by
  have hnext : w₀.server.containers r.candidate ≠ none := by
    obtain ⟨c, hc, _⟩ := hrun
    simp [hc]
  constructor
  · rintro (⟨h, _⟩ | ⟨_, _, h⟩)
    · exact absurd h hnext
    · exact h
  · intro h
    exact .inr ⟨hrun, hold, h⟩

/-- The case of an old container that is gone: on with the rename. -/
theorem resume_renaming (hdirect : r.direct = true) (hw : Pending r w₀ w)
    (hrun : w₀.server.Running r.candidate)
    (hold : w₀.server.containers r.oldName = none) :
    wp smooth (do
      orFail "rename failed" (perform
        (Call.docker .switch (.rename r.candidate r.namingIdentity)))
      applyRouting r
      finish polls r image : RunM Unit).run
      (EndsWhen (Resumable r w₀.server) r w₀) w := by
  rw [resumable_of_running hrun (.inl hold)]
  obtain ⟨c, hc, hcrun⟩ := hrun
  refine wp_mono (renamed_spec w₀ hdirect hw.status
    (by rw [hw.server]; exact hc) hcrun fun d hd =>
      Option.some.inj (hd.symm.trans hc)) ?_
  intro y w' hend
  refine hend.congr ?_
  rw [hw.server]
  constructor
  · rintro (heq | hfree)
    · rw [← heq]
      exact hold
    · exact hfree
  · exact .inr

section

variable (hdirect : r.direct = true) (hne : r.oldName ≠ r.candidate) (hw : Pending r w₀ w)

include hdirect hne hw

/-- The case of two running containers: on with the stop of the old one. -/
theorem resume_stopping (hrun : w₀.server.Running r.candidate)
    (hold : w₀.server.Running r.oldName) :
    wp smooth (do
      promoteCandidate r
      applyRouting r
      finish polls r image : RunM Unit).run
      (EndsWhen (Resumable r w₀.server) r w₀) w := by
  rw [resumable_of_running hrun (.inr hold)]
  obtain ⟨c, hc, hcrun⟩ := hrun
  rw [promoteCandidate, bind_assoc]
  refine wp_run_bind (wp_mono (discardOld_smooth hw.status) ?_)
  rintro _ w' ⟨rfl, hu, hgone, hothers⟩
  rw [hw.server] at hothers
  refine wp_mono (renamed_spec w₀ hdirect hu
    ((hothers _ hne.symm).trans hc) hcrun fun d hd =>
      Option.some.inj (hd.symm.trans hc)) ?_
  intro y w' hend
  refine hend.congr ?_
  by_cases heq : r.oldName = r.namingIdentity
  · rw [← heq]
    simp [hgone]
  · rw [hothers _ fun h => heq h.symm]
    simp [heq]

/-- The inspection recovers exactly from the `Resumable` states. -/
theorem resumeFrom_spec {oldState nextState : Option ContainerStatus}
    (hold : oldState = (w₀.server.containers r.oldName).map Container.status)
    (hnext : nextState = (w₀.server.containers r.candidate).map Container.status) :
    wp smooth (resumeFrom polls r oldState nextState).run
      (EndsWhen (Resumable r w₀.server) r w₀) w := by
  have hold' : oldState = some .running ↔ w₀.server.Running r.oldName := by
    rw [hold, state_running]
  have hgone : oldState = none ↔ w₀.server.containers r.oldName = none := by
    rw [hold, Option.map_eq_none_iff]
  have hnext' : nextState = some .running ↔ w₀.server.Running r.candidate := by
    rw [hnext, state_running]
  have habsent : nextState = none ↔ w₀.server.containers r.candidate = none := by
    rw [hnext, Option.map_eq_none_iff]
  unfold resumeFrom
  split
  · rename_i h
    exact resume_promoted hdirect hw (habsent.1 h.1) (hold'.1 h.2)
  split
  · rename_i h
    exact resume_renaming hdirect hw (hnext'.1 h.1) (hgone.1 h.2)
  split
  · rename_i h
    exact resume_stopping hdirect hne hw (hnext'.1 h.1) (hold'.1 h.2)
  · rename_i hpromoted hrenaming hstopping
    refine wp_throw ⟨?_, fun _ => .left _ _ hw.status⟩
    rintro (⟨hc, ho, _⟩ | ⟨hc, ho | ho, _⟩)
    · exact absurd ⟨habsent.2 hc, hold'.2 ho⟩ hpromoted
    · exact absurd ⟨hnext'.2 hc, hgone.2 ho⟩ hrenaming
    · exact absurd ⟨hnext'.2 hc, hold'.2 ho⟩ hstopping

theorem resumeSwitch_spec :
    wp smooth (resumeSwitch polls r).run (EndsWhen (Resumable r w₀.server) r w₀) w := by
  refine wp_run_bind (containerState_smooth ?_)
  refine wp_run_bind (containerState_smooth ?_)
  refine resumeFrom_spec hdirect hne ((hw.logged _).logged _) ?_ ?_
  · rw [hw.server]
  · rw [World.logged_server, hw.server]

end

/-! ## The whole attempt -/

theorem deploy_resumed (hstatus : r.d.status.pastBarrier = true)
    (hdirect : r.direct = true) (hne : r.oldName ≠ r.candidate)
    (hw : Pending r w₀ w) :
    wp smooth (deploy (polls + 1) r).run
      (EndsWhen (BuildServerReady r w₀ ∧ Resumable r w₀.server) r w₀) w := by
  refine wp_run_bind (wp_smooth_must ?_)
  refine wp_run_bind (wp_mono (dialBuildServer_smooth (hw.logged _)) ?_)
  rintro y w ⟨hw, hready⟩
  cases y with
  | error e =>
    refine ⟨fun hgood => ?_, fun _ => .left e w hw.status⟩
    exact absurd (hready.2 hgood.1) (by simp)
  | ok _ =>
    rw [resume, if_pos hstatus]
    refine wp_run_bind (wp_run_bind (wp_mono (resumeSwitch_spec hdirect hne hw) ?_))
    intro y w hend
    replace hend := hend.congr (and_iff_right (hready.1 rfl))
    cases y with
    | error e => exact hend
    | ok _ => exact wp_pure (wp_pure hend)

theorem Unfinished.not_recovered (h : Unfinished r w) : ¬ Recovered r w₀ w := by
  obtain ⟨s, hs, hne⟩ := h
  intro hrec
  exact hne (Option.some.inj (hs.symm.trans hrec.status))

/-- The compensations do not make a success of a failure. -/
theorem conclude_unfinished (hw : Unfinished r w) :
    wp smooth (conclude polls r (rt, y)) (fun _ w => Unfinished r w) w := by
  refine wp_of_makes (makes_conclude y) (fun _ _ => trivial) ?_ ?_ hw
  · rintro w₁ w₂ hw₁ rfl
    exact hw₁
  · intro c o w hc hw _
    cases hc with
    | preview id | candidate | error msg => exact hw.keep rfl o
    | status =>
      refine hw.write ?_ o
      rcases closing_eq y with h | h <;> simp [h]

theorem EndsWhen.conclude (h : EndsWhen good r w₀ y w) :
    wp smooth (conclude polls r (rt, y)) (fun _ w => Recovered r w₀ w ↔ good) w := by
  by_cases hgood : good
  · obtain ⟨rfl, hrec⟩ := h.1 hgood
    exact iff_of_true hrec hgood
  · cases h.2 hgood with
    | left e w hu =>
      refine wp_mono (conclude_unfinished hu) ?_
      intro _ w hu
      exact iff_of_false hu.not_recovered hgood
    | nothing w hno => exact iff_of_false (fun hrec => hno hrec.running) hgood

theorem attempt_resumed (hstatus : r.d.status.pastBarrier = true)
    (hdirect : r.direct = true) (hne : r.oldName ≠ r.candidate)
    (hw : Pending r w₀ w) :
    wp smooth ((execute (polls + 1) r).bind (conclude (polls + 1) r))
      (fun _ w => Recovered r w₀ w ↔ Recoverable r w₀) w := by
  refine wp_attempt (wp_mono (connect_smooth hstatus hw) ?_)
  rintro y w ⟨hw, hy⟩
  cases y with
  | error e =>
    have hnot : ¬ Recoverable r w₀ := by
      intro h
      exact absurd (hy.2 ⟨h.approved, h.notCancelled⟩) (by simp)
    have hend : EndsWhen (Recoverable r w₀) r w₀ (.error e) w :=
      ⟨fun h => absurd h hnot, fun _ => .left e w hw.status⟩
    exact hend.conclude
  | ok _ =>
    obtain ⟨happroved, hflag⟩ := hy.1 rfl
    refine wp_mono (deploy_resumed hstatus hdirect hne hw) ?_
    intro y w hend
    have hiff : Recoverable r w₀ ↔ BuildServerReady r w₀ ∧ Resumable r w₀.server := by
      constructor
      · intro h
        exact ⟨h.buildServer, h.containers⟩
      · rintro ⟨hready, hresume⟩
        exact ⟨happroved, hflag, hready, hresume⟩
    exact (hend.congr hiff).conclude

end

theorem smoothly_runs (p : Prog Ans α) (w : World) :
    Runs smooth p w (p.exec smoothly w).1 (p.exec smoothly w).2 := by
  have hh : ∀ c w, ∃ o, smooth.ok c o w ∧ smooth.sem c o w = smoothly c w :=
    fun _ _ => ⟨.succeeds, rfl, rfl⟩
  exact runs_exec (fun _ => rfl) hh p w

/-- The attempt that follows a crash past the cancellation barrier, when no
call of it fails: it ends with the deployment succeeded, the new container
running under the final name, the route on it and no candidate left, exactly
when the crash left a `Recoverable` state. -/
theorem resume_recovers_iff (polls jobID id : Nat) (w : World) (r : Run)
    (hrun : w.run? jobID id = some r)
    (hstatus : r.d.status.pastBarrier = true) (hdirect : r.direct = true)
    (hne : r.oldName ≠ r.candidate) :
    Recovered r w ((Execute (polls + 1) jobID id).exec smoothly w).2 ↔ Recoverable r w := by
  have hne_succeeded : r.d.status ≠ .succeeded := by
    rintro hs
    simp [hs, DeploymentStatus.pastBarrier] at hstatus
  have hstart : Pending r w w :=
    ⟨rfl, rfl, r.d.status, World.run?_status hrun, hne_succeeded⟩
  refine (smoothly_runs (Execute (polls + 1) jobID id) w).post
    (Q := fun _ w' => Recovered r w w' ↔ Recoverable r w) ?_
  refine wp_Execute (K := Pending r w) ?_ (fun _ _ => trivial) ?_ ?_ hrun ?_ ?_ ?_ hstart
  · rintro w₁ _ rfl
    exact JobsOnly.refl w₁
  · rintro w₁ _ hw₁ rfl
    exact hw₁
  · intro w₁ c _ hw₁
    exact hw₁.logged c
  · intro _ _ hterm
    cases hs : r.d.status <;>
      simp [hs, DeploymentStatus.pastBarrier, DeploymentStatus.terminal] at hstatus hterm
  · intro _ _ hf
    cases hf
  · intro _ w₁ hw₁
    exact attempt_resumed hstatus hdirect hne hw₁

/-- The sample attempt, up to a crash right after the stop of the old
container. -/
def stoppedShop : World :=
  ((Execute 1 7 1).execN smoothly 29 shopWorld).2

/-- The run that the next attempt builds from what the crash left. -/
def stoppedShopRun : Run :=
  { shopRun with
    d := { shopDeployment with
      status := .switching
      imageDigest := some "sha256:2" } }

theorem resume_recovers_iff_shop :
    Recovered stoppedShopRun stoppedShop ((Execute 1 7 1).exec smoothly stoppedShop).2 ↔
      Recoverable stoppedShopRun stoppedShop :=
  resume_recovers_iff 0 7 1 stoppedShop stoppedShopRun (by decide) rfl rfl (by decide)

/-- A crash between the stop and the removal of the old container: the next
attempt fails the deployment and deletes the candidate, which was running and
routed. -/
theorem crash_after_stop_unrecovered :
    stoppedShop.status? 1 = some .switching ∧
      stoppedShop.server.Serves stoppedShopRun.candidate ∧
      ¬ Recovered stoppedShopRun stoppedShop ((Execute 1 7 1).exec smoothly stoppedShop).2 ∧
      ((Execute 1 7 1).exec smoothly stoppedShop).2.status? 1 = some .failed ∧
      ((Execute 1 7 1).exec smoothly stoppedShop).2.server.containers
        stoppedShopRun.candidate = none := by
  have hfailed : ((Execute 1 7 1).exec smoothly stoppedShop).2.status? 1 = some .failed := by
    decide
  refine ⟨by decide, by decide, ?_, hfailed, by decide⟩
  intro h
  exact absurd (hfailed.symm.trans h.status) (by decide)

end Akerdock.Deploy
