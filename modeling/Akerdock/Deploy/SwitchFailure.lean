import Akerdock.Deploy.Rules

/-!
# A rolling switch in which calls fail

The compensation of a failed deployment removes the candidate.  Before the
switch that is harmless, because the old container serves.  During the switch
the route already designates the candidate when the old container is stopped
and removed, and the compensation still removes it.

The outcome of every call is fixed in advance by an assignment
`O : Call → Outcome`, so that every pattern of failures is covered, and cancel
requests may arrive between any two calls.

* `Untouched` holds from the start of the attempt to the routing of the
  candidate: every container but the candidate is as it was, and so is the
  route.  All code before the switch and the compensations keep it
  (`Spares.untouched`).
* `Standing` lists how an attempt can stand when `execute` returns, and
  `switchTraffic_spec` says that nothing else happens past the barrier.
* `execute_kept_iff` puts them together: after `Execute` some container of the
  instance serves, unless the rename was reached, failed, and the compensation
  removed the candidate.
-/

namespace Akerdock.Deploy

open Store Docker Proc Proc.Prog

/-- Runs in which the call `c` has the outcome `O c`. -/
abbrev failing (O : Call → Outcome) : Setting Ans Outcome World :=
  setting (fun c o _ => o = O c) JobsOnly fun _ => True

def Run.renameCall (r : Run) : Call :=
  .docker .switch (.rename r.candidate r.namingIdentity)

def Run.compensationCall (r : Run) : Call :=
  .docker .compensation (.remove r.candidate)

/-- The final name is taken when the candidate is to be renamed: by the old
container when its removal failed, and for an adopted application by whatever
had that name before. -/
def FinalNameTaken (O : Call → Outcome) (r : Run) (w₀ : World) : Prop :=
  if r.oldName = r.namingIdentity then
    O (.docker .switch (.remove r.oldName)) = .fails
  else w₀.server.containers r.namingIdentity ≠ none

/-- The rename of the switch fails: it is refused, or the final name is still
taken. -/
def RenameFails (O : Call → Outcome) (r : Run) (w₀ : World) : Prop :=
  O r.renameCall = .fails ∨ FinalNameTaken O r w₀

/-- One of the containers of the instance is running and the route designates
it. -/
def Kept (r : Run) (s : Server) : Prop :=
  s.Serves r.oldName ∨ s.Serves r.namingIdentity ∨ s.Serves r.candidate

instance (r : Run) (s : Server) : Decidable (Kept r s) :=
  inferInstanceAs (Decidable (_ ∨ _ ∨ _))

/-! ## Before the switch -/

/-- Nothing but the candidate changed since `w₀`, and the switch was not
made. -/
structure Untouched (r : Run) (w₀ w : World) : Prop where
  others : ∀ n, n ≠ r.candidate →
    w.server.containers n = w₀.server.containers n
  route : w.server.route = w₀.server.route
  log : r.renameCall ∉ w.log

theorem Spares.untouched (h : Spares r c) (hw : Untouched r w₀ w) (o : Outcome) :
    Untouched r w₀ (sem c o w).2 := by
  have hlog : r.renameCall ∉ (sem c o w).2.log := by
    rw [sem_log, List.mem_cons, not_or]
    refine ⟨?_, hw.log⟩
    rintro rfl
    exact r.candidate_ne (h r.namingIdentity (by simp [DockerOp.names])).symm
  refine ⟨fun n hn => ?_, ?_, hlog⟩
  · exact (h.containers hn o w).trans (hw.others n hn)
  · exact (h.route o w).trans hw.route

theorem Untouched.jobsOnly (hw : Untouched r w₀ w) (h : JobsOnly w w') : Untouched r w₀ w' := by
  refine ⟨?_, ?_, ?_⟩
  · rw [h.server]
    exact hw.others
  · rw [h.server]
    exact hw.route
  · rw [h.log]
    exact hw.log

theorem Untouched.logged (hw : Untouched r w₀ w) (h : r.renameCall ≠ c) :
    Untouched r w₀ (w.logged c) :=
  ⟨hw.others, hw.route, by simp [h, hw.log]⟩

/-- As long as nothing else is touched, the old container serves. -/
theorem Untouched.serves (hw : Untouched r w₀ w)
    (hold : w₀.server.Serves r.oldName) (hne : r.oldName ≠ r.candidate) :
    w.server.Serves r.oldName :=
  hold.congr (hw.others _ hne) hw.route

section

variable {O : Call → Outcome} {r : Run} {w₀ w : World} {α : Type}

/-- Code from before the switch leaves everything but the candidate alone. -/
theorem Phase.untouched (h : Phase (PreSwitch r) x) (hr : r.rolling = true)
    (hw : Untouched r w₀ w) :
    Proc.wp (failing O) x.run (fun _ w => Untouched r w₀ w) w := by
  refine wp_mono (Phase.wp h (J := fun _ => Untouched r w₀) ?_ ?_ ?_ hw) ?_
  · intro _ _ _
    trivial
  · intro _ _ _ hw h
    exact hw.jobsOnly h
  · intro c o w hc hw _
    exact (hc.spares hr).untouched hw o
  · rintro _ _ ⟨_, _, hw⟩
    exact hw

/-- The compensations leave everything but the candidate alone. -/
theorem conclude_untouched (hw : Untouched r w₀ w) :
    Proc.wp (failing O) (conclude polls r (rt, y)) (fun _ w => Untouched r w₀ w) w :=
  wp_of_makes (makes_conclude y) (fun _ _ => trivial)
    (fun _ _ hw h => hw.jobsOnly h)
    (fun _ o _ hc hw _ => hc.spares.untouched hw o) hw

/-! ## The switch, call by call -/

/-- `resolve_endpoint` finds the address of the candidate, or fails with
everything untouched. -/
theorem resolveEndpoint_spec (hw : Untouched r w₀ w) :
    Proc.wp (failing O) (resolveEndpoint r).run
      (fun y w => Untouched r w₀ w ∧ ∀ a, y = .ok a →
        ∃ c, w.server.containers r.candidate = some c ∧ c.ip = some a)
      w := by
  refine wp_run_bind (wp_inspect ?_)
  intro w₁ hw₁
  have hu : Untouched r w₀ (w₁.logged (.containerInspect .resolveEndpoint r.candidate)) :=
    (hw.jobsOnly hw₁).logged (by simp [Run.renameCall])
  refine ⟨trivial, fun _ => ?_, fun _ => wp_throw ⟨hu, by simp⟩⟩
  simp only [Server.containerInspect]
  cases hcand : w₁.server.containers r.candidate with
  | none => exact wp_throw ⟨hu, by simp⟩
  | some c =>
    cases hip : c.ip with
    | none =>
      simp only [hip]
      exact wp_throw ⟨hu, by simp⟩
    | some a =>
      simp only [hip]
      refine wp_pure ⟨hu, ?_⟩
      intro b hb
      injection hb with hb
      exact ⟨c, hcand, by rw [hip, hb]⟩

/-- Routing the candidate: it fails with everything untouched, or the route
designates the candidate. -/
theorem switchRouting_spec (hdirect : r.direct = true) (hw : Untouched r w₀ w)
    (hc : w.server.containers r.candidate = some c) (ha : c.ip = some a) :
    Proc.wp (failing O) (applyRoutingTo r (some a)).run
      (fun y w => match y with
        | .ok () => OnCandidate r w.server ∧ r.renameCall ∉ w.log ∧
            ∀ n, n ≠ r.candidate → w.server.containers n = w₀.server.containers n
        | .error _ => Untouched r w₀ w) w := by
  rw [applyRoutingTo, routeTarget_direct hdirect]
  refine wp_run_bind (wp_pure ?_)
  refine wp_run_bind (wp_proxy ?_)
  intro w₁ hw₁
  have hu := hw.jobsOnly hw₁
  rw [← hw₁.server] at hc
  refine ⟨trivial, fun _ => ?_, fun _ => ?_⟩
  · refine wp_pure ⟨?_, ?_, hu.others⟩
    · exact ⟨c, a, hc, w₁.server.ip_running hc ha, ha, rfl⟩
    · simpa [Run.renameCall] using hu.log
  · exact wp_throw (hu.logged (by simp [Run.renameCall]))

/-- Between the routing of the candidate and the rename: only the old
container may change. -/
structure Retiring (r : Run) (w₀ w : World) : Prop where
  candidate : OnCandidate r w.server
  others : ∀ n, n ≠ r.candidate → n ≠ r.oldName →
    w.server.containers n = w₀.server.containers n

theorem Retiring.docker (h : Retiring r w₀ w)
    (hne : r.oldName ≠ r.candidate) (site : Site) (op : DockerOp)
    (hop : op.names = [r.oldName]) (o : Outcome) :
    Retiring r w₀ (sem (.docker site op) o w).2 := by
  refine ⟨h.candidate.docker (by simp [hop, hne.symm]) o, ?_⟩
  intro n hn hold
  rw [← h.others n hn hold]
  cases o with
  | fails => rfl
  | succeeds => exact op.run_of_notMem (by simp [hop, hold]) w.server

theorem Retiring.jobsOnly (h : Retiring r w₀ w) (hw : JobsOnly w w') : Retiring r w₀ w' := by
  refine ⟨?_, ?_⟩
  · rw [hw.server]
    exact h.candidate
  · rw [hw.server]
    exact h.others

/-- The final name is taken when the removal of the old container failed, or
for an adopted application when it was taken before. -/
theorem finalName_taken_iff (h : Retiring r w₀ w₂)
    (hw₁ : w₁.server.containers r.oldName ≠ none)
    (hw₂ : w₂ = (sem (.docker .switch (.remove r.oldName))
      (O (.docker .switch (.remove r.oldName))) w₁).2) :
    w₂.server.containers r.namingIdentity ≠ none ↔ FinalNameTaken O r w₀ := by
  unfold FinalNameTaken
  split
  · rename_i heq
    rw [← heq, hw₂]
    cases O (.docker .switch (.remove r.oldName)) with
    | fails =>
      rw [sem_docker_fails]
      simpa using hw₁
    | succeeds =>
      have hgone := w₁.server.containerRemove_self r.oldName
      simp only [reduceCtorEq, iff_false, not_not]
      exact hgone
  · rename_i hne
    rw [h.others _ r.candidate_ne.symm fun heq => hne heq.symm]

section

variable (hne : r.oldName ≠ r.candidate) (hw : Retiring r w₀ w)
    (hold : w.server.containers r.oldName ≠ none)

include hne hw hold

theorem discardOld_spec :
    Proc.wp (failing O) (discardOld r).run
      (fun y w => y = .ok () ∧ Retiring r w₀ w ∧
        (w.server.containers r.namingIdentity ≠ none ↔ FinalNameTaken O r w₀)) w := by
  refine wp_run_bind (wp_ask ?_)
  intro w₁ hw₁
  refine ⟨trivial, ?_⟩
  rintro o rfl
  rw [← hw₁.server] at hold
  have hr₁ := (hw.jobsOnly hw₁).docker hne .switch (.stop r.oldName)
    rfl (O (.docker .switch (.stop r.oldName)))
  have hold₁ : (sem (.docker .switch (.stop r.oldName))
      (O (.docker .switch (.stop r.oldName))) w₁).2.server.containers r.oldName ≠ none := by
    cases O (.docker .switch (.stop r.oldName)) with
    | fails => exact hold
    | succeeds => exact Server.containerStop_eq_none.not.2 hold
  refine wp_run_bind (wp_lift ?_)
  rw [removeNamedContainers_one]
  intro w₂ hw₂
  refine ⟨trivial, ?_⟩
  rintro o rfl
  rw [← hw₂.server] at hold₁
  have hr₂ := (hr₁.jobsOnly hw₂).docker hne .switch
    (.remove r.oldName) rfl (O (.docker .switch (.remove r.oldName)))
  exact ⟨rfl, hr₂, finalName_taken_iff hr₂ hold₁ rfl⟩

/-- The promotion: the candidate serves under the final name, or the rename
failed and it still serves as the candidate. -/
theorem promoteCandidate_spec :
    Proc.wp (failing O) (promoteCandidate r).run
      (fun y w => match y with
        | .ok () => w.server.Serves r.namingIdentity ∧ ¬ RenameFails O r w₀
        | .error e => e = .failed "rename failed" ∧ OnCandidate r w.server ∧
            r.renameCall ∈ w.log ∧ RenameFails O r w₀) w := by
  refine wp_run_bind (wp_mono (discardOld_spec hne hw hold) ?_)
  rintro _ w ⟨rfl, hr, htaken⟩
  refine wp_orFail (wp_docker ?_)
  intro w₁ hw₁
  obtain ⟨c, a, hc, hrun, hip, hroute⟩ := (hr.jobsOnly hw₁).candidate
  rw [← hw₁.server] at htaken
  refine ⟨trivial, fun hok => ?_, fun hfail => ?_⟩
  · simp only [DockerOp.run]
    cases hfinal : w₁.server.containers r.namingIdentity with
    | none =>
      rw [Server.containerRename_free hc hfinal]
      refine ⟨Server.serves_move hc hrun hip hroute, ?_⟩
      rintro (hfail | hname)
      · exact absurd (hok.trans hfail) (by simp)
      · exact htaken.2 hname hfinal
    | some d =>
      rw [Server.containerRename_taken hc hfinal]
      refine ⟨trivial, ⟨c, a, hc, hrun, hip, hroute⟩,
        by simp [Run.renameCall], .inr ?_⟩
      exact htaken.1 (by simp [hfinal])
  · exact ⟨rfl, ⟨c, a, hc, hrun, hip, hroute⟩, by simp [Run.renameCall], .inl hfail.symm⟩

end

/-- The end of the switch: under the final name the new container serves, with
either outcome of the last routing apply. -/
theorem applyRouting_spec (hdirect : r.direct = true) (hw : w.server.Serves r.namingIdentity) :
    Proc.wp (failing O) (applyRouting r).run
      (fun _ w => w.server.Serves r.namingIdentity) w := by
  unfold applyRouting applyRoutingTo
  rw [routeTarget_direct hdirect]
  refine wp_run_bind (wp_pure ?_)
  refine wp_run_bind (wp_proxy ?_)
  intro w₁ hw₁
  rw [← hw₁.server] at hw
  refine ⟨trivial, fun _ => ?_, fun _ => ?_⟩
  · exact wp_pure (Server.serves_routeTo_name hw.running)
  · exact wp_throw hw

/-- A container that serves under another name than the candidate's survives
the compensation. -/
theorem conclude_serves (hn : n ≠ r.candidate) (hw : w.server.Serves n) :
    Proc.wp (failing O) (conclude polls r (rt, y)) (fun _ w => w.server.Serves n) w := by
  refine wp_of_makes (makes_conclude y) (fun _ _ => trivial) ?_ ?_ hw
  · intro w w' hw h
    rw [h.server]
    exact hw
  · intro c o w hc hw _
    cases hc with
    | candidate =>
      cases o with
      | fails => exact hw
      | succeeds =>
        exact hw.congr (Server.containerRemove_of_ne hn)
          (w.server.containerRemove_route r.candidate)
    | preview id | error msg | status => exact hw

theorem OnCandidate.kept (h : OnCandidate r s) : Kept r s := by
  exact .inr (.inr h.serves)

/-- Removing the container that the route designates by its address leaves
nothing that serves: no other container has that address. -/
theorem OnCandidate.lost_of_remove (h : OnCandidate r s) :
    ¬ Kept r (s.containerRemove r.candidate).2 := by
  obtain ⟨c, a, hc, _, hip, hroute⟩ := h
  have hnone : ∀ n, ¬ (s.containerRemove r.candidate).2.Serves n := by
    rintro n ⟨d, hd, _, hdes⟩
    rw [Server.containerRemove_route, hroute] at hdes
    rcases hdes with hname | ⟨b, hb, hroute'⟩
    · cases hname
    · injection hroute' with hroute'
      injection hroute' with hab
      by_cases hn : n = r.candidate
      · rw [hn, Server.containerRemove_self] at hd
        cases hd
      · rw [Server.containerRemove_of_ne hn] at hd
        exact hn (s.ip_inj hd hc hb (by rw [hip, hab]))
  rintro (hk | hk | hk) <;> exact hnone _ hk

/-- Code that does not touch the server keeps every fact about it. -/
theorem wp_server {P : Server → Prop} (hp : Makes R p)
    (hR : ∀ c, R c → c.touchesServer = false) (hw : P w.server) :
    Proc.wp (failing O) p (fun _ w => P w.server) w := by
  refine wp_of_makes hp (fun _ _ => trivial) ?_ ?_ hw
  · intro w w' hw h
    rw [h.server]
    exact hw
  · intro c o w hc hw _
    have hs : (sem c o w).2.server = w.server :=
      sem_server_of_not (hR c hc) o w
    exact hs.symm ▸ hw

theorem wp_log (p : Prog Ans α) (hlog : c₀ ∈ w.log) :
    Proc.wp (failing O) p (fun _ w => c₀ ∈ w.log) w := by
  induction p generalizing w with
  | ret a => exact hlog
  | call c next ih =>
    intro w₁ hw₁
    refine ⟨trivial, fun o _ => ih _ ?_⟩
    exact List.mem_cons_of_mem c (hw₁.log ▸ hlog)

/-- The compensation after a failed rename: the candidate was the serving
container, so the instance is kept exactly when the removal fails. -/
theorem conclude_stranded (hw : OnCandidate r w.server) (hlog : r.renameCall ∈ w.log) :
    Proc.wp (failing O) (conclude polls r (true, .error (.failed msg)))
      (fun _ w => (Kept r w.server ↔ O r.compensationCall = .fails) ∧
        r.renameCall ∈ w.log) w := by
  have hremove : ∀ w, OnCandidate r w.server → r.renameCall ∈ w.log →
      Proc.wp (failing O) (compensate r true).run (fun y w => y = .ok () ∧
        (Kept r w.server ↔ O r.compensationCall = .fails) ∧
        r.renameCall ∈ w.log) w := by
    intro w hw hlog
    refine wp_run_bind (wp_lift ?_)
    rw [removeNamedContainers_one]
    intro w₁ hw₁
    refine ⟨trivial, ?_⟩
    rintro o rfl
    rw [← hw₁.server] at hw
    rw [← hw₁.log] at hlog
    refine ⟨rfl, ?_, List.mem_cons_of_mem _ hlog⟩
    change Kept r (sem r.compensationCall (O r.compensationCall) w₁).2.server ↔ _
    cases O r.compensationCall with
    | fails => exact iff_of_true hw.kept rfl
    | succeeds => exact iff_of_false hw.lost_of_remove (by simp)
  have hrest : ∀ w, (Kept r w.server ↔ O r.compensationCall = .fails) →
      r.renameCall ∈ w.log →
      Proc.wp (failing O) (do
        ask (.setDeploymentError r.d.id msg)
        setStatus polls r .failed : RunM Unit).run (fun _ w =>
        (Kept r w.server ↔ O r.compensationCall = .fails) ∧
        r.renameCall ∈ w.log) w := by
    intro w hw hlog
    refine wp_and (wp_server (P := fun s =>
      Kept r s ↔ O r.compensationCall = .fails)
      (R := fun c => c.touchesServer = false) ?_ (fun _ h => h) hw)
      (wp_log _ hlog)
    exact Makes.run_bind (Makes.call rfl fun _ => makes_ret _ _) fun _ =>
      Makes.call rfl fun _ => makes_ret _ _
  have htail : ∀ w, OnCandidate r w.server → r.renameCall ∈ w.log →
      Proc.wp (failing O) (do
        compensate r true
        ask (.setDeploymentError r.d.id msg)
        setStatus polls r .failed : RunM Unit).run (fun _ w =>
        (Kept r w.server ↔ O r.compensationCall = .fails) ∧
        r.renameCall ∈ w.log) w := by
    intro w hw hlog
    refine wp_run_bind (wp_mono (hremove w hw hlog) ?_)
    rintro _ w ⟨rfl, hw, hlog⟩
    exact hrest w hw hlog
  refine wp_bind (wp_run_bind ?_)
  unfold markPreviewFailed
  cases r.preview with
  | none => exact htail w hw hlog
  | some p =>
    refine wp_ask ?_
    intro w₁ hw₁
    refine ⟨trivial, ?_⟩
    intro o _
    refine htail _ ?_ ?_
    · change OnCandidate r w₁.server
      rw [hw₁.server]
      exact hw
    · exact List.mem_cons_of_mem _ (by rw [hw₁.log]; exact hlog)

/-! ## A whole attempt -/

/-- Where an attempt can stand when `execute` returns: the switch was not
made, or it was made, or its rename failed. -/
inductive Standing (O : Call → Outcome) (r : Run) (w₀ : World) :
    Except RunError Unit → World → Prop where
  | untouched (y : Except RunError Unit) (w : World)
      (h : Untouched r w₀ w) : Standing O r w₀ y w
  | promoted (y : Except RunError Unit) (w : World)
      (h : w.server.Serves r.namingIdentity) (hr : ¬ RenameFails O r w₀) :
      Standing O r w₀ y w
  | stranded (msg : String) (w : World) (h : OnCandidate r w.server)
      (hlog : r.renameCall ∈ w.log) (hr : RenameFails O r w₀) :
      Standing O r w₀ (.error (.failed msg)) w

/-- Past the barrier, one of the three. -/
theorem switchTraffic_spec {image : Image} (hroll : r.rolling = true)
    (hdirect : r.direct = true) (hne : r.oldName ≠ r.candidate)
    (hold : w₀.server.containers r.oldName ≠ none)
    (hw : Untouched r w₀ w) :
    Proc.wp (failing O) (switchTraffic polls r image).run (Standing O r w₀) w := by
  have hserved : ∀ w, w.server.Serves r.namingIdentity →
      ¬ RenameFails O r w₀ →
      Proc.wp (failing O) (do
        applyRouting r
        finish polls r image : RunM Unit).run (Standing O r w₀) w := by
    intro w hw hr
    refine wp_run_bind (wp_mono (applyRouting_spec hdirect hw) ?_)
    intro y w hw
    cases y with
    | error e => exact .promoted _ w hw hr
    | ok _ =>
      refine wp_mono (wp_server (P := fun s => s.Serves r.namingIdentity)
        within_finish.makes (fun _ h => h.not_touchesServer) hw) ?_
      intro y w hw
      exact .promoted y w hw hr
  rw [switchTraffic, if_pos hroll]
  refine wp_run_bind (wp_run_bind (wp_mono (resolveEndpoint_spec hw) ?_))
  rintro y w ⟨hw, hip⟩
  cases y with
  | error e => exact .untouched _ w hw
  | ok a =>
    obtain ⟨c, hc, ha⟩ := hip a rfl
    refine wp_run_bind (wp_mono (switchRouting_spec hdirect hw hc ha) ?_)
    intro y w hy
    cases y with
    | error e => exact .untouched _ w hy
    | ok _ =>
      obtain ⟨hcand, _, hothers⟩ := hy
      refine wp_mono (promoteCandidate_spec hne ⟨hcand, fun n hn _ => hothers n hn⟩ ?_) ?_
      · rw [hothers _ hne]
        exact hold
      · intro y w hy
        cases y with
        | error e =>
          obtain ⟨rfl, hcand, hlog, hr⟩ := hy
          exact .stranded _ w hcand hlog hr
        | ok _ => exact hserved w hy.1 hy.2

/-- The part of an attempt that has the Docker runtime. -/
theorem deploy_spec (hstatus : r.d.status.pastBarrier = false)
    (hroll : r.rolling = true) (hdirect : r.direct = true)
    (hne : r.oldName ≠ r.candidate)
    (hold : w₀.server.containers r.oldName ≠ none)
    (hw : Untouched r w₀ w) :
    Proc.wp (failing O) (deploy polls r).run (Standing O r w₀) w := by
  refine wp_run_bind (wp_mono ((phase_must_neutral (r := r)).untouched hroll hw) ?_)
  intro y w hw
  cases y with
  | error e => exact .untouched _ w hw
  | ok _ =>
  refine wp_run_bind (wp_mono ((phase_dialBuildServer.mono
    fun _ => Opening.preSwitch).untouched hroll hw) ?_)
  intro y w hw
  cases y with
  | error e => exact .untouched _ w hw
  | ok _ =>
  rw [resume, hstatus]
  refine wp_run_bind (wp_pure ?_)
  refine wp_run_bind (wp_mono (phase_beforeSwitch.untouched hroll hw) ?_)
  intro y w hw
  cases y with
  | error e => exact .untouched _ w hw
  | ok image =>
  refine wp_run_bind (wp_ask ?_)
  intro w₁ hw₁
  refine ⟨trivial, fun o _ => ?_⟩
  have hspare : Spares r (.setDeploymentStatus r.d.id .switching) := trivial
  exact switchTraffic_spec hroll hdirect hne hold (hspare.untouched (hw.jobsOnly hw₁) o)

/-- The outcomes in which the switch strands the instance: its rename is made
and fails, and the compensation removes the candidate. -/
def Strands (O : Call → Outcome) (r : Run) (w₀ w : World) : Prop :=
  r.renameCall ∈ w.log ∧ RenameFails O r w₀ ∧ O r.compensationCall = .succeeds

/-- What the compensation makes of each way an attempt can stand. -/
theorem Standing.conclude (h : Standing O r w₀ y w)
    (hrt : rt = true ∨ Untouched r w₀ w) (hold : w₀.server.Serves r.oldName)
    (hne : r.oldName ≠ r.candidate) :
    Proc.wp (failing O) (conclude polls r (rt, y))
      (fun _ w => Kept r w.server ↔ ¬ Strands O r w₀ w) w := by
  have hfree : ∀ w, Untouched r w₀ w → (Kept r w.server ↔ ¬ Strands O r w₀ w) := by
    intro w hw
    exact iff_of_true (.inl (hw.serves hold hne)) fun hs => hw.log hs.1
  rcases hrt with rfl | hu
  · cases h with
    | untouched y w hu => exact wp_mono (conclude_untouched hu) fun _ => hfree
    | promoted y w hs hr =>
      refine wp_mono (conclude_serves r.candidate_ne.symm hs) ?_
      intro _ w hs
      exact iff_of_true (.inr (.inl hs)) fun hstr => hr hstr.2.1
    | stranded msg w hc hlog hr =>
      refine wp_mono (conclude_stranded hc hlog) ?_
      rintro _ w ⟨hkept, hlog⟩
      rw [hkept]
      constructor
      · rintro hf ⟨_, _, hs⟩
        cases hf.symm.trans hs
      · intro hn
        cases hO : O r.compensationCall with
        | fails => rfl
        | succeeds => exact absurd ⟨hlog, hr, hO⟩ hn
  · exact wp_mono (conclude_untouched hu) fun _ => hfree

theorem attempt_spec (hstatus : r.d.status.pastBarrier = false)
    (hroll : r.rolling = true) (hdirect : r.direct = true)
    (hold : w₀.server.Serves r.oldName) (hne : r.oldName ≠ r.candidate)
    (hw : Untouched r w₀ w) :
    Proc.wp (failing O) ((execute polls r).bind (Deploy.conclude polls r))
      (fun _ w => Kept r w.server ↔ ¬ Strands O r w₀ w) w := by
  have hsome : w₀.server.containers r.oldName ≠ none := by
    obtain ⟨c, hc, _⟩ := hold
    simp [hc]
  refine wp_attempt (wp_mono ((phase_connect.mono
    fun _ => Opening.preSwitch).untouched hroll hw) ?_)
  intro y w hw
  cases y with
  | error e =>
    exact (Standing.untouched _ w hw).conclude (.inr hw) hold hne
  | ok _ =>
    refine wp_mono (deploy_spec hstatus hroll hdirect hne hsome hw) ?_
    intro y w hy
    exact hy.conclude (.inl rfl) hold hne

end

/-- After a rolling attempt that starts from a running, routed old container,
some container of the instance is running and routed, unless the rename of the
switch was made and failed and the compensation then removed the candidate.
The outcomes `O` of the calls are arbitrary, and cancel requests may arrive at
any time. -/
theorem execute_kept_iff (polls jobID id : Nat) (O : Call → Outcome)
    (w : World) (r : Run) (hrun : w.run? jobID id = some r)
    (hstatus : r.d.status.pastBarrier = false) (hroll : r.rolling = true)
    (hdirect : r.direct = true) (hold : w.server.Serves r.oldName)
    (hne : r.oldName ≠ r.candidate) (hlog : w.log = []) (res : JobResult)
    (w' : World)
    (hruns : Runs (failing O) (Execute polls jobID id) w res w') :
    Kept r w'.server ↔ ¬ Strands O r w w' := by
  have hstart : Untouched r w w :=
    ⟨fun _ _ => rfl, rfl, by simp [hlog]⟩
  have hkept : ∀ w', Untouched r w w' → (Kept r w'.server ↔ ¬ Strands O r w w') := by
    intro w' hw'
    exact iff_of_true (.inl (hw'.serves hold hne)) fun hs => hw'.log hs.1
  refine hruns.post (Q := fun _ w' => Kept r w'.server ↔ ¬ Strands O r w w') ?_
  refine wp_Execute (K := Untouched r w) (fun _ _ h => h)
    (fun _ _ => trivial) (fun _ _ hw h => hw.jobsOnly h) ?_ hrun ?_ ?_ ?_
    hstart
  · intro w' c hc hw'
    exact hw'.logged (by rintro rfl; cases hc)
  · intro w' hw' _
    exact hkept w' hw'
  · intro w' hw' _
    exact hkept _ (hw'.logged (by simp [Run.renameCall]))
  · intro _ w' hw'
    exact attempt_spec hstatus hroll hdirect hold hne hw'

def allBut (c₀ c : Call) : Outcome :=
  if c = c₀ then .fails else .succeeds

/-- The attempt in which the rename of the switch fails and everything else
succeeds. -/
def strandedEnd : JobResult × World :=
  (Execute 1 7 1).exec (fun c w => sem c (allBut shopRun.renameCall c) w) shopWorld

theorem strandedEnd_runs :
    Runs (failing (allBut shopRun.renameCall)) (Execute 1 7 1) shopWorld
      strandedEnd.1 strandedEnd.2 :=
  runs_exec JobsOnly.refl (fun c _ => ⟨allBut shopRun.renameCall c, rfl, rfl⟩) _ _

theorem execute_kept_iff_shop :
    Kept shopRun strandedEnd.2.server ↔
      ¬ Strands (allBut shopRun.renameCall) shopRun shopWorld strandedEnd.2 :=
  execute_kept_iff 1 7 1 (allBut shopRun.renameCall) shopWorld shopRun rfl rfl
    rfl rfl (by decide) (by decide) rfl strandedEnd.1 strandedEnd.2
    strandedEnd_runs

/-- A rename that fails leaves the application without its serving
container, although the old container was running and routed. -/
theorem failed_rename_strands :
    shopWorld.server.Serves shopRun.oldName ∧
      Runs (failing (allBut shopRun.renameCall)) (Execute 1 7 1) shopWorld
        strandedEnd.1 strandedEnd.2 ∧
      ¬ Kept shopRun strandedEnd.2.server :=
  ⟨by decide, strandedEnd_runs, by decide⟩

end Akerdock.Deploy
