import Akerdock.Deploy.Footprint

/-!
# Rules for the engine

The weakest-precondition rules of `Lib.Wp` at the calls of the engine.
`setting ok rely inv` is the setting of all of them: calls act by `sem`, and
what varies is which outcomes a run may take, what others do meanwhile, and
the invariant.

`wp_ask` is the rule of a single call, `wp_orFail` and `wp_lift` are those of
the container helpers, `Phase.wp` is the rule for everything that happens
before the switch, and `wp_attempt` the one for a whole attempt.  The calls of
the compensations are listed by `Concluding`.
-/

namespace Akerdock.Deploy

open Store Docker Proc Proc.Prog Table

def system (ok : Call → Outcome → World → Prop)
    (rely : World → World → Prop) : System Ans Outcome World where
  sem := sem
  ok := ok
  rely := rely

/-- The system of an attempt with an invariant. -/
def setting (ok : Call → Outcome → World → Prop)
    (rely : World → World → Prop) (inv : World → Prop) :
    Setting Ans Outcome World :=
  (system ok rely).keeping inv

variable {c : Call} {site : Site} {msg : String} {id : Nat} {w : World} {r : Run}

section Rules

variable {ok : Call → Outcome → World → Prop} {rely : World → World → Prop}
    {inv : World → Prop} {α : Type} {w : World}

theorem wp_ask (h : ∀ w₁, rely w w₁ → inv w₁ ∧ ∀ o, ok c o w₁ →
      Q (.ok (sem c o w₁).1) (sem c o w₁).2) :
    wp (setting ok rely inv) (ask c).run Q w :=
  h

/-- A call that succeeds or fails. -/
theorem wp_call (h : ∀ w₁, rely w w₁ → inv w₁ ∧
      (ok c .succeeds w₁ → Q (sem c .succeeds w₁).1 (sem c .succeeds w₁).2) ∧
      (ok c .fails w₁ → Q (sem c .fails w₁).1 (sem c .fails w₁).2)) :
    wp (setting ok rely inv) (perform c) Q w := by
  intro w₁ hw
  obtain ⟨hinv, hs, hf⟩ := h w₁ hw
  refine ⟨hinv, ?_⟩
  intro o ho
  cases o with
  | succeeds => exact hs ho
  | fails => exact hf ho

theorem wp_inspect (h : ∀ w₁, rely w w₁ → inv w₁ ∧
      (ok (.containerInspect site n) .succeeds w₁ →
        Q (.ok (w₁.server.containerInspect n)) (w₁.logged (.containerInspect site n))) ∧
      (ok (.containerInspect site n) .fails w₁ →
        Q (.ok (.error .other)) (w₁.logged (.containerInspect site n)))) :
    wp (setting ok rely inv) (ask (.containerInspect site n)).run Q w :=
  wp_call (Q := fun a => Q (.ok a)) h

theorem wp_docker (h : ∀ w₁, rely w w₁ → inv w₁ ∧
      (ok (.docker site op) .succeeds w₁ →
        Q (op.run w₁.server).1
          ((w₁.withServer (op.run w₁.server).2).logged (.docker site op))) ∧
      (ok (.docker site op) .fails w₁ → Q (.error .other) (w₁.logged (.docker site op)))) :
    wp (setting ok rely inv) (perform (Call.docker site op)) Q w :=
  wp_call h

theorem wp_proxy (h : ∀ w₁, rely w w₁ → inv w₁ ∧
      (ok (.applyProxy site t) .succeeds w₁ →
        Q (.ok true) ((w₁.withServer (w₁.server.routeTo t)).logged (.applyProxy site t))) ∧
      (ok (.applyProxy site t) .fails w₁ → Q (.ok false) (w₁.logged (.applyProxy site t)))) :
    wp (setting ok rely inv) (ask (.applyProxy site t)).run Q w :=
  wp_call (Q := fun a => Q (.ok a)) h

theorem wp_pure (h : Q (.ok a) w) : wp (setting ok rely inv) (pure a : RunM α).run Q w :=
  h

theorem wp_throw (h : Q (.error e) w) : wp (setting ok rely inv) (throw e : RunM α).run Q w :=
  h

/-- A container helper: its error becomes the error of the attempt. -/
theorem wp_orFail (h : wp (setting ok rely inv) p
      (fun a w => match a with
        | .ok () => Q (.ok ()) w
        | .error _ => Q (.error (.failed msg)) w) w) :
    wp (setting ok rely inv) (orFail msg p).run Q w := by
  refine wp_run_bind ?_
  refine wp_bind (wp_mono h ?_)
  intro a w ha
  cases a with
  | error e | ok _ => exact ha

theorem wp_lift (h : wp (setting ok rely inv) p (fun a w => Q (.ok a) w) w) :
    wp (setting ok rely inv) (ExceptT.lift p : RunM α).run Q w :=
  wp_bind h

/-- The answer of `removeNamedContainers` for one container. -/
def tolerateMissing : Except DockerError Unit → Except DockerError Unit
  | .error .notFound => .ok ()
  | a => a

theorem removeNamedContainers_one (site : Site) (n : String) :
    removeNamedContainers site [n] =
      .call (.docker site (.remove n)) fun a => .ret (tolerateMissing a) := by
  unfold removeNamedContainers
  congr 1
  funext a
  cases a with
  | ok _ => rfl
  | error e => cases e <;> rfl

/-- Code from before the switch keeps what its calls keep, and leaves with
`cancelled` only through a checkpoint that found the flag. -/
theorem Phase.wp (h : Phase R x) {J : Bool → World → Prop}
    (hinv : ∀ s w, J s w → inv w) (hrely : ∀ s w w', J s w → rely w w' → J s w')
    (hstep : ∀ c o w, R c → J false w → ok c o w →
      J (flagSeen false c (sem c o w).1) (sem c o w).2) (hw : J false w) :
    wp (setting ok rely inv) x.run
      (fun y w => ∃ s, (s = true ↔ y = .error .cancelled) ∧ J s w) w := by
  refine wp_of_follows h hinv hrely ?_ hw
  rintro s c o w ⟨rfl, hc⟩ hJ ho
  exact hstep c o w hc hJ ho

/-- An attempt: `connect`, then `deploy`, then what `Execute` makes of the
result. -/
theorem wp_attempt (h : wp (setting ok rely inv) (connect polls r).run
      (fun x w => match x with
        | .error e => wp (setting ok rely inv) (conclude polls r (false, .error e)) Q w
        | .ok () => wp (setting ok rely inv) (deploy polls r).run
            (fun y w => wp (setting ok rely inv) (conclude polls r (true, y)) Q w) w) w) :
    wp (setting ok rely inv) ((execute polls r).bind (conclude polls r)) Q w := by
  refine wp_bind ?_
  refine wp_bind (wp_mono h ?_)
  intro x w hx
  cases x with
  | error e => exact hx
  | ok _ => exact wp_bind hx

end Rules

/-- The deployment of the run that `newRun` builds is the persisted one. -/
theorem World.run?_row (h : w.run? jobID id = some r) :
    row? Deployment.id id w.deployments = some r.d := by
  unfold World.run? at h
  split at h
  · cases h
  · rename_i d hd
    rw [hd]
    split at h
    · cases h
      rfl
    · obtain ⟨p, _, rfl⟩ := Option.map_eq_some_iff.1 h
      rfl

/-- What others do meanwhile: they change jobs. -/
structure JobsOnly (w w' : World) : Prop where
  app : w'.app = w.app
  deployments : w'.deployments = w.deployments
  previews : w'.previews = w.previews
  server : w'.server = w.server
  log : w'.log = w.log

theorem JobsOnly.refl (w : World) : JobsOnly w w :=
  ⟨rfl, rfl, rfl, rfl, rfl⟩

/-- An attempt, from the reads of `newRun` on, while others change jobs at
most: what it read is what `run?` says. -/
theorem wp_Execute {K : World → Prop} {Q : JobResult → World → Prop}
    (hjobs : ∀ w w', rely w w' → JobsOnly w w') (hinv : ∀ w, K w → inv w)
    (hrely : ∀ w w', K w → rely w w' → K w')
    (hread : ∀ w c, c.neutral = true → K w → K (w.logged c))
    (hrun : w.run? jobID id = some r)
    (hdone : ∀ w, K w → r.d.status.terminal = true → Q (.deploymentStatus r.d.status) w)
    (hfail : ∀ w, K w → ok .getApplicationByID .fails w →
      Q (.error "vanished") (w.logged .getApplicationByID))
    (hgo : r.d.status.terminal = false → ∀ w, K w →
      wp (setting ok rely inv)
        ((execute polls r).bind (conclude polls r)) Q w) (hw : K w) :
    wp (setting ok rely inv) (Execute polls jobID id) Q w := by
  intro w₁ hw₁
  have hK₁ := hrely w w₁ hw hw₁
  replace hw₁ := hjobs w w₁ hw₁
  refine ⟨hinv w₁ hK₁, fun o _ => ?_⟩
  change wp _ (executeRow polls jobID
    (row? Deployment.id id w₁.deployments)) Q
    (w₁.logged (.getDeploymentByID id))
  replace hK₁ := hread w₁ (.getDeploymentByID id) rfl hK₁
  rw [hw₁.deployments]
  have hd := World.run?_row hrun
  simp only [World.run?, hd] at hrun
  rw [hd, executeRow]
  by_cases hterm : r.d.status.terminal = true
  · rw [if_pos hterm]
    exact hdone _ hK₁ hterm
  · rw [if_neg hterm]
    replace hgo := hgo (Bool.eq_false_iff.2 hterm)
    refine wp_bind ?_
    intro w₂ hw₂
    have hK₂ := hrely _ w₂ hK₁ hw₂
    replace hw₂ := hjobs _ w₂ hw₂
    refine ⟨hinv w₂ hK₂, fun o ho => ?_⟩
    cases o with
    | fails => exact hfail w₂ hK₂ ho
    | succeeds =>
      change wp _ (readPreview jobID r.d w₂.app) _ (w₂.logged .getApplicationByID)
      replace hK₂ := hread w₂ .getApplicationByID rfl hK₂
      rw [hw₂.app, World.logged_app, hw₁.app]
      unfold readPreview
      split
      · rename_i hp
        simp only [hp] at hrun
        rw [Option.some.inj hrun]
        exact hgo _ hK₂
      · rename_i pid hp
        simp only [hp] at hrun
        intro w₃ hw₃
        have hK₃ := hrely _ w₃ hK₂ hw₃
        replace hw₃ := hjobs _ w₃ hw₃
        refine ⟨hinv w₃ hK₃, fun o _ => ?_⟩
        change wp _ (executeRun polls
          ((row? Preview.id pid w₃.previews).map _)) Q
          (w₃.logged (.getPreviewByID pid))
        have hpre : w₃.previews = w.previews :=
          hw₃.previews.trans (hw₂.previews.trans hw₁.previews)
        rw [hpre, hrun]
        exact hgo _ (hread w₃ (.getPreviewByID pid) rfl hK₃)

theorem World.run?_id (h : w.run? jobID id = some r) : r.d.id = id :=
  row?_key (World.run?_row h)

theorem World.run?_status (h : w.run? jobID id = some r) : w.status? r.d.id = some r.d.status := by
  rw [World.status?, World.run?_id h, World.run?_row h]
  rfl

/-! ## Calls and errors of code that cannot be cancelled -/

/-- `x` makes only calls in `R`, and leaves early only with errors in `E`. -/
def Within {α : Type} (R : Call → Prop) (E : RunError → Prop) (x : RunM α) : Prop :=
  Follows (fun _ _ _ => ()) (fun _ c => R c) (fun _ y => ∀ e, y = .error e → E e) () x.run

section Within

variable {α β : Type}

theorem within_pure (a : α) : Within R E (pure a : RunM α) :=
  .ret () _ nofun

theorem within_throw (h : E e) : Within R E (throw e : RunM α) := by
  refine .ret () _ ?_
  rintro e' ⟨⟩
  exact h

theorem within_ask (h : R c) : Within R E (ask c) :=
  .call () c _ h fun _ => within_pure _

theorem Within.bind (h : Within R E x) (hf : ∀ a, Within R E (f a)) : Within R E (x >>= f) := by
  refine Follows.run_bind h (fun _ a _ => hf a) ?_
  rintro _ e he e' ⟨⟩
  exact he e rfl

theorem Within.mono (h : Within R E x) (hR : ∀ c, R c → R' c)
    (hE : ∀ e, E e → E' e) : Within R' E' x :=
  Follows.mono h (fun _ c => hR c) fun _ _ h e he => hE e (h e he)

theorem Within.makes (h : Within R E x) : Makes R x.run :=
  Follows.mono h (fun _ _ h => h) fun _ _ _ => trivial

theorem within_must (h : R (.remote s)) (he : E (.failed msg)) : Within R E (must s msg) := by
  refine Within.bind (within_ask h) ?_
  intro a
  cases a
  · exact within_throw he
  · exact within_pure ()

theorem within_lift (h : Makes R p) : Within R E (ExceptT.lift p : RunM α) :=
  Follows.bind h fun _ _ _ => within_pure _

theorem within_orFail (h : Makes R p) (he : E (.failed msg)) : Within R E (orFail msg p) := by
  refine Within.bind (within_lift h) ?_
  intro a
  cases a
  · exact within_throw he
  · exact within_pure ()

end Within

/-! ## The calls of the compensations -/

/-- The status that `Execute` writes when `execute` left with an error. -/
def closing : Except RunError Unit → DeploymentStatus
  | .error .cancelled => .cancelled
  | _ => .failed

/-- The calls that `Execute` makes after `execute` returned, when it closes
the deployment with `t`. -/
inductive Concluding (r : Run) (t : DeploymentStatus) : Call → Prop where
  | preview (id : Nat) : Concluding r t (.setPreviewStatus id .failed none)
  | candidate : Concluding r t (.docker .compensation (.remove r.candidate))
  | error (msg : String) : Concluding r t (.setDeploymentError r.d.id msg)
  | status : Concluding r t (.setDeploymentStatus r.d.id t)

section Concluding

variable {t : DeploymentStatus}

theorem within_compensate (h : R (.docker .compensation (.remove r.candidate))) :
    Within R E (compensate r rt) := by
  unfold compensate
  split
  · refine Within.bind (within_lift ?_) fun _ => within_pure _
    rw [removeNamedContainers_one]
    exact Makes.call h fun _ => makes_ret _ _
  · exact within_pure ()

theorem within_markPreviewFailed : Within (Concluding r t) E (markPreviewFailed r) := by
  unfold markPreviewFailed
  split
  · exact within_ask (.preview _)
  · exact within_pure ()

theorem within_markCancelled : Within (Concluding r .cancelled) E (markCancelled polls r rt) :=
  Within.bind (within_compensate .candidate) fun _ => within_ask .status

theorem within_markFailed : Within (Concluding r .failed) E (markFailed polls r rt msg) :=
  Within.bind within_markPreviewFailed fun _ =>
    Within.bind (within_compensate .candidate) fun _ =>
      Within.bind (within_ask (.error msg)) fun _ => within_ask .status

theorem makes_conclude (y : Except RunError Unit) :
    Makes (Concluding r (closing y)) (conclude polls r (rt, y)) := by
  cases y with
  | ok _ => exact makes_ret _ _
  | error e =>
    cases e with
    | cancelled =>
      exact Makes.bind (within_markCancelled (E := fun _ => True)).makes fun _ => makes_ret _ _
    | stateChanged s | contextDone => exact makes_ret _ _
    | failed msg =>
      exact Makes.bind (within_markFailed (E := fun _ => True)).makes fun _ => makes_ret _ _

theorem closing_eq (y : Except RunError Unit) : closing y = .failed ∨ closing y = .cancelled := by
  unfold closing
  split
  · exact .inr rfl
  · exact .inl rfl

end Concluding

/-! ## The calls of the tail -/

inductive Settling (r : Run) : Call → Prop where
  | adoption : Settling r .clearResourceAdoption
  | artifact (image : Image) : Settling r (.createDeploymentArtifact r.d.id image)
  | prune : Settling r (.remote .pruneOldImages)
  | preview (id : Nat) : Settling r (.setPreviewDeployed id)
  | status : Settling r (.setDeploymentStatus r.d.id .finishing)

/-- `settle` never leaves early. -/
theorem within_settle : Within (Settling r) (fun _ => False) (settle polls r image) := by
  refine Within.bind (within_ask .status) fun _ => ?_
  refine Within.bind ?_ fun _ => ?_
  · unfold clearAdoption
    split
    · exact within_ask .adoption
    · exact within_pure ()
  refine Within.bind ?_ fun _ => ?_
  · unfold recordArtifact
    split
    · exact within_pure ()
    · exact within_ask (.artifact _)
  refine Within.bind ?_ fun _ => ?_
  · exact Within.bind (within_ask .prune) fun _ => within_pure _
  unfold markPreviewDeployed
  split
  · exact within_ask (.preview _)
  · exact within_pure ()

inductive Finishing (r : Run) : Call → Prop where
  | settling (c : Call) (h : Settling r c) : Finishing r c
  | succeeded : Finishing r (.setDeploymentStatus r.d.id .succeeded)

theorem within_finish : Within (Finishing r) (fun _ => False) (finish polls r image) := by
  refine Within.bind (within_settle.mono .settling fun _ h => h) fun _ => ?_
  exact within_ask .succeeded

theorem Settling.not_touchesServer (h : Settling r c) : c.touchesServer = false := by
  cases h <;> rfl

theorem Finishing.not_touchesServer (h : Finishing r c) : c.touchesServer = false := by
  cases h with
  | settling c h => exact h.not_touchesServer
  | succeeded => rfl

/-! ## The calls past the barrier -/

/-- The calls that the run `r` makes once the switch has started. -/
inductive Switching (r : Run) : Call → Prop where
  | inspect (site : Site) (n : String) (h : site ≠ .startCandidate) :
      Switching r (.containerInspect site n)
  | container (op : DockerOp) : Switching r (.docker .switch op)
  | route (site : Site) (t : Option Target) : Switching r (.applyProxy site t)
  | waker : Switching r (.remote .ensureAgent)
  | finishing (c : Call) (h : Finishing r c) : Switching r c

def RunError.isFailed : RunError → Prop
  | .failed _ => True
  | _ => False

theorem within_applyRoutingTo :
    Within (Switching r) RunError.isFailed (applyRoutingTo r endpoint) := by
  unfold applyRoutingTo
  split
  · exact within_pure ()
  · refine Within.bind ?_ fun _ => ?_
    · unfold ensureWaker
      split
      · exact within_must .waker trivial
      · exact within_pure ()
    · refine Within.bind (within_ask (.route _ _)) ?_
      intro a
      split
      · exact within_pure ()
      · exact within_throw trivial

theorem within_rename :
    Within (Switching r) RunError.isFailed (orFail "rename failed"
      (perform (Call.docker .switch (.rename r.candidate r.namingIdentity)))) :=
  within_orFail (Makes.call (.container _) fun _ => makes_ret _ _) trivial

theorem within_promoteCandidate : Within (Switching r) RunError.isFailed (promoteCandidate r) := by
  refine Within.bind ?_ fun _ => within_rename
  refine Within.bind (within_ask (.container _)) fun _ => ?_
  refine Within.bind (within_lift ?_) fun _ => within_pure _
  rw [removeNamedContainers_one]
  exact Makes.call (.container _) fun _ => makes_ret _ _

theorem within_resolveEndpoint : Within (Switching r) RunError.isFailed (resolveEndpoint r) := by
  refine Within.bind (within_ask (.inspect _ _ (by simp))) ?_
  intro a
  split
  · exact within_throw trivial
  · split
    · exact within_pure _
    · exact within_throw trivial

theorem within_rollingSwitch : Within (Switching r) RunError.isFailed (rollingSwitch r) :=
  Within.bind within_resolveEndpoint fun _ =>
    Within.bind within_applyRoutingTo fun _ => within_promoteCandidate

theorem within_plainSwitch : Within (Switching r) RunError.isFailed (plainSwitch r) := by
  refine Within.bind (within_ask (.inspect _ _ (by simp))) ?_
  intro a
  split
  · exact within_pure ()
  · exact within_throw trivial

theorem within_containerState :
    Within (Switching r) RunError.isFailed (containerState .resumeInspect n) := by
  refine Within.bind (within_ask (.inspect _ _ (by simp))) ?_
  intro a
  split
  · exact within_pure _
  · exact within_pure _
  · exact within_throw trivial

/-! ## Names and routes -/

/-- The candidate's name is not the final one. -/
theorem Run.candidate_ne (r : Run) : r.candidate ≠ r.namingIdentity := by
  intro h
  have hlen := congrArg String.length h
  simp [Run.candidate] at hlen

/-- The proxy routes this instance straight to its container. -/
def Run.direct (r : Run) : Bool :=
  r.app.traefik &&
    match r.preview with
    | some p => p.fqdn.isSome && !r.app.previewScaleToZero
    | none => !r.app.scaleToZero && r.app.hasDomain

theorem routeTarget_direct (h : r.direct = true) (endpoint : Option Nat) :
    routeTarget r endpoint = some (some (r.endpoint endpoint)) := by
  unfold Run.direct at h
  unfold routeTarget
  cases hp : r.preview with
  | some p =>
    cases hf : p.fqdn <;> simp_all
  | none => simp_all

/-- The final name is free as soon as the old container is gone. -/
def FinalNameFree (r : Run) (s : Server) : Prop :=
  r.oldName = r.namingIdentity ∨ s.containers r.namingIdentity = none

/-! ## Calls that spare the serving container -/

/-- A call that leaves the route and every container but the candidate
alone. -/
def Spares (r : Run) : Call → Prop
  | .docker _ op => ∀ n ∈ op.names, n = r.candidate
  | .applyProxy _ _ => False
  | _ => True

theorem PreSwitch.spares (hr : r.rolling = true) (h : PreSwitch r c) : Spares r c := by
  cases h with
  | neutral c h => cases c <;> trivial
  | checkpoint | start | status s h => trivial
  | container op h => exact h hr

theorem Concluding.spares (h : Concluding r t c) : Spares r c := by
  cases h with
  | preview id | error msg | status => trivial
  | candidate => simp [Spares, DockerOp.names]

/-- Such a call leaves every other container as it was. -/
theorem Spares.containers (h : Spares r c) (hn : n ≠ r.candidate) (o : Outcome) (w : World) :
    (sem c o w).2.server.containers n = w.server.containers n := by
  cases c with
  | docker site op =>
    cases o with
    | fails => rfl
    | succeeds =>
      exact op.run_of_notMem (fun hmem => hn (h n hmem)) w.server
  | applyProxy site t => exact absurd h id
  | _ => rfl

theorem Spares.route (h : Spares r c) (o : Outcome) (w : World) :
    (sem c o w).2.server.route = w.server.route := by
  cases c with
  | docker site op =>
    cases o with
    | fails => rfl
    | succeeds => exact op.run_route w.server
  | applyProxy site t => exact absurd h id
  | _ => rfl

/-- The route designates the address of the candidate, which runs. -/
def OnCandidate (r : Run) (s : Server) : Prop :=
  s.ServesByIp r.candidate

/-- An operation on other containers leaves the candidate serving. -/
theorem OnCandidate.docker (h : OnCandidate r w.server)
    (hop : r.candidate ∉ op.names) (o : Outcome) :
    OnCandidate r (sem (.docker site op) o w).2.server := by
  obtain ⟨c, a, hc, hrun, hip, hroute⟩ := h
  cases o with
  | fails => exact ⟨c, a, hc, hrun, hip, hroute⟩
  | succeeds =>
    refine ⟨c, a, ?_, hrun, hip, ?_⟩
    · exact (op.run_of_notMem hop w.server).trans hc
    · exact (op.run_route w.server).trans hroute

end Akerdock.Deploy
