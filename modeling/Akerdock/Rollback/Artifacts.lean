import Akerdock.Deploy.Attempts

/-!
# What a rollback may select

A deployment that has switched records its image as a rollback artifact, and
`RollbackApplication` redeploys one of those images without a build.  Preview
deployments record their images in the same table and under the same
resource.  This file models the handler with its three ways of selecting an
artifact and the histories that fill the table, and says which requests can
only reach an image of production.

* `resolveArtifact` gives the artifacts that the handler may select in a state.
* `HistoryStep` are the steps of a history: created deployments, the calls
  of their attempts with any outcome, reclaimed images, rollbacks, and the
  statements of other processes.
* `Ledger` is what a history keeps of the table: artifact ids are distinct, and
  each artifact was recorded by a call of the deployment that it names.
* `OnlyProduction` is the condition on a request, and `rollback_target_iff`
  says that it is exact.
-/

namespace Akerdock.Rollback

open Store Deploy Proc Table List Option

/-! ## The handler -/

/-- The body of a rollback request.  `deploymentUuid` is the field as
`pgtype.UUID.Scan` reads it: `some none` is a text that is not a UUID. -/
structure RollbackBody where
  deploymentUuid : Option (Option String)
  imageDigest : Option String

def recorded (w : World) : List (Artifact × Deployment) :=
  artifactsWithDeployment w.deployments w.artifacts

/-- `resolveArtifact`: the artifacts that the query of the request may answer
with. -/
def resolveArtifact (w : World) (resourceId : Nat) : RollbackBody → List Artifact
  | ⟨some none, _⟩ => []
  | ⟨some (some uuid), _⟩ =>
    (getArtifactForDeployment uuid resourceId (recorded w)).map Prod.fst
  | ⟨none, some digest⟩ =>
    ((getArtifactByDigest digest resourceId (recorded w)).map Prod.fst).toList
  | ⟨none, none⟩ =>
    ((getPreviousArtifact resourceId w.deployments (recorded w)).map Prod.fst).toList

/-- The replies of `RollbackApplication`. -/
inductive RollbackReply where
  | validationError (msg : String)
  | conflict (msg : String)
  | tooManyRequests (msg : String)
  | accepted (deploymentId : Nat)

/-- A request as `RollbackApplication` resolves it: the application, its
server and the limit of that server's queue, the body, and the new
deployment's UUID. -/
structure RollbackRequest where
  resourceId : Nat
  serverId : Nat
  deploymentQueueLimit : Nat
  body : RollbackBody
  uuid : String

def createRollback (q : RollbackRequest) (a : Artifact) (w : World) : RollbackReply × World :=
  let id := nextId Deployment.id w.deployments
  (.accepted id, { w with
    deployments := w.deployments ++ [rollbackDeployment id q.uuid q.resourceId q.serverId a]
    jobs := enqueueJob w.clock (.deploymentRun id)
      (some ("deploy:app:" ++ w.app.uuid)) 1 w.jobs })

/-- `RollbackApplication`.  `pick` is the row that the database answers with
where several match. -/
def RollbackApplication (q : RollbackRequest) (pick : Nat) (w : World) : RollbackReply × World :=
  if q.body.deploymentUuid.isSome && q.body.imageDigest.isSome then
    (.validationError "deployment_uuid and image_digest are mutually exclusive", w)
  else
    let rows := resolveArtifact w q.resourceId q.body
    match rows[pick % rows.length]? with
    | none =>
      (.conflict
        ("no rollback artifact is available — the requested image no longer " ++
         "exists (ADR-006)"), w)
    | some a =>
      if q.deploymentQueueLimit ≤
          countActiveDeploymentsForServer q.serverId w.deployments then
        (.tooManyRequests "the server deployment queue is full — retry later (§5.5)", w)
      else createRollback q a w

/-! ## Histories -/

/-- One step of the history of an application's deployments.

* `create` is `CreateDeployment` or `CreateNoBuildDeployment`, of production or
  of a preview.
* `call` is a call of an attempt, with any outcome.
* `deleteDeploymentArtifact` reclaims an image. -/
inductive HistoryStep (w : World) : World → Prop where
  | create (d : Deployment) (hid : d.id = nextId Deployment.id w.deployments)
      (hstatus : d.status = .queued) :
      HistoryStep w { w with deployments := w.deployments ++ [d] }
  | call (c : Call) (o : Outcome) : HistoryStep w (sem c o w).2
  | deleteDeploymentArtifact (id : Nat) : HistoryStep w
      { w with artifacts := deleteDeploymentArtifact id w.artifacts }
  | rollback (q : RollbackRequest) (pick : Nat) : HistoryStep w (RollbackApplication q pick w).2
  | other (w' : World) (h : OtherStep w w') : HistoryStep w w'

def History : World → World → Prop :=
  Relation.ReflTransGen HistoryStep

/-- Every run of an attempt is a piece of a history. -/
theorem history_exec (p : Prog Ans α) (w : World) : History w (p.exec smoothly w).2 := by
  induction p generalizing w with
  | ret a => exact .refl
  | call c next ih => exact .head (.call c .succeeds) (ih _ _)

theorem RollbackApplication_artifacts (q : RollbackRequest) (pick : Nat) (w : World) :
    (RollbackApplication q pick w).2.artifacts = w.artifacts ∧
      (RollbackApplication q pick w).2.log = w.log := by
  unfold RollbackApplication
  split
  · exact ⟨rfl, rfl⟩
  · dsimp only
    split
    · exact ⟨rfl, rfl⟩
    · split <;> exact ⟨rfl, rfl⟩

/-! ## The artifacts that a history leaves -/

/-- The artifact `a` was recorded by an attempt of the deployment that it
names, with that attempt's image. -/
def RecordedIn (log : List Call) (a : Artifact) : Prop :=
  ∃ image, Call.createDeploymentArtifact a.deploymentId image ∈ log ∧
    a.imageName = image.name.getD "" ∧ a.imageTag = image.tag ∧
    a.imageDigest = image.digest

/-- What a history keeps of the table of artifacts. -/
structure Ledger (w : World) : Prop where
  source : ∀ a ∈ w.artifacts, RecordedIn w.log a
  distinct : ∀ a ∈ w.artifacts, ∀ b ∈ w.artifacts, a.id = b.id → a = b

theorem RecordedIn.cons (h : RecordedIn log a) (c : Call) : RecordedIn (c :: log) a := by
  obtain ⟨image, hmem, himage⟩ := h
  exact ⟨image, mem_cons_of_mem _ hmem, himage⟩

theorem Ledger.same (h : Ledger w) (ha : w'.artifacts = w.artifacts)
    (hlog : w'.log = w.log) : Ledger w' := by
  refine ⟨?_, ?_⟩
  · rw [ha, hlog]
    exact h.source
  · rw [ha]
    exact h.distinct

/-- Only `createDeploymentArtifact` changes the table. -/
theorem sem_artifacts_of_not (o : Outcome) (w : World)
    (h : ∀ id image, c ≠ .createDeploymentArtifact id image) :
    (sem c o w).2.artifacts = w.artifacts := by
  cases c with
  | createDeploymentArtifact id image => exact absurd rfl (h id image)
  | docker site op | applyProxy site t => cases o <;> rfl
  | _ => rfl

theorem Ledger.sem (h : Ledger w) (c : Call) (o : Outcome) : Ledger (sem c o w).2 := by
  by_cases hc : ∃ id image, c = .createDeploymentArtifact id image
  · obtain ⟨id, image, rfl⟩ := hc
    refine ⟨?_, ?_⟩
    · exact forall_concat (fun a ha => (h.source a ha).cons _)
        ⟨image, mem_cons_self, rfl, rfl, rfl⟩
    · exact unique_concat h.distinct fun a ha => Nat.ne_of_lt (lt_nextId ha)
  · have hsame := sem_artifacts_of_not o w
      fun id image heq => hc ⟨id, image, heq⟩
    refine ⟨?_, ?_⟩
    · intro a ha
      rw [hsame] at ha
      exact (h.source a ha).cons c
    · rw [hsame]
      exact h.distinct

theorem Ledger.delete (h : Ledger w) (id : Nat) :
    Ledger { w with
      artifacts := deleteDeploymentArtifact id w.artifacts } := by
  have hsub : ∀ a ∈ deleteDeploymentArtifact id w.artifacts,
      a ∈ w.artifacts := fun a ha => (mem_filter.1 ha).1
  exact ⟨fun a ha => h.source a (hsub a ha),
    fun a ha b hb => h.distinct a (hsub a ha) b (hsub b hb)⟩

theorem Ledger.step (h : Ledger w) (hw : HistoryStep w w') : Ledger w' := by
  cases hw with
  | create d hid hstatus => exact h.same rfl rfl
  | call c o => exact h.sem c o
  | deleteDeploymentArtifact id => exact h.delete id
  | rollback q pick =>
    obtain ⟨ha, hlog⟩ := RollbackApplication_artifacts q pick w
    exact h.same ha hlog
  | other w' hother => cases hother <;> exact h.same rfl rfl

/-- Every history that starts without artifacts keeps it. -/
theorem Ledger.history {w₀ w : World} (h₀ : w₀.artifacts = []) (h : History w₀ w) : Ledger w := by
  induction h with
  | refl => exact ⟨by simp [h₀], by simp [h₀]⟩
  | tail _ hstep ih => exact ih.step hstep

/-! ## Requests that reach production only -/

def SucceededInProduction (d : Deployment) : Prop :=
  d.previewId = none ∧ d.status = .succeeded

/-- The artifact `a` was recorded by a deployment of production of the
application `resourceId` that has succeeded. -/
structure FromProduction (w : World) (resourceId : Nat) (a : Artifact) : Prop where
  recorded : RecordedIn w.log a
  deployment : ∃ d,
    row? Deployment.id a.deploymentId w.deployments = some d ∧
      d.resourceId = resourceId ∧ SucceededInProduction d

/-- The requests whose selection can only be an artifact of production.

* By UUID: all that the named deployment recorded counts, so it has to be a
  succeeded one of production, unless it recorded nothing.
* By digest: an artifact of another deployment with that digest has to be
  older than one of a succeeded deployment of production.
* Without a target: the candidates are of succeeded deployments, and those of
  previews have to be older than one of production. -/
def OnlyProduction (w : World) (resourceId : Nat) : RollbackBody → Prop
  | ⟨some none, _⟩ => True
  | ⟨some (some uuid), _⟩ => ∀ p ∈ recorded w, p.2.uuid = uuid →
      p.2.resourceId = resourceId → SucceededInProduction p.2
  | ⟨none, some digest⟩ =>
    ∀ p ∈ artifactsByDigest digest resourceId (recorded w),
      ¬ SucceededInProduction p.2 →
        ∃ q ∈ artifactsByDigest digest resourceId (recorded w),
          SucceededInProduction q.2 ∧ p.1.id < q.1.id
  | ⟨none, none⟩ =>
    ∀ p ∈ previousArtifacts resourceId w.deployments (recorded w),
      p.2.previewId ≠ none →
        ∃ q ∈ previousArtifacts resourceId w.deployments (recorded w),
          q.2.previewId = none ∧ p.1.id < q.1.id

theorem mem_recorded (h : p ∈ recorded w) : p.1 ∈ w.artifacts ∧
      row? Deployment.id p.1.deploymentId w.deployments = some p.2 := by
  obtain ⟨a, ha, hp⟩ := mem_filterMap.1 h
  obtain ⟨d, hd, rfl⟩ := map_eq_some_iff.1 hp
  exact ⟨ha, hd⟩

/-- What the ledger makes of the goal: only the deployment matters. -/
theorem Ledger.fromProduction_iff (h : Ledger w) (hp : p ∈ recorded w)
    (hr : p.2.resourceId = resourceId) :
    FromProduction w resourceId p.1 ↔ SucceededInProduction p.2 := by
  obtain ⟨hmem, hrow⟩ := mem_recorded hp
  constructor
  · rintro ⟨_, d, hd, _, hprod⟩
    rw [hrow] at hd
    exact some.inj hd ▸ hprod
  · intro hprod
    exact ⟨h.source p.1 hmem, p.2, hrow, hr, hprod⟩

theorem Ledger.recorded_inj (h : Ledger w) (hp : p ∈ recorded w)
    (hq : q ∈ recorded w) (hid : p.1.id = q.1.id) : p = q := by
  obtain ⟨hpa, hpd⟩ := mem_recorded hp
  obtain ⟨hqa, hqd⟩ := mem_recorded hq
  have ha : p.1 = q.1 := h.distinct p.1 hpa q.1 hqa hid
  rw [ha, hqd] at hpd
  exact Prod.ext ha (some.inj hpd).symm

/-- A selection of the latest row among those that `sel` keeps. -/
theorem Ledger.latest_iff (h : Ledger w) {P : Deployment → Prop}
    (hr : ∀ p, sel p = true → p.2.resourceId = resourceId)
    (hP : ∀ p, sel p = true → (SucceededInProduction p.2 ↔ P p.2)) :
    (∀ a ∈ ((latest (fun p => p.1.id) ((recorded w).filter sel)).map
        Prod.fst).toList, FromProduction w resourceId a) ↔
      ∀ p ∈ (recorded w).filter sel, ¬ P p.2 →
        ∃ q ∈ (recorded w).filter sel, P q.2 ∧ p.1.id < q.1.id := by
  have hgood : ∀ p, p ∈ (recorded w).filter sel →
      (FromProduction w resourceId p.1 ↔ P p.2) := by
    intro p hp
    obtain ⟨hmem, hsel⟩ := mem_filter.1 hp
    exact (h.fromProduction_iff hmem (hr p hsel)).trans (hP p hsel)
  have hinj : ∀ p ∈ (recorded w).filter sel,
      ∀ q ∈ (recorded w).filter sel, p.1.id = q.1.id → p = q :=
    fun p hp q hq =>
      h.recorded_inj (mem_filter.1 hp).1 (mem_filter.1 hq).1
  refine Iff.trans ?_ (latest_forall_iff (P := fun p => P p.2) hinj)
  constructor
  · intro hall p hp
    refine (hgood p (latest_spec hp).1).1 (hall p.1 ?_)
    simp [hp]
  · intro hall a ha
    simp only [mem_toList, map_eq_some_iff] at ha
    obtain ⟨p, hp, rfl⟩ := ha
    exact (hgood p (latest_spec hp).1).2 (hall p hp)

/-- In every history, a request selects artifacts of production only, exactly
if `OnlyProduction` holds of it. -/
theorem rollback_target_iff {w₀ w : World} (h₀ : w₀.artifacts = [])
    (h : History w₀ w) (resourceId : Nat) (body : RollbackBody) :
    (∀ a ∈ resolveArtifact w resourceId body, FromProduction w resourceId a) ↔
      OnlyProduction w resourceId body := by
  have hledger := Ledger.history h₀ h
  match body with
  | ⟨some none, _⟩ => simp [resolveArtifact, OnlyProduction]
  | ⟨some (some uuid), _⟩ =>
    constructor
    · intro hall p hp hu hr
      refine (hledger.fromProduction_iff hp hr).1 (hall p.1 ?_)
      refine mem_map.2 ⟨p, mem_filter.2 ⟨hp, ?_⟩, rfl⟩
      simp [hu, hr]
    · intro hall a ha
      obtain ⟨p, hp, rfl⟩ := mem_map.1 ha
      obtain ⟨hmem, hsel⟩ := mem_filter.1 hp
      simp only [Bool.and_eq_true, decide_eq_true_eq] at hsel
      exact (hledger.fromProduction_iff hmem hsel.2).2 (hall p hmem hsel.1 hsel.2)
  | ⟨none, some digest⟩ =>
    refine hledger.latest_iff ?_ fun p _ => Iff.rfl
    intro p hp
    simp only [Bool.and_eq_true, decide_eq_true_eq] at hp
    exact hp.2
  | ⟨none, none⟩ =>
    refine hledger.latest_iff (P := fun d => d.previewId = none) ?_ ?_
    · intro p hp
      simp only [Bool.and_eq_true, decide_eq_true_eq] at hp
      exact hp.1.1
    · intro p hp
      simp only [Bool.and_eq_true, decide_eq_true_eq] at hp
      exact ⟨fun hprod => hprod.1, fun hprod => ⟨hprod, hp.1.2⟩⟩

/-! ## A sample history -/

/-- The application built from its repository, with previews. -/
def gitShop : World :=
  { shopWorld with
    app := { shopApp with
      buildPack := .dockerfile
      gitRepositoryUrl := some "shop.git"
      previewsEnabled := true }
    deployments := []
    jobs := []
    previews := [shopPreview] }

/-- A deployment is created and its first attempt runs to its end. -/
def deployed (d : Deployment) (w : World) : World :=
  ((Execute 1 7 d.id).exec smoothly { w with deployments := w.deployments ++ [d] }).2

theorem history_deployed (hid : d.id = nextId Deployment.id w.deployments)
    (hstatus : d.status = .queued) : History w (deployed d w) :=
  .head (.create d hid hstatus) (history_exec _ _)

/-- A build of production. -/
def shopBuild (id : Nat) (uuid : String) : Deployment :=
  { shopDeployment with
    id := id, uuid := uuid, imageName := none, imageTag := none }

/-- A build of the pull request. -/
def previewBuild (id : Nat) (uuid : String) : Deployment :=
  { shopBuild id uuid with previewId := some 1 }

/-- Production is deployed twice. -/
def twoBuilds : World :=
  deployed (shopBuild 2 "d2") (deployed (shopBuild 1 "d1") gitShop)

/-- A rollback without a target then reaches the first build only. -/
theorem rollback_target_twoBuilds :
    resolveArtifact twoBuilds 1 ⟨none, none⟩ ≠ [] ∧
      ∀ a ∈ resolveArtifact twoBuilds 1 ⟨none, none⟩, FromProduction twoBuilds 1 a := by
  have h : History gitShop twoBuilds :=
    (history_deployed (by decide) rfl).trans (history_deployed (by decide) rfl)
  refine ⟨by decide, (rollback_target_iff rfl h 1 _).2 ?_⟩
  · unfold OnlyProduction
    decide

/-- The pull request is deployed, then production. -/
def previewThenBuild : World :=
  deployed (shopBuild 2 "d2") (deployed (previewBuild 1 "d1") gitShop)

/-- A rollback without a target then selects the image of the pull
request. -/
theorem rollback_selects_preview :
    ∃ w a d, History gitShop w ∧ a ∈ resolveArtifact w 1 ⟨none, none⟩ ∧
      row? Deployment.id a.deploymentId w.deployments = some d ∧
      d.previewId = some 1 ∧ a.imageName = "akerdock/pr1" ∧
      ¬ FromProduction w 1 a := by
  have hrow : (row? Deployment.id 1 previewThenBuild.deployments).map
      Deployment.previewId = some (some 1) := by decide
  obtain ⟨d, hd, hpreview⟩ := map_eq_some_iff.1 hrow
  have hsel : (resolveArtifact previewThenBuild 1 ⟨none, none⟩).any
      fun a => a.deploymentId = 1 && a.imageName = "akerdock/pr1" := by
    decide
  obtain ⟨a, ha, hsel⟩ := any_eq_true.1 hsel
  simp only [Bool.and_eq_true, decide_eq_true_eq] at hsel
  refine ⟨previewThenBuild, a, d, (history_deployed (by decide) rfl).trans
    (history_deployed (by decide) rfl), ha, by rw [hsel.1]; exact hd,
    hpreview, hsel.2, ?_⟩
  rintro ⟨_, d', hd', _, hnone, _⟩
  rw [hsel.1, hd] at hd'
  cases hd'
  cases hpreview.symm.trans hnone

end Akerdock.Rollback
