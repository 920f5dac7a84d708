import Akerdock.Deploy.Rules
import Akerdock.Lib.Attempts

/-!
# The attempts of a deployment

A deployment is run by the attempts of one job.  A worker that dies leaves the
rows and the server as they are, its lease is reaped, and another attempt of
the job starts `Execute` again.  Meanwhile the API and the scheduler change
the queue, the previews, and the deployments that are still queued.

* `Meanwhile` is what those others do, and `deploymentJob` the retried job.
* `wp_Execute_read` is the rule for one attempt among such others: what it
  read may be out of date by the time it goes on.
* `Lands` says of the code past the barrier that it either fails, or leaves
  the deployment succeeded, and `conclude_settles` that a failed or cancelled
  attempt ends with a terminal status.
* `Stages` are the assertions that carry an attempt through its stages, and
  `Stages.wp_attempt` is the rule that puts them together.
-/

namespace Akerdock.Deploy

open Store Docker Proc Proc.Prog Table

/-! ## What the others do -/

/-- One statement of somebody else: of the queue and the cancel requests on
the jobs, of the webhooks and the scheduler on the previews, or the three that
take queued deployments out of the queue. -/
inductive OtherStep (w : World) : World → Prop where
  | queue (jobs : List Job) : OtherStep w { w with jobs := jobs }
  | preview (previews : List Preview) : OtherStep w { w with previews := previews }
  | cancelQueuedDeployment (id : Nat) : OtherStep w { w with
      deployments := cancelQueuedDeployment id w.deployments }
  | supersede (previewId id : Nat) : OtherStep w { w with
      deployments :=
        supersedeObsoletePreviewDeployments previewId id w.deployments }
  | supersedeQueued (ids : List Nat) : OtherStep w { w with
      deployments := supersedeQueuedDeployments ids w.deployments }
  | tick (now : Nat) : OtherStep w { w with clock := now }

/-- Any number of such statements. -/
def Meanwhile : World → World → Prop :=
  Relation.ReflTransGen OtherStep

theorem Meanwhile.refl (w : World) : Meanwhile w w :=
  Relation.ReflTransGen.refl

theorem Meanwhile.trans (h : Meanwhile w₁ w₂) (h' : Meanwhile w₂ w₃) : Meanwhile w₁ w₃ :=
  Relation.ReflTransGen.trans h h'

variable {w w' : World} {id polls : Nat} {s' : DeploymentStatus}
    {ok : Call → Outcome → World → Prop} {r : Run}

/-- The others make none of the calls of an attempt. -/
theorem Meanwhile.log (h : Meanwhile w w') : w'.log = w.log := by
  induction h with
  | refl => rfl
  | tail _ hstep ih =>
    rw [← ih]
    cases hstep <;> rfl

/-- How a status may change under the hands of others: a queued deployment
may be taken out of the queue. -/
def Outdated (s s' : DeploymentStatus) : Prop :=
  s' = s ∨ (s = .queued ∧ s'.terminal = true)

/-- A statement that only takes queued deployments out of the queue. -/
private theorem outdated_updateWhere
    (hw : w'.deployments = updateWhere p f w.deployments)
    (hid : ∀ d, (f d).id = d.id) (hf : ∀ d, p d = true → d.status = .queued ∧
      (f d).status.terminal = true) (h : w'.status? id = some s') :
    ∃ s, w.status? id = some s ∧ Outdated s s' := by
  unfold World.status? at h ⊢
  rw [hw, row?_updateWhere p hid, Option.map_map] at h
  obtain ⟨d, hd, rfl⟩ := Option.map_eq_some_iff.1 h
  refine ⟨d.status, by rw [hd]; rfl, ?_⟩
  simp only [Function.comp_apply]
  split
  · rename_i hp
    exact .inr (hf d hp)
  · exact .inl rfl

theorem OtherStep.status (h : OtherStep w w') (hs : w'.status? id = some s') :
    ∃ s, w.status? id = some s ∧ Outdated s s' := by
  cases h with
  | queue jobs | preview previews | tick now => exact ⟨s', hs, .inl rfl⟩
  | cancelQueuedDeployment _ | supersedeQueued _ =>
    refine outdated_updateWhere rfl (by intro _; rfl) ?_ hs
    intro d hd
    simp only [Bool.and_eq_true, decide_eq_true_eq] at hd
    exact ⟨hd.2, rfl⟩
  | supersede p i =>
    refine outdated_updateWhere rfl (by intro _; rfl) ?_ hs
    intro d hd
    simp only [Bool.and_eq_true, decide_eq_true_eq] at hd
    exact ⟨hd.1.2, rfl⟩

theorem Outdated.trans (h : Outdated s s') (h' : Outdated s' s'') : Outdated s s'' := by
  rcases h' with rfl | ⟨hq, hterm⟩
  · exact h
  · rcases h with rfl | ⟨_, hterm'⟩
    · exact .inr ⟨hq, hterm⟩
    · rw [hq] at hterm'
      cases hterm'

theorem Meanwhile.status (h : Meanwhile w w') (hs : w'.status? id = some s') :
    ∃ s, w.status? id = some s ∧ Outdated s s' := by
  induction h generalizing s' with
  | refl => exact ⟨s', hs, .inl rfl⟩
  | tail _ hstep ih =>
    obtain ⟨s₁, hs₁, hout⟩ := hstep.status hs
    obtain ⟨s, hs, hout'⟩ := ih hs₁
    exact ⟨s, hs, hout'.trans hout⟩

def StatusIs (P : DeploymentStatus → Prop) (id : Nat) (w : World) : Prop :=
  ∀ s, w.status? id = some s → P s

/-- The others keep what a queued deployment may lose. -/
theorem StatusIs.meanwhile (h : StatusIs P id w) (hw : Meanwhile w w')
    (hP : ∀ s s', Outdated s s' → P s → P s') : StatusIs P id w' := by
  intro s' hs'
  obtain ⟨s, hs, hout⟩ := hw.status hs'
  exact hP s s' hout (h s hs)

theorem statusIs_write (hs : P s) (o : Outcome) :
    StatusIs P id (sem (.setDeploymentStatus id s) o w).2 := by
  intro s' hs'
  rw [status?_setDeploymentStatus] at hs'
  obtain ⟨_, _, rfl⟩ := Option.map_eq_some_iff.1 hs'
  exact hs

theorem StatusIs.keep (h : StatusIs P id w) (hc : c.writesStatus id = false)
    (o : Outcome) : StatusIs P id (sem c o w).2 := by
  intro s hs
  rw [status?_sem_of_not hc] at hs
  exact h s hs

/-! ## One attempt among others -/

/-- The reads with which an attempt starts. -/
def Call.opensRun : Call → Bool
  | .getDeploymentByID _ | .getApplicationByID | .getPreviewByID _ => true
  | _ => false

/-- An attempt from its reads on.  `K` holds before the deployment is read and
`D d` once `d` was read; both have to survive the others and further reads. -/
theorem wp_Execute_read {K : World → Prop} {D : Deployment → World → Prop}
    {Q : JobResult → World → Prop} (hKinv : ∀ w, K w → inv w)
    (hDinv : ∀ d w, D d w → inv w) (hK : ∀ w w', K w → rely w w' → K w')
    (hD : ∀ d w w', D d w → rely w w' → D d w')
    (hlog : ∀ d w c, c.opensRun = true → D d w → D d (w.logged c))
    (hread : ∀ w d, K w → row? Deployment.id id w.deployments =
      some d → D d (w.logged (.getDeploymentByID id)))
    (hnone : ∀ w, K w → row? Deployment.id id w.deployments = none →
      Q (.error "deployment not found") (w.logged (.getDeploymentByID id)))
    (hdone : ∀ d w, D d w → d.status.terminal = true → Q (.deploymentStatus d.status) w)
    (hgone : ∀ d w, D d w → Q (.error "vanished") w)
    (hgo : ∀ r w, r.jobID = jobID → r.d.id = id →
      r.d.status.terminal = false → D r.d w →
      wp (setting ok rely inv) ((execute polls r).bind (conclude polls r)) Q w) (hw : K w) :
    wp (setting ok rely inv) (Execute polls jobID id) Q w := by
  intro w₁ hw₁
  have hK₁ := hK w w₁ hw hw₁
  refine ⟨hKinv w₁ hK₁, fun o _ => ?_⟩
  change wp _ (executeRow polls jobID
    (row? Deployment.id id w₁.deployments)) Q
    (w₁.logged (.getDeploymentByID id))
  cases hd : row? Deployment.id id w₁.deployments with
  | none => exact hnone w₁ hK₁ hd
  | some d =>
    have hD₁ := hread w₁ d hK₁ hd
    rw [executeRow]
    by_cases hterm : d.status.terminal = true
    · rw [if_pos hterm]
      exact hdone d _ hD₁ hterm
    · rw [if_neg hterm]
      refine wp_bind ?_
      intro w₂ hw₂
      have hD₂ := hD d _ w₂ hD₁ hw₂
      refine ⟨hDinv d w₂ hD₂, fun o _ => ?_⟩
      replace hD₂ := hlog d w₂ .getApplicationByID rfl hD₂
      have hrun : ∀ r w, r.d = d → r.jobID = jobID → D d w →
          wp (setting ok rely inv) ((execute polls r).bind (conclude polls r)) Q w := by
        rintro r w rfl hjob hw
        exact hgo r w hjob (row?_key hd) (Bool.eq_false_iff.2 hterm) hw
      cases o with
      | fails => exact hgone d _ hD₂
      | succeeds =>
        change wp _ (readPreview jobID d w₂.app) _ (w₂.logged .getApplicationByID)
        unfold readPreview
        split
        · exact hrun _ _ rfl rfl hD₂
        · rename_i pid _
          intro w₃ hw₃
          have hD₃ := hD d _ w₃ hD₂ hw₃
          refine ⟨hDinv d w₃ hD₃, fun o _ => ?_⟩
          replace hD₃ := hlog d w₃ (.getPreviewByID pid) rfl hD₃
          change wp _ (executeRun polls
            ((row? Preview.id pid w₃.previews).map _)) Q
            (w₃.logged (.getPreviewByID pid))
          cases row? Preview.id pid w₃.previews with
          | none => exact hgone d _ hD₃
          | some p => exact hrun _ _ rfl rfl hD₃

/-! ## How an attempt ends past the barrier -/

def lastStatus (s : Option DeploymentStatus) : (c : Call) → Ans c → Option DeploymentStatus
  | .setDeploymentStatus _ t, _ => some t
  | _, _ => s

/-- The calls in `R` write the status of the deployment `id` only, and only
without a condition. -/
def WritesOnly (id : Nat) (R : Call → Prop) : Prop :=
  ∀ c, R c → match c with
    | .setDeploymentStatus i _ => i = id
    | .startDeploymentUnlessCleanupRunning _ => False
    | _ => True

/-- The status that was written last is the persisted one, as far as the
others leave it. -/
def Persisted (id : Nat) (s : Option DeploymentStatus) (w : World) : Prop :=
  ∀ t, s = some t → StatusIs (Outdated t) id w

theorem Persisted.meanwhile (h : Persisted id s w) (hw : Meanwhile w w') : Persisted id s w' := by
  intro t ht
  exact (h t ht).meanwhile hw fun _ _ hout h => h.trans hout

theorem Persisted.step (hR : WritesOnly id R) (hc : R c) (h : Persisted id s w) (o : Outcome) :
    Persisted id (lastStatus s c (sem c o w).1) (sem c o w).2 := by
  have hkeep : c.writesStatus id = false → Persisted id s (sem c o w).2 := by
    intro hno t ht
    exact (h t ht).keep hno o
  have hid := hR c hc
  cases c with
  | setDeploymentStatus i t =>
    obtain rfl : i = id := hid
    rintro t' ⟨⟩
    exact statusIs_write (.inl rfl) o
  | startDeploymentUnlessCleanupRunning i => exact hid.elim
  | _ => exact hkeep rfl

/-- Code whose calls write the status without a condition: in the end the
persisted status is the one written last. -/
theorem wp_lastStatus {Q : Option DeploymentStatus → α → Prop} {p : Prog Ans α}
    (hp : Follows lastStatus (fun _ c => R c) Q none p) (hR : WritesOnly id R)
    {J : World → Prop} (hinv : ∀ w, J w → inv w)
    (hrely : ∀ w w', J w → Meanwhile w w' → J w')
    (hstep : ∀ c o w, R c → J w → ok c o w → J (sem c o w).2) (hw : J w) :
    wp (setting ok Meanwhile inv) p (fun a w => ∃ s, Q s a ∧ J w ∧ Persisted id s w) w := by
  refine wp_of_follows (J := fun s w => J w ∧ Persisted id s w) hp ?_ ?_ ?_ ⟨hw, by rintro t ⟨⟩⟩
  · exact fun _ w h => hinv w h.1
  · exact fun _ w w' h hw => ⟨hrely w w' h.1 hw, h.2.meanwhile hw⟩
  · exact fun _ c o w hc h ho => ⟨hstep c o w hc h.1 ho, h.2.step hR hc o⟩

/-- `x` makes only calls from past the barrier, and either fails or leaves
with `succeeded` as the last status. -/
def Lands (r : Run) (x : RunM Unit) : Prop :=
  ∀ s, Follows lastStatus (fun _ c => Switching r c)
    (fun s y => match y with
      | .ok () => s = some .succeeded
      | .error e => e.isFailed) s x.run

section Lands

variable {α : Type}

theorem Lands.bind (h : Within (Switching r) RunError.isFailed x)
    (hf : ∀ a, Lands r (f a)) : Lands r (x >>= f) := by
  intro s
  refine Follows.run_bind (Q := fun _ y => ∀ e, y = .error e → e.isFailed)
    (h.retarget lastStatus s) (fun s a _ => hf a s) ?_
  intro _ e he
  exact he e rfl

/-- The calls and the errors of such code. -/
theorem Lands.within (h : Lands r x) : Within (Switching r) RunError.isFailed x := by
  have hx : Follows lastStatus (fun _ c => Switching r c)
      (fun _ y => ∀ e, y = .error e → e.isFailed) none x.run := by
    refine (h none).mono (fun _ _ hc => hc) ?_
    rintro _ y hy e rfl
    exact hy
  exact hx.retarget _ ()

theorem lands_finish : Lands r (finish polls r image) := by
  refine Lands.bind (within_settle.mono
    (fun c hc => .finishing c (.settling c hc)) fun _ => False.elim) ?_
  intro _ s
  exact .call s _ _ (.finishing _ .succeeded) fun _ => .ret _ _ rfl

theorem lands_land : Lands r (do
    applyRouting r
    finish polls r image) :=
  Lands.bind within_applyRoutingTo fun _ => lands_finish

theorem lands_switchTraffic : Lands r (switchTraffic polls r image) := by
  unfold switchTraffic
  split
  · exact Lands.bind within_rollingSwitch fun _ => lands_land
  · exact Lands.bind within_plainSwitch fun _ => lands_land

theorem lands_resumeFrom : Lands r (resumeFrom polls r oldState nextState) := by
  unfold resumeFrom
  split
  · exact lands_land
  split
  · exact Lands.bind within_rename fun _ => lands_land
  split
  · exact Lands.bind within_promoteCandidate fun _ => lands_land
  · exact fun s => .ret s _ trivial

theorem lands_resumeSwitch : Lands r (resumeSwitch polls r) :=
  Lands.bind within_containerState fun _ =>
    Lands.bind within_containerState fun _ => lands_resumeFrom

theorem switching_writesOnly : WritesOnly r.d.id (Switching r) := by
  intro c hc
  cases hc with
  | inspect site n h | container op | route site t | waker => trivial
  | finishing c h =>
    cases h with
    | settling c h => cases h <;> trivial
    | succeeded => rfl

theorem concluding_writesOnly : WritesOnly r.d.id (Concluding r t) := by
  intro c hc
  cases hc with
  | preview id | candidate | error msg => trivial
  | status => rfl

/-- A compensation ends with the write of its status. -/
theorem Within.closes (h : Within (Concluding r t) (fun _ => False) x)
    (s : Option DeploymentStatus) :
    Follows lastStatus (fun _ c => Concluding r t c)
      (fun s _ => s = some t) s
      (x >>= fun _ => ask (.setDeploymentStatus r.d.id t)).run := by
  refine Follows.run_bind (Q := fun _ y => ∀ e, y = .error e → False)
    (h.retarget lastStatus s) ?_ ?_
  · intro s _ _
    exact .call s _ _ .status fun _ => .ret _ _ rfl
  · intro _ e he
    exact absurd rfl (he e)

/-- A failed or cancelled attempt ends with a terminal status. -/
theorem conclude_closes (he : e.isFailed ∨ e = .cancelled) :
    Follows lastStatus (fun _ c => Concluding r (closing (.error e)) c)
      (fun s res => s = some (closing (.error e)) ∧ res ≠ .interrupted)
      none (conclude polls r (rt, .error e)) := by
  cases e with
  | cancelled =>
    refine Follows.bind ((within_compensate .candidate).closes none) ?_
    intro s _ hs
    exact .ret s _ ⟨hs, by simp⟩
  | failed msg =>
    have hmark : markFailed polls r rt msg = (do
        markPreviewFailed r
        compensate r rt
        ask (.setDeploymentError r.d.id msg)) >>=
          fun _ => ask (.setDeploymentStatus r.d.id .failed) := by
      simp only [markFailed, bind_assoc]
      rfl
    refine Follows.bind (Q := fun s _ => s = some .failed) ?_ ?_
    · rw [hmark]
      exact (Within.bind within_markPreviewFailed fun _ =>
        Within.bind (within_compensate .candidate) fun _ =>
          within_ask (.error msg)).closes none
    · intro s _ hs
      exact .ret s _ ⟨hs, by simp⟩
  | stateChanged s | contextDone =>
    exact absurd he (by simp [RunError.isFailed])

end Lands

/-- The compensation of a failed or cancelled attempt keeps what its calls
keep, and leaves the deployment with its closing status. -/
theorem conclude_settles (he : e.isFailed ∨ e = .cancelled) {J : World → Prop}
    (hinv : ∀ w, J w → inv w) (hrely : ∀ w w', J w → Meanwhile w w' → J w')
    (hstep : ∀ c o w, Concluding r (closing (.error e)) c → J w → J (sem c o w).2) (hw : J w) :
    wp (setting ok Meanwhile inv) (conclude polls r (rt, .error e))
      (fun res w => res ≠ .interrupted ∧ J w ∧
        StatusIs (fun s => s.terminal = true) r.d.id w) w := by
  refine wp_mono (wp_lastStatus (conclude_closes he) concluding_writesOnly
    hinv hrely (fun c o w hc hw _ => hstep c o w hc hw) hw) ?_
  rintro res w ⟨s, ⟨hs, hres⟩, hJ, hp⟩
  refine ⟨hres, hJ, ?_⟩
  have hterm : (closing (.error e)).terminal = true := by
    rcases closing_eq (.error e) with h | h <;> rw [h] <;> rfl
  intro s' hs'
  rcases hp _ hs s' hs' with rfl | ⟨_, h⟩
  · exact hterm
  · exact h

/-! ## All calls of an attempt -/

inductive Attempting (r : Run) : Call → Prop where
  | before (c : Call) (h : PreSwitch r c) : Attempting r c
  | barrier : Attempting r (.setDeploymentStatus r.d.id .switching)
  | behind (c : Call) (h : Switching r c) : Attempting r c
  | closing (t : DeploymentStatus) (c : Call) (h : Concluding r t c) : Attempting r c

/-- The checkpoints of a run ask for its own job. -/
theorem Attempting.checkpoint (h : Attempting r (.isJobCancelRequested j)) : j = r.jobID := by
  cases h with
  | before _ h =>
    cases h with
    | neutral _ h => cases h
    | checkpoint => rfl
  | behind _ h =>
    cases h with
    | finishing _ h => cases h with | settling _ h => cases h
  | closing t _ h => cases h

/-- A run writes the status of its own deployment. -/
theorem Attempting.writesStatus (h : Attempting r c)
    (hc : c.writesStatus id = true) : r.d.id = id := by
  cases h with
  | before _ h =>
    cases h with
    | neutral c h => cases c <;> first | cases hc | cases h
    | start | status s h => exact of_decide_eq_true hc
    | checkpoint | container op h => cases hc
  | barrier => exact of_decide_eq_true hc
  | behind _ h =>
    cases h with
    | finishing _ h =>
      cases h with
      | succeeded => exact of_decide_eq_true hc
      | settling _ h =>
        cases h with
        | status => exact of_decide_eq_true hc
        | _ => cases hc
    | _ => cases hc
  | closing t _ h =>
    cases h with
    | status => exact of_decide_eq_true hc
    | _ => cases hc

theorem makes_attempt : Makes (Attempting r) ((execute polls r).bind (conclude polls r)) := by
  have hbefore : ∀ {α : Type} {R : Call → Prop} {x : RunM α}, Phase R x →
      (∀ c, R c → PreSwitch r c) → Makes (Attempting r) x.run := by
    intro α R x hx hR
    exact Follows.makes hx fun _ c hc => .before c (hR c hc.2)
  have hbehind : ∀ {x : RunM Unit}, Lands r x → Makes (Attempting r) x.run :=
    fun hx => hx.within.makes.mono .behind
  have hopening : ∀ c, Opening r c → PreSwitch r c := fun _ =>
    Opening.preSwitch
  have hdeploy : Makes (Attempting r) (deploy polls r).run := by
    refine Makes.run_bind (hbefore phase_agentHostOps hopening) fun _ => ?_
    refine Makes.run_bind (hbefore phase_dialBuildServer hopening) fun _ => ?_
    refine Makes.run_bind ?_ ?_
    · unfold resume
      split
      · exact Makes.run_bind (hbehind lands_resumeSwitch) fun _ => makes_ret _ _
      · exact makes_ret _ _
    · intro resumed
      cases resumed with
      | true => exact makes_ret _ _
      | false =>
        exact Makes.run_bind (hbefore phase_beforeSwitch fun _ h => h)
          fun image => Makes.run_bind
            (Makes.call .barrier fun _ => makes_ret _ _)
            fun _ => hbehind lands_switchTraffic
  have hconclude : ∀ rt y, Makes (Attempting r) (conclude polls r (rt, y)) :=
    fun rt y => (makes_conclude y).mono fun c => .closing _ c
  refine Makes.bind (Makes.bind (hbefore phase_connect hopening) ?_) fun y => hconclude y.1 y.2
  intro y
  cases y with
  | error e => exact makes_ret _ _
  | ok _ => exact Makes.bind hdeploy fun _ => makes_ret _ _

/-! ## The stages of an attempt -/

/-- The errors of the opening: the status can have changed only under a
deployment that was read as queued. -/
def OpeningError (r : Run) (e : RunError) : Prop :=
  ∀ s, e = .stateChanged s → r.d.status = .queued

theorem within_checkpoint : Within (Opening r) (OpeningError r) (checkpoint r) := by
  refine Within.bind (within_ask .checkpoint) ?_
  intro flag
  cases flag
  · exact within_pure ()
  · exact within_throw nofun

theorem within_awaitStart (hq : r.d.status = .queued) :
    ∀ polls, Within (Opening r) (OpeningError r) (awaitStart r polls) := by
  intro polls
  induction polls with
  | zero => exact within_throw fun _ _ => hq
  | succ polls ih =>
    refine Within.bind (within_ask .start) ?_
    intro started
    cases started with
    | true => exact within_pure ()
    | false =>
      refine Within.bind (within_ask .row) ?_
      intro s
      split
      · exact within_throw fun _ _ => hq
      · exact Within.bind within_checkpoint fun _ => ih
      · exact within_throw fun _ _ => hq

theorem within_connect : Within (Opening r) (OpeningError r) (connect polls r) := by
  have hfailed : ∀ msg, OpeningError r (.failed msg) := by
    rintro msg s ⟨⟩
  unfold connect
  split
  · exact within_throw (hfailed _)
  · refine Within.bind within_checkpoint fun _ => ?_
    refine Within.bind ?_ fun _ => ?_
    · unfold setStatus
      split
      · rename_i hq
        simp only [Bool.and_eq_true, decide_eq_true_eq] at hq
        exact within_awaitStart hq.2 polls
      · exact within_ask .preparing
    · exact Within.bind (within_must (.remote _ (by simp)) (hfailed _))
        fun _ => within_must (.remote _ (by simp)) (hfailed _)

theorem within_reserveBuildServer :
    ∀ polls, Within (Opening r) (OpeningError r) (reserveBuildServer r server polls) := by
  intro polls
  induction polls with
  | zero => exact within_throw nofun
  | succ polls ih =>
    refine Within.bind (within_ask (.reserve server)) ?_
    intro assigned
    cases assigned with
    | true => exact within_pure ()
    | false => exact Within.bind within_checkpoint fun _ => ih

/-- What `deploy` does before it decides whether it is resumed. -/
theorem within_dialBuildServer : Within (Opening r) (OpeningError r) (dialBuildServer polls r) := by
  have hfailed : ∀ msg, OpeningError r (.failed msg) := by
    rintro msg s ⟨⟩
  unfold dialBuildServer
  split
  · split
    · exact within_throw (hfailed _)
    · exact Within.bind (within_reserveBuildServer polls) fun _ =>
        within_must (.remote _ (by simp)) (hfailed _)
  · exact within_pure ()

/-- `J` survives the calls in `R`, and those of others.  Its Boolean says
whether a checkpoint found the cancel flag. -/
structure Stage (ok : Call → Outcome → World → Prop) (inv : World → Prop)
    (R : Call → Prop) (J : Bool → World → Prop) : Prop where
  inv : ∀ s w, J s w → inv w
  rely : ∀ s w w', J s w → Meanwhile w w' → J s w'
  step : ∀ c o w, R c → J false w → ok c o w →
    J (flagSeen false c (sem c o w).1) (sem c o w).2

/-- The assertions of an attempt, stage by stage: `O` up to the point where it
is known whether the attempt is resumed, `P` in the pipeline, `L` past the
barrier. -/
structure Stages (ok : Call → Outcome → World → Prop) (inv : World → Prop)
    (r : Run) (O P : Bool → World → Prop) (L : World → Prop) : Prop where
  opening : Stage ok inv (Opening r) O
  pipeline : r.d.status.pastBarrier = false → Stage ok inv (PreSwitch r) P
  landing : Stage ok inv (Switching r) fun _ => L
  resumed : r.d.status.pastBarrier = true → ∀ w, O false w → L w
  replayed : r.d.status.pastBarrier = false → ∀ w, O false w → P false w
  switched : r.d.status.pastBarrier = false → ∀ o w, P false w →
    L (sem (.setDeploymentStatus r.d.id .switching) o w).2

/-- Past the barrier, the code fails or leaves the deployment succeeded. -/
theorem Stages.lands (h : Stages ok inv r O P L) {x : RunM Unit} (hx : Lands r x) (hw : L w) :
    wp (setting ok Meanwhile inv) x.run
      (fun y w => L w ∧ match y with
        | .ok () => StatusIs (Outdated .succeeded) r.d.id w
        | .error e => e.isFailed) w := by
  refine wp_mono (wp_lastStatus (hx none) switching_writesOnly
    (fun w => h.landing.inv false w) (fun w w' => h.landing.rely false w w')
    (fun c o w => h.landing.step c o w) hw) ?_
  rintro y w ⟨s, hs, hL, hp⟩
  cases y with
  | error e => exact ⟨hL, hs⟩
  | ok _ => exact ⟨hL, hp _ hs⟩

/-- A whole attempt, from what each stage keeps and from what `conclude` makes
of each way to leave it. -/
theorem Stages.wp_attempt (h : Stages ok inv r O P L)
    (hopening : ∀ rt s w e, O s w → (s = true ↔ e = .cancelled) →
      OpeningError r e →
      wp (setting ok Meanwhile inv) (conclude polls r (rt, .error e)) Q w)
    (hpipeline : r.d.status.pastBarrier = false → ∀ s w e, P s w →
      (s = true ↔ e = .cancelled) →
      wp (setting ok Meanwhile inv) (conclude polls r (true, .error e)) Q w)
    (hfailed : ∀ w e, L w → e.isFailed →
      wp (setting ok Meanwhile inv) (conclude polls r (true, .error e)) Q w)
    (hlanded : ∀ w, L w → StatusIs (Outdated .succeeded) r.d.id w →
      Q (.deploymentStatus .succeeded) w) (hw : O false w) :
    wp (setting ok Meanwhile inv) ((execute polls r).bind (conclude polls r)) Q w := by
  have hopen : ∀ {α : Type} {x : RunM α}, Phase (Opening r) x →
      Within (Opening r) (OpeningError r) x → ∀ {w}, O false w →
      wp (setting ok Meanwhile inv) x.run (fun y w => match y with
        | .ok _ => O false w
        | .error e => ∀ rt, wp (setting ok Meanwhile inv)
            (conclude polls r (rt, .error e)) Q w) w := by
    intro α x hphase hwithin w hw
    refine wp_mono (wp_result (hphase.wp h.opening.inv h.opening.rely
      h.opening.step hw) hwithin) ?_
    rintro y w ⟨⟨s, hs, hO⟩, _, he⟩
    cases y with
    | ok a =>
      obtain rfl : s = false := by simpa using hs
      exact hO
    | error e => exact fun rt => hopening rt s w e hO (by simpa using hs) (he e rfl)
  have hland : ∀ {x : RunM Unit}, Lands r x → ∀ {w}, L w →
      wp (setting ok Meanwhile inv) x.run (fun y w =>
        wp (setting ok Meanwhile inv) (conclude polls r (true, y)) Q w) w := by
    intro x hx w hw
    refine wp_mono (h.lands hx hw) ?_
    rintro y w ⟨hL, hy⟩
    cases y with
    | error e => exact hfailed w e hL hy
    | ok _ => exact hlanded w hL hy
  refine Deploy.wp_attempt (wp_mono (hopen phase_connect within_connect hw) ?_)
  intro y w hy
  cases y with
  | error e => exact hy false
  | ok _ =>
  have hops : Within (Opening r) (OpeningError r)
      (must .agentHostOps "the server's agent is not connected") :=
    within_must (.remote _ (by simp)) nofun
  refine wp_run_bind (wp_mono (hopen phase_agentHostOps hops hy) ?_)
  intro y w hy
  cases y with
  | error e => exact hy true
  | ok _ =>
  refine wp_run_bind (wp_mono (hopen phase_dialBuildServer within_dialBuildServer hy) ?_)
  intro y w hy
  cases y with
  | error e => exact hy true
  | ok _ =>
  unfold resume
  cases hpast : r.d.status.pastBarrier with
  | true =>
    refine wp_run_bind (wp_run_bind ?_)
    refine wp_mono (hland lands_resumeSwitch (h.resumed hpast w hy)) ?_
    intro y w hy
    cases y with
    | error e => exact hy
    | ok _ => exact wp_pure (wp_pure hy)
  | false =>
    have hstage := h.pipeline hpast
    refine wp_run_bind (wp_pure ?_)
    refine wp_run_bind (wp_mono (phase_beforeSwitch.wp hstage.inv hstage.rely
      hstage.step (h.replayed hpast w hy)) ?_)
    rintro y w ⟨s, hs, hP⟩
    cases y with
    | error e => exact hpipeline hpast s w e hP (by simpa using hs)
    | ok image =>
      obtain rfl : s = false := by simpa using hs
      refine wp_run_bind (wp_ask ?_)
      intro w₁ hw₁
      have hP₁ := hstage.rely false w w₁ hP hw₁
      exact ⟨hstage.inv false w₁ hP₁, fun o _ =>
        hland lands_switchTraffic (h.switched hpast o w₁ hP₁)⟩

/-! ## The job -/

/-- The job `jobID` that runs the deployment `id`.  An attempt whose context
ended stopped as if its worker had died. -/
def deploymentJob (ok : Call → Outcome → World → Prop)
    (mayDie : World → Prop) (jobID id : Nat) :
    Retry (system ok Meanwhile) JobResult where
  attempt := fun p => ∃ polls, p = Execute polls jobID id
  mayDie := mayDie
  mayEnd := fun res w => res = .interrupted → mayDie w

/-- The state after the first `n` calls of an attempt in which every call
succeeds. -/
def World.after (w : World) (polls jobID id n : Nat) : World :=
  ((Execute polls jobID id).execN smoothly n w).2

/-- Such an attempt is a run of a job, if its calls are allowed to succeed. -/
theorem reaches_after {j : Retry (system ok rely) JobResult} {w₀ : World}
    (h : j.Reaches w₀ ⟨none, w⟩) (hj : j.attempt (Execute polls jobID id))
    (hok : (Execute polls jobID id).AllN smoothly (fun c => ok c .succeeds) n w) :
    j.Reaches w₀ ⟨some ((Execute polls jobID id).execN smoothly n w).1,
      w.after polls jobID id n⟩ :=
  (h.start hj).execN (o := Outcome.succeeds) hok

/-- A run in which any call may succeed. -/
theorem allN_true (p : Prog Ans α) (n : Nat) (w : World) : p.AllN smoothly (fun _ _ => True) n w :=
  allN_of_forall _ (fun _ _ => trivial) n p w

end Akerdock.Deploy
