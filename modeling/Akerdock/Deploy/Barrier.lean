import Akerdock.Deploy.Attempts

/-!
# The barrier across attempts

The write of `switching` is the barrier of a deployment: behind it, an attempt
that starts again has to inspect the server instead of running the pipeline,
and a cancel request comes too late.  The engine tests both against what it
read when the attempt started, but it writes `preparing` and honours the
cancel flag before it knows that it is resumed.  So both properties hold for
the runs that keep away from that window.

* `entered`, `switched` and `replayed` read the log of calls.
* `switch_not_replayed` is about crashes: behind the barrier the pipeline does
  not run again unless a resumed attempt dies with an early status on record.
* `switched_not_cancelled` is about cancel requests: behind the barrier a
  deployment is not cancelled unless a checkpoint still finds the flag.
-/

namespace Akerdock.Deploy

open Store Docker Proc Proc.Prog

/-! ## What the log says -/

/-- The writes that enter the switch of the deployment `id`. -/
def Call.entersSwitch (id : Nat) : Call → Bool
  | .setDeploymentStatus i s => i = id && s.pastBarrier
  | _ => false

/-- The row of the deployment `id` was written with `switching` or
`finishing`. -/
def entered (id : Nat) (log : List Call) : Bool :=
  log.any (Call.entersSwitch id)

/-- The calls of the pipeline from before the switch: sources, images, hooks,
and the containers of the step `start_candidate`. -/
def Call.pipeline : Call → Bool
  | .lsRemote | .clone _ | .imageInspect _ => true
  | .containerInspect site _ => site = .startCandidate
  | .docker site _ => site = .startCandidate
  | .remote s => s ∉ [.sshConnect, .agentRuntime, .agentHostOps,
      .dialBuildServer, .ensureAgent, .pruneOldImages]
  | _ => false

/-- Some call of the pipeline was made after the switch was entered.  The log
has the newest call first. -/
def replayed (id : Nat) : List Call → Bool
  | [] => false
  | c :: log => c.pipeline && entered id log || replayed id log

@[simp] theorem entered_cons (id : Nat) (c : Call) (log : List Call) :
    entered id (c :: log) = (c.entersSwitch id || entered id log) := rfl

@[simp] theorem replayed_cons (id : Nat) (c : Call) (log : List Call) :
    replayed id (c :: log) = (c.pipeline && entered id log || replayed id log) := rfl

/-- Once the switch was entered, the persisted status is past the barrier or
terminal. -/
def Advanced (id : Nat) (w : World) : Prop :=
  entered id w.log = true → StatusIs (fun s => s.pastBarrier = true ∨ s.terminal = true) id w

variable {s : DeploymentStatus} {id polls : Nat} {c : Call} {w : World} {r : Run}

theorem Opening.not_pipeline (h : Opening r c) : c.pipeline = false := by
  cases h with
  | remote s h =>
    simp only [List.mem_cons, List.not_mem_nil, or_false] at h
    rcases h with rfl | rfl | rfl | rfl <;> rfl
  | _ => rfl

theorem Switching.not_pipeline (h : Switching r c) : c.pipeline = false := by
  cases h with
  | inspect site n h => simpa [Call.pipeline] using h
  | finishing c h =>
    cases h with
    | settling c h => cases h <;> rfl
    | succeeded => rfl
  | _ => rfl

theorem Concluding.not_pipeline (h : Concluding r t c) : c.pipeline = false := by
  cases h <;> rfl

theorem not_entersSwitch (h : s.pastBarrier = false) :
    (Call.setDeploymentStatus i s).entersSwitch id = false := by
  simp [Call.entersSwitch, h]

theorem PreSwitch.not_entersSwitch (h : PreSwitch r c) : c.entersSwitch id = false := by
  cases h with
  | neutral c h => cases c <;> first | rfl | cases h
  | status s h =>
    exact Deploy.not_entersSwitch (DeploymentStatus.early_not_pastBarrier h)
  | _ => rfl

theorem Concluding.not_entersSwitch (h : Concluding r (closing y) c) :
    c.entersSwitch id = false := by
  cases h with
  | status =>
    refine Deploy.not_entersSwitch ?_
    rcases closing_eq y with h | h <;> rw [h] <;> rfl
  | _ => rfl

/-- A call that is not of the pipeline does not replay it. -/
theorem replayed_sem (hc : c.pipeline = false ∨ entered id w.log = false)
    (hw : replayed id w.log = false) (o : Outcome) :
    replayed id (sem c o w).2.log = false := by
  rw [sem_log, replayed_cons, hw]
  rcases hc with h | h <;> simp [h]

theorem entered_sem (hc : c.entersSwitch id = false)
    (hw : entered id w.log = false) (o : Outcome) :
    entered id (sem c o w).2.log = false := by
  rw [sem_log, entered_cons, hc, hw]
  rfl

/-- A terminal status is kept by the others. -/
theorem terminal_meanwhile (h : StatusIs (fun s => s.terminal = true) id w)
    (hw : Meanwhile w w') : StatusIs (fun s => s.terminal = true) id w' := by
  refine h.meanwhile hw ?_
  rintro s s' (rfl | ⟨_, hterm⟩) hs
  · exact hs
  · exact hterm

theorem Advanced.meanwhile (h : Advanced id w) (hw : Meanwhile w w') : Advanced id w' := by
  intro he
  rw [hw.log] at he
  refine (h he).meanwhile hw ?_
  rintro s s' (rfl | ⟨_, hterm⟩) hs
  · exact hs
  · exact .inr hterm

theorem Advanced.of_not_entered (h : entered id w.log = false) : Advanced id w := by
  intro he
  cases h.symm.trans he

theorem Advanced.of_terminal (h : StatusIs (fun s => s.terminal = true) id w) : Advanced id w :=
  fun _ s hs => .inr (h s hs)

/-! ## The pipeline does not run again -/

/-- No call of the pipeline was made after the switch was entered. -/
def NotReplayed (id : Nat) (w : World) : Prop :=
  replayed id w.log = false

theorem NotReplayed.meanwhile (h : NotReplayed id w) (hw : Meanwhile w w') : NotReplayed id w' := by
  rw [NotReplayed, hw.log]
  exact h

/-- The result of an attempt that did not replay: unless it was interrupted,
the persisted status is not an early one. -/
def EndsAdvanced (id : Nat) (res : JobResult) (w : World) : Prop :=
  NotReplayed id w ∧ (res ≠ .interrupted → Advanced id w)

/-- What each stage of the attempt `r` keeps: a resumed attempt makes no call
of the pipeline, any other one starts before the switch was entered. -/
theorem notReplayed_stages (r : Run) :
    Stages (fun _ _ _ => True) (NotReplayed r.d.id) r
      (fun _ w => NotReplayed r.d.id w ∧
        (r.d.status.pastBarrier = false → entered r.d.id w.log = false))
      (fun _ w => NotReplayed r.d.id w ∧ entered r.d.id w.log = false)
      (NotReplayed r.d.id) where
  opening := by
    refine ⟨fun _ _ h => h.1, ?_, ?_⟩
    · intro _ w w' h hw
      exact ⟨h.1.meanwhile hw, by rw [hw.log]; exact h.2⟩
    · intro c o w hc h _
      exact ⟨replayed_sem (.inl hc.not_pipeline) h.1 o, fun hp =>
        entered_sem hc.preSwitch.not_entersSwitch (h.2 hp) o⟩
  pipeline := by
    intro _
    refine ⟨fun _ _ h => h.1, ?_, ?_⟩
    · intro _ w w' h hw
      exact ⟨h.1.meanwhile hw, by rw [hw.log]; exact h.2⟩
    · intro c o w hc h _
      exact ⟨replayed_sem (.inr h.2) h.1 o, entered_sem hc.not_entersSwitch h.2 o⟩
  landing := by
    refine ⟨fun _ _ h => h, fun _ _ _ h hw => h.meanwhile hw, ?_⟩
    intro c o w hc h _
    exact replayed_sem (.inl hc.not_pipeline) h o
  resumed := fun _ _ h => h.1
  replayed := fun hp _ h => ⟨h.1, h.2 hp⟩
  switched := fun _ o _ h => replayed_sem (.inl rfl) h.1 o

/-- The compensation of an attempt that failed or was cancelled. -/
theorem conclude_endsAdvanced (he : e.isFailed ∨ e = .cancelled) (hw : NotReplayed r.d.id w) :
    wp (setting (fun _ _ _ => True) Meanwhile (NotReplayed r.d.id))
      (conclude polls r (rt, .error e)) (EndsAdvanced r.d.id) w := by
  refine wp_mono (conclude_settles he (fun _ h => h) (fun _ _ h hw => h.meanwhile hw) ?_ hw) ?_
  · intro c o w hc h
    exact replayed_sem (.inl hc.not_pipeline) h o
  · rintro res w ⟨_, hw, hterm⟩
    exact ⟨hw, fun _ => .of_terminal hterm⟩

theorem attempt_endsAdvanced (hw : NotReplayed r.d.id w)
    (hentered : r.d.status.pastBarrier = false → entered r.d.id w.log = false) :
    wp (setting (fun _ _ _ => True) Meanwhile (NotReplayed r.d.id))
      ((execute polls r).bind (conclude polls r)) (EndsAdvanced r.d.id)
      w := by
  -- an error other than a failure or a cancellation writes nothing
  have hleft : ∀ {rt w e}, NotReplayed r.d.id w →
      ((∃ s, e = .stateChanged s) → entered r.d.id w.log = false) →
      wp (setting (fun _ _ _ => True) Meanwhile (NotReplayed r.d.id))
        (conclude polls r (rt, .error e)) (EndsAdvanced r.d.id) w := by
    intro rt w e hw he
    cases e with
    | cancelled => exact conclude_endsAdvanced (.inr rfl) hw
    | failed msg => exact conclude_endsAdvanced (.inl trivial) hw
    | stateChanged s =>
      exact ⟨hw, fun _ => .of_not_entered (he ⟨s, rfl⟩)⟩
    | contextDone => exact ⟨hw, fun h => absurd rfl h⟩
  refine (notReplayed_stages r).wp_attempt ?_ ?_ ?_ ?_ ⟨hw, hentered⟩
  · rintro rt s w e ⟨hw, hentered⟩ _ he
    refine hleft hw ?_
    rintro ⟨s, rfl⟩
    refine hentered ?_
    rw [he s rfl]
    rfl
  · rintro _ s w e ⟨hw, hentered⟩ _
    exact hleft hw fun _ => hentered
  · intro w e hw he
    exact conclude_endsAdvanced (.inl he) hw
  · intro w hw hs
    refine ⟨hw, fun _ => .of_terminal ?_⟩
    intro s h
    rcases hs s h with rfl | ⟨h', _⟩
    · rfl
    · cases h'

/-- The reads at the start of an attempt say nothing about the switch. -/
theorem entered_logged (hc : c.opensRun = true) :
    entered id (w.logged c).log = entered id w.log := by
  cases c <;> first | rfl | cases hc

theorem notReplayed_logged (hc : c.opensRun = true) (hw : NotReplayed id w) :
    NotReplayed id (w.logged c) := by
  have hp : c.pipeline = false := by
    cases c <;> first | rfl | cases hc
  unfold NotReplayed at *
  rw [World.logged_log, replayed_cons, hp, hw]
  rfl

theorem advanced_logged (hc : c.opensRun = true) (hw : Advanced id w) :
    Advanced id (w.logged c) := by
  intro he
  rw [entered_logged hc] at he
  exact hw he

/-- The persisted status is the one that was read. -/
theorem status?_of_row (h : Table.row? Deployment.id id w.deployments = some d) :
    w.status? id = some d.status := by
  simp [World.status?, h]

theorem Execute_endsAdvanced (hw : NotReplayed id w ∧ Advanced id w) :
    wp (setting (fun _ _ _ => True) Meanwhile (NotReplayed id))
      (Execute polls jobID id) (EndsAdvanced id) w := by
  refine wp_Execute_read (K := fun w => NotReplayed id w ∧ Advanced id w)
    (D := fun d w => (NotReplayed id w ∧ Advanced id w) ∧
      (entered id w.log = true → d.status.pastBarrier = true ∨ d.status.terminal = true))
    (fun _ h => h.1) (fun _ _ h => h.1.1) ?_ ?_ ?_ ?_ ?_ ?_ ?_ ?_ hw
  · intro w w' h hw
    exact ⟨h.1.meanwhile hw, h.2.meanwhile hw⟩
  · intro d w w' h hw
    exact ⟨⟨h.1.1.meanwhile hw, h.1.2.meanwhile hw⟩, by
      rw [hw.log]; exact h.2⟩
  · intro d w c hc h
    exact ⟨⟨notReplayed_logged hc h.1.1, advanced_logged hc h.1.2⟩, by
      rw [entered_logged hc]; exact h.2⟩
  · intro w d h hd
    refine ⟨⟨notReplayed_logged rfl h.1, advanced_logged rfl h.2⟩, ?_⟩
    exact fun he => h.2 he _ (status?_of_row hd)
  · intro w h _
    exact ⟨notReplayed_logged rfl h.1, fun _ => advanced_logged rfl h.2⟩
  · exact fun d w h _ => ⟨h.1.1, fun _ => h.1.2⟩
  · exact fun d w h => ⟨h.1.1, fun _ => h.1.2⟩
  · rintro r w _ rfl hterm h
    refine attempt_endsAdvanced h.1.1 ?_
    intro hpast
    rw [Bool.eq_false_iff]
    intro he
    rcases h.2 he with h | h
    · cases h.symm.trans hpast
    · cases h.symm.trans hterm

/-- The job of a deployment in which a worker dies only when the persisted
status is not an early one that a resumed attempt wrote. -/
theorem replay_sound (jobID id : Nat) :
    (deploymentJob (fun _ _ _ => True) (Advanced id) jobID id).Sound
      (NotReplayed id) (fun w => NotReplayed id w ∧ Advanced id w)
      (EndsAdvanced id) where
  refl := Meanwhile.refl
  trans := Meanwhile.trans
  attempt := by
    rintro _ w ⟨polls, rfl⟩ hw
    exact Execute_endsAdvanced hw
  pre_inv := fun _ h => h.1
  pre_stable := fun _ _ h hw => ⟨h.1.meanwhile hw, h.2.meanwhile hw⟩
  post_inv := fun _ _ h => h.1
  post_stable := fun _ _ _ h hw =>
    ⟨h.1.meanwhile hw, fun hres => (h.2 hres).meanwhile hw⟩
  done := by
    intro res w h hend
    refine ⟨h.1, ?_⟩
    by_cases hres : res = .interrupted
    · exact hend hres
    · exact h.2 hres
  die := fun _ h hdie => ⟨h, hdie⟩

/-! ## The status does not go back -/

/-- Once the switch was entered, the persisted status is terminal. -/
def Closed (id : Nat) (w : World) : Prop :=
  entered id w.log = true → StatusIs (fun s => s.terminal = true) id w

theorem Closed.advanced (h : Closed id w) : Advanced id w :=
  fun he s hs => .inr (h he s hs)

theorem Closed.meanwhile (h : Closed id w) (hw : Meanwhile w w') : Closed id w' := by
  intro he
  rw [hw.log] at he
  exact terminal_meanwhile (h he) hw

theorem Closed.of_not_entered (h : entered id w.log = false) : Closed id w := by
  intro he
  cases h.symm.trans he

theorem closed_logged (hc : c.opensRun = true) (hw : Closed id w) : Closed id (w.logged c) := by
  intro he
  rw [entered_logged hc] at he
  exact hw he

theorem advanced_write (hs : s.pastBarrier = true ∨ s.terminal = true)
    (o : Outcome) : Advanced id (sem (.setDeploymentStatus id s) o w).2 :=
  fun _ => statusIs_write hs o

theorem Advanced.keep (hc : c.writesStatus id = false) (hw : Advanced id w)
    (o : Outcome) : Advanced id (sem c o w).2 := by
  have henters : c.entersSwitch id = false := by
    cases c <;> first | rfl | simp_all [Call.entersSwitch, Call.writesStatus]
  intro he
  rw [sem_log, entered_cons, henters, Bool.false_or] at he
  exact (hw he).keep hc o

theorem Switching.advanced (h : Switching r c) (hw : Advanced r.d.id w)
    (o : Outcome) : Advanced r.d.id (sem c o w).2 := by
  cases h with
  | inspect site n h | container op | route site t | waker =>
    exact hw.keep rfl o
  | finishing c h =>
    cases h with
    | succeeded => exact advanced_write (.inr rfl) o
    | settling c h =>
      cases h with
      | status => exact advanced_write (.inl rfl) o
      | _ => exact hw.keep rfl o

theorem Concluding.advanced (h : Concluding r (closing y) c)
    (hw : Advanced r.d.id w) (o : Outcome) : Advanced r.d.id (sem c o w).2 := by
  cases h with
  | status =>
    refine advanced_write (.inr ?_) o
    rcases closing_eq y with h | h <;> rw [h] <;> rfl
  | _ => exact hw.keep rfl o

/-- What each stage keeps when an attempt starts before the switch was
entered. -/
theorem advanced_stages (r : Run) :
    Stages (fun _ _ _ => True) (Advanced r.d.id) r
      (fun _ w => entered r.d.id w.log = false)
      (fun _ w => entered r.d.id w.log = false) (Advanced r.d.id) where
  opening := by
    refine ⟨fun _ _ => .of_not_entered, ?_, ?_⟩
    · intro _ w w' h hw
      rw [hw.log]
      exact h
    · exact fun c o w hc h _ => entered_sem hc.preSwitch.not_entersSwitch h o
  pipeline := by
    intro _
    refine ⟨fun _ _ => .of_not_entered, ?_, ?_⟩
    · intro _ w w' h hw
      rw [hw.log]
      exact h
    · exact fun c o w hc h _ => entered_sem hc.not_entersSwitch h o
  landing := by
    refine ⟨fun _ _ h => h, fun _ _ _ h hw => h.meanwhile hw, ?_⟩
    exact fun c o w hc h _ => hc.advanced h o
  resumed := fun _ _ => .of_not_entered
  replayed := fun _ _ h => h
  switched := fun _ o _ _ => advanced_write (.inl rfl) o

theorem attempt_closed (hw : entered r.d.id w.log = false) :
    wp (setting (fun _ _ _ => True) Meanwhile (Advanced r.d.id))
      ((execute polls r).bind (conclude polls r))
      (fun _ w => Closed r.d.id w) w := by
  have hleft : ∀ {rt w e}, entered r.d.id w.log = false →
      wp (setting (fun _ _ _ => True) Meanwhile (Advanced r.d.id))
        (conclude polls r (rt, .error e)) (fun _ w => Closed r.d.id w)
        w := by
    intro rt w e hw
    refine wp_mono (wp_of_makes (makes_conclude (.error e))
      (J := fun w => entered r.d.id w.log = false)
      (fun _ => .of_not_entered) ?_ ?_ hw) fun _ _ => .of_not_entered
    · intro w w' h hw
      rw [hw.log]
      exact h
    · exact fun c o w hc h _ => entered_sem hc.not_entersSwitch h o
  refine (advanced_stages r).wp_attempt ?_ ?_ ?_ ?_ hw
  · exact fun rt s w e hw _ _ => hleft hw
  · exact fun _ s w e hw _ => hleft hw
  · intro w e hw he
    refine wp_mono (conclude_settles (.inl he) (fun _ h => h)
      (fun _ _ h hw => h.meanwhile hw)
      (fun c o w hc h => hc.advanced h o) hw) ?_
    rintro res w ⟨_, _, hterm⟩
    exact fun _ => hterm
  · intro w _ hs _ s h
    rcases hs s h with rfl | ⟨h', _⟩
    · rfl
    · cases h'

theorem Execute_closed (hw : Closed id w) :
    wp (setting (fun _ _ _ => True) Meanwhile (Advanced id))
      (Execute polls jobID id) (fun _ w => Closed id w) w := by
  refine wp_Execute_read (K := Closed id)
    (D := fun d w => Closed id w ∧ (entered id w.log = true → d.status.terminal = true))
    (fun _ h => h.advanced) (fun _ _ h => h.1.advanced)
    (fun _ _ h hw => h.meanwhile hw) ?_ ?_ ?_
    (fun _ h _ => closed_logged rfl h) (fun _ _ h _ => h.1)
    (fun _ _ h => h.1) ?_ hw
  · intro d w w' h hw
    exact ⟨h.1.meanwhile hw, by rw [hw.log]; exact h.2⟩
  · intro d w c hc h
    exact ⟨closed_logged hc h.1, by rw [entered_logged hc]; exact h.2⟩
  · intro w d h hd
    refine ⟨closed_logged rfl h, ?_⟩
    exact fun he => h he _ (status?_of_row hd)
  · rintro r w _ rfl hterm h
    refine attempt_closed ?_
    rw [Bool.eq_false_iff]
    intro he
    cases (h.2 he).symm.trans hterm

/-- The job of a deployment in which no worker dies with the deployment in
`switching` or `finishing`. -/
theorem advanced_sound (jobID id : Nat) :
    (deploymentJob (fun _ _ _ => True)
      (StatusIs (fun s => s.pastBarrier = false) id) jobID id).Sound
      (Advanced id) (Closed id) (fun _ w => Closed id w) where
  refl := Meanwhile.refl
  trans := Meanwhile.trans
  attempt := by
    rintro _ w ⟨polls, rfl⟩ hw
    exact Execute_closed hw
  pre_inv := fun _ h => h.advanced
  pre_stable := fun _ _ h hw => h.meanwhile hw
  post_inv := fun _ _ h => h.advanced
  post_stable := fun _ _ _ h hw => h.meanwhile hw
  done := fun _ _ h _ => h
  die := by
    intro w h hdie he s hs
    rcases h he s hs with hpast | hterm
    · cases (hdie s hs).symm.trans hpast
    · exact hterm

/-- A deployment that entered the switch is not replayed, as long as no worker
dies while the persisted status is one from before the switch again; and its
status does not go back to such a one, as long as no worker dies with the
deployment in `switching` or `finishing`.  Both are about every run of
attempts, crashes, and statements of others, from the deployment's creation
on. -/
theorem switch_not_replayed (jobID id : Nat) (w : World) (hlog : w.log = []) :
    (∀ x, (deploymentJob (fun _ _ _ => True) (Advanced id) jobID id).Reaches
      w x → replayed id x.state.log = false) ∧
    (∀ x, (deploymentJob (fun _ _ _ => True)
      (StatusIs (fun s => s.pastBarrier = false) id) jobID id).Reaches w x →
      Advanced id x.state) := by
  have hentered : entered id w.log = false := by
    rw [hlog]
    rfl
  have hreplayed : NotReplayed id w := by
    rw [NotReplayed, hlog]
    rfl
  refine ⟨?_, ?_⟩
  · intro x hx
    exact (replay_sound jobID id).reaches_inv ⟨hreplayed, .of_not_entered hentered⟩ hx
  · intro x hx
    exact (advanced_sound jobID id).reaches_inv (.of_not_entered hentered) hx

/-- The sample deployment after a crash right behind the barrier. -/
def crashedShop : World :=
  shopWorld.after 1 7 1 26

theorem crashedShop_reached (h : mayDie crashedShop) :
    (deploymentJob (fun _ _ _ => True) mayDie 7 1).Reaches shopWorld ⟨none, crashedShop⟩ := by
  have hreach : (deploymentJob (fun _ _ _ => True) mayDie 7 1).Reaches shopWorld ⟨_, crashedShop⟩ :=
    reaches_after .refl ⟨1, rfl⟩ (allN_true (Execute 1 7 1) 26 _)
  exact hreach.die h

theorem crashedShop_advanced : Advanced 1 crashedShop := by
  intro _ s hs
  have hstatus : crashedShop.status? 1 = some .switching := by decide
  cases hstatus.symm.trans hs
  exact .inl rfl

theorem switch_not_replayed_shop :
    entered 1 crashedShop.log = true ∧ replayed 1 (crashedShop.after 1 7 1 20).log = false :=
  ⟨by decide, (switch_not_replayed 7 1 shopWorld rfl).1 _
    (reaches_after (crashedShop_reached crashedShop_advanced) ⟨1, rfl⟩
      (allN_true (Execute 1 7 1) 20 _))⟩

/-- The second attempt dies right after it wrote `preparing`, and the third
one gets to the containers. -/
def replayedShop : World :=
  (crashedShop.after 1 7 1 4).after 1 7 1 20

theorem replayedShop_reached :
    ∃ p, (deploymentJob (fun _ _ _ => True) (fun _ => True) 7 1).Reaches
      shopWorld ⟨some p, replayedShop⟩ := by
  have hfirst : (deploymentJob (fun _ _ _ => True) (fun _ => True) 7
      1).Reaches shopWorld ⟨none, crashedShop⟩ := crashedShop_reached trivial
  have hsecond := reaches_after hfirst ⟨1, rfl⟩ (allN_true (Execute 1 7 1) 4 _)
  exact ⟨_, reaches_after (hsecond.die trivial) ⟨1, rfl⟩ (allN_true (Execute 1 7 1) 20 _)⟩

/-- Two crashes, the second one right after the resumed attempt wrote
`preparing`: the status went back from `switching`, and the third attempt runs
the pipeline again. -/
theorem second_crash_replays :
    crashedShop.status? 1 = some .switching ∧
      (crashedShop.after 1 7 1 4).status? 1 = some .preparing ∧
      ∃ x, (deploymentJob (fun _ _ _ => True) (fun _ => True) 7 1).Reaches
        shopWorld x ∧ replayed 1 x.state.log = true := by
  obtain ⟨p, hp⟩ := replayedShop_reached
  have hreplayed : replayed 1 replayedShop.log = true := by decide
  exact ⟨by decide, by decide, _, hp, hreplayed⟩

/-! ## A switched deployment is not cancelled -/

/-- The row of the deployment `id` was written with `switching`. -/
def switched (id : Nat) (log : List Call) : Bool :=
  log.contains (.setDeploymentStatus id .switching)

/-- The runs in which every checkpoint made after the write of `switching`
finds the cancel flag unset. -/
def FlagUnset (jobID id : Nat) (c : Call) (_ : Outcome) (w : World) : Prop :=
  c = .isJobCancelRequested jobID → switched id w.log = true → w.cancelFlag jobID = false

/-- A switched deployment is neither cancelled nor queued again. -/
def Uncancelled (id : Nat) (w : World) : Prop :=
  switched id w.log = true → StatusIs (fun s => s ≠ .queued ∧ s ≠ .cancelled) id w

theorem switched_sem (hc : c ≠ .setDeploymentStatus id .switching) (o : Outcome) :
    switched id (sem c o w).2.log = switched id w.log := by
  simp [switched, hc.symm]

theorem Uncancelled.meanwhile (h : Uncancelled id w) (hw : Meanwhile w w') : Uncancelled id w' := by
  intro hs
  rw [hw.log] at hs
  refine (h hs).meanwhile hw ?_
  rintro s s' (rfl | ⟨hq, _⟩) hne
  · exact hne
  · exact absurd hq hne.1

theorem Uncancelled.of_not_switched (h : switched id w.log = false) : Uncancelled id w := by
  intro hs
  cases h.symm.trans hs

theorem uncancelled_write (hs : s ≠ .queued ∧ s ≠ .cancelled) (o : Outcome) :
    Uncancelled id (sem (.setDeploymentStatus id s) o w).2 :=
  fun _ => statusIs_write hs o

theorem Uncancelled.keep (hc : c.writesStatus id = false)
    (hw : Uncancelled id w) (o : Outcome) : Uncancelled id (sem c o w).2 := by
  intro hs
  rw [switched_sem (by rintro rfl; simp [Call.writesStatus] at hc)] at hs
  exact (hw hs).keep hc o

/-- The atomic start does not cancel. -/
theorem Uncancelled.start (hw : Uncancelled id w) (o : Outcome) : Uncancelled id
      (sem (.startDeploymentUnlessCleanupRunning id) o w).2 := by
  intro hs s hs'
  rw [status?_startDeployment] at hs'
  split at hs'
  · cases hs'
    simp
  · exact hw hs s hs'

theorem PreSwitch.uncancelled (h : PreSwitch r c) (hw : Uncancelled r.d.id w)
    (o : Outcome) : Uncancelled r.d.id (sem c o w).2 := by
  cases h with
  | neutral c h => exact hw.keep (by cases c <;> first | rfl | cases h) o
  | checkpoint | container op h => exact hw.keep rfl o
  | start => exact hw.start o
  | status s h =>
    refine uncancelled_write ?_ o
    cases s <;> simp_all [DeploymentStatus.early]

theorem Switching.uncancelled (h : Switching r c) (hw : Uncancelled r.d.id w)
    (o : Outcome) : Uncancelled r.d.id (sem c o w).2 := by
  cases h with
  | inspect site n h | container op | route site t | waker =>
    exact hw.keep rfl o
  | finishing c h =>
    cases h with
    | succeeded => exact uncancelled_write (by simp) o
    | settling c h =>
      cases h with
      | status => exact uncancelled_write (by simp) o
      | _ => exact hw.keep rfl o

/-- Before the switch: a checkpoint that found the flag did so in a deployment
that had not been switched. -/
theorem preSwitch_uncancelled (r : Run) (hR : ∀ c, R c → PreSwitch r c) :
    Stage (FlagUnset r.jobID r.d.id) (Uncancelled r.d.id) R
      (fun s w => Uncancelled r.d.id w ∧ (s = true → switched r.d.id w.log = false)) := by
  refine ⟨fun _ _ h => h.1, ?_, ?_⟩
  · intro _ w w' h hw
    exact ⟨h.1.meanwhile hw, by rw [hw.log]; exact h.2⟩
  · intro c o w hc h hok
    refine ⟨(hR c hc).uncancelled h.1 o, ?_⟩
    intro hseen
    cases hR c hc with
    | checkpoint =>
      rw [switched_sem (by simp), Bool.eq_false_iff]
      intro hs
      have hflag : o = .succeeds ∧ w.cancelFlag r.jobID = true := by
        simpa [flagSeen, apply] using hseen
      cases (hok rfl hs).symm.trans hflag.2
    | neutral c h => cases c <;> first | cases hseen | cases h
    | start | status s h | container op h => cases hseen

theorem uncancelled_stages (r : Run) :
    Stages (FlagUnset r.jobID r.d.id) (Uncancelled r.d.id) r
      (fun s w => Uncancelled r.d.id w ∧ (s = true → switched r.d.id w.log = false))
      (fun s w => Uncancelled r.d.id w ∧ (s = true → switched r.d.id w.log = false))
      (Uncancelled r.d.id) where
  opening := preSwitch_uncancelled r fun _ => Opening.preSwitch
  pipeline := fun _ => preSwitch_uncancelled r fun _ h => h
  landing := by
    refine ⟨fun _ _ h => h, fun _ _ _ h hw => h.meanwhile hw, ?_⟩
    exact fun c o w hc h _ => hc.uncancelled h o
  resumed := fun _ _ h => h.1
  replayed := fun _ _ h => h
  switched := fun _ o _ _ => uncancelled_write (by simp) o

/-- The compensation keeps it: it writes `cancelled` only when a checkpoint
found the flag. -/
theorem conclude_uncancelled (hw : Uncancelled r.d.id w)
    (he : e = .cancelled → switched r.d.id w.log = false) :
    wp (setting ok Meanwhile (Uncancelled r.d.id))
      (conclude polls r (rt, .error e)) (fun _ w => Uncancelled r.d.id w)
      w := by
  by_cases hc : e = .cancelled
  · refine wp_mono (wp_of_makes (makes_conclude (.error e))
      (J := fun w => switched r.d.id w.log = false)
      (fun _ => .of_not_switched) ?_ ?_ (he hc))
      fun _ _ => .of_not_switched
    · intro w w' h hw
      rw [hw.log]
      exact h
    · intro c o w hcall h _
      refine (switched_sem ?_ o).trans h
      rintro rfl
      have hno : (Call.setDeploymentStatus r.d.id .switching).entersSwitch
          r.d.id = false := hcall.not_entersSwitch
      simp [Call.entersSwitch, DeploymentStatus.pastBarrier] at hno
  · have hclosing : closing (.error e) = .failed := by cases e <;> first | rfl | exact absurd rfl hc
    refine wp_of_makes (makes_conclude (.error e)) (fun _ h => h)
      (fun _ _ h hw => h.meanwhile hw) ?_ hw
    intro c o w hcall h _
    rw [hclosing] at hcall
    cases hcall with
    | status => exact uncancelled_write (by simp) o
    | _ => exact h.keep rfl o

theorem Execute_uncancelled (hw : Uncancelled id w) :
    wp (setting (FlagUnset jobID id) Meanwhile (Uncancelled id))
      (Execute polls jobID id) (fun _ w => Uncancelled id w) w := by
  have hlog : ∀ {w : World} {c}, c.opensRun = true → Uncancelled id w →
      Uncancelled id (w.logged c) := by
    intro w c hc hw hs s hs'
    refine hw ?_ s hs'
    have hne : c ≠ .setDeploymentStatus id .switching := by
      rintro rfl
      cases hc
    simpa [switched, hne.symm] using hs
  refine wp_Execute_read (K := Uncancelled id) (D := fun _ => Uncancelled id)
    (fun _ h => h) (fun _ _ h => h) (fun _ _ h hw => h.meanwhile hw)
    (fun _ _ _ h hw => h.meanwhile hw) (fun _ _ _ hc h => hlog hc h)
    (fun _ _ h _ => hlog rfl h) (fun _ h _ => hlog rfl h) (fun _ _ h _ => h)
    (fun _ _ h => h) ?_ hw
  rintro r w rfl rfl _ h
  refine (uncancelled_stages r).wp_attempt ?_ ?_ ?_ (fun _ h _ => h) ⟨h, by simp⟩
  · exact fun rt s w e h hs _ => conclude_uncancelled h.1 fun he => h.2 (hs.2 he)
  · exact fun _ s w e h hs => conclude_uncancelled h.1 fun he => h.2 (hs.2 he)
  · intro w e h he
    refine conclude_uncancelled h ?_
    rintro rfl
    exact he.elim

/-- A deployment that was ever written `switching` is not cancelled, in every
run of attempts, crashes and cancel requests in which each checkpoint that is
made after that write finds the flag unset. -/
theorem switched_not_cancelled (jobID id : Nat) (w : World)
    (hlog : w.log = []) (x : Retry.Config Ans World JobResult)
    (hx : (deploymentJob (FlagUnset jobID id) (fun _ => True) jobID
      id).Reaches w x) (hs : switched id x.state.log = true) :
    x.state.status? id ≠ some .cancelled := by
  have hsound : (deploymentJob (FlagUnset jobID id) (fun _ => True) jobID
      id).Sound (Uncancelled id) (Uncancelled id)
      (fun _ w => Uncancelled id w) :=
    { refl := Meanwhile.refl
      trans := Meanwhile.trans
      attempt := by
        rintro _ w ⟨polls, rfl⟩ hw
        exact Execute_uncancelled hw
      pre_inv := fun _ h => h
      pre_stable := fun _ _ h hw => h.meanwhile hw
      post_inv := fun _ _ h => h
      post_stable := fun _ _ _ h hw => h.meanwhile hw
      done := fun _ _ h _ => h
      die := fun _ h _ => h }
  have hinit : Uncancelled id w := .of_not_switched (by rw [hlog]; rfl)
  intro hstatus
  exact (hsound.reaches_inv hinit hx hs _ hstatus).2 rfl

instance (jobID id : Nat) (c : Call) (o : Outcome) (w : World) :
    Decidable (FlagUnset jobID id c o w) :=
  inferInstanceAs (Decidable (_ → _ → _))

/-- The attempt after a crash. -/
theorem switched_not_cancelled_shop :
    switched 1 (crashedShop.after 1 7 1 20).log = true ∧
      (crashedShop.after 1 7 1 20).status? 1 ≠ some .cancelled := by
  have hfirst : (deploymentJob (FlagUnset 7 1) (fun _ => True) 7 1).Reaches shopWorld
      ⟨_, crashedShop⟩ :=
    reaches_after .refl ⟨1, rfl⟩ (by decide :
      (Execute 1 7 1).AllN smoothly (fun c => FlagUnset 7 1 c .succeeds) 26 shopWorld)
  exact ⟨by decide, switched_not_cancelled 7 1 shopWorld rfl _
    (reaches_after (hfirst.die trivial) ⟨1, rfl⟩ (by decide :
      (Execute 1 7 1).AllN smoothly (fun c => FlagUnset 7 1 c .succeeds) 20 crashedShop))
    (by decide)⟩

/-- What is left of the sample attempt after its last checkpoint. -/
def checkedShop : Prog Ans JobResult × World :=
  (Execute 1 7 1).execN smoothly 25 shopWorld

/-- A cancel request comes in between the last checkpoint and the write of
`switching`. -/
def requestedShop : World :=
  { checkedShop.2 with
    jobs := requestDeploymentJobCancel 0 1 checkedShop.2.jobs }

/-- The attempt writes `switching` and dies. -/
def tooLateShop : World :=
  (checkedShop.1.execN smoothly 1 requestedShop).2

theorem tooLateShop_reached :
    (deploymentJob (fun _ _ _ => True) (fun _ => True) 7 1).Reaches shopWorld
      ⟨none, tooLateShop⟩ := by
  have hchecked : (deploymentJob (fun _ _ _ => True) (fun _ => True) 7
      1).Reaches shopWorld ⟨some checkedShop.1, checkedShop.2⟩ :=
    reaches_after .refl ⟨1, rfl⟩ (allN_true (Execute 1 7 1) 25 _)
  have hother : Meanwhile checkedShop.2 requestedShop :=
    Relation.ReflTransGen.single (.queue _)
  have hrequested : (deploymentJob (fun _ _ _ => True) (fun _ => True) 7
      1).Reaches shopWorld ⟨some checkedShop.1, requestedShop⟩ :=
    hchecked.tail (.other _ _ _ hother)
  exact Retry.Reaches.die (Retry.Reaches.execN (o := Outcome.succeeds)
    hrequested (allN_true checkedShop.1 1 _)) trivial

/-- A cancel request in the window between the last checkpoint and the write
of `switching`, accepted because the deployment is still `healthchecking`, and
a crash after that write: the resumed attempt honours the flag and the
deployment ends cancelled. -/
theorem late_request_cancels :
    checkedShop.2.status? 1 = some .healthchecking ∧
      ∃ x, (deploymentJob (fun _ _ _ => True) (fun _ => True) 7 1).Reaches
        shopWorld x ∧ switched 1 x.state.log = true ∧
        x.state.status? 1 = some .cancelled := by
  have hend : switched 1 (tooLateShop.after 1 7 1 4).log = true ∧
      (tooLateShop.after 1 7 1 4).status? 1 = some .cancelled := by
    decide
  exact ⟨by decide, _, reaches_after tooLateShop_reached ⟨1, rfl⟩
    (allN_true (Execute 1 7 1) 4 _), hend⟩

end Akerdock.Deploy
