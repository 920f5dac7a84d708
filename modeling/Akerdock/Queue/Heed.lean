import Akerdock.Queue.Worker
import Akerdock.Deploy.Attempts

/-!
# How a process stands towards a cancel request

For one job and its deployment, every process of the pool is in one of a few
modes, and its mode says which calls it can still make.  `heed` is the
automaton that follows the modes: it goes by the row that an attempt read, the
answers of its checkpoints, and the answer of the atomic start.

* `Allowed` and `AllowedStmt` are the calls of each mode.
* `Heeds m x` says of code of the engine that it keeps to them, started in the
  mode `m`, and in which mode each way to leave it ends.
* `follows_process` and `follows_CancelDeployment` put the pieces together.

An answer that no table gives, such as a row under another number, leads to
the mode `void`, in which everything is allowed.
-/

namespace Akerdock.Queue

open Store Docker Deploy Proc Proc.Prog

/-- Where a process stands towards the job `jobID` of the deployment `id`.

* `fresh`: an attempt of the job that has not read the deployment.
* `queued`: it read the deployment as queued, and made no checkpoint.
* `checked`: it made one, and waits for the deployment to start.
* `running`: it runs the deployment.
* `flagged`: a checkpoint found the cancel request.
* `closed`: it found the deployment closed, or not queued any more.
* `away`, `apart`: a process that has to do with another deployment, before
  and after it read that one.
* `asking`, `between`, `granted`: a cancel request for the deployment before
  its first statement, between the two, and after the second. -/
inductive Mode where
  | fresh | queued | checked | running | flagged | closed | away | apart
  | asking | between | granted | void
  deriving DecidableEq

namespace Mode

/-- The answer to a read of the deployment `i`. -/
def onRow (i : Nat) (row : Option Deployment) : Mode → Mode
  | .fresh =>
    match row with
    | none => .closed
    | some d =>
      if d.id = i then
        if d.status.terminal then .closed
        else if d.status = .queued then .queued
        else .running
      else .void
  | .asking => if row.all (fun d => d.id = i) then .asking else .void
  | .away => if row.all (fun d => d.id = i) then .apart else .void
  | m => m

/-- The answer to a checkpoint. -/
def onCheckpoint (flag : Bool) : Mode → Mode
  | .queued => if flag then .flagged else .checked
  | .checked => if flag then .flagged else .checked
  | .running => if flag then .flagged else .running
  | m => m

/-- The answer to the atomic start. -/
def onStart (started : Bool) : Mode → Mode
  | .checked => if started then .running else .checked
  | m => m

/-- The answer to the read of the status. -/
def onStatus (s : Option DeploymentStatus) : Mode → Mode
  | .checked =>
    match s with
    | none => .void
    | some .queued => .checked
    | some _ => .closed
  | m => m

/-- The modes of workers. -/
def ofWorker : Mode → Bool
  | .asking | .between | .granted => false
  | _ => true

end Mode

/-- The modes of an attempt. -/
def heed (m : Mode) : (c : Call) → Ans c → Mode
  | .getDeploymentByID i, row => m.onRow i row
  | .isJobCancelRequested _, flag => m.onCheckpoint flag
  | .startDeploymentUnlessCleanupRunning _, started => m.onStart started
  | .getDeploymentStatus _, s => m.onStatus s
  | _, _ => m

inductive Allowed (jobID id : Nat) : Mode → Call → Prop where
  | row : Allowed jobID id .fresh (.getDeploymentByID id)
  | app : Allowed jobID id .queued .getApplicationByID
  | preview (p : Nat) : Allowed jobID id .queued (.getPreviewByID p)
  | failing (r : Run) (h : r.d.id = id) (c : Call)
      (hc : Concluding r .failed c) : Allowed jobID id .queued c
  | firstCheckpoint : Allowed jobID id .queued (.isJobCancelRequested jobID)
  | checkpoint : Allowed jobID id .checked (.isJobCancelRequested jobID)
  | start : Allowed jobID id .checked (.startDeploymentUnlessCleanupRunning id)
  | status : Allowed jobID id .checked (.getDeploymentStatus id)
  | running (c : Call) (hcheck : ∀ j, c = .isJobCancelRequested j → j = jobID)
      (hwrite : ∀ i s, c = .setDeploymentStatus i s →
        i = id ∧ s ≠ .queued ∧ s ≠ .cancelled) : Allowed jobID id .running c
  | compensation (n : String) : Allowed jobID id .flagged (.docker .compensation (.remove n))
  | cancelled : Allowed jobID id .flagged (.setDeploymentStatus id .cancelled)
  | away (i : Nat) : Allowed jobID id .away (.getDeploymentByID i)
  | apart (c : Call) (hcheck : c ≠ .isJobCancelRequested jobID)
      (hwrite : c.writesStatus id = false) : Allowed jobID id .apart c
  | asks : Allowed jobID id .asking (.getDeploymentByID id)
  | void (c : Call) : Allowed jobID id .void c

/-- The statements of a worker. -/
def Stmt.ofWorker : Stmt → Bool
  | .markJobRunning _ _ | .runHandler _ | .succeedJob _ _
  | .failJob _ _ _ _ => true
  | _ => false

/-- The statements of a process in each mode. -/
inductive AllowedStmt (id : Nat) : Mode → Stmt → Prop where
  | worker (m : Mode) (s : Stmt) (hm : m.ofWorker = true)
      (hs : s.ofWorker = true) : AllowedStmt id m s
  | first : AllowedStmt id .asking (.cancelQueuedDeployment id)
  | second : AllowedStmt id .between (.requestDeploymentJobCancel id)
  | firstApart (i : Nat) (h : i ≠ id) : AllowedStmt id .apart (.cancelQueuedDeployment i)
  | secondApart (i : Nat) (h : i ≠ id) : AllowedStmt id .apart (.requestDeploymentJobCancel i)
  | void (s : Stmt) : AllowedStmt id .void s

/-- The modes of a process. -/
def watch (m : Mode) : (c : SysCall) → SysAns c → Mode
  | .inl c, a => heed m c a
  | .inr (.cancelQueuedDeployment _), _ =>
    if m = .asking then .between else m
  | .inr (.requestDeploymentJobCancel _), _ =>
    if m = .between then .granted else m
  | .inr _, _ => m

def SysAllowed (jobID id : Nat) (m : Mode) : SysCall → Prop
  | .inl c => Allowed jobID id m c
  | .inr s => AllowedStmt id m s

/-- How a process may end in each mode: only a cancel request that made both
of its statements is accepted. -/
def SysResult (id : Nat) (m : Mode) (reply : Reply) : Prop :=
  reply = .accepted id → m = .granted ∨ m = .void

variable {jobID id : Nat} {α β : Type}

/-! ## Code of the engine -/

/-- The mode in which each way to leave the engine ends. -/
def Left : Mode → Except RunError α → Prop
  | m, .ok _ => m = .running
  | m, .error .cancelled => m = .flagged
  | m, .error (.failed _) => m = .running ∨ m = .queued ∨ m = .void
  | _, .error _ => True

/-- `x` keeps to the calls that are allowed, started in the mode `m`. -/
def Heeds (jobID id : Nat) (m : Mode) (x : RunM α) : Prop :=
  Follows heed (Allowed jobID id) Left m x.run

theorem Heeds.bind (h : Heeds jobID id m x)
    (hf : ∀ a, Heeds jobID id .running (f a)) : Heeds jobID id m (x >>= f) := by
  refine Follows.run_bind h ?_ ?_
  · rintro _ a rfl
    exact hf a
  · intro m e he
    cases e <;> exact he

/-- A statement that is not a write of the status, a checkpoint included. -/
theorem Allowed.of_neutral (h : c.neutral = true) : Allowed jobID id .running c :=
  .running c (by rintro j rfl; cases h) (by rintro i s rfl; cases h)

/-- Calls that are allowed in the mode `m` and do not change it. -/
theorem follows_of_makes (h : Makes R p) (hR : ∀ c, R c → Allowed jobID id m c)
    (hm : ∀ c a, R c → heed m c a = m) :
    Follows heed (Allowed jobID id) (fun m' _ => m' = m) m p :=
  Follows.simulate h (fun _ => m) (fun _ c hc => hR c hc)
    (fun _ c a hc => hm c a hc) fun _ _ _ => rfl

theorem allowed_of_preSwitch (h : PreSwitch r c) : Allowed r.jobID r.d.id .running c := by
  cases h with
  | neutral c h => exact .of_neutral h
  | checkpoint => exact .running _ (by rintro j ⟨⟩; rfl) nofun
  | start | container op h =>
    exact .running _ nofun nofun
  | status s h =>
    refine .running _ nofun ?_
    rintro i s' ⟨⟩
    cases s <;> simp_all [DeploymentStatus.early]

theorem allowed_of_switching (h : Switching r c) : Allowed r.jobID r.d.id .running c := by
  cases h with
  | inspect site n h | waker => exact .of_neutral rfl
  | container op | route site t =>
    exact .running _ nofun nofun
  | finishing c h =>
    cases h with
    | succeeded =>
      refine .running _ nofun ?_
      rintro i s ⟨⟩
      exact ⟨rfl, by simp, by simp⟩
    | settling c h =>
      cases h with
      | status =>
        refine .running _ nofun ?_
        rintro i s ⟨⟩
        exact ⟨rfl, by simp, by simp⟩
      | _ => exact .running _ nofun nofun

/-- Past the barrier there is no checkpoint. -/
theorem heed_of_switching (h : Switching r c) (a : Ans c) : heed .running c a = .running := by
  cases c <;> first | rfl | (cases h with | finishing c h =>
    cases h with | settling c h => cases h)

theorem heeds_of_phase (h : Phase (PreSwitch r) x) : Heeds r.jobID r.d.id .running x := by
  refine Follows.simulate h (fun s => if s then Mode.flagged else .running) ?_ ?_ ?_
  · rintro _ c ⟨rfl, hc⟩
    exact allowed_of_preSwitch hc
  · rintro _ c a ⟨rfl, hc⟩
    cases c <;> rfl
  · intro s y hs
    cases s with
    | true =>
      obtain rfl := hs.1 rfl
      rfl
    | false =>
      cases y with
      | ok a => rfl
      | error e =>
        cases e with
        | cancelled => exact absurd (hs.2 rfl) (by simp)
        | failed msg => exact .inl rfl
        | stateChanged s | contextDone => trivial

theorem heeds_of_switching (h : Within (Switching r) RunError.isFailed x) :
    Heeds r.jobID r.d.id .running x := by
  refine Follows.simulate h (fun _ => Mode.running) ?_ ?_ ?_
  · exact fun _ c hc => allowed_of_switching hc
  · exact fun _ c a hc => heed_of_switching hc a
  · intro _ y hy
    cases y with
    | ok a => rfl
    | error e =>
      cases e with
      | cancelled => exact (hy _ rfl).elim
      | failed msg => exact .inl rfl
      | stateChanged s | contextDone => trivial

/-- The pipeline, from the resolution of the Docker runtime on. -/
theorem heeds_deploy : Heeds r.jobID r.d.id .running (deploy polls r) := by
  have hopen : ∀ {x : RunM Unit}, Phase (Opening r) x →
      Heeds r.jobID r.d.id .running x := fun h =>
    heeds_of_phase (h.mono fun _ => Opening.preSwitch)
  refine Heeds.bind (hopen phase_agentHostOps) fun _ => ?_
  refine Heeds.bind (hopen phase_dialBuildServer) fun _ => ?_
  refine Heeds.bind (x := resume polls r) ?_ ?_
  · unfold resume
    split
    · exact Heeds.bind (heeds_of_switching lands_resumeSwitch.within) fun _ => .ret _ _ rfl
    · exact .ret _ _ rfl
  · intro resumed
    cases resumed with
    | true => exact .ret _ _ rfl
    | false =>
      refine Heeds.bind (heeds_of_phase phase_beforeSwitch) fun image => ?_
      refine Heeds.bind (.call _ _ _ ?_ fun _ => .ret _ _ rfl) fun _ =>
        heeds_of_switching lands_switchTraffic.within
      refine .running _ nofun ?_
      rintro i s ⟨⟩
      exact ⟨rfl, by simp, by simp⟩

/-- The first transition of a deployment that was read as queued: it starts,
or the attempt is over. -/
theorem heeds_awaitStart : ∀ polls, Heeds r.jobID r.d.id .checked (awaitStart r polls) := by
  intro polls
  induction polls with
  | zero => exact .ret _ _ trivial
  | succ polls ih =>
    refine .call _ _ _ .start ?_
    intro started
    cases started with
    | true => exact .ret _ _ rfl
    | false =>
      refine .call _ _ _ .status ?_
      intro s
      match s with
      | none => exact .ret _ _ (.inr (.inr rfl))
      | some .queued =>
        refine .call _ _ _ .checkpoint ?_
        intro flag
        cases flag with
        | true => exact .ret _ _ rfl
        | false => exact ih
      | some .preparing | some .cloning | some .building | some .pushing
      | some .starting | some .healthchecking | some .switching
      | some .finishing | some .succeeded | some .failed | some .cancelled
      | some .retrying | some .superseded => exact .ret _ _ trivial

/-- The head of `execute`, for a deployment that was not read as queued. -/
theorem heeds_connect : Heeds r.jobID r.d.id .running (connect polls r) :=
  heeds_of_phase (phase_connect.mono fun _ => Opening.preSwitch)

/-- The head of `execute`, for a deployment that was read as queued. -/
theorem heeds_connect_queued (hq : r.d.status = .queued) :
    Heeds r.jobID r.d.id .queued (connect polls r) := by
  unfold connect
  split
  · exact .ret _ _ (.inr (.inl rfl))
  · refine .call _ _ _ .firstCheckpoint ?_
    intro flag
    cases flag with
    | true => exact .ret _ _ rfl
    | false =>
      have hstart : setStatus polls r .preparing = awaitStart r polls := by
        simp [setStatus, hq]
      change Follows heed _ Left .checked (setStatus polls r .preparing >>= _ : RunM Unit).run
      rw [hstart]
      have hopen : ∀ s msg, s ∈ [RemoteStep.sshConnect, .agentRuntime,
          .agentHostOps, .dialBuildServer] →
          Heeds r.jobID r.d.id .running (must s msg) := fun s msg hs =>
        heeds_of_phase (phase_must (Opening.remote s hs).preSwitch)
      exact Heeds.bind (heeds_awaitStart polls) fun _ =>
        Heeds.bind (hopen _ _ (by simp)) fun _ => hopen _ _ (by simp)

theorem heed_of_concluding (h : Concluding r t c) (m : Mode) (a : Ans c) : heed m c a = m := by
  cases h <;> rfl

/-- The modes in which an attempt may fail. -/
theorem allowed_of_concluding (hm : m = .running ∨ m = .queued ∨ m = .void)
    (h : Concluding r .failed c) : Allowed r.jobID r.d.id m c := by
  rcases hm with rfl | rfl | rfl
  · refine .running c ?_ ?_
    · rintro j rfl
      cases h
    · rintro i s rfl
      cases h
      exact ⟨rfl, by simp, by simp⟩
  · exact .failing r rfl c h
  · exact .void c

/-- What `Execute` does with each way to leave the engine. -/
theorem follows_conclude (h : Left m y) :
    Follows heed (Allowed r.jobID r.d.id) (fun _ _ => True) m (conclude polls r (rt, y)) := by
  cases y with
  | ok _ => exact .ret _ _ trivial
  | error e =>
    cases e with
    | stateChanged s | contextDone => exact .ret _ _ trivial
    | failed msg =>
      refine (follows_of_makes (makes_conclude (.error (.failed msg)))
        (fun c hc => allowed_of_concluding h hc)
        (fun c a hc => heed_of_concluding hc m a)).mono (fun _ _ h => h) ?_
      exact fun _ _ _ => trivial
    | cancelled =>
      obtain rfl : m = .flagged := h
      have hmark : Within (Allowed r.jobID r.d.id .flagged) (fun _ => True)
          (markCancelled polls r rt) :=
        Within.bind (within_compensate (.compensation _)) fun _ =>
          within_ask .cancelled
      refine Follows.bind (follows_of_makes hmark.makes (fun _ h => h) ?_) ?_
      · intro c a hc
        cases hc <;> rfl
      · exact fun m' _ _ => .ret m' _ trivial

/-- An attempt whose deployment was read as queued, or as running. -/
theorem follows_attempt (hm : m = .queued ∧ r.d.status = .queued ∨ m = .running) :
    Follows heed (Allowed r.jobID r.d.id) (fun _ _ => True) m
      ((execute polls r).bind (conclude polls r)) := by
  have hconnect : Heeds r.jobID r.d.id m (connect polls r) := by
    rcases hm with ⟨rfl, hq⟩ | rfl
    · exact heeds_connect_queued hq
    · exact heeds_connect
  rw [execute, bind_bind]
  refine Follows.bind hconnect ?_
  intro m y hy
  cases y with
  | error e => exact follows_conclude hy
  | ok _ =>
    obtain rfl : m = .running := hy
    rw [bind_bind]
    exact Follows.bind heeds_deploy fun m y hy => follows_conclude hy

/-! ## Whole attempts -/

theorem follows_void (p : Prog Ans α) :
    Follows heed (Allowed jobID id) (fun _ _ => True) .void p := by
  induction p with
  | ret a => exact .ret _ a trivial
  | call c next ih =>
    refine .call _ c next (.void c) ?_
    intro a
    have hvoid : heed .void c a = .void := by cases c <;> rfl
    rw [hvoid]
    exact ih a

theorem follows_newRun (happ : Allowed jobID id m .getApplicationByID)
    (hpreview : ∀ p, Allowed jobID id m (.getPreviewByID p)) :
    Follows heed (Allowed jobID id) (fun m' run => m' = m ∧
      ∀ r, run = some r → r.jobID = j ∧ r.d = d) m (newRun j d) := by
  refine .call _ _ _ happ ?_
  intro app
  cases app with
  | none => exact .ret _ _ ⟨rfl, by rintro r ⟨⟩⟩
  | some app =>
    change Follows heed _ _ m (readPreview j d app)
    unfold readPreview
    split
    · exact .ret _ _ ⟨rfl, by rintro r ⟨⟩; exact ⟨rfl, rfl⟩⟩
    · refine .call _ _ _ (hpreview _) ?_
      intro p
      refine .ret _ _ ⟨rfl, ?_⟩
      intro r hr
      obtain ⟨p, _, rfl⟩ := Option.map_eq_some_iff.1 hr
      exact ⟨rfl, rfl⟩

theorem follows_Execute :
    Follows heed (Allowed jobID id) (fun _ _ => True) .fresh (Execute polls jobID id) := by
  have hrun : ∀ {d : Deployment} {m : Mode}, d.id = id →
      m = .queued ∧ d.status = .queued ∨ m = .running →
      Follows heed (Allowed jobID id) (fun _ _ => True) m
        ((newRun jobID d).bind (executeRun polls)) := by
    intro d m hd hm
    refine Follows.bind (follows_newRun (j := jobID) (d := d) ?_ ?_) ?_
    · rcases hm with ⟨rfl, _⟩ | rfl
      · exact .app
      · exact .of_neutral rfl
    · intro p
      rcases hm with ⟨rfl, _⟩ | rfl
      · exact .preview p
      · exact .of_neutral rfl
    · rintro _ run ⟨rfl, hr⟩
      cases run with
      | none => exact .ret _ _ trivial
      | some r =>
        obtain ⟨rfl, rfl⟩ := hr r rfl
        subst hd
        exact follows_attempt hm
  refine .call _ _ _ .row ?_
  intro row
  change Follows heed _ _ (Mode.onRow id row .fresh) _
  cases row with
  | none => exact .ret _ _ trivial
  | some d =>
    simp only [Mode.onRow]
    split
    · rename_i hd
      rw [executeRow]
      split
      · exact .ret _ _ trivial
      · split
        · rename_i hq
          exact hrun hd (.inl ⟨rfl, hq⟩)
        · exact hrun hd (.inr rfl)
    · exact follows_void _

theorem follows_Execute_apart (hj : j ≠ jobID) (hi : i ≠ id) :
    Follows heed (Allowed jobID id) (fun _ _ => True) .away (Execute polls j i) := by
  have hread : ∀ c : Call, c.neutral = true → Allowed jobID id .apart c := by
    intro c hc
    refine .apart c ?_ ?_
    · rintro rfl
      cases hc
    · cases c <;> first | rfl | cases hc
  refine .call _ _ _ (.away i) ?_
  intro row
  change Follows heed _ _ (Mode.onRow i row .away) _
  cases row with
  | none => exact .ret _ _ trivial
  | some d =>
    simp only [Mode.onRow, Option.all_some, decide_eq_true_eq]
    split
    · rename_i hd
      rw [executeRow]
      split
      · exact .ret _ _ trivial
      · refine Follows.bind (follows_newRun (j := j) (d := d) (hread _ rfl)
          fun p => hread _ rfl) ?_
        rintro _ run ⟨rfl, hr⟩
        cases run with
        | none => exact .ret _ _ trivial
        | some r =>
          obtain ⟨rfl, rfl⟩ := hr r rfl
          refine (follows_of_makes makes_attempt ?_ ?_).mono (fun _ _ h => h)
            fun _ _ _ => trivial
          · intro c hc
            refine .apart c ?_ ?_
            · rintro rfl
              exact hj hc.checkpoint.symm
            · rw [Bool.eq_false_iff]
              intro hw
              exact hi (hd.symm.trans (hc.writesStatus hw))
          · intro c a _
            cases c <;> rfl
    · exact follows_void _

/-! ## Whole processes -/

/-- An attempt does not turn into a cancel request. -/
theorem heed_ofWorker (hm : m.ofWorker = true) (c : Call) (a : Ans c) :
    (heed m c a).ofWorker = true := by
  cases c with
  | getDeploymentByID i =>
    cases m with
    | fresh =>
      simp only [heed, Mode.onRow]
      repeat' split
      all_goals rfl
    | away =>
      simp only [heed, Mode.onRow]
      split <;> rfl
    | asking => cases hm
    | _ => exact hm
  | isJobCancelRequested j | startDeploymentUnlessCleanupRunning i =>
    cases m <;> cases a <;> exact hm
  | getDeploymentStatus i =>
    cases m with
    | checked =>
      simp only [heed, Mode.onStatus]
      split <;> rfl
    | _ => exact hm
  | _ => exact hm

theorem follows_record (hm : m.ofWorker = true) :
    Follows watch (SysAllowed jobID id) (SysResult id) m (record worker jitter job res) := by
  cases res with
  | deploymentStatus s | error msg =>
    exact .call m _ _ (.worker m _ hm rfl) fun _ =>
      .ret _ _ nofun
  | interrupted => exact .ret _ _ nofun

theorem follows_handled
    (h : Follows heed (Allowed jobID id) (fun _ _ => True) m p)
    (hm : m.ofWorker = true) :
    Follows watch (SysAllowed jobID id) (SysResult id) m
      (p.inl.bind (record worker jitter job)) := by
  refine Follows.bind (Follows.inl (h.keeping
    (I := fun m => m.ofWorker = true)
    (fun _ c a _ hm => heed_ofWorker hm c a) hm)) ?_
  exact fun _ _ h => follows_record h.2

theorem follows_process (worker : String) (polls jitter : Nat)
    (h : job.payload = .deploymentRun id ↔ job.id = jobID) :
    ∃ m, (m = .fresh ∨ m = .away) ∧
      Follows watch (SysAllowed jobID id) (SysResult id) m
        (process worker polls jitter job) := by
  by_cases hjob : job.id = jobID
  · refine ⟨.fresh, .inl rfl, .call _ _ _ (.worker _ _ rfl rfl) ?_⟩
    intro (running : Bool)
    cases running with
    | false => exact .ret _ _ nofun
    | true =>
      simp only [if_true, h.2 hjob]
      subst hjob
      exact follows_handled follows_Execute rfl
  · refine ⟨.away, .inr rfl, .call _ _ _ (.worker _ _ rfl rfl) ?_⟩
    intro (running : Bool)
    cases running with
    | false => exact .ret _ _ nofun
    | true =>
      simp only [if_true]
      split
      · rename_i i hi
        refine follows_handled (follows_Execute_apart hjob ?_) rfl
        rintro rfl
        exact hjob (h.1 hi)
      · refine .call _ _ _ (.worker _ _ rfl rfl) ?_
        intro (ok : Bool)
        cases ok <;> exact .call _ _ _ (.worker _ _ rfl rfl) fun _ =>
          .ret _ _ nofun

theorem follows_cancelRow (h : m = .asking ∧ d.id = id ∨ m = .apart ∧ d.id ≠ id ∨ m = .void) :
    Follows watch (SysAllowed jobID id) (SysResult id) m (cancelRow d) := by
  unfold cancelRow
  split
  · exact .ret _ _ nofun
  split
  · exact .ret _ _ nofun
  rcases h with ⟨rfl, rfl⟩ | ⟨rfl, hd⟩ | rfl
  · exact .call _ _ _ .first fun _ => .call _ _ _ .second fun _ => .ret _ _ fun _ => .inl rfl
  · refine .call _ _ _ (.firstApart _ hd) fun _ =>
      .call _ _ _ (.secondApart _ hd) fun _ => .ret _ _ ?_
    intro h
    exact absurd (Reply.accepted.inj h) hd
  · exact .call _ _ _ (.void _) fun _ => .call _ _ _ (.void _) fun _ => .ret _ _ fun _ => .inr rfl

theorem follows_CancelDeployment (jobID id i : Nat) :
    ∃ m, (m = .asking ∨ m = .away) ∧
      Follows watch (SysAllowed jobID id) (SysResult id) m (CancelDeployment i) := by
  by_cases hi : i = id
  · refine ⟨.asking, .inl rfl, .call _ _ _ (hi ▸ .asks) ?_⟩
    intro (row : Option Deployment)
    change Follows watch _ _ (Mode.onRow i row .asking) _
    cases row with
    | none => exact .ret _ _ nofun
    | some d =>
      simp only [Mode.onRow, Option.all_some, decide_eq_true_eq]
      split
      · rename_i hd
        exact follows_cancelRow (.inl ⟨rfl, hd.trans hi⟩)
      · exact follows_cancelRow (.inr (.inr rfl))
  · refine ⟨.away, .inr rfl, .call _ _ _ (.away i) ?_⟩
    intro (row : Option Deployment)
    change Follows watch _ _ (Mode.onRow i row .away) _
    cases row with
    | none => exact .ret _ _ nofun
    | some d =>
      simp only [Mode.onRow, Option.all_some, decide_eq_true_eq]
      split
      · rename_i hd
        exact follows_cancelRow (.inr (.inl ⟨rfl, hd ▸ hi⟩))
      · exact follows_cancelRow (.inr (.inr rfl))

end Akerdock.Queue
