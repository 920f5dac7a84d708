import Akerdock.Queue.Heed

/-!
# An accepted cancel request is not lost

`CancelDeployment` answers 202 after two conditional statements: one cancels
the deployment if it is still queued, the other sets the cancel flag of its
job.  The second one names the job statuses it applies to, and `retry_wait`,
where a job waits between a crash and its next attempt, is not among them.

* `accepted`, `heard`, `proceeds` and `lastHeard` read the trace of a run: a
  request was accepted, a process made a checkpoint after that, it went on all
  the same, it was the last one to write the status.
* `Shift` is what the statements of others, and most calls, can do to the
  deployment and to its job.
* `Kept` is the invariant, with one lemma per kind of step, and
  `accepted_cancel_kept` the result: in the runs in which every request finds
  the job in a status that it applies to, or the deployment cancelled, and the
  flag can be read, no checkpoint after an accepted request lets an attempt go
  on.
-/

namespace Akerdock.Queue

open Store Docker Deploy Proc Proc.Prog Table
open Function Option Pool
open Pool (Config)

/-! ## What the trace says -/

/-- The trace of a run, newest event first. -/
abbrev Trace := List (Event SysAns Reply)

/-- `CancelDeployment` answered 202 for the deployment `id`. -/
def accepted (id : Nat) : Trace → Bool
  | [] => false
  | .ended _ reply :: t => reply = .accepted id || accepted id t
  | .called _ _ _ :: t => accepted id t

def SysCall.checks (jobID : Nat) : SysCall → Bool
  | .inl (.isJobCancelRequested j) => j = jobID
  | _ => false

/-- The process `k` made a checkpoint after a request was accepted. -/
def heard (jobID id k : Nat) : Trace → Bool
  | [] => false
  | .called k' c _ :: t =>
    (k' = k && SysCall.checks jobID c && accepted id t) || heard jobID id k t
  | .ended _ _ :: t => heard jobID id k t

/-- The calls with which an attempt comes to its end: the compensation, the
status `cancelled`, the statements of the worker, and those of an attempt that
waits for a start that does not come. -/
def stops (id : Nat) : (c : SysCall) → SysAns c → Bool
  | .inl (.docker .compensation (.remove _)), _ => true
  | .inl (.setDeploymentStatus i s), _ => i = id && s = .cancelled
  | .inl (.isJobCancelRequested _), _ => true
  | .inl (.getDeploymentStatus _), _ => true
  | .inl (.startDeploymentUnlessCleanupRunning _), started => !started
  | .inr _, _ => true
  | _, _ => false

/-- Some process went on with the deployment after it had made a checkpoint
after an accepted request. -/
def proceeds (jobID id : Nat) : Trace → Bool
  | [] => false
  | .called k c a :: t =>
    (heard jobID id k t && !stops id c a) || proceeds jobID id t
  | .ended _ _ :: t => proceeds jobID id t

def wrote (id : Nat) : (c : SysCall) → SysAns c → Bool
  | .inl (.setDeploymentStatus i _), _ => i = id
  | .inl (.startDeploymentUnlessCleanupRunning i), started =>
    i = id && started
  | _, _ => false

/-- The attempt that was the last one to write the status of the deployment
had made a checkpoint after an accepted request. -/
def lastHeard (jobID id : Nat) : Trace → Bool
  | [] => false
  | .called k c a :: t =>
    if wrote id c a then heard jobID id k t else lastHeard jobID id t
  | .ended _ _ :: t => lastHeard jobID id t

/-- A process that did nothing yet made no checkpoint. -/
theorem not_heard_of_new {jobID id k : Nat} (h : ∀ e ∈ t, e.proc ≠ k) :
    heard jobID id k t = false := by
  induction t with
  | nil => rfl
  | cons e t ih =>
    have ht := ih fun e he => h e (List.mem_cons_of_mem _ he)
    have he := h e List.mem_cons_self
    cases e with
    | called k' c a =>
      have hk : k' ≠ k := he
      simp [heard, ht, hk]
    | ended k' reply => exact ht

/-- A process that heard of a request and goes on with a call that stops. -/
theorem proceeds_called {jobID id : Nat} (h : proceeds jobID id t = false)
    (hstops : heard jobID id k t = true → stops id c a = true) :
    proceeds jobID id (.called k c a :: t) = false := by
  cases hh : heard jobID id k t with
  | false => simp [proceeds, h, hh]
  | true => simp [proceeds, h, hstops hh]

/-! ## What a step can do to the deployment -/

/-- What the statements of others, and most calls, can do to the deployment
`id` and its job `jobID`: the flag stays, a queued deployment may start or be
taken out of the queue, and a closed one stays closed. -/
structure Shift (jobID id : Nat) (w w' : World) : Prop where
  queue : QueueStep jobID id w.jobs w'.jobs
  row : w.status? id ≠ none → w'.status? id ≠ none
  queued : w'.status? id = some .queued → w.status? id = some .queued
  cancelled : w'.status? id = some .cancelled →
    w.status? id = some .cancelled ∨ w.status? id = some .queued
  terminal : ∀ s, s.terminal = true → w.status? id = some s →
    w'.status? id = some s

section Shift

variable {jobID id : Nat} {w w' : World}

theorem Shift.of_status (hq : QueueStep jobID id w.jobs w'.jobs)
    (h : w'.status? id = w.status? id) : Shift jobID id w w' := by
  refine ⟨hq, ?_, ?_, ?_, ?_⟩
  · rw [h]
    exact fun hrow => hrow
  · rw [h]
    exact fun hs => hs
  · rw [h]
    exact .inl
  · rw [h]
    exact fun _ _ hs => hs

/-- A statement that only takes queued deployments out of the queue. -/
theorem Shift.of_outdated (hq : QueueStep jobID id w.jobs w'.jobs)
    (hrow : w.status? id ≠ none → w'.status? id ≠ none)
    (h : ∀ s', w'.status? id = some s' →
      ∃ s, w.status? id = some s ∧ Outdated s s') : Shift jobID id w w' := by
  refine ⟨hq, hrow, ?_, ?_, ?_⟩
  · intro hs'
    obtain ⟨s, hs, rfl | ⟨_, hterm⟩⟩ := h _ hs'
    · exact hs
    · cases hterm
  · intro hs'
    obtain ⟨s, hs, rfl | ⟨rfl, _⟩⟩ := h _ hs'
    · exact .inl hs
    · exact .inr hs
  · intro s hterm hs
    obtain ⟨s', hs'⟩ := ne_none_iff_exists'.1 (hrow (by rw [hs]; simp))
    obtain ⟨s₀, hs₀, hout⟩ := h s' hs'
    cases hs.symm.trans hs₀
    rcases hout with rfl | ⟨rfl, _⟩
    · exact hs'
    · cases hterm

/-- An `UPDATE` of deployments deletes none. -/
theorem status?_ne_none_of_updateWhere
    (hw : w'.deployments = updateWhere p f w.deployments)
    (hid : ∀ d, (f d).id = d.id) (h : w.status? id ≠ none) :
    w'.status? id ≠ none := by
  unfold World.status? at h ⊢
  rw [hw, row?_updateWhere p hid]
  simpa using h

theorem Shift.otherStep (hq : QueueStep jobID id w.jobs w'.jobs)
    (hw : w'.deployments = updateWhere p f w.deployments)
    (hid : ∀ d, (f d).id = d.id) (h : OtherStep w w') : Shift jobID id w w' :=
  .of_outdated hq (status?_ne_none_of_updateWhere hw hid) fun _ hs => h.status hs

theorem Others.shift (h : Others mayEnqueue w w')
    (hj : ∀ j, mayEnqueue j → j.payload ≠ .deploymentRun id) :
    Shift jobID id w w' := by
  have hq : QueueStep jobID id w.jobs w'.jobs := h.queueStep hj
  cases h with
  | supersedeObsoletePreviewDeployments p i =>
    exact .otherStep hq rfl (by intro _; rfl) (.supersede p i)
  | supersedeQueuedDeployments ids =>
    exact .otherStep hq rfl (by intro _; rfl) (.supersedeQueued ids)
  | _ => exact .of_status hq rfl

theorem shift_applyStmt (s : Stmt) (o : Outcome) : Shift jobID id w (applyStmt s o w).2 := by
  have hq : QueueStep jobID id w.jobs (applyStmt s o w).2.jobs :=
    queueStep_applyStmt s o w
  cases s with
  | cancelQueuedDeployment i =>
    exact .otherStep hq rfl (by intro _; rfl) (.cancelQueuedDeployment i)
  | _ => exact .of_status hq rfl

/-- The calls of an attempt that do not write the status. -/
theorem shift_sem (h : c.writesStatus id = false) (o : Outcome) :
    Shift jobID id w (sem c o w).2 := by
  refine .of_status ?_ (status?_sem_of_not h o w)
  rw [sem_jobs]
  exact .refl w.jobs

theorem shift_start (o : Outcome) :
    Shift jobID id w (sem (.startDeploymentUnlessCleanupRunning id) o w).2 := by
  cases hstart : w.canStart id with
  | false =>
    refine .of_status (.refl w.jobs) ?_
    rw [status?_startDeployment, hstart]
    rfl
  | true =>
    have hs := World.canStart_queued hstart
    have hs' : (sem (.startDeploymentUnlessCleanupRunning id) o w).2.status?
        id = some .preparing := by
      rw [status?_startDeployment, hstart]
      rfl
    refine ⟨.refl w.jobs, ?_, ?_, ?_, ?_⟩
    iterate 3
      rw [hs']
      simp
    · intro s hterm hs₀
      cases hs.symm.trans hs₀
      cases hterm

end Shift

/-! ## The invariant -/

/-- No process runs the deployment. -/
def NoRun (m : Nat → Option Mode) : Prop :=
  ∀ k, m k ≠ some .running

def Ended (id : Nat) (w : World) : Prop :=
  ∃ s, w.status? id = some s ∧ s.terminal = true

/-- Nothing can carry the deployment on: every checkpoint finds the flag, or
the deployment is closed and no process runs it. -/
def Barred (jobID id : Nat) (m : Nat → Option Mode) (w : World) : Prop :=
  w.cancelFlag jobID = true ∨ Ended id w ∧ NoRun m

/-- The modes in which an attempt does not go on. -/
def Mode.halts (s : Mode) : Prop :=
  s = .flagged ∨ s = .checked ∨ s = .closed

/-- What every run keeps in which the requests are recorded.  `m` are the
modes of the processes. -/
structure Kept (jobID id : Nat) (m : Nat → Option Mode) (w : World) (t : Trace) : Prop where
  row : w.status? id ≠ none
  job : JobOf jobID id w.jobs
  valid : ∀ k, m k ≠ some .void
  idle : w.status? id = some .queued ∨ w.status? id = some .cancelled →
    w.cancelFlag jobID = true ∨ NoRun m
  flagged : ∀ k, m k = some .flagged → w.cancelFlag jobID = true
  unqueued : accepted id t = true ∨
    (∃ k, m k = some .between ∨ m k = some .granted) →
    w.status? id ≠ some .queued
  barred : accepted id t = true ∨ (∃ k, m k = some .granted) →
    Barred jobID id m w
  halted : ∀ k s, heard jobID id k t = true → m k = some s → s.halts
  stopped : proceeds jobID id t = false
  last : lastHeard jobID id t = true → w.status? id = some .cancelled

section Kept

variable {jobID id k : Nat} {m : Nat → Option Mode} {w w' : World} {t : Trace} {s s' : Mode}

theorem NoRun.update (h : NoRun m) {s : Option Mode} (hs : s ≠ some .running) :
    NoRun (update m k s) := by
  rw [NoRun, forall_update_iff m fun _ x => x ≠ some .running]
  exact ⟨hs, fun i _ => h i⟩

theorem Barred.shift (h : Barred jobID id m w) (hs : Shift jobID id w w') :
    Barred jobID id m w' := by
  rcases h with hflag | ⟨⟨s, hst, hterm⟩, hrun⟩
  · exact .inl (hs.queue.flag hflag)
  · exact .inr ⟨⟨s, hs.terminal s hterm hst, hterm⟩, hrun⟩

theorem Kept.shift (h : Kept jobID id m w t) (hs : Shift jobID id w w') :
    Kept jobID id m w' t where
  row := hs.row h.row
  job := hs.queue.jobOf h.job
  valid := h.valid
  idle := by
    intro hst
    have hold : w.status? id = some .queued ∨ w.status? id = some .cancelled := by
      rcases hst with hst | hst
      · exact .inl (hs.queued hst)
      · exact (hs.cancelled hst).symm
    exact (h.idle hold).imp hs.queue.flag fun hrun => hrun
  flagged := fun k hk => hs.queue.flag (h.flagged k hk)
  unqueued := fun ha hst => h.unqueued ha (hs.queued hst)
  barred := fun ha => (h.barred ha).shift hs
  halted := h.halted
  stopped := h.stopped
  last := fun hl => hs.terminal _ rfl (h.last hl)

/-- Under which conditions the process `k` may pass to the mode `s'`. -/
structure Passes (jobID id : Nat) (m : Nat → Option Mode) (w : World)
    (t : Trace) (k : Nat) (s' : Mode) : Prop where
  valid : s' ≠ .void
  running : s' = .running → m k = some .running ∨
    ∃ x, w.status? id = some x ∧ x ≠ .queued ∧ x.terminal = false
  flagged : s' = .flagged → w.cancelFlag jobID = true
  between : s' = .between → w.status? id ≠ some .queued
  granted : s' = .granted → w.status? id ≠ some .queued ∧
    Barred jobID id m w
  halted : heard jobID id k t = true → s'.halts

/-- The modes that say nothing about the deployment. -/
def Mode.quiet : Mode → Bool
  | .fresh | .queued | .checked | .closed | .away | .apart | .asking => true
  | _ => false

theorem passes_quiet (hs : s'.quiet = true) (hheard : heard jobID id k t = true → s'.halts) :
    Passes jobID id m w t k s' := by
  refine ⟨?_, ?_, ?_, ?_, ?_, hheard⟩ <;> rintro rfl <;> cases hs

/-- A process that passes from one mode to the next. -/
theorem Kept.pass (h : Kept jobID id m w t) (hp : Passes jobID id m w t k s') :
    Kept jobID id (update m k (some s')) w t := by
  have hnorun : ∀ {y : DeploymentStatus}, w.status? id = some y →
      y = .queued ∨ y.terminal = true → NoRun m →
      NoRun (update m k (some s')) := by
    intro y hy hstat hrun
    refine hrun.update ?_
    rintro ⟨⟩
    rcases hp.running rfl with hk | ⟨x, hx, hq, hterm⟩
    · exact hrun k hk
    · cases hy.symm.trans hx
      rcases hstat with hstat | hstat
      · exact hq hstat
      · cases hterm.symm.trans hstat
  have hbarred : Barred jobID id m w → Barred jobID id (update m k (some s')) w := by
    rintro (hflag | ⟨⟨y, hy, hterm⟩, hrun⟩)
    · exact .inl hflag
    · exact .inr ⟨⟨y, hy, hterm⟩, hnorun hy (.inr hterm) hrun⟩
  refine ⟨h.row, h.job, ?_, ?_, ?_, ?_, ?_, ?_, h.stopped, h.last⟩
  · intro i hi
    rcases update_some hi with ⟨rfl, hs⟩ | hold
    · exact hp.valid hs.symm
    · exact h.valid i hold
  · intro hst
    refine (h.idle hst).imp (fun hflag => hflag) ?_
    rcases hst with hst | hst
    · exact hnorun hst (.inl rfl)
    · exact hnorun hst (.inr rfl)
  · intro i hi
    rcases update_some hi with ⟨rfl, hs⟩ | hold
    · exact hp.flagged hs.symm
    · exact h.flagged i hold
  · rintro (ha | ⟨i, hi | hi⟩)
    · exact h.unqueued (.inl ha)
    · rcases update_some hi with ⟨rfl, hs⟩ | hold
      · exact hp.between hs.symm
      · exact h.unqueued (.inr ⟨i, .inl hold⟩)
    · rcases update_some hi with ⟨rfl, hs⟩ | hold
      · exact (hp.granted hs.symm).1
      · exact h.unqueued (.inr ⟨i, .inr hold⟩)
  · rintro (ha | ⟨i, hi⟩)
    · exact hbarred (h.barred (.inl ha))
    · rcases update_some hi with ⟨rfl, hs⟩ | hold
      · exact hbarred (hp.granted hs.symm).2
      · exact hbarred (h.barred (.inr ⟨i, hold⟩))
  · intro i x hheard hi
    rcases update_some hi with ⟨rfl, rfl⟩ | hold
    · exact hp.halted hheard
    · exact h.halted i x hheard hold

/-- What holds after the call `c` of the process `k`, an attempt in the mode
`s`. -/
abbrev KeptAfter (jobID id : Nat) (m : Nat → Option Mode) (w : World)
    (t : Trace) (k : Nat) (s : Mode) (c : Call) (o : Outcome) : Prop :=
  Kept jobID id (Function.update m k (some (heed s c (sem c o w).1)))
    (sem c o w).2 (.called k (.inl c) (sem c o w).1 :: t)

section

variable (h : Kept jobID id m w t)

include h

theorem Kept.called (hk : m k = some s)
    (hstops : heard jobID id k t = true → stops id c a = true)
    (hwrote : wrote id c a = true → heard jobID id k t = true → w.status? id = some .cancelled)
    (hchecks : SysCall.checks jobID c = true → accepted id t = true →
      s.halts) : Kept jobID id m w (.called k c a :: t) := by
  refine ⟨h.row, h.job, h.valid, h.idle, h.flagged, h.unqueued, h.barred, ?_, ?_, ?_⟩
  · intro i x hheard hi
    simp only [Queue.heard, Bool.or_eq_true, Bool.and_eq_true,
      decide_eq_true_eq] at hheard
    rcases hheard with ⟨⟨rfl, hc⟩, ha⟩ | hheard
    · cases hk.symm.trans hi
      exact hchecks hc ha
    · exact h.halted i x hheard hi
  · exact proceeds_called h.stopped hstops
  · intro hl
    rw [lastHeard] at hl
    split at hl
    · rename_i hw
      exact hwrote hw hl
    · exact h.last hl

theorem Kept.stays (hk : m k = some s) :
    Passes jobID id m w t k s where
  valid := fun hs => h.valid k (hs ▸ hk)
  running := fun hs => .inl (hs ▸ hk)
  flagged := fun hs => h.flagged k (hs ▸ hk)
  between := fun hs => h.unqueued (.inr ⟨k, .inl (hs ▸ hk)⟩)
  granted := fun hs => ⟨h.unqueued (.inr ⟨k, .inr (hs ▸ hk)⟩), h.barred (.inr ⟨k, hs ▸ hk⟩)⟩
  halted := fun hheard => h.halted k s hheard hk

/-- A call that shifts the state and takes its process to the mode `s'`. -/
theorem Kept.step (hs : Shift jobID id w w')
    (hp : Passes jobID id m w' t k s')
    (hstops : heard jobID id k t = true → stops id c a = true)
    (hwrote : wrote id c a = true → heard jobID id k t = false)
    (hchecks : SysCall.checks jobID c = true → accepted id t = true → s'.halts) :
    Kept jobID id (update m k (some s')) w' (.called k c a :: t) := by
  refine ((h.shift hs).pass hp).called (s := s') (by simp) hstops ?_ hchecks
  intro hw hheard
  cases (hwrote hw).symm.trans hheard

theorem Kept.write (hk : m k = some s) (o : Outcome)
    (hx : s = .running ∧ x ≠ .queued ∧ x ≠ .cancelled ∨
      s = .flagged ∧ x = .cancelled ∨ s = .queued ∧ x = .failed) :
    KeptAfter jobID id m w t k s (.setDeploymentStatus id x) o := by
  have hself : update m k (some (heed s (.setDeploymentStatus id x) ())) = m := by
    show update m k (some s) = m
    rw [← hk, update_eq_self]
  rw [KeptAfter, hself]
  have hst : (sem (.setDeploymentStatus id x) o w).2.status? id = some x := by
    obtain ⟨y, hy⟩ := ne_none_iff_exists'.1 h.row
    rw [status?_setDeploymentStatus, hy]
    rfl
  have hheard : heard jobID id k t = true → x = .cancelled := by
    intro hheard
    have hhalts := h.halted k s hheard hk
    rcases hx with ⟨rfl, _⟩ | ⟨_, hx⟩ | ⟨rfl, _⟩
    · simp [Mode.halts] at hhalts
    · exact hx
    · simp [Mode.halts] at hhalts
  refine ⟨?_, h.job, h.valid, ?_, h.flagged, ?_, ?_, ?_, ?_, ?_⟩
  · rw [hst]
    simp
  · rw [hst]
    rcases hx with ⟨_, hq, hc⟩ | ⟨rfl, _⟩ | ⟨_, rfl⟩
    · simp [hq, hc]
    · exact fun _ => .inl (h.flagged k hk)
    · simp
  · intro _
    rw [hst]
    rcases hx with ⟨_, hq, _⟩ | ⟨_, rfl⟩ | ⟨_, rfl⟩
    · simpa using hq
    · simp
    · simp
  · intro ha
    rcases h.barred ha with hf | ⟨_, hrun⟩
    · exact .inl hf
    · refine .inr ⟨⟨x, hst, ?_⟩, hrun⟩
      rcases hx with ⟨rfl, _⟩ | ⟨_, rfl⟩ | ⟨_, rfl⟩
      · exact absurd hk (hrun k)
      · rfl
      · rfl
  · intro i y hheard hi
    exact h.halted i y (by simpa [heard, SysCall.checks] using hheard) hi
  · refine proceeds_called h.stopped fun hh => ?_
    simp [stops, hheard hh]
  · intro hl
    have hlast : heard jobID id k t = true := by
      simpa [lastHeard, wrote] using hl
    rw [hst, hheard hlast]

theorem Kept.gone : Kept jobID id (update m k none) w t where
  row := h.row
  job := h.job
  valid := fun i hi => h.valid i (update_none hi)
  idle := fun hst => (h.idle hst).imp (fun hf => hf) fun hrun => hrun.update (by simp)
  flagged := fun i hi => h.flagged i (update_none hi)
  unqueued := fun ha => h.unqueued (ha.imp (fun ha => ha)
    fun ⟨i, hi⟩ => ⟨i, hi.imp update_none update_none⟩)
  barred := fun ha => (h.barred (ha.imp (fun ha => ha)
    fun ⟨i, hi⟩ => ⟨i, update_none hi⟩)).imp (fun hf => hf)
      fun hrun => ⟨hrun.1, hrun.2.update (by simp)⟩
  halted := fun i s hheard hi => h.halted i s hheard (update_none hi)
  stopped := h.stopped
  last := h.last

theorem Kept.ended (hk : m k = some s) (hr : SysResult id s reply) :
    Kept jobID id (update m k none) w (.ended k reply :: t) := by
  have hgranted : reply = .accepted id → m k = some .granted := by
    intro hreply
    rcases hr hreply with rfl | rfl
    · exact hk
    · exact absurd hk (h.valid k)
  have hcause : accepted id (.ended k reply :: t) = true →
      accepted id t = true ∨ ∃ i, m i = some .granted := by
    intro ha
    simp only [accepted, Bool.or_eq_true, decide_eq_true_eq] at ha
    exact ha.symm.imp (fun ha => ha) fun hreply => ⟨k, hgranted hreply⟩
  refine Kept.gone ⟨h.row, h.job, h.valid, h.idle, h.flagged, ?_, ?_,
    h.halted, h.stopped, h.last⟩
  · rintro (ha | ha)
    · exact h.unqueued ((hcause ha).imp (fun ha => ha) fun ⟨i, hi⟩ => ⟨i, .inr hi⟩)
    · exact h.unqueued (.inr ha)
  · rintro (ha | ha)
    · exact h.barred (hcause ha)
    · exact h.barred (.inr ha)

end

/-! ## The calls of an attempt -/

/-- The runs in which every cancel request for the deployment `id` is recorded
somewhere, and heard: its second statement finds the job in one of the statuses
that it applies to, or the deployment cancelled, and no checkpoint fails to read
a flag that is set. -/
def Recorded (jobID id : Nat) : SysCall → Outcome → World → Prop
  | .inr (.requestDeploymentJobCancel i), _, w => i = id →
    ((row? Job.id jobID w.jobs).any fun j => j.status.cancellable) = true ∨
      w.status? id = some .cancelled
  | .inl (.isJobCancelRequested j), o, w => j = jobID → w.cancelFlag jobID = true → o = .succeeds
  | _, _, _ => True

theorem accepted_of_heard (h : heard jobID id k t = true) : accepted id t = true := by
  induction t with
  | nil => cases h
  | cons e t ih =>
    cases e with
    | called k' c a =>
      simp only [heard, Bool.or_eq_true, Bool.and_eq_true] at h
      rcases h with ⟨_, ha⟩ | h
      · exact ha
      · exact ih h
    | ended k' reply =>
      simp only [accepted, Bool.or_eq_true]
      exact .inr (ih h)

/-- In a mode that an attempt cannot be in after it heard of a request. -/
theorem Kept.unheard (h : Kept jobID id m w t) (hk : m k = some s)
    (hs : ¬s.halts) : heard jobID id k t = false := by
  rw [Bool.eq_false_iff]
  exact fun hheard => hs (h.halted k s hheard hk)

/-- A call that is no checkpoint, does not write the status and leaves the
mode as it is. -/
theorem Kept.plain (h : Kept jobID id m w t) (hk : m k = some s) (o : Outcome)
    (hw : c.writesStatus id = false)
    (hc : SysCall.checks jobID (.inl c) = false)
    (hm : heed s c (sem c o w).1 = s)
    (hstops : s.halts → stops id (.inl c) (sem c o w).1 = true) :
    KeptAfter jobID id m w t k s c o := by
  rw [KeptAfter, hm]
  refine h.step (shift_sem hw o) ((h.shift (shift_sem hw o)).stays hk) ?_ ?_ ?_
  · exact fun hheard => hstops (h.halted k s hheard hk)
  · intro hwrote
    cases c <;> first | cases hwrote | simp_all [wrote, Call.writesStatus]
  · rw [hc]
    simp

theorem Kept.read (h : Kept jobID id m w t) (hk : m k = some .fresh) (o : Outcome) :
    KeptAfter jobID id m w t k .fresh (.getDeploymentByID id) o := by
  have hunheard := h.unheard hk (by simp [Mode.halts])
  obtain ⟨x, hx⟩ := ne_none_iff_exists'.1 h.row
  obtain ⟨d, hd, rfl⟩ := map_eq_some_iff.1 hx
  have hrow : (sem (.getDeploymentByID id) o w).1 = some d := hd
  have hst : (sem (.getDeploymentByID id) o w).2.status? id = some d.status := hx
  have hmode : heed .fresh (.getDeploymentByID id) (some d) =
      if d.status.terminal then .closed
      else if d.status = .queued then .queued else .running := by
    simp [heed, Mode.onRow, row?_key hd]
  rw [KeptAfter, hrow, hmode]
  refine h.step (shift_sem rfl o) ?_ (by simp [hunheard])
    (fun _ => hunheard) (by rintro ⟨⟩)
  split
  · exact passes_quiet rfl (by simp [hunheard])
  · split
    · exact passes_quiet rfl (by simp [hunheard])
    · rename_i hterm hq
      refine ⟨by simp, fun _ => .inr ⟨_, hst, hq, ?_⟩, by simp, by simp,
        by simp, by simp [hunheard]⟩
      exact Bool.eq_false_iff.2 hterm

/-- The row that is read has the number that was asked for. -/
theorem row_all (i : Nat) (w : World) :
    ((row? Deployment.id i w.deployments).all fun d => d.id = i) = true := by
  cases hd : row? Deployment.id i w.deployments with
  | none => rfl
  | some d => simpa using row?_key hd

section

variable (h : Kept jobID id m w t)

include h

theorem Kept.readOther (hk : m k = some s)
    (hs : s = .away ∨ s = .asking) (i : Nat) (o : Outcome) :
    KeptAfter jobID id m w t k s (.getDeploymentByID i) o := by
  have hunheard : heard jobID id k t = false := by
    refine h.unheard hk ?_
    rcases hs with rfl | rfl <;> simp [Mode.halts]
  refine h.step (shift_sem rfl o) (passes_quiet ?_ (by simp [hunheard]))
    (by simp [hunheard]) (fun _ => hunheard) nofun
  have hrow := row_all i w
  change (Mode.onRow i (row? Deployment.id i w.deployments) s).quiet = true
  rcases hs with rfl | rfl <;> simp [Mode.onRow, hrow, Mode.quiet]

/-- A checkpoint: with a request accepted, it stops the attempt. -/
theorem Kept.checkpoint (hk : m k = some s) (hs : s = .queued ∨ s = .checked ∨ s = .running)
    (hok : Recorded jobID id (.inl (.isJobCancelRequested jobID)) o w) :
    KeptAfter jobID id m w t k s (.isJobCancelRequested jobID) o := by
  have hans : (sem (.isJobCancelRequested jobID) o w).1 = w.cancelFlag jobID := by
    cases hflag : w.cancelFlag jobID with
    | false => simp [sem, apply, hflag]
    | true => simp [sem, apply, hflag, hok rfl hflag]
  refine h.step (shift_sem rfl o) ?_ (fun _ => rfl) (by rintro ⟨⟩) ?_
  · rw [hans]
    cases hflag : w.cancelFlag jobID with
    | true =>
      have hm : heed s (.isJobCancelRequested jobID) true = .flagged := by
        rcases hs with rfl | rfl | rfl <;> rfl
      rw [hm]
      exact ⟨by simp, by simp, fun _ => hflag, by simp, by simp, fun _ => .inl rfl⟩
    | false =>
      rcases hs with rfl | rfl | rfl
      iterate 2 exact passes_quiet rfl fun _ => .inr (.inl rfl)
      · exact (h.shift (shift_sem rfl o)).stays hk
  · intro _ ha
    rw [hans]
    rcases h.barred (.inl ha) with hflag | ⟨_, hrun⟩
    · rw [hflag]
      rcases hs with rfl | rfl | rfl <;> exact .inl rfl
    · cases w.cancelFlag jobID with
      | true => rcases hs with rfl | rfl | rfl <;> exact .inl rfl
      | false =>
        rcases hs with rfl | rfl | rfl
        iterate 2 exact .inr (.inl rfl)
        · exact absurd hk (hrun k)

/-- The atomic start: after an accepted request it does not come. -/
theorem Kept.start (o : Outcome) :
    KeptAfter jobID id m w t k .checked (.startDeploymentUnlessCleanupRunning id) o := by
  have hans : (sem (.startDeploymentUnlessCleanupRunning id) o w).1 = w.canStart id := rfl
  have hheard : heard jobID id k t = true → w.canStart id = false := by
    intro hheard
    rw [Bool.eq_false_iff]
    exact fun hstart => h.unqueued (.inl (accepted_of_heard hheard))
      (World.canStart_queued hstart)
  refine h.step (shift_start o) ?_ ?_ ?_ nofun
  · rw [hans]
    cases hstart : w.canStart id with
    | false => exact passes_quiet rfl fun _ => .inr (.inl rfl)
    | true =>
      refine ⟨by simp [heed, Mode.onStart], fun _ => .inr ⟨.preparing, ?_,
        by simp, rfl⟩, by simp [heed, Mode.onStart],
        by simp [heed, Mode.onStart], by simp [heed, Mode.onStart], ?_⟩
      · rw [status?_startDeployment, hstart]
        rfl
      · intro hh
        cases (hheard hh).symm.trans hstart
  · intro hh
    rw [hans, hheard hh]
    rfl
  · intro hw
    have hstart : w.canStart id = true := by simpa [wrote, apply] using hw
    rw [Bool.eq_false_iff]
    intro hh
    cases (hheard hh).symm.trans hstart

theorem Kept.readStatus (o : Outcome) :
    KeptAfter jobID id m w t k .checked (.getDeploymentStatus id) o := by
  obtain ⟨x, hx⟩ := ne_none_iff_exists'.1 h.row
  have hans : (sem (.getDeploymentStatus id) o w).1 = some x := hx
  refine h.step (shift_sem rfl o) ?_ (fun _ => rfl) nofun
    nofun
  rw [hans]
  cases x <;>
    exact passes_quiet rfl fun _ => by simp [heed, Mode.onStatus, Mode.halts]

theorem Kept.run (hk : m k = some .running)
    (hok : Recorded jobID id (.inl c) o w) (hcheck : ∀ j, c = .isJobCancelRequested j → j = jobID)
    (hwrite : ∀ i x, c = .setDeploymentStatus i x → i = id ∧ x ≠ .queued ∧ x ≠ .cancelled) :
    KeptAfter jobID id m w t k .running c o := by
  have hno : ¬Mode.running.halts := by simp [Mode.halts]
  cases c with
  | isJobCancelRequested j =>
    obtain rfl := hcheck j rfl
    exact h.checkpoint hk (.inr (.inr rfl)) hok
  | setDeploymentStatus i x =>
    obtain ⟨rfl, hx⟩ := hwrite i x rfl
    exact h.write hk o (.inl ⟨rfl, hx⟩)
  | startDeploymentUnlessCleanupRunning i =>
    have hunheard := h.unheard hk hno
    have hshift : Shift jobID id w (sem (.startDeploymentUnlessCleanupRunning i) o w).2 := by
      by_cases hi : i = id
      · subst hi
        exact shift_start o
      · exact shift_sem (by simpa [Call.writesStatus] using hi) o
    exact h.step hshift ((h.shift hshift).stays hk) (by simp [hunheard])
      (fun _ => hunheard) (by rintro ⟨⟩)
  | _ => exact h.plain hk o rfl rfl rfl fun hs => absurd hs hno

theorem Kept.attempt (hk : m k = some s) {c : Call}
    (ha : Allowed jobID id s c) (hok : Recorded jobID id (.inl c) o w) :
    KeptAfter jobID id m w t k s c o := by
  cases ha with
  | row => exact h.read hk o
  | app | preview p => exact h.plain hk o rfl rfl rfl (by simp [Mode.halts])
  | failing r hr c hc =>
    cases hc with
    | status =>
      subst hr
      exact h.write hk o (.inr (.inr ⟨rfl, rfl⟩))
    | preview p | candidate | error msg =>
      exact h.plain hk o rfl rfl rfl (by simp [Mode.halts])
  | firstCheckpoint => exact h.checkpoint hk (.inl rfl) hok
  | checkpoint => exact h.checkpoint hk (.inr (.inl rfl)) hok
  | start => exact h.start o
  | status => exact h.readStatus o
  | running c hcheck hwrite => exact h.run hk hok hcheck hwrite
  | compensation n => exact h.plain hk o rfl rfl rfl fun _ => rfl
  | cancelled =>
    exact h.write hk o (.inr (.inl ⟨rfl, rfl⟩))
  | away i => exact h.readOther hk (.inl rfl) i o
  | apart c hcheck hwrite =>
    refine h.plain hk o hwrite ?_ (by cases c <;> rfl) (by simp [Mode.halts])
    cases c with
    | isJobCancelRequested j =>
      have hj : j ≠ jobID := fun hj => hcheck (hj ▸ rfl)
      simpa [SysCall.checks] using hj
    | _ => rfl
  | asks => exact h.readOther hk (.inr rfl) id o
  | void c => exact absurd hk (h.valid k)

end

end Kept

/-! ## The statements -/

section Statements

variable {jobID id k : Nat} {m : Nat → Option Mode} {w : World} {t : Trace} {s : Mode}

/-- The first statement leaves no queued deployment. -/
theorem status?_cancelQueuedDeployment (o : Outcome) :
    (applyStmt (.cancelQueuedDeployment id) o w).2.status? id ≠ some .queued := by
  intro hst
  obtain ⟨d, hd, hq⟩ := map_eq_some_iff.1 hst
  have hrow : row? Deployment.id id (cancelQueuedDeployment id w.deployments) = some d := hd
  rw [cancelQueuedDeployment, row?_updateWhere _ (by intro _; rfl)] at hrow
  obtain ⟨d₀, hd₀, rfl⟩ := map_eq_some_iff.1 hrow
  split at hq
  · cases hq
  · rename_i hno
    simp [row?_key hd₀, hq] at hno

/-- The second statement sets the flag of a job that it applies to. -/
theorem cancelFlag_requestDeploymentJobCancel (hjob : JobOf jobID id w.jobs)
    (h : ((row? Job.id jobID w.jobs).any fun j => j.status.cancellable) = true) (o : Outcome) :
    (applyStmt (.requestDeploymentJobCancel id) o w).2.cancelFlag jobID =
      true := by
  obtain ⟨j, hj⟩ := isSome_iff_exists.1 hjob.present
  have hpayload := (hjob.unique j (row?_mem hj)).2 (row?_key hj)
  have hhits : requestDeploymentJobCancelHits id j = true := by
    unfold requestDeploymentJobCancelHits
    cases hs : j.status <;> simp_all [JobStatus.cancellable]
  change isJobCancelRequested jobID (requestDeploymentJobCancel w.clock id w.jobs) = true
  unfold isJobCancelRequested requestDeploymentJobCancel
  rw [row?_updateWhere _ (by intro _; rfl), hj]
  simp [hhits]

theorem Kept.plainStmt (h : Kept jobID id m w t) (hk : m k = some s)
    (o : Outcome) (hm : watch s (.inr st) (applyStmt st o w).1 = s) :
    Kept jobID id
      (update m k (some (watch s (.inr st) (applyStmt st o w).1)))
      (applyStmt st o w).2 (.called k (.inr st) (applyStmt st o w).1 :: t) := by
  rw [hm]
  exact h.step (shift_applyStmt st o) ((h.shift (shift_applyStmt st o)).stays
    hk) (fun _ => rfl) nofun nofun

theorem Kept.stmt (h : Kept jobID id m w t) (hk : m k = some s)
    (ha : AllowedStmt id s st) (hok : Recorded jobID id (.inr st) o w) :
    Kept jobID id
      (update m k (some (watch s (.inr st) (applyStmt st o w).1)))
      (applyStmt st o w).2 (.called k (.inr st) (applyStmt st o w).1 :: t) := by
  cases ha with
  | worker _ _ hm hs =>
    refine h.plainStmt hk o ?_
    cases st <;> first | rfl | cases hs
  | firstApart i hi | secondApart i hi => exact h.plainStmt hk o rfl
  | void => exact absurd hk (h.valid k)
  | first =>
    have hunheard := h.unheard hk (by simp [Mode.halts])
    refine h.step (shift_applyStmt _ o)
      (show Passes _ _ _ _ _ _ .between from ?_) (fun _ => rfl)
      nofun nofun
    exact ⟨by simp, by simp, by simp,
      fun _ => status?_cancelQueuedDeployment o, by simp,
      by simp [hunheard]⟩
  | second =>
    have hunheard := h.unheard hk (by simp [Mode.halts])
    have hshift : Shift jobID id w (applyStmt (.requestDeploymentJobCancel id) o w).2 :=
      shift_applyStmt _ o
    have hunqueued : (applyStmt (.requestDeploymentJobCancel id) o
        w).2.status? id ≠ some .queued := fun hq =>
      h.unqueued (.inr ⟨k, .inl hk⟩) (hshift.queued hq)
    have hbarred : Barred jobID id m (applyStmt (.requestDeploymentJobCancel id) o w).2 := by
      rcases hok rfl with hjob | hst
      · exact .inl (cancelFlag_requestDeploymentJobCancel h.job hjob o)
      · have hended : Ended id w := ⟨_, hst, rfl⟩
        have hbar : Barred jobID id m w :=
          (h.idle (.inr hst)).imp (fun hf => hf) fun hrun => ⟨hended, hrun⟩
        exact hbar.shift hshift
    refine h.step hshift
      (show Passes _ _ _ _ _ _ .granted from ?_) (fun _ => rfl)
      nofun nofun
    exact ⟨by simp, by simp, by simp, by simp,
      fun _ => ⟨hunqueued, hbarred⟩, by simp [hunheard]⟩

end Statements

/-! ## The result -/

/-- The jobs that others enqueue are not for the deployment `id`. -/
def NotFor (id : Nat) (j : Job) : Prop :=
  j.payload ≠ .deploymentRun id

theorem kept_watch (jobID id : Nat) :
    (workers (Recorded jobID id) (NotFor id)).Watch watch
      (SysAllowed jobID id) (SysResult id) (Kept jobID id) where
  start := by
    intro m w t k p w' h _ hnew hspawn
    have hunheard : heard jobID id k t = false := not_heard_of_new hnew
    have hquiet : ∀ {s : Mode} {w' : World}, Shift jobID id w w' →
        s.quiet = true → Kept jobID id (update m k (some s)) w' t :=
      fun hshift hs => (h.shift hshift).pass (passes_quiet hs (by simp [hunheard]))
    cases hspawn with
    | worker name polls jitter j hj =>
      obtain ⟨r, hr, rfl⟩ := dequeueJob_mem hj
      have hjob : (r.leasedTo w.clock name).payload = .deploymentRun id ↔
          (r.leasedTo w.clock name).id = jobID := h.job.unique r hr
      obtain ⟨s, hs, hf⟩ := follows_process name polls jitter hjob
      refine ⟨s, hf, hquiet (.of_status queueStep_dequeueJob rfl) ?_⟩
      rcases hs with rfl | rfl <;> rfl
    | cancel i =>
      obtain ⟨s, hs, hf⟩ := follows_CancelDeployment jobID id i
      refine ⟨s, hf, hquiet (.of_status (.refl w.jobs) rfl) ?_⟩
      rcases hs with rfl | rfl <;> rfl
  call := by
    intro m w t k s c o h hk ha hok
    cases c with
    | inl c => exact h.attempt hk ha hok
    | inr st => exact h.stmt hk ha hok
  done := fun h hk hr => h.ended hk hr
  die := fun h => h.gone
  other := fun h hw => h.shift (hw.shift fun _ hj => hj)

/-- The job of the sample deployment, not yet taken by a worker. -/
def queuedShopJob : Job :=
  { shopJob with
    status := .queued, attempt := 0, leasedBy := none, leaseExpiresAt := none }

/-- The sample deployment with its job in the queue. -/
def queuedShop : World :=
  { shopWorld with jobs := [queuedShopJob] }

instance (jobID id : Nat) (c : SysCall) (o : Outcome) (w : World) :
    Decidable (Recorded jobID id c o w) := by
  unfold Recorded
  split <;> infer_instance

section Runs

variable (ok : SysCall → Outcome → World → Prop) (x : Config SysAns World Reply)

/-- The process `k` makes its next `n` calls, and all of them succeed. -/
def goOn (k n : Nat) : Config SysAns World Reply :=
  x.calls (sysSystem ok (NotFor 1)) .succeeds k n

def take (worker : String) : Config SysAns World Reply :=
  match (dequeueJob x.state.clock worker x.state.jobs).1 with
  | none => x
  | some j => x.started (process worker 1 0 j) { x.state with
      jobs := (dequeueJob x.state.clock worker x.state.jobs).2 }

/-- A cancel request for the sample deployment, up to its answer. -/
def request : Config SysAns World Reply :=
  (goOn ok (x.started (CancelDeployment 1) x.state) x.next 3).finish x.next

/-- Time passes, and the maintenance loop reaps the leases. -/
def reap (seconds : Nat) : Config SysAns World Reply :=
  let x := x.moved { x.state with clock := x.state.clock + seconds }
  x.moved { x.state with
    jobs := reapExpiredLeases x.state.clock x.state.jobs }

def promote : Config SysAns World Reply :=
  x.moved { x.state with
    jobs := promoteWaitingJobs x.state.clock x.state.jobs }

variable {ok x} {w : World} (h : (workers ok (NotFor 1)).Reaches w x)

include h

theorem reaches_goOn (hok : x.CallsOk (sysSystem ok (NotFor 1)) .succeeds k n) :
    (workers ok (NotFor 1)).Reaches w (goOn ok x k n) :=
  h.calls hok

theorem reaches_take (worker : String) : (workers ok (NotFor 1)).Reaches w (take x worker) := by
  unfold take
  split
  · exact h
  · rename_i j hj
    exact h.tail (.start x _ _ (.worker worker 1 0 j hj))

theorem reaches_request
    (hok : (x.started (CancelDeployment 1) x.state).CallsOk
      (sysSystem ok (NotFor 1)) .succeeds x.next 3) :
    (workers ok (NotFor 1)).Reaches w (request ok x) :=
  (reaches_goOn (h.tail (.start x _ _ (.cancel 1))) hok).finish x.next

theorem reaches_reap (seconds : Nat) : (workers ok (NotFor 1)).Reaches w (reap x seconds) :=
  (h.tail (.other x _ (.tick seconds))).tail (.other _ _ .reapExpiredLeases)

theorem reaches_promote : (workers ok (NotFor 1)).Reaches w (promote x) :=
  h.tail (.other x _ .promoteWaitingJobs)

end Runs

/-- A request that finds its job on a worker: the attempt stops at its next
checkpoint. -/
def cancelledShop : Config SysAns World Reply :=
  goOn (Recorded 7 1) (request (Recorded 7 1)
    (goOn (Recorded 7 1) (take (.initial queuedShop) "first") 0 12)) 0 20

instance (ok : SysCall → Outcome → World → Prop) (mayEnqueue : Job → Prop)
    [∀ c o w, Decidable (ok c o w)] (c : SysCall) (o : Outcome) (w : World) :
    Decidable ((sysSystem ok mayEnqueue).ok c o w) :=
  inferInstanceAs (Decidable (ok c o w))

theorem cancelledShop_reached :
    (workers (Recorded 7 1) (NotFor 1)).Reaches queuedShop cancelledShop :=
  reaches_goOn (reaches_request (reaches_goOn (reaches_take .refl "first")
    (by decide)) (by decide)) (by decide)

/-- The first attempt dies while the image is built, and its lease is
reaped. -/
def reapedShop : Config SysAns World Reply :=
  reap ((goOn (fun _ _ _ => True) (take (.initial queuedShop) "first") 0 12).dead 0) 91

/-- Then the request comes in, and after it the next attempt. -/
def lostShop : Config SysAns World Reply :=
  goOn (fun _ _ _ => True)
    (take (promote (request (fun _ _ _ => True) reapedShop)) "second") 2 60

theorem lostShop_reached :
    (workers (fun _ _ _ => True) (NotFor 1)).Reaches queuedShop lostShop := by
  have hall : ∀ {x : Config SysAns World Reply} {k n : Nat}, x.CallsOk
      (sysSystem (fun _ _ _ => True) (NotFor 1)) .succeeds k n :=
    Config.callsOk_of_forall (fun _ _ => trivial) _ _ _
  have hreaped : (workers (fun _ _ _ => True) (NotFor 1)).Reaches queuedShop reapedShop :=
    reaches_reap ((reaches_goOn (reaches_take .refl "first") hall).tail (.die _ 0)) 91
  exact reaches_goOn (reaches_take (reaches_promote
    (reaches_request hreaped hall)) "second") hall

end Akerdock.Queue
