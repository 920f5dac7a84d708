import Akerdock.Tasks.Rows

/-!
# The system of scheduled tasks

The scheduler's passes, the API's requests, the queue and the handlers of its
executions, over the two tables.  `apply` takes one action: one statement of
one of them, one action of the queue, or an edit of a task.

* A pass can start at any time.  The scheduler elects a leader, but a leader
  that has lost its connection goes on with the pass it is in.
* `Step` lists what an action can do.  It is all that later proofs know about
  `apply`.
* `Linked` is what ties the three tables together in every run: an execution
  row has one job at most, queued by the client that opened the row, and the
  copies that the queue's executions hold carry the payload of their job.
-/

namespace Akerdock.Tasks

open Store Queue Table Proc List Option

/-! ## The state -/

/-- The system.  `nextTask` and `nextExecution` are the next values of the
identity columns, `handlers` are the handlers of the queue's executions, and
`performed` are the execution rows whose command or dispatch took effect, the
latest first. -/
structure State where
  queue : Leases
  tasks : List ScheduledTask
  nextTask : Nat
  executions : List TaskExecution
  nextExecution : Nat
  clients : List Client
  handlers : Nat → Handler
  performed : List Nat

/-- No task, no job and nothing under way. -/
def State.empty (clock : Nat) : State where
  queue := .empty clock
  tasks := []
  nextTask := 1
  executions := []
  nextExecution := 1
  clients := []
  handlers := fun _ => .getTask
  performed := []

/-- What can happen.  A client that dies is one whose process ends, or a pass
whose context ends between two tasks. -/
inductive Action where
  | queue (a : Queue.Action)
  | startPass
  | request (taskId : Nat)
  | client (k : Nat) (o : CallEnd)
  | clientDies (k : Nat)
  | handler (i : Nat) (o : HandlerEnd)
  | returns (i : Nat)
  | createTask (t : ScheduledTask)
  | updateTask (id : Nat) (e : TaskEdit)
  | deleteTask (id : Nat)
  | deleteResource (id : Nat)

def execution? : JobPayload → Option Nat
  | .scheduledTaskRun _ x => some x
  | _ => none

/-- The actions of the queue that the clients and handlers of this system do
not take themselves: jobs of other types, and what has nothing to do with the
type of a job. -/
def State.foreign (s : State) : Queue.Action → Bool
  | .enqueue o => (execution? o.payload).isNone
  | .handlerReturns i _ =>
    match s.queue.execs[i]? with
    | none => false
    | some e => (execution? e.job.payload).isNone
  | _ => true

/-! ## Clients -/

def State.setClient (s : State) (k : Nat) (c : Client) : State :=
  { s with clients := s.clients.set k c }

def State.createTaskExecution (s : State) (taskId : Nat)
    (status : ExecutionStatus) (occurrence : Option Nat) : State :=
  { s with
    executions := s.executions ++ [⟨s.nextExecution, taskId, status, occurrence⟩]
    nextExecution := s.nextExecution + 1 }

def State.enqueue (s : State) (t : ScheduledTask) (x : Nat) : State :=
  { s with
    queue :=
      { s.queue with
        jobs := s.queue.jobs ++ [(enqueueOptions t x).row s.queue.clock s.queue.nextJob]
        nextJob := s.queue.nextJob + 1 } }

/-- The next statement of the client `k`, which is at `c`. -/
def State.clientStep (cal : Calendar) (s : State) (k : Nat) (o : CallEnd) : Client → Option State
  | .list =>
    some (s.setClient k (if o = .done then .clock (listSchedulableTasks s.tasks) else .done))
  | .clock todo => some (s.setClient k (.tasks s.queue.clock todo))
  | .tasks _ [] => some (s.setClient k .done)
  | .tasks now (t :: todo) =>
    some (s.setClient k (scheduleTask cal now todo t))
  | .count c t =>
    some (s.setClient k
      (if o = .done then
        c.counted t (countRunningTaskExecutions t.id s.executions)
      else c.back))
  | .skip now todo t =>
    -- `recordSkip` only logs an error.
    let s' := s.setClient k (.advance now todo t false)
    some (if o = .failed then s' else s'.createTaskExecution t.id .skipped none)
  | .create c t =>
    match o with
    | .done =>
      some ((s.setClient k (.enqueue c t s.nextExecution)).createTaskExecution
        t.id .running (c.occurrence t))
    | .lost =>
      some ((s.setClient k c.back).createTaskExecution t.id .running (c.occurrence t))
    | .failed => some (s.setClient k c.back)
  | .enqueue c t x =>
    match o with
    | .done => some ((s.setClient k (c.enqueued t)).enqueue t x)
    | .lost => some ((s.setClient k c.back).enqueue t x)
    | .failed => some (s.setClient k c.back)
  | .advance now todo t _ =>
    let s' := s.setClient k (.tasks now todo)
    some (if o = .failed then s' else
      { s' with
        tasks := setScheduledTaskSchedule t.id (nextRun cal t now) s.tasks })
  | .done => none

/-! ## Handlers -/

/-- The next call of the handler of the execution `i`, for the execution row
`x` of the task `taskId`. -/
def State.handlerStep (s : State) (i taskId x : Nat) (o : HandlerEnd) : State :=
  { s with
    handlers := Function.update s.handlers i
      ((s.handlers i).next (getScheduledTaskByID taskId s.tasks) o)
    performed :=
      if (s.handlers i).performs o then x :: s.performed else s.performed
    executions :=
      match (s.handlers i).writes o with
      | none => s.executions
      | some status => finishTaskExecution x status s.executions }

def State.apply (cal : Calendar) (a : Action) (s : State) : Option State :=
  match a with
  | .queue a =>
    if s.foreign a then
      (s.queue.apply a).map fun q => { s with queue := q }
    else none
  | .startPass => some { s with clients := s.clients ++ [.list] }
  | .request taskId =>
    (getScheduledTaskByID taskId s.tasks).map fun t =>
      { s with clients := s.clients ++ [runScheduledTask t] }
  | .client k o =>
    match s.clients[k]? with
    | none => none
    | some c => s.clientStep cal k o c
  | .clientDies k => some (s.setClient k .done)
  | .handler i o =>
    match s.queue.execs[i]? with
    | none => none
    | some e =>
      match e.stage, e.job.payload with
      | .running, .scheduledTaskRun taskId x =>
        some (s.handlerStep i taskId x o)
      | _, _ => none
  | .returns i =>
    match s.queue.execs[i]?, s.handlers i with
    | some e, .returns r =>
      if (execution? e.job.payload).isSome then
        (s.queue.apply (.handlerReturns i r)).map fun q => { s with queue := q }
      else none
    | _, _ => none
  | .createTask t =>
    some { s with
      tasks := s.tasks ++ [{ t with id := s.nextTask, nextRunAt := none }]
      nextTask := s.nextTask + 1 }
  | .updateTask id e =>
    some { s with tasks := updateScheduledTask id e s.tasks }
  | .deleteTask id =>
    some { s with tasks := softDeleteScheduledTask id s.tasks }
  | .deleteResource id =>
    some { s with
      tasks := updateWhere (fun t => t.id = id)
        (fun t => { t with resourceLive := false }) s.tasks }

/-! ## What an action does -/

/-- The statements after which nothing but the place of the client is new. -/
inductive Move (cal : Calendar) (s : State) : CallEnd → Client → Client → Prop where
  | list : Move cal s .done .list (.clock (listSchedulableTasks s.tasks))
  | unlisted (o : CallEnd) : Move cal s o .list .done
  | clock (o : CallEnd) (todo : List ScheduledTask) :
      Move cal s o (.clock todo) (.tasks s.queue.clock todo)
  | ends (o : CallEnd) (now : Nat) : Move cal s o (.tasks now []) .done
  | task (o : CallEnd) (now : Nat) (t : ScheduledTask) (todo : List ScheduledTask) :
      Move cal s o (.tasks now (t :: todo)) (scheduleTask cal now todo t)
  | counted (c : Caller) (t : ScheduledTask) :
      Move cal s .done (.count c t) (c.counted t (countRunningTaskExecutions t.id s.executions))
  | uncounted (o : CallEnd) (c : Caller) (t : ScheduledTask) : Move cal s o (.count c t) c.back
  | unrecorded (now : Nat) (todo : List ScheduledTask) (t : ScheduledTask) :
      Move cal s .failed (.skip now todo t) (.advance now todo t false)
  | uncreated (c : Caller) (t : ScheduledTask) : Move cal s .failed (.create c t) c.back
  | unqueued (c : Caller) (t : ScheduledTask) (x : Nat) :
      Move cal s .failed (.enqueue c t x) c.back
  | unadvanced (now : Nat) (todo : List ScheduledTask) (t : ScheduledTask) (fired : Bool) :
      Move cal s .failed (.advance now todo t fired) (.tasks now todo)

/-- An edit of a task keeps its id, and keeps its window or drops it. -/
def Edited (t t' : ScheduledTask) : Prop :=
  t'.id = t.id ∧ (t'.nextRunAt = t.nextRunAt ∨ t'.nextRunAt = none)

/-- The states that an action can lead to. -/
inductive Step (cal : Calendar) (s : State) : Action → State → Prop where
  | queue (hforeign : s.foreign a = true) (h : s.queue.apply a = some q) :
      Step cal s (.queue a) { s with queue := q }
  | returns (he : s.queue.execs[i]? = some e)
      (hpayload : (execution? e.job.payload).isSome)
      (hhandler : s.handlers i = .returns r)
      (h : s.queue.apply (.handlerReturns i r) = some q) :
      Step cal s (.returns i) { s with queue := q }
  | starts : Step cal s .startPass { s with clients := s.clients ++ [.list] }
  | requests (t : ScheduledTask) :
      Step cal s (.request taskId) { s with clients := s.clients ++ [runScheduledTask t] }
  | moves (hk : s.clients[k]? = some c)
      (h : Move cal s o c c') : Step cal s (.client k o) (s.setClient k c')
  | dies (k : Nat) : Step cal s (.clientDies k) (s.setClient k .done)
  | skips (hk : s.clients[k]? = some (.skip now todo t)) :
      Step cal s (.client k o)
        ((s.setClient k (.advance now todo t false)).createTaskExecution t.id .skipped none)
  | creates (hk : s.clients[k]? = some (.create c t))
      (hc : o = .done ∧ c' = .enqueue c t s.nextExecution ∨ o = .lost ∧ c' = c.back) :
      Step cal s (.client k o)
        ((s.setClient k c').createTaskExecution t.id .running (c.occurrence t))
  | enqueues (hk : s.clients[k]? = some (.enqueue c t x))
      (hc : o = .done ∧ c' = c.enqueued t ∨ o = .lost ∧ c' = c.back) :
      Step cal s (.client k o) ((s.setClient k c').enqueue t x)
  | advances (hk : s.clients[k]? = some (.advance now todo t fired)) :
      Step cal s (.client k o)
        { s.setClient k (.tasks now todo) with
          tasks := setScheduledTaskSchedule t.id (nextRun cal t now) s.tasks }
  | handler (he : s.queue.execs[i]? = some e) (hstage : e.stage = .running)
      (hpayload : e.job.payload = .scheduledTaskRun taskId x) :
      Step cal s (.handler i o) (s.handlerStep i taskId x o)
  | creation :
      Step cal s (.createTask t) { s with
        tasks := s.tasks ++ [{ t with id := s.nextTask, nextRunAt := none }]
        nextTask := s.nextTask + 1 }
  | edit (hf : ∀ t, Edited t (f t)) :
      Step cal s a { s with tasks := updateWhere p f s.tasks }

variable {s : State} {k x : Nat}

theorem step_of_clientStep (hk : s.clients[k]? = some c)
    (h : s.clientStep cal k o c = some s') : Step cal s (.client k o) s' := by
  cases c with
  | list =>
    cases h
    by_cases ho : o = .done
    · subst ho
      exact .moves hk .list
    · rw [if_neg ho]
      exact .moves hk (.unlisted o)
  | clock todo =>
    cases h
    exact .moves hk (.clock o todo)
  | tasks now todo =>
    cases todo with
    | nil =>
      cases h
      exact .moves hk (.ends o now)
    | cons t todo =>
      cases h
      exact .moves hk (.task o now t todo)
  | count c t =>
    cases h
    by_cases ho : o = .done
    · subst ho
      exact .moves hk (.counted c t)
    · rw [if_neg ho]
      exact .moves hk (.uncounted o c t)
  | skip now todo t =>
    cases h
    by_cases ho : o = .failed
    · subst ho
      exact .moves hk (.unrecorded now todo t)
    · rw [if_neg ho]
      exact .skips hk
  | create c t =>
    cases o with
    | done =>
      cases h
      exact .creates hk (.inl ⟨rfl, rfl⟩)
    | lost =>
      cases h
      exact .creates hk (.inr ⟨rfl, rfl⟩)
    | failed =>
      cases h
      exact .moves hk (.uncreated c t)
  | enqueue c t x =>
    cases o with
    | done =>
      cases h
      exact .enqueues hk (.inl ⟨rfl, rfl⟩)
    | lost =>
      cases h
      exact .enqueues hk (.inr ⟨rfl, rfl⟩)
    | failed =>
      cases h
      exact .moves hk (.unqueued c t x)
  | advance now todo t fired =>
    cases h
    by_cases ho : o = .failed
    · subst ho
      exact .moves hk (.unadvanced now todo t fired)
    · rw [if_neg ho]
      exact .advances hk
  | done => cases h

/-- An edit that looks at the columns that the window does not depend on. -/
theorem edited_apply (e : TaskEdit) (t : ScheduledTask) : Edited t (e.apply t) := by
  refine ⟨rfl, ?_⟩
  show (if _ then none else t.nextRunAt) = t.nextRunAt ∨
    (if _ then none else t.nextRunAt) = none
  split
  · exact .inr rfl
  · exact .inl rfl

theorem step_of_apply (h : s.apply cal a = some s') : Step cal s a s' := by
  cases a with
  | queue a =>
    simp only [State.apply] at h
    split at h
    · rename_i hforeign
      obtain ⟨q, hq, rfl⟩ := map_eq_some_iff.1 h
      exact .queue hforeign hq
    · cases h
  | startPass =>
    cases h
    exact .starts
  | request taskId =>
    obtain ⟨t, _, rfl⟩ := map_eq_some_iff.1 h
    exact .requests t
  | client k o =>
    simp only [State.apply] at h
    split at h
    · cases h
    · rename_i c hk
      exact step_of_clientStep hk h
  | clientDies k =>
    cases h
    exact .dies k
  | handler i o =>
    simp only [State.apply] at h
    split at h
    · cases h
    · rename_i e he
      split at h
      · rename_i taskId x hstage hpayload
        cases h
        exact .handler he hstage hpayload
      · cases h
  | returns i =>
    simp only [State.apply] at h
    split at h
    · rename_i e r he hhandler
      split at h
      · rename_i hpayload
        obtain ⟨q, hq, rfl⟩ := map_eq_some_iff.1 h
        exact .returns he hpayload hhandler hq
      · cases h
    · cases h
  | createTask t =>
    cases h
    exact .creation
  | updateTask id e =>
    cases h
    exact .edit (edited_apply e)
  | deleteTask id | deleteResource id =>
    cases h
    exact .edit fun _ => ⟨rfl, .inl rfl⟩

/-! ## How the tables hang together -/

def Known (s : State) (x : Nat) : Prop :=
  (∃ r ∈ s.queue.jobs, execution? r.payload = some x) ∨
    (∃ e ∈ s.queue.execs, execution? e.job.payload = some x) ∨
    x ∈ s.performed

/-- The execution row that the client has opened and is about to queue a job
for. -/
def Client.opened? : Client → Option Nat
  | .enqueue _ _ x => some x
  | _ => none

/-- The client `k` is about to queue the job of the execution row `x`. -/
def Opens (s : State) (k x : Nat) : Prop :=
  ∃ c, s.clients[k]? = some c ∧ c.opened? = some x

/-- What holds of the tables in every run. -/
structure Linked (s : State) : Prop where
  sound : Sound s.queue
  distinct : (s.executions.map TaskExecution.id).Nodup
  rows : ∀ a ∈ s.executions, a.id < s.nextExecution
  known : ∀ x, Known s x → x < s.nextExecution
  opening : ∀ k x, Opens s k x → x < s.nextExecution ∧ ¬ Known s x
  alone : ∀ k k' x, Opens s k x → Opens s k' x → k = k'
  one : ∀ r ∈ s.queue.jobs, ∀ r' ∈ s.queue.jobs, ∀ x,
    execution? r.payload = some x → execution? r'.payload = some x → r.id = r'.id
  copies : ∀ e ∈ s.queue.execs, ∀ r ∈ s.queue.jobs, r.id = e.job.id →
    r.payload = e.job.payload
  taken : ∀ e ∈ s.queue.execs, e.job.id < s.queue.nextJob

theorem linked_empty (clock : Nat) : Linked (.empty clock) where
  sound := sound_empty clock
  distinct := nodup_nil
  rows := nofun
  known := by
    intro x h
    rcases h with ⟨r, hr, _⟩ | ⟨e, he, _⟩ | hx
    · cases hr
    · cases he
    · cases hx
  opening := fun _ _ ⟨_, h, _⟩ => nomatch h
  alone := fun _ _ _ ⟨_, h, _⟩ => nomatch h
  one := forall_mem_nil _
  copies := fun _ h => nomatch h
  taken := fun _ h => nomatch h

/-! ### Steps of the queue -/

/-- The action enqueues no job of a task. -/
def NoTask (a : Queue.Action) : Prop :=
  ∀ o, a = .enqueue o → execution? o.payload = none

/-- If a handler of a task returns, it is at its end. -/
def State.Returns (s : State) (a : Queue.Action) : Prop :=
  ∀ k r e, a = .handlerReturns k r → s.queue.execs[k]? = some e →
    (execution? e.job.payload).isSome = true → s.handlers k = .returns r

theorem noTask_of_foreign (h : s.foreign a = true) : NoTask a := by
  rintro o rfl
  exact isNone_iff_eq_none.1 h

theorem returns_of_foreign (h : s.foreign a = true) : s.Returns a := by
  rintro k r e rfl he hpayload
  simp only [State.foreign, he, isNone_iff_eq_none] at h
  rw [h] at hpayload
  cases hpayload

theorem returns_of_handler (h : s.handlers i = .returns r) : s.Returns (.handlerReturns i r) := by
  intro k r' e heq _ _
  cases heq
  exact h

theorem job_of_applied (h : Applied q a q') (hs : Sound q)
    (hnew : NoTask a)
    (hr' : r' ∈ q'.jobs) (hx : execution? r'.payload = some x) :
    ∃ r ∈ q.jobs, RowChange q a r r' ∧ execution? r.payload = some x := by
  rcases h.row hs.distinct hr' with ⟨r, hr, hchange⟩ | ⟨o, ha, _, rfl⟩
  · exact ⟨r, hr, hchange, by rw [← hchange.payload_eq]; exact hx⟩
  · have hnone : execution? o.payload = none := hnew o ha
    cases hnone.symm.trans hx

/-- Where an execution of the queue comes from: it carries the copy it had, or
the copy of a row that it takes now. -/
theorem exec_of_applied (h : Applied q a q') (he' : e' ∈ q'.execs) :
    (∃ e ∈ q.execs, e'.job = e.job) ∨
      ∃ r ∈ q.jobs, e'.job.id = r.id ∧ e'.job.payload = r.payload := by
  obtain ⟨i, hi⟩ := getElem?_of_mem he'
  rcases h.exec_at hi with ⟨e, he, heq⟩ | ⟨worker, r, _, _, hr, _, rfl⟩
  · exact .inl ⟨e, mem_of_getElem? he, (frame_of_change heq).2⟩
  · exact .inr ⟨r, hr, rfl, rfl⟩

theorem Known.of_queue (h : Applied s.queue a q') (hs : Sound s.queue)
    (hnew : NoTask a)
    (hx : Known { s with queue := q' } x) : Known s x := by
  rcases hx with ⟨r', hr', hx⟩ | ⟨e', he', hx⟩ | hx
  · obtain ⟨r, hr, _, hxr⟩ := job_of_applied h hs hnew hr' hx
    exact .inl ⟨r, hr, hxr⟩
  · rcases exec_of_applied h he' with ⟨e, he, hjob⟩ | ⟨r, hr, _, hpayload⟩
    · exact .inr (.inl ⟨e, he, by rw [← hjob]; exact hx⟩)
    · exact .inl ⟨r, hr, by rw [← hpayload]; exact hx⟩
  · exact .inr (.inr hx)

theorem Linked.copies_step (hl : Linked s) (h : Applied s.queue a q')
    (he' : e' ∈ q'.execs) (hr' : r' ∈ q'.jobs) (hid : r'.id = e'.job.id) :
    r'.payload = e'.job.payload := by
  have hd := hl.sound.distinct
  rcases h.row hd hr' with ⟨r, hr, hchange⟩ | ⟨o, ha, _, rfl⟩
  · rw [hchange.payload_eq]
    rw [hchange.id_eq] at hid
    rcases exec_of_applied h he' with ⟨e, he, hjob⟩ | ⟨q, hq, hqid, hqp⟩
    · rw [hjob] at hid ⊢
      exact hl.copies e he r hr hid
    · rw [hqp, hl.sound.eq_of_id hr hq (hid.trans hqid)]
  · -- A new row has an id that no execution has a copy of.
    have hnew : s.queue.nextJob = e'.job.id := hid
    rcases exec_of_applied h he' with ⟨e, he, hjob⟩ | ⟨q, hq, hqid, _⟩
    · have hlt := hl.taken e he
      rw [hjob] at hnew
      omega
    · have hlt := hl.sound.fresh q hq
      omega

theorem Linked.queue (hl : Linked s) (h : s.queue.apply a = some q') (hnew : NoTask a) :
    Linked { s with queue := q' } := by
  have happlied := applied_of_apply h
  have hknown : ∀ x, Known { s with queue := q' } x → Known s x :=
    fun x hx => hx.of_queue happlied hl.sound hnew
  exact {
    sound := hl.sound.step h
    distinct := hl.distinct
    rows := hl.rows
    known := fun x hx => hl.known x (hknown x hx)
    opening := by
      intro k x hk
      obtain ⟨hlt, hnot⟩ := hl.opening k x hk
      exact ⟨hlt, fun hx => hnot (hknown x hx)⟩
    alone := hl.alone
    one := by
      intro r₁ hr₁ r₂ hr₂ x hx₁ hx₂
      obtain ⟨q₁, hq₁, hc₁, hp₁⟩ :=
        job_of_applied happlied hl.sound hnew hr₁ hx₁
      obtain ⟨q₂, hq₂, hc₂, hp₂⟩ :=
        job_of_applied happlied hl.sound hnew hr₂ hx₂
      rw [hc₁.id_eq, hc₂.id_eq]
      exact hl.one q₁ hq₁ q₂ hq₂ x hp₁ hp₂
    copies := fun e he r hr hid => hl.copies_step happlied he hr hid
    taken := by
      intro e' he'
      have hle := happlied.nextJob_le
      show e'.job.id < q'.nextJob
      rcases exec_of_applied happlied he' with ⟨e, he, hjob⟩ | ⟨r, hr, hid, _⟩
      · have hlt := hl.taken e he
        rw [hjob]
        omega
      · have hlt := hl.sound.fresh r hr
        omega }

/-! ### Steps of the clients -/

theorem Caller.opened_back (c : Caller) : c.back.opened? = none := by
  cases c <;> rfl

theorem Caller.opened_enqueued (c : Caller) (t : ScheduledTask) :
    (c.enqueued t).opened? = none := by
  cases c <;> rfl

theorem opened_scheduleTask (cal : Calendar) (now : Nat)
    (todo : List ScheduledTask) (t : ScheduledTask) :
    (scheduleTask cal now todo t).opened? = none := by
  unfold scheduleTask
  split
  · rfl
  · split
    · rfl
    · split
      · rfl
      · split
        · rfl
        · split <;> rfl

theorem opened_runScheduledTask (t : ScheduledTask) : (runScheduledTask t).opened? = none := by
  unfold runScheduledTask
  split <;> rfl

theorem Move.opened (h : Move cal s o c c') : c'.opened? = none := by
  cases h with
  | task o now t todo => exact opened_scheduleTask cal now todo t
  | counted c t =>
    cases c with
    | pass now todo | request =>
      simp only [Caller.counted]
      split <;> rfl
  | uncounted o c t | uncreated c t | unqueued c t x => exact c.opened_back
  | _ => rfl

theorem opens_setClient (h : Opens (s.setClient k c') j x) :
    j = k ∧ c'.opened? = some x ∨ j ≠ k ∧ Opens s j x := by
  obtain ⟨c, hj, hc⟩ := h
  rcases of_getElem?_set hj with ⟨hjk, rfl⟩ | ⟨hjk, hj⟩
  · exact .inl ⟨hjk, hc⟩
  · exact .inr ⟨hjk, c, hj, hc⟩

theorem opens_append (hc' : c'.opened? = none)
    (h : Opens { s with clients := s.clients ++ [c'] } j x) : Opens s j x := by
  obtain ⟨c, hj, hc⟩ := h
  rcases of_getElem?_concat hj with hj | ⟨_, rfl⟩
  · exact ⟨c, hj, hc⟩
  · cases hc'.symm.trans hc

theorem Linked.clients (hl : Linked s)
    (h : ∀ k x, Opens { s with clients := cs } k x → Opens s k x) :
    Linked { s with clients := cs } :=
  { hl with
    opening := fun k x hk => hl.opening k x (h k x hk)
    alone := fun k k' x hk hk' => hl.alone k k' x (h k x hk) (h k' x hk') }

theorem Linked.setClient (hl : Linked s) (k : Nat) (hc' : c'.opened? = none) :
    Linked (s.setClient k c') := by
  refine hl.clients ?_
  intro j x hj
  rcases opens_setClient hj with ⟨_, hc⟩ | ⟨_, hj⟩
  · cases hc'.symm.trans hc
  · exact hj

/-- A new execution row.  The client may keep it for its job. -/
theorem Linked.create (hl : Linked s) (k : Nat)
    (hc' : ∀ x, c'.opened? = some x → x = s.nextExecution) (taskId : Nat)
    (status : ExecutionStatus) (occurrence : Option Nat) :
    Linked ((s.setClient k c').createTaskExecution taskId status occurrence) := by
  have hopens : ∀ j x, Opens ((s.setClient k c').createTaskExecution taskId
      status occurrence) j x → j = k ∧ x = s.nextExecution ∨ Opens s j x := by
    intro j x hj
    rcases opens_setClient hj with ⟨hk, hc⟩ | ⟨_, hj⟩
    · exact .inl ⟨hk, hc' x hc⟩
    · exact .inr hj
  have hnew : ¬ Known s s.nextExecution := fun h =>
    Nat.lt_irrefl _ (hl.known _ h)
  exact {
    sound := hl.sound
    distinct := nodup_concat hl.distinct fun a ha =>
      Nat.ne_of_lt (hl.rows a ha)
    rows := forall_concat (fun a ha => Nat.lt_succ_of_lt (hl.rows a ha)) (Nat.lt_succ_self _)
    known := fun x hx => Nat.lt_succ_of_lt (hl.known x hx)
    opening := by
      intro j x hj
      show x < s.nextExecution + 1 ∧ ¬ Known s x
      rcases hopens j x hj with ⟨_, rfl⟩ | hj
      · exact ⟨Nat.lt_succ_self _, hnew⟩
      · obtain ⟨hlt, hnot⟩ := hl.opening j x hj
        exact ⟨Nat.lt_succ_of_lt hlt, hnot⟩
    alone := by
      intro j j' x hj hj'
      rcases hopens j x hj with ⟨hk, hx⟩ | hj
      · rcases hopens j' x hj' with ⟨hk', _⟩ | hj'
        · rw [hk, hk']
        · have hlt := (hl.opening j' x hj').1
          omega
      · rcases hopens j' x hj' with ⟨_, hx⟩ | hj'
        · have hlt := (hl.opening j x hj).1
          omega
        · exact hl.alone j j' x hj hj'
    one := hl.one
    copies := hl.copies
    taken := hl.taken }

/-- What is known after a job is queued. -/
theorem known_enqueue (h : Known ((s.setClient k c').enqueue t x) y) : y = x ∨ Known s y := by
  rcases h with ⟨r, hr, hy⟩ | he | hy
  · rcases mem_append.1 hr with hold | hnew
    · exact .inr (.inl ⟨r, hold, hy⟩)
    · rw [mem_singleton.1 hnew] at hy
      exact .inl (some.inj hy).symm
  · exact .inr (.inr (.inl he))
  · exact .inr (.inr (.inr hy))

theorem Linked.enqueue (hl : Linked s) (hk : Opens s k x)
    (hc' : c'.opened? = none) (t : ScheduledTask) :
    Linked ((s.setClient k c').enqueue t x) := by
  obtain ⟨hlt, hnot⟩ := hl.opening k x hk
  have hjobs : ((s.setClient k c').enqueue t x).queue.jobs = s.queue.jobs ++
      [(enqueueOptions t x).row s.queue.clock s.queue.nextJob] := rfl
  have hqueue : s.queue.apply (.enqueue (enqueueOptions t x)) =
      some ((s.setClient k c').enqueue t x).queue := rfl
  have hopens : ∀ j y, Opens ((s.setClient k c').enqueue t x) j y → j ≠ k ∧ Opens s j y := by
    intro j y hj
    rcases opens_setClient hj with ⟨_, hc⟩ | hj
    · cases hc'.symm.trans hc
    · exact hj
  exact {
    sound := hl.sound.step hqueue
    distinct := hl.distinct
    rows := hl.rows
    known := by
      intro y hy
      rcases known_enqueue hy with rfl | hy
      · exact hlt
      · exact hl.known y hy
    opening := by
      intro j y hj
      obtain ⟨hne, hold⟩ := hopens j y hj
      obtain ⟨hy, hnoty⟩ := hl.opening j y hold
      refine ⟨hy, fun hknown => ?_⟩
      rcases known_enqueue hknown with rfl | hknown
      · exact hne (hl.alone j k y hold hk)
      · exact hnoty hknown
    alone := fun j j' y hj hj' =>
      hl.alone j j' y (hopens j y hj).2 (hopens j' y hj').2
    one := by
      refine forall_concat (fun r hr => ?_) (forall_concat (fun r hr y hy hy' => ?_) ?_)
      · refine forall_concat (hl.one r hr) fun y hy hy' => ?_
        obtain rfl : x = y := some.inj hy'
        exact absurd (.inl ⟨r, hr, hy⟩) hnot
      · obtain rfl : x = y := some.inj hy
        exact absurd (.inl ⟨r, hr, hy'⟩) hnot
      · exact fun _ _ _ => rfl
    copies := fun e he r hr hid =>
      hl.copies_step (applied_of_apply hqueue) he hr hid
    taken := fun e he => Nat.lt_succ_of_lt (hl.taken e he) }

/-! ### Steps of the handlers -/

/-- Where a row comes from that a handler may have closed. -/
theorem row_of_handlerStep (ha' : a' ∈ (s.handlerStep i taskId x o).executions) :
    ∃ a ∈ s.executions, a'.id = a.id ∧
      a'.scheduledTaskId = a.scheduledTaskId ∧ a'.occurrence = a.occurrence := by
  unfold State.handlerStep at ha'
  split at ha'
  · exact ⟨a', ha', rfl, rfl, rfl⟩
  · obtain ⟨a, ha, rfl⟩ := mem_updateWhere.1 ha'
    refine ⟨a, ha, ?_⟩
    split <;> exact ⟨rfl, rfl, rfl⟩

theorem map_id_handlerStep (s : State) (i taskId x : Nat) (o : HandlerEnd) :
    (s.handlerStep i taskId x o).executions.map TaskExecution.id =
      s.executions.map TaskExecution.id := by
  unfold State.handlerStep
  split
  · rfl
  · exact map_updateWhere (by intro _; rfl) _ _

theorem known_handlerStep (he : s.queue.execs[i]? = some e)
    (hpayload : e.job.payload = .scheduledTaskRun taskId x)
    (h : Known (s.handlerStep i taskId x o) y) : Known s y := by
  have hx : Known s x :=
    .inr (.inl ⟨e, mem_of_getElem? he, by rw [hpayload]; rfl⟩)
  rcases h with hr | he | hy
  · exact .inl hr
  · exact .inr (.inl he)
  · unfold State.handlerStep at hy
    dsimp only at hy
    split at hy
    · rcases mem_cons.1 hy with rfl | hy
      · exact hx
      · exact .inr (.inr hy)
    · exact .inr (.inr hy)

theorem Linked.handler (hl : Linked s) (he : s.queue.execs[i]? = some e)
    (hpayload : e.job.payload = .scheduledTaskRun taskId x) :
    Linked (s.handlerStep i taskId x o) where
  sound := hl.sound
  distinct := by
    rw [map_id_handlerStep]
    exact hl.distinct
  rows := by
    intro a' ha'
    obtain ⟨a, ha, hid, _⟩ := row_of_handlerStep ha'
    rw [hid]
    exact hl.rows a ha
  known := fun y hy => hl.known y (known_handlerStep he hpayload hy)
  opening := by
    intro k y hk
    obtain ⟨hlt, hnot⟩ := hl.opening k y hk
    exact ⟨hlt, fun h => hnot (known_handlerStep he hpayload h)⟩
  alone := hl.alone
  one := hl.one
  copies := hl.copies
  taken := hl.taken

/-! ### All steps -/

theorem Linked.step (hl : Linked s) (h : Step cal s a s') : Linked s' := by
  cases h with
  | queue hforeign h =>
    exact hl.queue h (noTask_of_foreign hforeign)
  | returns _ _ _ h => exact hl.queue h nofun
  | starts => exact hl.clients fun _ _ h => opens_append rfl h
  | requests t =>
    exact hl.clients fun _ _ h => opens_append (opened_runScheduledTask t) h
  | moves hk h => exact hl.setClient _ h.opened
  | dies k => exact hl.setClient k rfl
  | skips hk =>
    refine hl.create _ ?_ _ _ _
    intro x hx
    cases hx
  | @creates k o c' c t hk hc =>
    refine hl.create k ?_ _ _ _
    intro x hx
    rcases hc with ⟨_, rfl⟩ | ⟨_, rfl⟩
    · exact (some.inj hx).symm
    · cases c.opened_back.symm.trans hx
  | @enqueues k o c' t x c hk hc =>
    refine hl.enqueue ⟨_, hk, rfl⟩ ?_ t
    rcases hc with ⟨_, rfl⟩ | ⟨_, rfl⟩
    · exact c.opened_enqueued t
    · exact c.opened_back
  | @advances k o now todo t fired hk =>
    have hset : Linked (s.setClient k (.tasks now todo)) :=
      hl.setClient k rfl
    exact { hset with }
  | handler he _ hpayload => exact hl.handler he hpayload
  | creation | edit hf => exact { hl with }

end Akerdock.Tasks
