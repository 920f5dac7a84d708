import Akerdock.Tasks.AtMostOnce

/-!
# What a cron occurrence performs

The scheduler queues a run before it advances `next_run_at`, in two statements.
An occurrence is queued once only if the second statement always follows the
first, and if no other pass reads the row in between.

* `Orderly` is that condition on the steps of the scheduler.
* `Fired` are the occurrences that a job was queued for, and `Ready` says that
  the window of a task lies after all of them.  `Spread` is the invariant: the
  rows of the table are ready unless a pass is about to advance them, and so
  are the copies of them that a pass still has to go through.
* `effects_at_most_once` puts the rows and the occurrences together.
-/

namespace Akerdock.Tasks

open Store Queue Table Proc List
open Machine (Reaches run)

/-! ## The condition -/

def Client.isPass : Client → Bool
  | .list | .clock _ | .tasks _ _ | .skip _ _ _ | .advance _ _ _ _ => true
  | .count (.pass _ _) _ | .create (.pass _ _) _ | .enqueue (.pass _ _) _ _ =>
    true
  | _ => false

/-- The task that the client has queued a run of and has not advanced yet. -/
def Client.fired? : Client → Option ScheduledTask
  | .advance _ _ t true => some t
  | _ => none

/-- Passes follow each other, and a pass that has queued a run advances the
window.

* A pass starts when no other one is under way.
* The statement that queues a run does not report an error after it took
  effect.
* After a run is queued, the pass does not die, its advance does not fail, and
  the cron expression has a next occurrence. -/
def Orderly (cal : Calendar) (a : Action) (s : State) : Prop :=
  match a with
  | .startPass => ∀ c ∈ s.clients, c.isPass = false
  | .client k o =>
    match s.clients[k]? with
    | some (.enqueue (.pass _ _) _ _) => o ≠ .lost
    | some (.advance now _ t true) =>
      o ≠ .failed ∧ (nextRun cal t now).isSome = true
    | _ => True
  | .clientDies k => ∀ c ∈ s.clients[k]?, c.fired? = none
  | _ => True

instance (cal : Calendar) (a : Action) (s : State) : Decidable (Orderly cal a s) := by
  unfold Orderly
  split <;> try infer_instance
  split <;> infer_instance

/-! ## The invariant -/

/-- A run of the task was queued for its occurrence at `v`. -/
def Fired (s : State) (taskId v : Nat) : Prop :=
  ∃ a ∈ s.executions, Known s a.id ∧ a.scheduledTaskId = taskId ∧ a.occurrence = some v

/-- The window of the task lies after everything that was queued. -/
def Ready (s : State) (t : ScheduledTask) : Prop :=
  ∀ u, t.nextRunAt = some u → ∀ v, Fired s t.id v → v < u

/-- The time that a pass has read, behind which everything queued lies. -/
def Timely (s : State) (now : Nat) : Prop :=
  now ≤ s.queue.clock ∧ ∀ taskId v, Fired s taskId v → v ≤ now

/-- The tasks that a pass has still to go through. -/
def Todo (s : State) (l : List ScheduledTask) : Prop :=
  (l.map ScheduledTask.id).Nodup ∧ ∀ t ∈ l, Ready s t

/-- The time that a client has read. -/
def Client.now? : Client → Option Nat
  | .tasks now _ | .count (.pass now _) _ | .create (.pass now _) _
  | .enqueue (.pass now _) _ _ | .skip now _ _ | .advance now _ _ _ => some now
  | _ => none

/-- The tasks that a client may still queue a run of. -/
def Client.todo : Client → List ScheduledTask
  | .clock todo | .tasks _ todo => todo
  | .count (.pass _ todo) t | .create (.pass _ todo) t
  | .enqueue (.pass _ todo) t _ | .skip _ todo t | .advance _ todo t false =>
    t :: todo
  | .advance _ todo _ true => todo
  | _ => []

def Client.due? : Client → Option ScheduledTask
  | .count (.pass _ _) t | .create (.pass _ _) t
  | .enqueue (.pass _ _) t _ => some t
  | _ => none

/-- The row that a client has opened is for the task and the occurrence that it
is at. -/
def Marked (s : State) : Client → Prop
  | .enqueue c t x => ∀ a ∈ s.executions, a.id = x →
      a.scheduledTaskId = t.id ∧ a.occurrence = c.occurrence t
  | _ => True

/-- What holds of each client. -/
structure ClientOk (s : State) (c : Client) : Prop where
  now : ∀ now, c.now? = some now → Timely s now
  todo : Todo s c.todo
  due : ∀ now t, c.now? = some now → c.due? = some t →
    ∃ u, t.nextRunAt = some u ∧ u ≤ now
  marked : Marked s c

/-- No pass has a run of the task queued and its window not advanced. -/
def Idle (s : State) (taskId : Nat) : Prop :=
  ∀ (k : Nat) (c : Client), s.clients[k]? = some c → ∀ t, c.fired? = some t → t.id ≠ taskId

/-- What holds in the runs in which passes are orderly. -/
structure Spread (s : State) : Prop where
  linked : Linked s
  ids : (s.tasks.map ScheduledTask.id).Nodup
  fresh : ∀ t ∈ s.tasks, t.id < s.nextTask
  once : ∀ a ∈ s.executions, ∀ b ∈ s.executions, Known s a.id →
    Known s b.id → a.scheduledTaskId = b.scheduledTaskId →
      a.occurrence = b.occurrence → a.occurrence ≠ none → a.id = b.id
  past : ∀ taskId v, Fired s taskId v → v ≤ s.queue.clock
  windows : ∀ t ∈ s.tasks, Idle s t.id → Ready s t
  clients : ∀ (k : Nat) (c : Client), s.clients[k]? = some c → ClientOk s c
  single : ∀ (k k' : Nat) (c c' : Client), s.clients[k]? = some c →
    s.clients[k']? = some c' → c.isPass = true → c'.isPass = true → k = k'

theorem spread_empty (clock : Nat) : Spread (.empty clock) where
  linked := linked_empty clock
  ids := nodup_nil
  fresh := nofun
  once := nofun
  past := fun _ _ ⟨_, h, _⟩ => nomatch h
  windows := nofun
  clients := by rintro _ _ ⟨⟩
  single := fun _ _ _ _ h => nomatch h

/-! ## What does not queue a run -/

/-- The rows and the jobs after a step that queues no run. -/
structure Quiet (s s' : State) : Prop where
  fired : ∀ taskId v, Fired s' taskId v → Fired s taskId v
  clock : s.queue.clock ≤ s'.queue.clock
  rows : ∀ a' ∈ s'.executions, a'.id < s.nextExecution →
    ∃ a ∈ s.executions, a.id = a'.id ∧
      a.scheduledTaskId = a'.scheduledTaskId ∧ a.occurrence = a'.occurrence
  known : ∀ a' ∈ s'.executions, Known s' a'.id →
    a'.id < s.nextExecution ∧ Known s a'.id

variable {t : ScheduledTask} {now k x : Nat} {c c' : Client}
    {todo : List ScheduledTask} {o : CallEnd}

section Quiet

variable {s s' : State}

section

variable (h : Quiet s s')

include h

theorem Quiet.ready (ht : Ready s t) : Ready s' t :=
  fun u hu v hv => ht u hu v (h.fired _ v hv)

theorem Quiet.timely (hn : Timely s now) : Timely s' now :=
  ⟨Nat.le_trans hn.1 h.clock, fun taskId v hv =>
    hn.2 taskId v (h.fired taskId v hv)⟩

theorem Quiet.marked (hl : Linked s)
    (hk : s.clients[k]? = some c) (hc : Marked s c) : Marked s' c := by
  cases c with
  | enqueue c t x =>
    intro a' ha' hid
    have hx := (hl.opening k x ⟨_, hk, rfl⟩).1
    obtain ⟨a, ha, haid, htask, hocc⟩ := h.rows a' ha' (by omega)
    rw [← htask, ← hocc]
    exact hc a ha (haid.trans hid)
  | _ => trivial

theorem Quiet.transfer (hc : ClientOk s c)
    (hmarked : Marked s' c) : ClientOk s' c where
  now := fun now hn => h.timely (hc.now now hn)
  todo := ⟨hc.todo.1, fun t ht => h.ready (hc.todo.2 t ht)⟩
  due := hc.due
  marked := hmarked

theorem Quiet.clientOk (hl : Linked s)
    (hk : s.clients[k]? = some c) (hc : ClientOk s c) : ClientOk s' c :=
  h.transfer hc (h.marked hl hk hc.marked)

theorem Quiet.once (hs : Spread s) {a b : TaskExecution}
    (ha : a ∈ s'.executions) (hb : b ∈ s'.executions) (hka : Known s' a.id)
    (hkb : Known s' b.id) (htask : a.scheduledTaskId = b.scheduledTaskId)
    (hocc : a.occurrence = b.occurrence) (hsome : a.occurrence ≠ none) :
    a.id = b.id := by
  obtain ⟨hlta, hka⟩ := h.known a ha hka
  obtain ⟨hltb, hkb⟩ := h.known b hb hkb
  obtain ⟨a₀, ha₀, hida, hta, hoa⟩ := h.rows a ha hlta
  obtain ⟨b₀, hb₀, hidb, htb, hob⟩ := h.rows b hb hltb
  rw [← hida, ← hidb]
  rw [← hida] at hka
  rw [← hidb] at hkb
  exact hs.once a₀ ha₀ b₀ hb₀ hka hkb (by rw [hta, htb, htask])
    (by rw [hoa, hob, hocc]) (by rw [hoa]; exact hsome)

end

/-- A step that changes no row and no job that was there. -/
theorem quiet_of_known (hexecutions : s'.executions = s.executions)
    (hl : Linked s) (hclock : s.queue.clock ≤ s'.queue.clock)
    (hknown : ∀ x, Known s' x → Known s x) : Quiet s s' where
  fired := by
    rintro taskId v ⟨a, ha, hka, ht⟩
    rw [hexecutions] at ha
    exact ⟨a, ha, hknown _ hka, ht⟩
  clock := hclock
  rows := by
    intro a' ha' _
    rw [hexecutions] at ha'
    exact ⟨a', ha', rfl, rfl, rfl⟩
  known := by
    intro a' _ hk
    have hk' := hknown _ hk
    exact ⟨hl.known _ hk', hk'⟩

theorem quiet_queue (hl : Linked s) (h : s.queue.apply a = some q)
    (hnew : NoTask a) :
    Quiet s { s with queue := q } :=
  quiet_of_known rfl hl (applied_of_apply h).clock_le fun _ hx =>
    hx.of_queue (applied_of_apply h) hl.sound hnew

theorem quiet_handler (hl : Linked s) {o : HandlerEnd}
    (he : s.queue.execs[i]? = some e)
    (hpayload : e.job.payload = .scheduledTaskRun taskId x) :
    Quiet s (s.handlerStep i taskId x o) where
  fired := by
    rintro τ v ⟨a', ha', hk, htask, hocc⟩
    obtain ⟨a, ha, hid, ht, ho⟩ := row_of_handlerStep ha'
    refine ⟨a, ha, ?_, by rw [← ht, htask], by rw [← ho, hocc]⟩
    rw [← hid]
    exact known_handlerStep he hpayload hk
  clock := Nat.le_refl _
  rows := by
    intro a' ha' _
    obtain ⟨a, ha, hid, ht, ho⟩ := row_of_handlerStep ha'
    exact ⟨a, ha, hid.symm, ht.symm, ho.symm⟩
  known := by
    intro a' _ hk
    have hk' := known_handlerStep he hpayload hk
    exact ⟨hl.known _ hk', hk'⟩

/-- A new row is not known to the queue yet. -/
theorem quiet_create (hl : Linked s) (k : Nat) (c' : Client) (taskId : Nat)
    (status : ExecutionStatus) (occurrence : Option Nat) :
    Quiet s ((s.setClient k c').createTaskExecution taskId status occurrence) where
  fired := by
    rintro τ v ⟨a, ha, hk, ht⟩
    rcases mem_append.1 ha with hold | hnew
    · exact ⟨a, hold, hk, ht⟩
    · have hlt := hl.known _ hk
      rw [mem_singleton.1 hnew] at hlt
      exact absurd hlt (Nat.lt_irrefl _)
  clock := Nat.le_refl _
  rows := by
    exact forall_concat (fun a ha _ => ⟨a, ha, rfl, rfl, rfl⟩)
      fun hlt => absurd hlt (Nat.lt_irrefl _)
  known := fun _ _ hk => ⟨hl.known _ hk, hk⟩

end Quiet

/-! ## Steps of the queue, the handlers and the clients -/

section Steps

variable {cal : Calendar} {s s' : State}

/-- A step that queues no run and leaves the tasks alone, and what it does to
the clients. -/
theorem Spread.of_quiet (hs : Spread s) (hl : Linked s') (hq : Quiet s s')
    (htasks : s'.tasks = s.tasks) (hnext : s'.nextTask = s.nextTask)
    (hidle : ∀ taskId, Idle s' taskId → Idle s taskId)
    (hclients : ∀ (k : Nat) (c : Client), s'.clients[k]? = some c →
      s.clients[k]? = some c ∨ ClientOk s' c)
    (hsingle : ∀ (k k' : Nat) (c c' : Client), s'.clients[k]? = some c →
      s'.clients[k']? = some c' → c.isPass = true → c'.isPass = true → k = k') :
    Spread s' where
  linked := hl
  ids := by
    rw [htasks]
    exact hs.ids
  fresh := by
    rw [htasks, hnext]
    exact hs.fresh
  once := fun _ ha _ hb hka hkb ht ho hn => hq.once hs ha hb hka hkb ht ho hn
  past := fun taskId v hv =>
    Nat.le_trans (hs.past taskId v (hq.fired taskId v hv)) hq.clock
  windows := by
    intro t ht hnone
    rw [htasks] at ht
    exact hq.ready (hs.windows t ht (hidle t.id hnone))
  clients := by
    intro k c hk
    rcases hclients k c hk with hk | hok
    · exact hq.clientOk hs.linked hk (hs.clients k c hk)
    · exact hok
  single := hsingle

/-- A step that leaves the clients and the tasks alone. -/
theorem Spread.quiet (hs : Spread s) (hl : Linked s') (hq : Quiet s s')
    (hclients : s'.clients = s.clients) (htasks : s'.tasks = s.tasks)
    (hnext : s'.nextTask = s.nextTask) : Spread s' := by
  refine hs.of_quiet hl hq htasks hnext ?_ ?_ ?_
  · unfold Idle
    rw [hclients]
    exact fun _ h => h
  · rw [hclients]
    exact fun _ _ h => .inl h
  · rw [hclients]
    exact hs.single

theorem single_set (hs : Spread s) (hk : s.clients[k]? = some c)
    (hpass : c'.isPass = true → c.isPass = true) :
    ∀ (i j : Nat) (d d' : Client), (s.clients.set k c')[i]? = some d →
      (s.clients.set k c')[j]? = some d' → d.isPass = true → d'.isPass = true → i = j := by
  intro i j d d' hi hj hd hd'
  rcases of_getElem?_set hi with ⟨rfl, rfl⟩ | ⟨_, hi₀⟩
  · rcases of_getElem?_set hj with ⟨rfl, rfl⟩ | ⟨_, hj₀⟩
    · rfl
    · exact hs.single _ _ _ _ hk hj₀ (hpass hd) hd'
  · rcases of_getElem?_set hj with ⟨rfl, rfl⟩ | ⟨_, hj₀⟩
    · exact hs.single _ _ _ _ hi₀ hk hd (hpass hd')
    · exact hs.single _ _ _ _ hi₀ hj₀ hd hd'

/-- Idleness before a client that has nothing to advance has moved. -/
theorem idle_of_set {cs : List Client} (hk : cs[k]? = some c)
    (hfired : ∀ t, c.fired? = some t → t.id ≠ taskId)
    (h : ∀ (j : Nat) (d : Client), (cs.set k c')[j]? = some d →
      ∀ t, d.fired? = some t → t.id ≠ taskId) :
    ∀ (j : Nat) (d : Client), cs[j]? = some d → ∀ t, d.fired? = some t → t.id ≠ taskId := by
  intro j d hj
  by_cases hjk : j = k
  · subst hjk
    cases hk.symm.trans hj
    exact hfired
  · refine h j d ?_
    rw [getElem?_set_ne (fun h => hjk h.symm)]
    exact hj

/-- A client moves on, and no run is queued. -/
theorem Spread.client (hs : Spread s) (hl : Linked s') (hq : Quiet s s')
    (hk : s.clients[k]? = some c) (hclients : s'.clients = s.clients.set k c')
    (htasks : s'.tasks = s.tasks) (hnext : s'.nextTask = s.nextTask)
    (hok : ClientOk s' c') (hpass : c'.isPass = true → c.isPass = true)
    (hfired : c.fired? = none) : Spread s' := by
  refine hs.of_quiet hl hq htasks hnext ?_ ?_ ?_
  · intro taskId hidle
    unfold Idle at hidle
    rw [hclients] at hidle
    refine idle_of_set hk ?_ hidle
    rw [hfired]
    exact nofun
  · intro j d hj
    rw [hclients] at hj
    rcases of_getElem?_set hj with ⟨_, rfl⟩ | ⟨_, hj⟩
    · exact .inr hok
    · exact .inl hj
  · rw [hclients]
    exact single_set hs hk hpass

theorem marked_of_opened (h : c.opened? = none) : Marked s c := by
  cases c with
  | enqueue c t x => cases h
  | _ => trivial

/-- A client that is not a pass, or a pass that has ended. -/
theorem clientOk_trivial (hnow : c.now? = none) (htodo : c.todo = [])
    (hopened : c.opened? = none) : ClientOk s c where
  now := by
    intro now h
    cases hnow.symm.trans h
  todo := by
    rw [htodo]
    exact ⟨nodup_nil, nofun⟩
  due := by
    intro now t h
    cases hnow.symm.trans h
  marked := marked_of_opened hopened

theorem clientOk_tasks (hnow : Timely s now) (htodo : Todo s todo) :
    ClientOk s (.tasks now todo) where
  now := by
    intro n h
    cases h
    exact hnow
  todo := htodo
  due := nofun
  marked := trivial

theorem Todo.tail {l : List ScheduledTask} (h : Todo s (t :: l)) : Todo s l :=
  ⟨(nodup_cons.1 h.1).2, fun t' ht' => h.2 t' (mem_cons_of_mem _ ht')⟩

/-- A pass at the task `t`, which is the first that it has left. -/
theorem clientOk_at (hnow : Timely s now) (htodo : Todo s (t :: todo))
    (hcnow : c.now? = some now) (hctodo : c.todo = t :: todo)
    (hdue : ∀ t', c.due? = some t' → ∃ u, t'.nextRunAt = some u ∧ u ≤ now)
    (hmarked : Marked s c) : ClientOk s c where
  now := by
    intro n h
    cases hcnow.symm.trans h
    exact hnow
  todo := by
    rw [hctodo]
    exact htodo
  due := by
    intro n t' h hd
    cases hcnow.symm.trans h
    exact hdue t' hd
  marked := hmarked

theorem clientOk_scheduleTask (hnow : Timely s now) (htodo : Todo s (t :: todo)) :
    ClientOk s (scheduleTask cal now todo t) := by
  unfold scheduleTask
  split
  · exact clientOk_tasks hnow htodo.tail
  · rename_i schedule _
    split
    · exact clientOk_at hnow htodo rfl rfl nofun trivial
    · rename_i u hu
      have hdue : ¬ now < u → ∀ t', some t = some t' →
          ∃ u, t'.nextRunAt = some u ∧ u ≤ now := by
        intro hle t' ht'
        cases ht'
        exact ⟨u, hu, Nat.le_of_not_lt hle⟩
      split
      · exact clientOk_tasks hnow htodo.tail
      · rename_i hle
        split
        · exact clientOk_at hnow htodo rfl rfl nofun trivial
        · split <;> exact clientOk_at hnow htodo rfl rfl (hdue hle) trivial

/-- Where the caller goes on after an error. -/
theorem clientOk_back {c : Caller} {k : Client} (hk : ClientOk s k)
    (hnow : ∀ now todo, c = .pass now todo → k.now? = some now)
    (htodo : ∀ now todo, c = .pass now todo → ∃ t, k.todo = t :: todo) :
    ClientOk s c.back := by
  cases c with
  | pass now todo =>
    obtain ⟨t, ht⟩ := htodo now todo rfl
    have hall := hk.todo
    rw [ht] at hall
    exact clientOk_tasks (hk.now now (hnow now todo rfl)) hall.tail
  | request => exact clientOk_trivial rfl rfl rfl

/-- A pass that is about to list the tasks finds them ready. -/
theorem Spread.todo_list (hs : Spread s) (hk : s.clients[k]? = some Client.list) :
    Todo s (listSchedulableTasks s.tasks) := by
  refine ⟨hs.ids.sublist (filter_sublist.map _), ?_⟩
  intro t ht
  refine hs.windows t (mem_of_mem_filter ht) ?_
  intro j c hj t' ht'
  have hpass : c.isPass = true := by
    cases c with
    | advance => rfl
    | _ => cases ht'
  obtain rfl := hs.single _ _ _ _ hk hj rfl hpass
  cases hk.symm.trans hj
  cases ht'

theorem Spread.clientOk_move (hs : Spread s) (hk : s.clients[k]? = some c)
    (hm : Move cal s o c c') : ClientOk s c' := by
  have hc := hs.clients k c hk
  cases hm with
  | list =>
    exact ⟨by rintro _ ⟨⟩, hs.todo_list hk, by rintro _ _ _ ⟨⟩, trivial⟩
  | unlisted o | ends o now => exact clientOk_trivial rfl rfl rfl
  | clock o todo =>
    exact clientOk_tasks ⟨Nat.le_refl _, hs.past⟩ hc.todo
  | task o now t todo =>
    exact clientOk_scheduleTask (hc.now now rfl) hc.todo
  | counted c t =>
    cases c with
    | pass now todo =>
      simp only [Caller.counted]
      split
      · exact ⟨hc.now, hc.todo, hc.due, trivial⟩
      · exact ⟨hc.now, hc.todo, by rintro _ _ _ ⟨⟩, trivial⟩
    | request =>
      simp only [Caller.counted]
      split <;> exact clientOk_trivial rfl rfl rfl
  | uncounted o c t | uncreated c t | unqueued c t x =>
    refine clientOk_back hc ?_ ?_
    · rintro now todo rfl
      rfl
    · rintro now todo rfl
      exact ⟨t, rfl⟩
  | unrecorded now todo t => exact ⟨hc.now, hc.todo, by rintro _ _ _ ⟨⟩, trivial⟩
  | unadvanced now todo t fired =>
    refine clientOk_tasks (hc.now now rfl) ?_
    cases fired with
    | true => exact hc.todo
    | false => exact hc.todo.tail

theorem Move.isPass (hm : Move cal s o c c') (h : c'.isPass = true) : c.isPass = true := by
  cases hm with
  | counted c t =>
    cases c with
    | pass now todo => rfl
    | request =>
      simp only [Caller.counted] at h
      split at h <;> cases h
  | uncounted o c t | uncreated c t | unqueued c t x =>
    cases c with
    | pass now todo => rfl
    | request => cases h
  | _ => rfl

/-- A move of a client.  A pass that has queued a run does not give up its
advance. -/
theorem Spread.move (hs : Spread s) (hmay : Orderly cal (.client k o) s)
    (hk : s.clients[k]? = some c) (hm : Move cal s o c c')
    (hl : Linked (s.setClient k c')) : Spread (s.setClient k c') := by
  have hok := hs.clientOk_move hk hm
  refine hs.client hl
    (quiet_of_known rfl hs.linked le_rfl fun _ h => h) hk rfl rfl rfl
    ⟨hok.now, hok.todo, hok.due, hok.marked⟩ hm.isPass ?_
  cases hm with
  | unadvanced now todo t fired =>
    cases fired with
    | true =>
      simp only [Orderly, hk] at hmay
      exact absurd rfl hmay.1
    | false => rfl
  | _ => rfl

theorem Spread.dies (hs : Spread s) (hmay : Orderly cal (.clientDies k) s)
    (hl : Linked (s.setClient k .done)) : Spread (s.setClient k .done) := by
  have hq : Quiet s (s.setClient k .done) :=
    quiet_of_known rfl hs.linked le_rfl fun _ h => h
  cases hk : s.clients[k]? with
  | none =>
    have hlen := getElem?_eq_none_iff.1 hk
    exact hs.quiet hl hq (set_eq_of_length_le hlen) rfl rfl
  | some c =>
    exact hs.client hl hq hk rfl rfl rfl (clientOk_trivial rfl rfl rfl) nofun (hmay c hk)

/-- A new client that has nothing to do with the windows yet. -/
theorem Spread.append (hs : Spread s)
    (hl : Linked { s with clients := s.clients ++ [c'] }) (hok : ClientOk s c')
    (hfired : c'.fired? = none)
    (hpass : c'.isPass = true → ∀ c ∈ s.clients, c.isPass = false) :
    Spread { s with clients := s.clients ++ [c'] } := by
  refine hs.of_quiet hl (quiet_of_known rfl hs.linked le_rfl fun _ h => h) rfl rfl ?_ ?_ ?_
  · intro taskId hidle j d hj
    refine hidle j d ?_
    show (s.clients ++ [c'])[j]? = some d
    rw [List.getElem?_append_left (List.getElem?_eq_some_iff.1 hj).1]
    exact hj
  · intro j d hj
    rcases of_getElem?_concat hj with hj | ⟨_, rfl⟩
    · exact .inl hj
    · exact .inr ⟨hok.now, hok.todo, hok.due, hok.marked⟩
  · intro i j d d' hi hj hd hd'
    rcases of_getElem?_concat hi with hi₀ | ⟨hi₀, rfl⟩
    · rcases of_getElem?_concat hj with hj₀ | ⟨_, rfl⟩
      · exact hs.single i j d d' hi₀ hj₀ hd hd'
      · cases (hpass hd' d (mem_of_getElem? hi₀)).symm.trans hd
    · rcases of_getElem?_concat hj with hj₀ | ⟨hj₀, _⟩
      · cases (hpass hd d' (mem_of_getElem? hj₀)).symm.trans hd'
      · rw [hi₀, hj₀]

/-! ## The step that queues a run -/

/-- What was queued after a job for the row `x` is queued. -/
theorem fired_enqueue (hrow : ∀ a ∈ s.executions, a.id = x →
      a.scheduledTaskId = t.id ∧ a.occurrence = occurrence)
    (h : Fired ((s.setClient k c').enqueue t x) τ v) :
    Fired s τ v ∨ τ = t.id ∧ occurrence = some v := by
  obtain ⟨a, ha, hknown, htask, hocc⟩ := h
  rcases known_enqueue hknown with hid | hknown
  · obtain ⟨ht, ho⟩ := hrow a ha hid
    exact .inr ⟨by rw [← htask, ht], by rw [← ho, hocc]⟩
  · exact .inl ⟨a, ha, hknown, htask, hocc⟩

/-- A request queues a run for no occurrence. -/
theorem Spread.enqueue_request (hs : Spread s)
    (hk : s.clients[k]? = some (Client.enqueue .request t x))
    (hl : Linked ((s.setClient k .done).enqueue t x)) :
    Spread ((s.setClient k .done).enqueue t x) := by
  have hrow : Marked s (.enqueue .request t x) := (hs.clients k _ hk).marked
  have hfired : ∀ τ v, Fired ((s.setClient k .done).enqueue t x) τ v → Fired s τ v := by
    intro τ v h
    rcases fired_enqueue hrow h with h | ⟨_, h⟩
    · exact h
    · cases h
  refine {
    linked := hl
    ids := hs.ids
    fresh := hs.fresh
    once := ?_
    past := fun τ v h => hs.past τ v (hfired τ v h)
    windows := ?_
    clients := ?_
    single := single_set hs hk nofun }
  · intro a ha b hb hka hkb htask hocc hsome
    have hne : ∀ d ∈ s.executions, d.occurrence ≠ none → d.id ≠ x := by
      intro d hd hd' hid
      exact hd' (hrow d hd hid).2
    rcases known_enqueue hka with hx | hka
    · exact absurd hx (hne a ha hsome)
    · rcases known_enqueue hkb with hx | hkb
      · exact absurd hx (hne b hb (by rw [← hocc]; exact hsome))
      · exact hs.once a ha b hb hka hkb htask hocc hsome
  · intro t' ht' hidle u hu v hv
    exact hs.windows t' ht' (idle_of_set hk nofun hidle) u hu v (hfired _ v hv)
  · intro j d hj
    rcases of_getElem?_set hj with ⟨_, rfl⟩ | ⟨_, hj⟩
    · exact clientOk_trivial rfl rfl rfl
    · have h := hs.clients j d hj
      exact ⟨fun n hn => ⟨(h.now n hn).1, fun τ v hv => (h.now n hn).2 τ v (hfired τ v hv)⟩,
        ⟨h.todo.1, fun t' ht' u hu v hv =>
          h.todo.2 t' ht' u hu v (hfired _ v hv)⟩, h.due, h.marked⟩

/-- A client that is no pass has read no time and has no tasks left. -/
theorem client_of_not_isPass (h : c.isPass = false) : c.now? = none ∧ c.todo = [] := by
  cases c with
  | count c t | create c t | enqueue c t x =>
    cases c with
    | pass => cases h
    | request => exact ⟨rfl, rfl⟩
  | done => exact ⟨rfl, rfl⟩
  | _ => cases h

/-- A pass queues a run for the window of a task that is ready, so the
occurrence is a new one. -/
theorem Spread.enqueue_pass (hs : Spread s)
    (hk : s.clients[k]? = some (Client.enqueue (.pass now todo) t x))
    (hl : Linked ((s.setClient k (.advance now todo t true)).enqueue t x)) :
    Spread ((s.setClient k (.advance now todo t true)).enqueue t x) := by
  have hc := hs.clients k _ hk
  have hrow : ∀ a ∈ s.executions, a.id = x →
      a.scheduledTaskId = t.id ∧ a.occurrence = t.nextRunAt := hc.marked
  obtain ⟨u, hu, hle⟩ := hc.due now t rfl rfl
  have hready : Ready s t := hc.todo.2 t mem_cons_self
  have hnow := hc.now now rfl
  have hnot : t.id ∉ todo.map ScheduledTask.id := (nodup_cons.1 hc.todo.1).1
  have hfired : ∀ τ v,
      Fired ((s.setClient k (.advance now todo t true)).enqueue t x) τ v →
        Fired s τ v ∨ τ = t.id ∧ v = u := by
    intro τ v h
    rcases fired_enqueue hrow h with h | ⟨hτ, hv⟩
    · exact .inl h
    · rw [hu] at hv
      exact .inr ⟨hτ, (Option.some.inj hv).symm⟩
  refine {
    linked := hl
    ids := hs.ids
    fresh := hs.fresh
    once := ?_
    past := ?_
    windows := ?_
    clients := ?_
    single := single_set hs hk fun _ => rfl }
  · intro a ha b hb hka hkb htask hocc hsome
    -- A row that was queued before has an earlier occurrence.
    have hold : ∀ d ∈ s.executions, Known s d.id →
        d.scheduledTaskId = t.id → d.occurrence ≠ some u := by
      intro d hd hkd htd hod
      exact Nat.lt_irrefl u (hready u hu u ⟨d, hd, hkd, htd, hod⟩)
    rcases known_enqueue hka with hax | hka
    · rcases known_enqueue hkb with hbx | hkb
      · rw [hax, hbx]
      · obtain ⟨hta, hoa⟩ := hrow a ha hax
        exact absurd (by rw [← hocc, hoa, hu]) (hold b hb hkb (by rw [← htask, hta]))
    · rcases known_enqueue hkb with hbx | hkb
      · obtain ⟨htb, hob⟩ := hrow b hb hbx
        exact absurd (by rw [hocc, hob, hu]) (hold a ha hka (by rw [htask, htb]))
      · exact hs.once a ha b hb hka hkb htask hocc hsome
  · intro τ v hv
    rcases hfired τ v hv with hv | ⟨_, rfl⟩
    · exact hs.past τ v hv
    · exact Nat.le_trans hle hnow.1
  · intro t' ht' hidle w hw v hv
    have hklt := (List.getElem?_eq_some_iff.1 hk).1
    have hne : t.id ≠ t'.id := by
      refine hidle k (.advance now todo t true) ?_ t rfl
      show (s.clients.set k _)[k]? = some _
      rw [getElem?_set_self hklt]
    rcases hfired _ v hv with hv | ⟨hτ, _⟩
    · exact hs.windows t' ht' (idle_of_set hk nofun hidle) w hw v hv
    · exact absurd hτ.symm hne
  · intro j d hj
    rcases of_getElem?_set hj with ⟨_, rfl⟩ | ⟨hjk, hj⟩
    · refine ⟨?_, ⟨(nodup_cons.1 hc.todo.1).2, ?_⟩, nofun, trivial⟩
      · intro n hn
        cases hn
        refine ⟨hnow.1, ?_⟩
        intro τ v hv
        rcases hfired τ v hv with hv | ⟨_, rfl⟩
        · exact hnow.2 τ v hv
        · exact hle
      · intro t' ht' w hw v hv
        rcases hfired _ v hv with hv | ⟨hτ, _⟩
        · exact hc.todo.2 t' (mem_cons_of_mem _ ht') w hw v hv
        · exact absurd (hτ ▸ mem_map_of_mem ht') hnot
    · have hpass : d.isPass = false := by
        by_contra h
        exact hjk (hs.single j k d _ hj hk (by simpa using h) rfl)
      obtain ⟨hdnow, hdtodo⟩ := client_of_not_isPass hpass
      have h := hs.clients j d hj
      refine ⟨?_, ?_, h.due, h.marked⟩
      · intro n hn
        cases hdnow.symm.trans hn
      · rw [hdtodo]
        exact ⟨nodup_nil, nofun⟩

/-! ## The steps that change a task -/

theorem nextRun_later (h : nextRun cal t now = some u) : now < u := by
  obtain ⟨schedule, _, hnext⟩ := Option.bind_eq_some_iff.1 h
  exact schedule.later now u hnext

/-- An `UPDATE` of the tasks that keeps their ids, after which the clients are
`cs`. -/
theorem Spread.updateTasks (hs : Spread s) {cs : List Client} (hf : ∀ t, (f t).id = t.id)
    (hl : Linked { s with tasks := updateWhere p f s.tasks, clients := cs })
    (hready : ∀ t ∈ s.tasks, Idle { s with clients := cs } t.id →
      Ready s (if p t then f t else t))
    (hok : ∀ (k : Nat) (c : Client), cs[k]? = some c → ClientOk s c)
    (hsingle : ∀ (k k' : Nat) (c c' : Client), cs[k]? = some c →
      cs[k']? = some c' → c.isPass = true → c'.isPass = true → k = k') :
    Spread { s with tasks := updateWhere p f s.tasks, clients := cs } where
  linked := hl
  ids := by
    show (map ScheduledTask.id (updateWhere p f s.tasks)).Nodup
    rw [map_updateWhere hf]
    exact hs.ids
  fresh := by
    refine forall_updateWhere hs.fresh fun t ht _ hlt => ?_
    rw [hf]
    exact hlt
  once := hs.once
  past := hs.past
  windows := by
    intro t' ht' hidle
    obtain ⟨t, ht, rfl⟩ := mem_updateWhere.1 ht'
    rw [apply_ite ScheduledTask.id, hf, ite_self] at hidle
    exact hready t ht hidle
  clients := fun k c hk =>
    have h := hok k c hk
    ⟨h.now, h.todo, h.due, h.marked⟩
  single := hsingle

theorem Spread.edit (hs : Spread s) (hf : ∀ t, Edited t (f t))
    (hl : Linked { s with tasks := updateWhere p f s.tasks }) :
    Spread { s with tasks := updateWhere p f s.tasks } := by
  refine hs.updateTasks (fun t => (hf t).1) hl ?_ hs.clients hs.single
  intro t ht hidle
  have hready := hs.windows t ht hidle
  split
  · intro u hu v hv
    rw [(hf t).1] at hv
    rcases (hf t).2 with hsame | hnone
    · rw [hsame] at hu
      exact hready u hu v hv
    · cases hnone.symm.trans hu
  · exact hready

theorem Spread.creation (hs : Spread s) (hl : Linked { s with
      tasks := s.tasks ++ [{ t with id := s.nextTask, nextRunAt := none }]
      nextTask := s.nextTask + 1 }) :
    Spread { s with
      tasks := s.tasks ++ [{ t with id := s.nextTask, nextRunAt := none }]
      nextTask := s.nextTask + 1 } where
  linked := hl
  ids := nodup_concat hs.ids fun t ht => Nat.ne_of_lt (hs.fresh t ht)
  fresh := forall_concat (fun t ht => Nat.lt_succ_of_lt (hs.fresh t ht)) (Nat.lt_succ_self _)
  once := hs.once
  past := hs.past
  windows := forall_concat hs.windows nofun
  clients := fun k c hk =>
    have h := hs.clients k c hk
    ⟨h.now, h.todo, h.due, h.marked⟩
  single := hs.single

/-- The window moves behind the time of the pass, and everything queued lies
before that time. -/
theorem Spread.advance (hs : Spread s) {fired : Bool}
    (hmay : Orderly cal (.client k o) s)
    (hk : s.clients[k]? = some (Client.advance now todo t fired))
    (hl : Linked { s.setClient k (.tasks now todo) with
      tasks := setScheduledTaskSchedule t.id (nextRun cal t now) s.tasks }) :
    Spread { s.setClient k (.tasks now todo) with
      tasks := setScheduledTaskSchedule t.id (nextRun cal t now) s.tasks } := by
  have hc := hs.clients k _ hk
  have hnow := hc.now now rfl
  refine hs.updateTasks (fun _ => rfl) hl ?_ ?_ (single_set hs hk fun _ => rfl)
  · intro r hr hidle
    -- Unless the pass has a run of this task queued, its row was ready.
    have hold : (fired = true → t.id ≠ r.id) → Ready s r := by
      intro hne
      refine hs.windows r hr (idle_of_set hk ?_ hidle)
      intro t₀ ht₀
      cases fired with
      | true =>
        cases ht₀
        exact hne rfl
      | false => cases ht₀
    split
    · intro u hu v hv
      cases hnext : nextRun cal t now with
      | some n =>
        simp only [hnext, Option.some_or, Option.some.injEq] at hu
        have hlt := nextRun_later hnext
        have hle := hnow.2 r.id v hv
        omega
      | none =>
        simp only [hnext, Option.none_or] at hu
        refine hold ?_ u hu v hv
        rintro rfl
        simp only [Orderly, hk, hnext] at hmay
        cases hmay.2
    · next hrt => exact hold fun _ h => hrt (by simp [h])
  · intro j d hj
    rcases of_getElem?_set hj with ⟨_, rfl⟩ | ⟨_, hj⟩
    · refine clientOk_tasks hnow ?_
      cases fired with
      | true => exact hc.todo
      | false => exact hc.todo.tail
    · have h := hs.clients j d hj
      exact ⟨h.now, h.todo, h.due, h.marked⟩

/-! ## All steps -/

/-- A row that a client opens for its task. -/
theorem Spread.create (hs : Spread s) {c : Caller}
    (hk : s.clients[k]? = some (Client.create c t))
    (hc' : o = .done ∧ c' = .enqueue c t s.nextExecution ∨ o = .lost ∧ c' = c.back)
    (hl : Linked ((s.setClient k c').createTaskExecution t.id .running (c.occurrence t))) :
    Spread ((s.setClient k c').createTaskExecution t.id .running (c.occurrence t)) := by
  have hq := quiet_create hs.linked k c' t.id .running (c.occurrence t)
  have hc := hs.clients k _ hk
  refine hs.client hl hq hk rfl rfl rfl ?_ ?_ rfl
  · rcases hc' with ⟨_, rfl⟩ | ⟨_, rfl⟩
    · refine ⟨?_, ?_, ?_, ?_⟩
      · intro now hn
        refine hq.timely (hc.now now ?_)
        cases c <;> exact hn
      · cases c with
        | pass now todo =>
          exact ⟨hc.todo.1, fun t' ht' => hq.ready (hc.todo.2 t' ht')⟩
        | request => exact ⟨nodup_nil, nofun⟩
      · cases c with
        | pass now todo => exact hc.due
        | request => exact nofun
      · refine forall_concat (fun a ha hid => ?_) fun _ => ⟨rfl, rfl⟩
        have hlt := hs.linked.rows a ha
        omega
    · refine hq.transfer (clientOk_back hc ?_ ?_) (marked_of_opened c.opened_back)
      · rintro now todo rfl
        rfl
      · rintro now todo rfl
        exact ⟨t, rfl⟩
  · intro h
    rcases hc' with ⟨_, rfl⟩ | ⟨_, rfl⟩
    all_goals
      cases c with
      | pass now todo => rfl
      | request => cases h

theorem Spread.step (hs : Spread s) (hmay : Orderly cal a s) (h : Step cal s a s') : Spread s' := by
  have hl := hs.linked.step h
  cases h with
  | queue hforeign h =>
    exact hs.quiet hl (quiet_queue hs.linked h (noTask_of_foreign hforeign)) rfl rfl rfl
  | returns _ _ _ h =>
    exact hs.quiet hl (quiet_queue hs.linked h nofun) rfl rfl rfl
  | starts =>
    exact hs.append hl ⟨nofun, ⟨nodup_nil, nofun⟩, nofun,
      trivial⟩ rfl fun _ => hmay
  | requests t =>
    have hok : ClientOk s (runScheduledTask t) := by
      unfold runScheduledTask
      split <;> exact clientOk_trivial rfl rfl rfl
    refine hs.append hl hok ?_ ?_
    · unfold runScheduledTask
      split <;> rfl
    · intro h
      unfold runScheduledTask at h
      split at h <;> cases h
  | moves hk hm => exact hs.move hmay hk hm hl
  | dies k => exact hs.dies hmay hl
  | @skips k o now todo t hk =>
    have hq := quiet_create hs.linked k (.advance now todo t false) t.id .skipped none
    have hc := hs.clients k _ hk
    exact hs.client hl hq hk rfl rfl rfl
      (hq.transfer ⟨hc.now, hc.todo, nofun, trivial⟩ trivial) (fun _ => rfl)
      rfl
  | creates hk hc => exact hs.create hk hc hl
  | @enqueues k o c' t x c hk hc =>
    cases c with
    | pass now todo =>
      rcases hc with ⟨_, rfl⟩ | ⟨rfl, _⟩
      · exact hs.enqueue_pass hk hl
      · simp only [Orderly, hk] at hmay
        exact absurd rfl hmay
    | request =>
      have hdone : c' = .done := by
        rcases hc with ⟨_, rfl⟩ | ⟨_, rfl⟩ <;> rfl
      subst hdone
      exact hs.enqueue_request hk hl
  | advances hk => exact hs.advance hmay hk hl
  | handler he _ hpayload =>
    exact hs.quiet hl (quiet_handler hs.linked he hpayload) rfl rfl rfl
  | creation => exact hs.creation hl
  | edit hf => exact hs.edit hf hl

end Steps

/-! ## The result -/

/-- The steps record what they perform, and the passes are orderly. -/
def Steady (cal : Calendar) (a : Action) (s : State) : Prop :=
  Recorded a s ∧ Orderly cal a s

instance (cal : Calendar) (a : Action) (s : State) : Decidable (Steady cal a s) :=
  inferInstanceAs (Decidable (_ ∧ _))

/-- How often the command or the dispatch of a task took effect for its
occurrence at `v`. -/
def effects (s : State) (taskId v : Nat) : Nat :=
  s.performed.countP fun x => s.executions.any fun a =>
    a.id = x && a.scheduledTaskId = taskId && a.occurrence = some v

/-- In a list without duplicates, what only one element satisfies is counted
once. -/
theorem countP_le_one {l : List Nat} (hl : l.Nodup) {p : Nat → Bool}
    (h : ∀ x ∈ l, ∀ y ∈ l, p x = true → p y = true → x = y) :
    l.countP p ≤ 1 := by
  rw [countP_eq_length_filter]
  have hnodup := hl.filter p
  have hall : ∀ x ∈ l.filter p, ∀ y ∈ l.filter p, x = y := by
    simp only [mem_filter]
    exact fun x hx y hy => h x hx.1 y hy.1 hx.2 hy.2
  match l.filter p, hnodup, hall with
  | [], _, _ | [_], _, _ => simp
  | a :: b :: _, hnodup, hall =>
    have hab := hall a mem_cons_self b (mem_cons_of_mem _ mem_cons_self)
    simp [hab] at hnodup

theorem spread_of_reaches {s : State} (hmay : ∀ a s, may a s → Orderly cal a s)
    (h : Reaches (State.apply cal) may (.empty clock) s) : Spread s :=
  h.invariant
    (fun a s _ hm happly hs => hs.step (hmay a s hm) (step_of_apply happly))
    (spread_empty clock)

/-- In every run of steady steps, the command or the dispatch of a task takes
effect once at most for each execution row, and once at most for each
occurrence of its cron expression. -/
theorem effects_at_most_once {cal : Calendar} {clock : Nat} {s : State}
    (h : Reaches (State.apply cal) (Steady cal) (.empty clock) s) :
    (∀ x, s.performed.count x ≤ 1) ∧ ∀ taskId v, effects s taskId v ≤ 1 := by
  have honce := once_of_reaches (fun _ _ hm => hm.1) h
  have hspread := spread_of_reaches (fun _ _ hm => hm.2) h
  refine ⟨fun x => nodup_iff_count_le_one.1 honce.nodup x, ?_⟩
  intro taskId v
  refine countP_le_one honce.nodup ?_
  intro x hx y hy hpx hpy
  simp only [any_eq_true, Bool.and_eq_true, decide_eq_true_eq] at hpx hpy
  obtain ⟨a, ha, ⟨rfl, hta⟩, hoa⟩ := hpx
  obtain ⟨b, hb, ⟨rfl, htb⟩, hob⟩ := hpy
  exact hspread.once a ha b hb (.inr (.inr hx)) (.inr (.inr hy))
    (by rw [hta, htb]) (by rw [hoa, hob]) (by rw [hoa]; nofun)

/-! ## Runs of a backup that is due every hour -/

/-- Every expression means every hour. -/
def hourly : Calendar := fun _ _ =>
  some ⟨fun t => some ((t / 3600 + 1) * 3600), fun t u h => by
    cases h
    omega⟩

def backup (kind : TaskKind) : ScheduledTask where
  id := 0
  uuid := "1c7e"
  kind := kind
  cronExpression := "0 * * * *"
  timezone := "UTC"
  enabled := true
  overlapPolicy := .skip
  missedRunPolicy := .run
  nextRunAt := none
  deleted := false
  resourceLive := true

/-- The task is created, a first pass seeds its window, and after an hour a
second one opens a row and queues its job. -/
def queuedBackup (kind : TaskKind) : List Action :=
  [.createTask (backup kind), .startPass] ++
    List.replicate 5 (.client 0 .done) ++
    [.queue (.tick 3600), .startPass] ++ List.replicate 6 (.client 1 .done)

/-- The execution `i` begins and makes `n` calls. -/
def attempt (i n : Nat) : List Action :=
  [.queue (.dequeue "worker"), .queue (.markRunning i)] ++
    List.replicate n (.handler i (.done 0))

/-- The pass ends and the job runs to its end. -/
def steadyBackup : List Action :=
  queuedBackup .containerCommand ++ List.replicate 2 (.client 1 .done) ++
    attempt 0 7 ++ [.returns 0, .queue (.record 0 0)]

theorem effects_at_most_once_steadyBackup :
    ∃ s, run (State.apply hourly) steadyBackup (.empty 0) = some s ∧
      s.performed = [1] ∧ (∀ x, s.performed.count x ≤ 1) ∧
      ∀ taskId v, effects s taskId v ≤ 1 := by
  have hrun : (run (State.apply hourly) steadyBackup (.empty 0)).isSome = true := by decide +kernel
  obtain ⟨s, hs⟩ := Option.isSome_iff_exists.1 hrun
  have hperformed : (run (State.apply hourly) steadyBackup
      (.empty 0)).map State.performed = some [1] := by decide +kernel
  rw [hs] at hperformed
  refine ⟨s, hs, Option.some.inj hperformed, ?_⟩
  exact @effects_at_most_once hourly 0 s (Reaches.of_run hs (by decide +kernel))

/-- The command has run, its closing write fails, and the job is tried again. -/
def unclosedBackup : List Action :=
  queuedBackup .containerCommand ++ attempt 0 6 ++
    [.handler 0 .failed, .returns 0, .queue (.record 0 0),
      .queue (.tick 3600), .queue .promote] ++ attempt 1 6

/-- The worker dies after the dispatch, its lease runs out, and another
execution of the job dispatches again. -/
def crashedDispatch : List Action :=
  queuedBackup .githubWorkflow ++ attempt 0 4 ++
    [.queue (.dies 0), .queue (.tick 3600), .queue .reap, .queue .promote] ++ attempt 1 4

/-- The pass dies after it has queued the job.  The job ends, and the next pass
finds the same occurrence due. -/
def unadvancedBackup : List Action :=
  queuedBackup .containerCommand ++ [.clientDies 1] ++ attempt 0 7 ++
    [.returns 0, .queue (.record 0 0), .startPass] ++
    List.replicate 6 (.client 2 .done) ++ attempt 1 7

/-- The command of one row runs twice, the workflow of one row is dispatched
twice, and the command of one occurrence runs for two rows. -/
theorem backup_performed_twice :
    ((run (State.apply hourly) unclosedBackup (.empty 0)).any
        fun s => s.performed.count 1 = 2) = true ∧
      ((run (State.apply hourly) crashedDispatch (.empty 0)).any
        fun s => s.performed.count 1 = 2) = true ∧
      ((run (State.apply hourly) unadvancedBackup (.empty 0)).any
        fun s => s.performed = [2, 1] && effects s 1 3600 = 2) = true := by
  decide +kernel

end Akerdock.Tasks
