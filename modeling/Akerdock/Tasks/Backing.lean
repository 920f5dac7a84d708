import Akerdock.Tasks.Occurrences

/-!
# The work behind a running execution

An execution row is opened as `running` by one statement, its job is queued by
another, and the row is closed by the handler of that job.  A row is left
behind if the job is never queued, or if the job ends without its handler
having closed the row.

* `Completed` is the condition on the steps under which neither happens.
* `Backed` is the invariant: a row that is running has a job that is not
  terminal, or a client that queues its job next; and the row of a job that is
  terminal is closed.  `Ends` are the outcomes after which a job is not tried
  again, and a handler returns one of them only after it has closed its row.
-/

namespace Akerdock.Queue

open Store Table List

/-- No statement on the whole table removes a job that is not terminal. -/
theorem id_mem_of_onTable {q q' : Leases} (ha : a.onTable = true)
    (h : q.apply a = some q') (hr : r ∈ q.jobs)
    (hopen : terminal r.status = false) : r.id ∈ q'.jobs.map Job.id := by
  cases a with
  | purge ids =>
    cases h
    refine mem_map_of_mem (mem_filter.2 ⟨hr, ?_⟩)
    cases hstatus : r.status <;> simp_all [terminal]
  | reap | promote | cancelJobs | requestCancel | forget =>
    cases h
    show r.id ∈ map Job.id (updateWhere _ _ _)
    rw [map_updateWhere]
    · exact mem_map_of_mem hr
    · intro j
      rfl
  | _ => cases ha

theorem row_of_not_terminal {q q' : Leases} (hs : Sound q)
    (h : q.apply a = some q') (hr : r ∈ q.jobs)
    (hopen : terminal r.status = false) :
    ∃ r' ∈ q'.jobs, r'.payload = r.payload := by
  have happlied := applied_of_apply h
  have hmem : r.id ∈ q'.jobs.map Job.id := by
    cases happlied with
    | exec _ _ _ _ hids _ =>
      rw [hids]
      exact mem_map_of_mem hr
    | idle | tick | stop => exact mem_map_of_mem hr
    | enqueue =>
      rw [map_append]
      exact mem_append_left _ (mem_map_of_mem hr)
    | dequeue =>
      show r.id ∈ map Job.id _
      rw [map_id_leasedTo]
      exact mem_map_of_mem hr
    | table ha => exact id_mem_of_onTable ha h hr hopen
  obtain ⟨r', hr', hid⟩ := mem_map.1 hmem
  refine ⟨r', hr', ?_⟩
  rcases happlied.row hs.distinct hr' with ⟨q, hq, hchange⟩ | ⟨o, ha, _, rfl⟩
  · rw [hchange.payload_eq, hs.eq_of_id hq hr (by rw [← hchange.id_eq, hid])]
  · have hlt := hs.fresh r hr
    have hnew : q.nextJob = r.id := hid
    omega

/-- `CancelJobsForDeployments` leaves the jobs of other types alone. -/
theorem cancelJobs_row (h : r' ∈ cancelJobsForDeployments ids jobs) :
    ∃ r ∈ jobs, r'.id = r.id ∧ (r'.status = r.status ∨ ∃ d, r.payload = .deploymentRun d) := by
  obtain ⟨r, hr, heq⟩ := mem_updateWhere.1 h
  refine ⟨r, hr, ?_⟩
  cases hp : r.payload with
  | deploymentRun d =>
    refine ⟨?_, .inr ⟨d, rfl⟩⟩
    simp only [hp] at heq
    rw [heq]
    split <;> rfl
  | _ =>
    simp only [hp, Bool.and_false, Bool.false_eq_true, if_false] at heq
    rw [heq]
    exact ⟨rfl, .inl rfl⟩

/-- How a job ends: with an outcome of an execution that is not tried again, or
with a lease that has run out too often. -/
theorem terminal_of_apply (hs : Sound q) (h : q.apply a = some q')
    (hr : r ∈ q.jobs) (hr' : r' ∈ q'.jobs) (hchange : RowChange q a r r')
    (hopen : terminal r.status = false) (hend : terminal r'.status = true) :
    (∃ (i : Nat) (e : Execution) (o : HandlerResult),
        q.execs[i]? = some e ∧ e.stage = .returned o ∧ r.id = e.job.id ∧
        (o = .succeeded ∨ e.job.maxAttempts ≤ e.job.attempt)) ∨
      (a = .reap ∧ r.leaseExpired q.clock = true ∧ maxResumes ≤ r.resumeCount) ∨
      ∃ d, r.payload = .deploymentRun d := by
  cases hchange with
  | same | flagged | extended =>
    cases hopen.symm.trans hend
  | leased | running | promoted => cases hend
  | recorded i jitter e o r he hstage hby =>
    refine .inl ⟨i, e, o, he, hstage, (heldBy_iff.1 hby).1, ?_⟩
    cases o with
    | succeeded => exact .inl rfl
    | failed =>
      simp only [Execution.outcomeRow] at hend
      by_cases hdead : e.job.maxAttempts ≤ e.job.attempt
      · exact .inr hdead
      · rw [if_neg (by simpa using hdead)] at hend
        cases hend
  | reaped r hexpired =>
    refine .inr (.inl ⟨rfl, hexpired, ?_⟩)
    by_contra hlt
    simp only [Job.reaped, if_neg hlt] at hend
    cases hend
  | forgotten id r hdead =>
    rw [hdead] at hopen
    cases hopen
  | cancelled ids r hqueued =>
    -- Only jobs of deployments are cancelled in the queue.
    cases h
    obtain ⟨r₀, hr₀, hid, hkept⟩ := cancelJobs_row hr'
    have heq : r = r₀ := hs.eq_of_id hr hr₀ hid
    subst heq
    rcases hkept with hstatus | hdeployment
    · rw [hqueued] at hstatus
      cases hstatus
    · exact .inr (.inr hdeployment)

end Akerdock.Queue

namespace Akerdock.Tasks

open Store Queue Table Proc

/-! ## The condition -/

def Closed (s : State) (x : Nat) : Prop :=
  ∀ a ∈ s.executions, a.id = x → a.status ≠ .running

instance (s : State) (x : Nat) : Decidable (Closed s x) :=
  inferInstanceAs (Decidable (∀ a ∈ s.executions, a.id = x → _))

/-- The calls of a handler that has to close its row: its reads do not fail at
the last attempt, and the closing write fails only if the job is tried
again. -/
def HandlerCloses (s : State) (i : Nat) (o : HandlerEnd) (e : Execution) : Prop :=
  match s.handlers i with
  | .getTask =>
    e.job.attempt < e.job.maxAttempts ∨ o.isDone = true ∧
      (match e.job.payload with
        | .scheduledTaskRun taskId _ =>
          (getScheduledTaskByID taskId s.tasks).isSome
        | _ => false) = true
  | .getApplication _ | .getDestination | .getServer =>
    e.job.attempt < e.job.maxAttempts ∨ o.isDone = true
  | .finish _ closing =>
    o ≠ .failed ∨ closing.result false = .failed ∧ e.job.attempt < e.job.maxAttempts
  | _ => True

instance (s : State) (i : Nat) (o : HandlerEnd) (e : Execution) :
    Decidable (HandlerCloses s i o e) := by
  delta HandlerCloses
  generalize s.handlers i = h
  rcases h with _ | _ | _ | _ | _ | _ | _ | _ | _ | _ <;> infer_instance

/-- What is opened gets its job, and a job ends with its row closed.

* `CreateTaskExecution` does not report an error after it took effect, the
  statement that queues the job does not fail, and the client does not die
  between the two.
* The lease of a job whose row is running does not run out more often than a
  job is resumed.
* The handlers close their rows. -/
def Completed (a : Action) (s : State) : Prop :=
  match a with
  | .client k o =>
    match s.clients[k]? with
    | some (.create _ _) => o ≠ .lost
    | some (.enqueue _ _ _) => o ≠ .failed
    | _ => True
  | .clientDies k => ∀ c ∈ s.clients[k]?, c.opened? = none
  | .queue .reap =>
    ∀ r ∈ s.queue.jobs, r.leaseExpired s.queue.clock = true →
      ∀ x ∈ execution? r.payload, Closed s x ∨ r.resumeCount < maxResumes
  | .handler i o => ∀ e ∈ s.queue.execs[i]?, HandlerCloses s i o e
  | _ => True

instance (a : Action) (s : State) : Decidable (Completed a s) := by
  delta Completed
  rcases a with (_ | _ | _ | _ | _ | _ | _ | _ | _ | _ | _ | _ | _ | _ | _ | _ | _) |
    _ | _ | ⟨k, o⟩ | _ | _ | _ | _ | _ | _ | _
  case client =>
    dsimp only
    generalize s.clients[k]? = c
    rcases c with _ | (_ | _ | _ | _ | _ | _ | _ | _ | _) <;> infer_instance
  all_goals infer_instance

/-! ## The invariant -/

def Ends (e : Execution) (r : HandlerResult) : Prop :=
  r = .succeeded ∨ e.job.maxAttempts ≤ e.job.attempt

def Returned (s : State) (i : Nat) (e : Execution) (r : HandlerResult) : Prop :=
  e.stage = .running ∧ s.handlers i = .returns r ∨ e.stage = .returned r

/-- What holds in the runs in which everything opened is closed. -/
structure Backed (s : State) : Prop where
  linked : Linked s
  unborn : ∀ i, s.queue.execs.length ≤ i → s.handlers i = .getTask
  fresh : ∀ (i : Nat) (e : Execution), s.queue.execs[i]? = some e →
    e.stage = .leased → s.handlers i = .getTask
  statuses : ∀ i status closing, s.handlers i = .finish status closing →
    status ≠ .running
  closing : ∀ (i : Nat) (e : Execution) (r : HandlerResult) (x : Nat),
    s.queue.execs[i]? = some e → execution? e.job.payload = some x →
      Returned s i e r → Ends e r → Closed s x
  ended : ∀ r ∈ s.queue.jobs, ∀ x, execution? r.payload = some x →
    terminal r.status = true → Closed s x
  behind : ∀ a ∈ s.executions, a.status = .running →
    (∃ k, Opens s k a.id) ∨ ∃ r ∈ s.queue.jobs, execution? r.payload = some a.id

theorem backed_empty (clock : Nat) : Backed (.empty clock) where
  linked := linked_empty clock
  unborn := fun _ _ => rfl
  fresh := fun _ _ h => nomatch h
  statuses := nofun
  closing := fun _ _ _ _ h => nomatch h
  ended := List.forall_mem_nil _
  behind := nofun

/-! ## Steps of the queue -/

variable {x k : Nat}

section

variable (hs : Backed s) (h : s.queue.apply a = some q)

include hs h

theorem Backed.closing_queue (hreturns : s.Returns a) (he' : q.execs[i]? = some e')
    (hx : execution? e'.job.payload = some x)
    (hret : Returned { s with queue := q } i e' r) (hends : Ends e' r) :
    Closed s x := by
  rcases (applied_of_apply h).exec_at he' with ⟨e, he, heq⟩ | ⟨worker, j, _, _, _, _, rfl⟩
  · rcases heq with rfl | hchange
    · exact hs.closing i e' r x he hx hret hends
    · obtain ⟨_, hjob⟩ := hchange.frame
      cases hchange with
      | marked hstage =>
        -- The handler is at its beginning.
        rcases hret with ⟨_, hh⟩ | hstage'
        · have hfresh := hs.fresh i e he hstage
          cases hfresh.symm.trans hh
        · cases hstage'
      | beat => exact hs.closing i e r x he hx hret hends
      | returned o hstage =>
        rcases hret with ⟨hrun, _⟩ | hstage'
        · cases hrun
        · cases hstage'
          have hh := hreturns i r e rfl he (by rw [hx]; rfl)
          exact hs.closing i e r x he hx (.inl ⟨hstage, hh⟩) hends
      | unmarked | recorded | lost | unrecorded | stopped | died =>
        rcases hret with ⟨hrun, _⟩ | hstage'
        · cases hrun
        · cases hstage'
  · rcases hret with ⟨hrun, _⟩ | hstage'
    · cases hrun
    · cases hstage'

theorem Backed.ended_queue (hmay : Completed (.queue a) s)
    (hnew : NoTask a)
    (hr' : r' ∈ q.jobs) (hx : execution? r'.payload = some x)
    (hend : terminal r'.status = true) : Closed s x := by
  obtain ⟨r, hr, hchange, hrx⟩ :=
    job_of_applied (applied_of_apply h) hs.linked.sound hnew hr' hx
  cases hopen : terminal r.status with
  | true => exact hs.ended r hr x hrx hopen
  | false =>
    rcases terminal_of_apply hs.linked.sound h hr hr' hchange hopen hend with
      ⟨i, e, o, he, hstage, hid, hends⟩ | ⟨rfl, hexpired, hresumes⟩ | ⟨d, hd⟩
    · have hcopy := hs.linked.copies e (List.mem_of_getElem? he) r hr hid
      exact hs.closing i e o x he (by rw [← hcopy, hrx]) (.inr hstage) hends
    · rcases hmay r hr hexpired x hrx with hclosed | hlt
      · exact hclosed
      · omega
    · rw [hd] at hrx
      cases hrx

theorem Backed.queue (hmay : Completed (.queue a) s)
    (hnew : NoTask a)
    (hreturns : s.Returns a) :
    Backed { s with queue := q } := by
  have happlied := applied_of_apply h
  have hlen : s.queue.execs.length ≤ q.execs.length := by
    by_contra hlt
    obtain ⟨e, he⟩ : ∃ e, s.queue.execs[q.execs.length]? = some e :=
      ⟨_, List.getElem?_eq_getElem (by omega)⟩
    obtain ⟨e', he', _⟩ := happlied.exec_stays he
    cases (List.getElem?_eq_none le_rfl).symm.trans he'
  exact {
    linked := hs.linked.queue h hnew
    unborn := fun i hi => hs.unborn i (Nat.le_trans hlen hi)
    fresh := by
      intro i e' he' hstage
      rcases happlied.exec_at he' with ⟨e, he, heq⟩ | ⟨worker, j, _, hi, _⟩
      · rcases heq with rfl | hchange
        · exact hs.fresh i e' he hstage
        · cases hchange with
          | beat => exact hs.fresh i e he hstage
          | _ => cases hstage
      · exact hs.unborn i (Nat.le_of_eq hi.symm)
    statuses := hs.statuses
    closing := fun i e r x he hx hret hends =>
      hs.closing_queue h hreturns he hx hret hends
    ended := fun r hr x hx hend => hs.ended_queue h hmay hnew hr hx hend
    behind := by
      intro b hb hrunning
      rcases hs.behind b hb hrunning with hopens | ⟨r, hr, hx⟩
      · exact .inl hopens
      · have hopen : terminal r.status = false := by
          by_contra hend
          exact hs.ended r hr b.id hx (by simpa using hend) b hb rfl hrunning
        obtain ⟨r', hr', hpayload⟩ :=
          row_of_not_terminal hs.linked.sound h hr hopen
        exact .inr ⟨r', hr', by rw [hpayload, hx]⟩ }

end

/-! ## Steps of the handlers -/

/-- A row that a handler closes. -/
theorem closed_finish (hstatus : status ≠ .running) :
    ∀ a ∈ finishTaskExecution x status xs, a.id = x → a.status ≠ .running := by
  intro a ha hid
  rcases of_mem_updateKey ha with ⟨b, -, -, rfl⟩ | ⟨-, hb⟩
  · exact hstatus
  · exact absurd hid hb

theorem running_finish (hstatus : status ≠ .running)
    (ha : a ∈ finishTaskExecution x status xs) (hrunning : a.status = .running) :
    a ∈ xs := by
  rcases of_mem_updateWhere ha with ⟨b, -, -, rfl⟩ | ⟨hb, -⟩
  · exact absurd hrunning hstatus
  · exact hb

theorem Handler.writes_eq {h : Handler} (hw : h.writes o = some status) :
    ∃ closing, h = .finish status closing := by
  cases h with
  | finish st closing =>
    simp only [Handler.writes] at hw
    split at hw
    · cases hw
    · cases hw
      exact ⟨closing, rfl⟩
  | _ => cases hw

/-- The statuses that `Execute` writes. -/
theorem Handler.next_finish {h : Handler} {closing : Closing}
    (hnext : h.next task o = .finish status closing) : status ≠ .running := by
  cases h with
  | getTask => cases o <;> cases task <;> cases hnext
  | getApplication kind => cases o <;> cases kind <;> cases hnext
  | getDestination | getServer => cases o <;> cases hnext
  | runtime | resolve | dispatch =>
    cases o <;> cases hnext <;> nofun
  | exec =>
    cases o with
    | done exitCode =>
      cases hnext
      split <;> nofun
    | _ =>
      cases hnext
      nofun
  | finish | returns => cases hnext

theorem Backed.running_handler (hs : Backed s) {a : TaskExecution}
    (ha : a ∈ (s.handlerStep i taskId x o).executions)
    (hrunning : a.status = .running) : a ∈ s.executions := by
  unfold State.handlerStep at ha
  split at ha
  · exact ha
  · rename_i status hw
    obtain ⟨closing, hh⟩ := Handler.writes_eq hw
    exact running_finish (hs.statuses i status closing hh) ha hrunning

theorem Backed.closed_handler (hs : Backed s) {y : Nat} (h : Closed s y) :
    Closed (s.handlerStep i taskId x o) y := fun a ha hid hrunning =>
  h a (hs.running_handler ha hrunning) hid hrunning

/-- A handler that returns an outcome that ends its job has closed its row. -/
theorem Backed.closed_next (hs : Backed s) (hmay : HandlerCloses s i o e)
    (he : s.queue.execs[i]? = some e) (hstage : e.stage = .running)
    (hpayload : e.job.payload = .scheduledTaskRun taskId x) {r : HandlerResult}
    (hnext : (s.handlers i).next (getScheduledTaskByID taskId s.tasks) o =
      .returns r) (hends : Ends e r) :
    Closed (s.handlerStep i taskId x o) x := by
  have hfailed : e.job.attempt < e.job.maxAttempts → r ≠ .failed := by
    rintro hlt rfl
    rcases hends with hr | hle
    · cases hr
    · omega
  cases hh : s.handlers i with
  | returns r₀ =>
    rw [hh] at hnext
    cases hnext
    refine hs.closed_handler (hs.closing i e r x he ?_ (.inl ⟨hstage, hh⟩) hends)
    rw [hpayload]
    rfl
  | finish status closing =>
    by_cases ho : o = .failed
    · -- The write failed, so the job is tried again.
      subst ho
      simp only [HandlerCloses, hh, ne_eq, not_true, false_or] at hmay
      rw [hh] at hnext
      cases hnext
      exact absurd hmay.1 (hfailed hmay.2)
    · have hrows : (s.handlerStep i taskId x o).executions =
          finishTaskExecution x status s.executions := by
        simp only [State.handlerStep, hh, Handler.writes, if_neg ho]
      rw [Closed, hrows]
      exact closed_finish (hs.statuses i status closing hh)
  | getTask =>
    simp only [HandlerCloses, hh, hpayload] at hmay
    rw [hh] at hnext
    rcases hmay with hlt | ⟨hdone, htask⟩
    · refine absurd ?_ (hfailed hlt)
      simp only [Handler.next] at hnext
      split at hnext
      · cases hnext
      · cases hnext
        rfl
    · obtain ⟨t, ht⟩ := Option.isSome_iff_exists.1 htask
      rw [ht] at hnext
      cases o with
      | done => cases hnext
      | _ => cases hdone
  | getApplication kind | getDestination | getServer =>
    simp only [HandlerCloses, hh] at hmay
    rw [hh] at hnext
    simp only [Handler.next] at hnext
    rcases hmay with hlt | hdone
    · refine absurd ?_ (hfailed hlt)
      split at hnext
      · first | cases hnext | (split at hnext <;> cases hnext)
      · cases hnext
        rfl
    · rw [if_pos hdone] at hnext
      first | cases hnext | (split at hnext <;> cases hnext)
  | runtime | exec | resolve | dispatch =>
    rw [hh] at hnext
    cases o <;> cases hnext

theorem Backed.handler (hs : Backed s) (hmay : Completed (.handler i o) s)
    (he : s.queue.execs[i]? = some e) (hstage : e.stage = .running)
    (hpayload : e.job.payload = .scheduledTaskRun taskId x) :
    Backed (s.handlerStep i taskId x o) := by
  have hlt : i < s.queue.execs.length := (getElem?_eq_some_iff.1 he).1
  have hother : ∀ j, j ≠ i → (s.handlerStep i taskId x o).handlers j = s.handlers j :=
    fun j hj => Function.update_of_ne hj _ _
  have hself : (s.handlerStep i taskId x o).handlers i =
      (s.handlers i).next (getScheduledTaskByID taskId s.tasks) o :=
    Function.update_self _ _ _
  exact {
    linked := hs.linked.handler he hpayload
    unborn := by
      intro j hj
      have hj' : s.queue.execs.length ≤ j := hj
      rw [hother j (by omega)]
      exact hs.unborn j hj
    fresh := by
      intro j e' he' hleased
      by_cases hji : j = i
      · subst hji
        cases he.symm.trans he'
        cases hstage.symm.trans hleased
      · rw [hother j hji]
        exact hs.fresh j e' he' hleased
    statuses := by
      intro j status closing hj
      by_cases hji : j = i
      · subst hji
        rw [hself] at hj
        exact Handler.next_finish hj
      · rw [hother j hji] at hj
        exact hs.statuses j status closing hj
    closing := by
      intro j e' r y he' hy hret hends
      by_cases hji : j = i
      · subst hji
        cases he.symm.trans he'
        obtain rfl : x = y := by
          rw [hpayload] at hy
          exact Option.some.inj hy
        rcases hret with ⟨_, hh⟩ | hret
        · rw [hself] at hh
          exact hs.closed_next (hmay e he) he hstage hpayload hh hends
        · cases hstage.symm.trans hret
      · refine hs.closed_handler (hs.closing j e' r y he' hy ?_ hends)
        rcases hret with ⟨hrun, hh⟩ | hret
        · rw [hother j hji] at hh
          exact .inl ⟨hrun, hh⟩
        · exact .inr hret
    ended := fun r hr y hy hend => hs.closed_handler (hs.ended r hr y hy hend)
    behind := fun a ha hrunning =>
      hs.behind a (hs.running_handler ha hrunning) hrunning }

/-! ## Steps of the clients -/

theorem opens_setClient_of_ne (hj : j ≠ k) (h : Opens s j x) : Opens (s.setClient k c') j x := by
  obtain ⟨c, hc, hx⟩ := h
  refine ⟨c, ?_, hx⟩
  show (s.clients.set k c')[j]? = some c
  rw [List.getElem?_set_ne (fun h => hj h.symm)]
  exact hc

/-- A client that has nothing open moves on. -/
theorem Backed.setClient (hs : Backed s) (hl : Linked (s.setClient k c'))
    (hnone : ∀ x, ¬ Opens s k x) :
    Backed (s.setClient k c') where
  linked := hl
  unborn := hs.unborn
  fresh := hs.fresh
  statuses := hs.statuses
  closing := hs.closing
  ended := hs.ended
  behind := by
    intro a ha hrunning
    rcases hs.behind a ha hrunning with ⟨j, hj⟩ | hr
    · refine .inl ⟨j, opens_setClient_of_ne ?_ hj⟩
      rintro rfl
      exact hnone _ hj
    · exact .inr hr

theorem not_opens (hk : s.clients[k]? = some c) (hc : c.opened? = none)
    (x : Nat) : ¬ Opens s k x := by
  rintro ⟨d, hd, hx⟩
  cases hk.symm.trans hd
  cases hc.symm.trans hx

theorem Backed.append (hs : Backed s) (hl : Linked { s with clients := s.clients ++ [c'] }) :
    Backed { s with clients := s.clients ++ [c'] } where
  linked := hl
  unborn := hs.unborn
  fresh := hs.fresh
  statuses := hs.statuses
  closing := hs.closing
  ended := hs.ended
  behind := by
    intro a ha hrunning
    rcases hs.behind a ha hrunning with ⟨j, c, hj, hx⟩ | hr
    · refine .inl ⟨j, c, ?_, hx⟩
      have hlt := (getElem?_eq_some_iff.1 hj).1
      show (s.clients ++ [c'])[j]? = some c
      rw [List.getElem?_append_left hlt]
      exact hj
    · exact .inr hr

/-- A new row does not open a row that the queue knows. -/
theorem Backed.closed_create (hs : Backed s) (hx : Known s x) (h : Closed s x) :
    Closed ((s.setClient k c').createTaskExecution taskId status occurrence) x := by
  have hlt := hs.linked.known x hx
  exact forall_concat h fun hid => absurd hid (Nat.ne_of_gt hlt)

/-- A new row, which is not running or which the client keeps for its job. -/
theorem Backed.create (hs : Backed s)
    (hl : Linked ((s.setClient k c').createTaskExecution taskId status
      occurrence)) (hnone : ∀ x, ¬ Opens s k x)
    (hnew : status = .running → k < s.clients.length ∧ c'.opened? = some s.nextExecution) :
    Backed ((s.setClient k c').createTaskExecution taskId status occurrence) where
  linked := hl
  unborn := hs.unborn
  fresh := hs.fresh
  statuses := hs.statuses
  closing := by
    intro i e r x he hx hret hends
    exact hs.closed_create (.inr (.inl ⟨e, List.mem_of_getElem? he, hx⟩))
      (hs.closing i e r x he hx hret hends)
  ended := by
    intro r hr x hx hend
    exact hs.closed_create (.inl ⟨r, hr, hx⟩) (hs.ended r hr x hx hend)
  behind := by
    intro a ha hrunning
    rcases List.mem_append.1 ha with hold | hlast
    · rcases hs.behind a hold hrunning with ⟨j, hj⟩ | hr
      · have hjk : j ≠ k := by
          rintro rfl
          exact hnone _ hj
        exact .inl ⟨j, opens_setClient_of_ne hjk hj⟩
      · exact .inr hr
    · obtain rfl := List.mem_singleton.1 hlast
      obtain ⟨hlt, hopened⟩ := hnew hrunning
      refine .inl ⟨k, c', ?_, hopened⟩
      show (s.clients.set k c')[k]? = some c'
      rw [List.getElem?_set_self hlt]

theorem Backed.enqueue (hs : Backed s) (hk : Opens s k x)
    (hl : Linked ((s.setClient k c').enqueue t x)) :
    Backed ((s.setClient k c').enqueue t x) where
  linked := hl
  unborn := hs.unborn
  fresh := hs.fresh
  statuses := hs.statuses
  closing := hs.closing
  ended := by
    refine forall_concat hs.ended fun y _ hend => ?_
    simp only [EnqueueOptions.row] at hend
    split at hend <;> cases hend
  behind := by
    intro a ha hrunning
    by_cases hax : a.id = x
    · refine .inr ⟨_, List.mem_append_right _ (List.mem_singleton.2 rfl), ?_⟩
      rw [hax]
      rfl
    · rcases hs.behind a ha hrunning with ⟨j, hj⟩ | ⟨r, hr, hx⟩
      · have hjk : j ≠ k := by
          rintro rfl
          obtain ⟨c, hc, hcx⟩ := hk
          obtain ⟨d, hd, hda⟩ := hj
          cases hc.symm.trans hd
          rw [hcx] at hda
          exact hax (Option.some.inj hda).symm
        exact .inl ⟨j, opens_setClient_of_ne hjk hj⟩
      · exact .inr ⟨r, List.mem_append_left _ hr, hx⟩

/-! ## All steps -/

theorem Backed.step (hs : Backed s) (hmay : Completed a s) (h : Step cal s a s') : Backed s' := by
  have hl := hs.linked.step h
  cases h with
  | queue hforeign h =>
    exact hs.queue h hmay (noTask_of_foreign hforeign) (returns_of_foreign hforeign)
  | returns _ _ hhandler h =>
    exact hs.queue h trivial nofun (returns_of_handler hhandler)
  | starts | requests t => exact hs.append hl
  | @moves k c o c' hk hm =>
    refine hs.setClient hl ?_
    cases hm with
    | unqueued c t x =>
      simp only [Completed, hk] at hmay
      exact absurd rfl hmay
    | _ => exact not_opens hk rfl
  | dies k =>
    refine hs.setClient hl ?_
    rintro x ⟨c, hk, hx⟩
    cases (hmay c hk).symm.trans hx
  | skips hk => exact hs.create hl (not_opens hk rfl) nofun
  | @creates k o c' c t hk hc =>
    refine hs.create hl (not_opens hk rfl) ?_
    intro _
    refine ⟨(getElem?_eq_some_iff.1 hk).1, ?_⟩
    rcases hc with ⟨_, rfl⟩ | ⟨rfl, _⟩
    · rfl
    · simp only [Completed, hk] at hmay
      exact absurd rfl hmay
  | enqueues hk hc => exact hs.enqueue ⟨_, hk, rfl⟩ hl
  | @advances k o now todo t fired hk =>
    have hset : Backed (s.setClient k (.tasks now todo)) :=
      hs.setClient (hs.linked.setClient k rfl) (not_opens hk rfl)
    exact { hset with linked := hl }
  | handler he hstage hpayload => exact hs.handler hmay he hstage hpayload
  | creation | edit hf => exact { hs with linked := hl }

/-! ## The result -/

/-- In every run of completed steps, an execution row that is running has a job
that is not terminal, or a client whose next statement queues its job.  The
row of a job that is terminal is closed, so the job does not end before its
row. -/
theorem running_has_work {cal : Calendar} {clock : Nat} {s : State}
    (h : Machine.Reaches (State.apply cal) Completed (.empty clock) s) :
    (∀ a ∈ s.executions, a.status = .running →
      (∃ k, Opens s k a.id) ∨
        ∃ r ∈ s.queue.jobs, execution? r.payload = some a.id ∧ terminal r.status = false) ∧
      ∀ r ∈ s.queue.jobs, ∀ x, execution? r.payload = some x →
        terminal r.status = true → Closed s x := by
  have hs : Backed s := h.invariant
    (fun a s _ hm happly hs => hs.step hm (step_of_apply happly))
    (backed_empty clock)
  refine ⟨?_, hs.ended⟩
  intro a ha hrunning
  rcases hs.behind a ha hrunning with hopens | ⟨r, hr, hx⟩
  · exact .inl hopens
  · refine .inr ⟨r, hr, hx, ?_⟩
    by_contra hend
    exact hs.ended r hr a.id hx (by simpa using hend) a ha rfl hrunning

/-- A backup whose command is about to run. -/
theorem running_has_work_backup :
    ∃ s, Machine.run (State.apply hourly)
        (queuedBackup .containerCommand ++ attempt 0 5) (.empty 0) = some s ∧
      (s.executions.map TaskExecution.status = [.running]) ∧
      (∀ a ∈ s.executions, a.status = .running →
        (∃ k, Opens s k a.id) ∨
          ∃ r ∈ s.queue.jobs, execution? r.payload = some a.id ∧ terminal r.status = false) ∧
      ∀ r ∈ s.queue.jobs, ∀ x, execution? r.payload = some x →
        terminal r.status = true → Closed s x := by
  have hrun : (Machine.run (State.apply hourly)
      (queuedBackup .containerCommand ++ attempt 0 5)
      (.empty 0)).isSome = true := by decide +kernel
  obtain ⟨s, hs⟩ := Option.isSome_iff_exists.1 hrun
  have hrows : (Machine.run (State.apply hourly)
      (queuedBackup .containerCommand ++ attempt 0 5)
      (.empty 0)).map (fun s => s.executions.map TaskExecution.status) =
        some [.running] := by decide +kernel
  rw [hs] at hrows
  refine ⟨s, hs, Option.some.inj hrows, ?_⟩
  exact @running_has_work hourly 0 s (Machine.Reaches.of_run hs (by decide +kernel))

/-- The first execution row is running, no client is about to queue a job for
it, and it has no job that is not terminal. -/
def orphaned (s : State) : Bool :=
  s.executions.any (fun a => a.id = 1 && a.status = .running) &&
    s.clients.all (fun c => c.opened?.isNone) &&
    s.queue.jobs.all fun r =>
      execution? r.payload ≠ some 1 || terminal r.status

/-- The statement that queues the job fails.  An hour later the next pass finds
the task running and skips it. -/
def unqueuedBackup : List Action :=
  (queuedBackup .containerCommand).dropLast ++
    [.client 1 .failed, .client 1 .done, .queue (.tick 3600), .startPass] ++
    List.replicate 7 (.client 2 .done)

/-- The task is deleted before its job runs, so every attempt fails. -/
def vanishedBackup : List Action :=
  queuedBackup .containerCommand ++ List.replicate 2 (.client 1 .done) ++
    [.deleteTask 1] ++
    (List.range 5).flatMap fun i =>
      attempt i 1 ++ [.returns i, .queue (.record i 0), .queue (.tick 86400), .queue .promote]

/-- The command cannot be run, and the write that says so fails.  The job is a
success. -/
def unwrittenBackup : List Action :=
  queuedBackup .containerCommand ++ List.replicate 2 (.client 1 .done) ++
    attempt 0 5 ++ [.handler 0 .failed, .handler 0 .failed, .returns 0, .queue (.record 0 0)]

/-- A running row is left behind when its job is not queued, when the job is
given up because its task has vanished, and when the closing write is lost.
The task is skipped from then on. -/
theorem backup_orphaned :
    ((Machine.run (State.apply hourly) unqueuedBackup (.empty 0)).any
        fun s => orphaned s && s.executions.map TaskExecution.status = [.running, .skipped]) =
        true ∧
      ((Machine.run (State.apply hourly) vanishedBackup (.empty 0)).any
        fun s => orphaned s && s.queue.jobs.map Job.status = [.deadLetter]) = true ∧
      ((Machine.run (State.apply hourly) unwrittenBackup (.empty 0)).any
        fun s => orphaned s && s.queue.jobs.map Job.status = [.succeeded]) = true := by
  decide +kernel

end Akerdock.Tasks
