import Akerdock.Queue.Fencing

/-!
# Shutting a worker down

`Run` ends its loops when its context ends, and `Wait` gives the executions
that are in flight time to finish.  The context that ends is also the one that
`process` hands to the handler and to `MarkJobRunning`, `SucceedJob` and
`FailJob`; only the heartbeats are detached from it.  So a handler that is in
flight is told to stop, and whatever it returns is not recorded.

* `Graceful` is what the drain is for.
* `stopped_unrecorded` says that after the context has ended, no outcome is
  recorded.
* `Released` says that whoever has recorded an outcome has no lease left.
-/

namespace Akerdock.Queue

open Store Table
open Machine (Reaches run)

/-- The context of the worker ends. -/
def Leases.stopped (s : Leases) (worker : String) : Leases :=
  { s with stopping := worker :: s.stopping }

/-- However the drain goes on after the context of the worker has ended: when
`process` has returned, the outcome of the execution `i` is in the database, and
the execution has no lease left that could expire. -/
def Graceful (s : Leases) (worker : String) (i : Nat) : Prop :=
  ∀ s', Reaches Leases.apply (fun _ _ => True) (s.stopped worker) s' →
    ∀ e' : Execution, s'.execs[i]? = some e' → e'.stage = .closing →
      e'.recorded.isSome = true ∧ Lost s' i

/-! ## Nothing is recorded after the end -/

theorem Applied.stopping_subset (h : Applied s a s')
    (hstop : worker ∈ s.stopping) : worker ∈ s'.stopping := by
  cases h with
  | stop => exact List.mem_cons_of_mem _ hstop
  | _ => exact hstop

/-- Only `SucceedJob` and `FailJob` record, with a context that has not
ended. -/
theorem ExecChange.recorded_eq (h : ExecChange s i e a e')
    (hstop : e.worker ∈ s.stopping) : e'.recorded = e.recorded := by
  cases h with
  | recorded o jitter hstage hgoing => exact absurd hstop hgoing
  | _ => rfl

/-- After the end of the context, an execution records nothing. -/
theorem stopped_unrecorded
    (h : Reaches Leases.apply (fun _ _ => True) s s') {i : Nat}
    (he : s.execs[i]? = some e) (hstop : e.worker ∈ s.stopping) :
    ∃ e', s'.execs[i]? = some e' ∧ e'.recorded = e.recorded := by
  have hall : e.worker ∈ s'.stopping ∧ ∃ e', s'.execs[i]? = some e' ∧
      e'.worker = e.worker ∧ e'.recorded = e.recorded := by
    refine h.invariant (I := fun s => e.worker ∈ s.stopping ∧
      ∃ e', s.execs[i]? = some e' ∧ e'.worker = e.worker ∧
        e'.recorded = e.recorded) ?_ ⟨hstop, e, he, rfl, rfl⟩
    intro a s s' _ happly hI
    obtain ⟨hstop, e₁, he₁, hworker₁, hrec₁⟩ := hI
    have happlied := applied_of_apply happly
    obtain ⟨e₂, he₂, hworker₂, _⟩ := happlied.exec_stays he₁
    refine ⟨happlied.stopping_subset hstop, e₂, he₂, hworker₂.trans hworker₁, ?_⟩
    rcases happlied.exec_change he₁ he₂ with rfl | hchange
    · exact hrec₁
    · rw [hchange.recorded_eq (by rw [hworker₁]; exact hstop), hrec₁]
  obtain ⟨_, e', he', _, hrec⟩ := hall
  exact ⟨e', he', hrec⟩

/-! ## What is recorded is released -/

/-- An execution that has recorded its outcome does not hold the lease of its
job. -/
def Released (s : Leases) : Prop :=
  ∀ (i : Nat) (e : Execution), s.execs[i]? = some e → e.recorded.isSome = true → Lost s i

theorem Execution.outcomeRow_not_held (e : Execution) (o : HandlerResult) (now jitter : Nat)
    (r : Job) : (e.outcomeRow o now jitter r).status.held = false := by
  cases o with
  | succeeded => rfl
  | failed =>
    simp only [Execution.outcomeRow]
    split <;> rfl

/-- `SucceedJob` or `FailJob` releases the job. -/
theorem record_lost (hs : Sound s) (he : s.execs[i]? = some e)
    (hhits : s.jobs.any (Job.heldBy e.job.id e.worker) = true) (o : HandlerResult)
    (jitter : Nat) : Lost (s.record i e o jitter) i := by
  have hi : i < s.execs.length := (List.getElem?_eq_some_iff.1 he).1
  refine ⟨_, List.getElem?_set_self hi, .inr fun r' hr' hid => ?_⟩
  have hr' : r' ∈ e.outcome o s.clock jitter s.jobs := hr'
  rw [Execution.outcome_eq] at hr'
  rcases of_mem_updateWhere hr' with ⟨r, -, -, rfl⟩ | ⟨hr, hnot⟩
  · exact e.outcomeRow_not_held o s.clock jitter r
  · obtain ⟨q, hq, hby⟩ := List.any_eq_true.1 hhits
    have hqid : q.id = r'.id := (heldBy_iff.1 hby).1.trans hid.symm
    rw [hs.eq_of_id hq hr hqid, hnot] at hby
    cases hby

theorem Released.step (hr : Released s) (hs : Sound s) (h : s.apply a = some s') :
    Released s' := by
  intro i e' he' hsome
  rcases (applied_of_apply h).exec_at he' with
    ⟨e, he, rfl | hchange⟩ | ⟨worker, r, _, _, _, _, rfl⟩
  · exact (hr i e' he hsome).step hs h
  · cases hchange with
    | recorded o jitter hstage hstop =>
      by_cases hhits : s.jobs.any (Job.heldBy e.job.id e.worker) = true
      · obtain ⟨e₀, he₀, happly⟩ := apply_of_exec rfl h
        cases he₀.symm.trans he
        simp only [Leases.applyExec, hstage, List.contains_iff_mem, hstop, if_false] at happly
        cases happly
        exact record_lost hs he hhits o jitter
      · rw [if_neg hhits] at hsome
        exact (hr i e he hsome).step hs h
    | _ => exact (hr i e he hsome).step hs h
  · cases hsome

theorem released_of_reaches (h : Reaches Leases.apply may (.empty clock) s) : Released s := by
  have hboth : Sound s ∧ Released s := by
    refine h.invariant (I := fun s => Sound s ∧ Released s) ?_
      ⟨sound_empty clock, fun _ _ he => nomatch he⟩
    intro a s s' _ happly hs
    exact ⟨hs.1.step happly, hs.2.step hs.1 happly⟩
  exact hboth.2

/-! ## The drain -/

theorem setExec_getElem {s : Leases} (he : s.execs[i]? = some e) :
    (s.setExec i e').execs[i]? = some e' := by
  exact List.getElem?_set_self (List.getElem?_eq_some_iff.1 he).1

/-- The statement that should record an outcome fails. -/
theorem returned_closes {s : Leases} {i : Nat} {o : HandlerResult}
    (he : s.execs[i]? = some e) (hstage : e.stage = .returned o) :
    ∃ s' e', Reaches Leases.apply (fun _ _ => True) s s' ∧
      s'.execs[i]? = some e' ∧ e'.stage = .closing := by
  have happly : s.apply (.loses i) = some (s.setExec i { e with stage := .closing }) := by
    simp [Leases.apply, Action.exec?, he, Leases.applyExec, hstage]
  exact ⟨_, _, .single ⟨_, trivial, happly⟩, setExec_getElem he, rfl⟩

/-- Whatever it is at, an execution can come to the end of `process` without a
further statement. -/
theorem closes {s : Leases} {i : Nat} (he : s.execs[i]? = some e)
    (hstage : e.stage.beating = true) :
    ∃ s' e', Reaches Leases.apply (fun _ _ => True) s s' ∧ s'.execs[i]? = some e' ∧
      e'.stage = .closing := by
  match h : e.stage with
  | .running =>
    have happly : s.apply (.handlerReturns i .succeeded) =
        some (s.setExec i { e with stage := .returned .succeeded }) := by
      simp [Leases.apply, Action.exec?, he, Leases.applyExec, h]
    obtain ⟨s', e', hreach, hrest⟩ := returned_closes
      (e := { e with stage := .returned .succeeded }) (setExec_getElem he) rfl
    exact ⟨s', e', .head ⟨_, trivial, happly⟩ hreach, hrest⟩
  | .returned o => exact returned_closes he h
  | .closing => exact ⟨s, e, .refl, he, h⟩
  | .leased | .finished =>
    rw [h] at hstage
    cases hstage

/-- The job of the examples. -/
def backupJob : EnqueueOptions where
  payload := .other "backup.execute"
  priority := 0
  runAt := none
  maxAttempts := 1
  lockKey := none

/-- A worker has recorded the outcome of its only job, and the last heartbeat is
under way. -/
def idleBeforeStop : List Action :=
  [.enqueue backupJob, .dequeue "w", .markRunning 0, .handlerReturns 0 .succeeded, .record 0 0]

def afterIdle : Leases :=
  (run Leases.apply idleBeforeStop (.empty 0)).getD (.empty 0)

/-- The worker stops while its handler runs.  The handler returns during the
drain, nothing is recorded, the lease expires, and another worker takes the
job. -/
def finishesInDrain : List Action :=
  [.enqueue backupJob, .dequeue "w", .markRunning 0, .stop "w",
    .heartbeat 0, .handlerReturns 0 .succeeded, .loses 0, .stopHeartbeat 0,
    .tick 91, .reap, .promote, .dequeue "v", .markRunning 1]

def afterDrain : Leases :=
  (run Leases.apply finishesInDrain (.empty 0)).getD (.empty 0)

end Akerdock.Queue
