import Akerdock.Queue.Leases

/-!
# Fencing of lost leases

A statement of an execution changes a row only if the row carries a lease of
its worker.  That keeps an execution whose lease was reaped away from the row
as long as another worker holds it, but not when its own worker has taken the
job again: the lease names the worker, not the execution.

* `Lost` says that an execution does not hold the lease of its job any more.
  `reap_lost` gives it after a reap, and `Lost.step` that it stays so.
* `Calm` is the condition under which leases are fenced: no worker dequeues a
  job while an earlier execution of that job by the same worker is under way.
* `Fenced` is the invariant of the runs that meet it.
-/

namespace Akerdock.Queue

open Store Table Option Machine

/-- The execution `i` does not hold the lease of its job: another one has
dequeued the job since, or the job is not held at all. -/
def Lost (s : Leases) (i : Nat) : Prop :=
  ∃ e, s.execs[i]? = some e ∧
    (s.holder e.job.id ≠ some i ∨ ∀ r ∈ s.jobs, r.id = e.job.id → r.status.held = false)

/-- An execution of the job by the worker is under way. -/
def Leases.executing (s : Leases) (worker : String) (id : Nat) : Bool :=
  s.execs.any fun e =>
    e.worker = worker && e.job.id = id && e.stage ≠ .finished

def Calm (a : Action) (s : Leases) : Prop :=
  (match a with
    | .dequeue worker => ((dequeueJob s.clock worker s.jobs).1.all fun j =>
        !s.executing worker j.id)
    | _ => true) = true

instance (a : Action) (s : Leases) : Decidable (Calm a s) :=
  inferInstanceAs (Decidable (_ = true))

variable {s s' : Leases} {i : Nat} {e : Execution} {a : Action}

theorem Calm.finished (h : Calm (.dequeue worker) s)
    (hj : (dequeueJob s.clock worker s.jobs).1 = some j)
    (he : s.execs[i]? = some e) (hworker : e.worker = worker)
    (hid : e.job.id = j.id) : e.stage = .finished := by
  unfold Calm at h
  simp only [hj, all_some, Leases.executing, Bool.not_eq_true', List.any_eq_false] at h
  have hnot := h e (List.mem_of_getElem? he)
  simpa [hworker, hid] using hnot

/-! ## Lost leases -/

theorem reap_lost (hs : Sound s) (h : s.apply .reap = some s')
    (he : s.execs[i]? = some e) (hr : r ∈ s.jobs) (hid : r.id = e.job.id)
    (hexpired : r.leaseExpired s.clock = true) : Lost s' i := by
  cases h
  refine ⟨e, he, .inr ?_⟩
  intro r' hr' hid'
  obtain ⟨q, hq, rfl⟩ := mem_updateWhere.1 hr'
  have hqid : q.id = r.id := by
    rw [hid, ← hid']
    split <;> rfl
  rw [hs.eq_of_id hq hr hqid, if_pos hexpired]
  simp only [Job.reaped]
  split <;> rfl

theorem Lost.step (hs : Sound s) (h : s.apply a = some s') (hlost : Lost s i) : Lost s' i := by
  have happlied := applied_of_apply h
  obtain ⟨e, he, hlost⟩ := hlost
  obtain ⟨e', he', _, hjob⟩ := happlied.exec_stays he
  refine ⟨e', he', ?_⟩
  rw [hjob]
  have hi : i < s.execs.length := (List.getElem?_eq_some_iff.1 he).1
  by_cases hholder : s'.holder e.job.id = some i
  · refine .inr ?_
    intro r' hr' hid
    by_contra hheld
    rcases happlied.held hs.distinct hr' (by simpa using hheld) with
      ⟨r, hr, hchange, hold, _, _, hsame⟩ |
      ⟨worker, r, _, _, _, _, rfl, hnew, _⟩
    · have hrid : r.id = e.job.id := by rw [← hchange.id_eq, hid]
      rw [hrid, hholder] at hsame
      rcases hlost with hne | hfree
      · exact hne hsame.symm
      · cases (hfree r hr hrid).symm.trans hold
    · have hrid : r.id = e.job.id := hid
      rw [hrid, hholder] at hnew
      have hlen := some.inj hnew
      omega
  · exact .inl hholder

theorem Lost.run (hlost : Lost s i) (hs : Sound s) (h : Reaches Leases.apply may s s') :
    Lost s' i := by
  have hboth : Sound s' ∧ Lost s' i := by
    refine h.invariant (I := fun s => Sound s ∧ Lost s i) ?_ ⟨hs, hlost⟩
    intro a s s' _ happly hs
    exact ⟨hs.1.step happly, hs.2.step hs.1 happly⟩
  exact hboth.2

/-! ## The fence -/

/-- An execution that is under way and whose worker holds its job holds the
job itself. -/
def Fenced (s : Leases) : Prop :=
  ∀ i e, s.execs[i]? = some e → e.stage ≠ .finished →
    ∀ r ∈ s.jobs, r.heldBy e.job.id e.worker = true → s.holder e.job.id = some i

theorem heldBy_iff {id : Nat} {r : Job} :
    r.heldBy id worker = true ↔
      r.id = id ∧ r.leasedBy = some worker ∧ r.status.held = true := by
  simp [Job.heldBy, and_assoc]

/-- What was under way was so before. -/
theorem Applied.unfinished (h : Applied s a s') (he : s.execs[i]? = some e)
    (he' : s'.execs[i]? = some e') (hstage : e'.stage ≠ .finished) :
    e.stage ≠ .finished := by
  intro hfinished
  rcases h.exec_change he he' with rfl | hchange
  · exact hstage hfinished
  · exact hstage (hchange.finished hfinished)

/-- An execution that is under way after a calm step, with a row that its worker
holds: either both were so before, or the row was just taken and the execution
has just begun. -/
theorem Applied.heldBy_cases (h : Applied s a s') (hs : Sound s)
    (hcalm : Calm a s) {e' : Execution} (he' : s'.execs[i]? = some e')
    (hstage : e'.stage ≠ .finished) (hr' : r' ∈ s'.jobs)
    (hby : r'.heldBy e'.job.id e'.worker = true) :
    (∃ e r, s.execs[i]? = some e ∧ e.stage ≠ .finished ∧
        (e' = e ∨ ExecChange s i e a e') ∧ e'.job = e.job ∧ r ∈ s.jobs ∧
        RowChange s a r r' ∧ r.heldBy e.job.id e.worker = true ∧
        s'.holder e.job.id = s.holder e.job.id) ∨
      ∃ (worker : String) (r : Job), r' = r.leasedTo s.clock worker ∧
        e' = ⟨worker, r', .leased, s.clock + leaseDuration, none⟩ ∧
        s'.holder e'.job.id = some i := by
  obtain ⟨hid, hleased, hheld⟩ := heldBy_iff.1 hby
  rcases h.held hs.distinct hr' hheld with
    ⟨r, hr, hchange, hold, hsame, _, hholder⟩ |
    ⟨worker, r, rfl, hr, heligible, htaken, rfl, hholder, hexecs⟩
  · have hrid : r.id = e'.job.id := by rw [← hchange.id_eq, hid]
    rcases h.exec_at he' with ⟨e, he, heq⟩ | ⟨w, q, _, _, hq, heligible, rfl⟩
    · obtain ⟨hworker, hjob⟩ := frame_of_change heq
      refine .inl ⟨e, r, he, h.unfinished he he' hstage, heq, hjob, hr, hchange, ?_, ?_⟩
      · rw [heldBy_iff, ← hjob, ← hworker, ← hsame]
        exact ⟨hrid, hleased, hold⟩
      · rw [← hjob, ← hrid]
        exact hholder
    · have hrq : r = q := hs.eq_of_id hr hq hrid
      rw [hrq, Job.eligible_queued heligible] at hold
      cases hold
  · rcases h.exec_at he' with ⟨e, he, heq⟩ | ⟨w, q, ha, hi, hq, _, rfl⟩
    · -- an earlier execution of the same worker: the step is not calm
      exfalso
      obtain ⟨hworker, hjob⟩ := frame_of_change heq
      refine h.unfinished he he' hstage (hcalm.finished htaken he ?_ ?_)
      · rw [← hworker]
        exact (some.inj hleased).symm
      · rw [← hjob, ← hid]
    · obtain rfl := Action.dequeue.inj ha
      obtain rfl := hs.eq_of_id hq hr hid.symm
      exact .inr ⟨worker, q, rfl, rfl, by rw [hi]; exact hholder⟩

theorem Fenced.step (hs : Sound s) (hf : Fenced s) (hcalm : Calm a s)
    (h : s.apply a = some s') : Fenced s' := by
  intro i e' he' hstage r' hr' hby
  rcases (applied_of_apply h).heldBy_cases hs hcalm he' hstage hr' hby with
    ⟨e, r, he, hunder, _, hjob, hr, _, hbyOld, hholder⟩ |
    ⟨worker, r, _, _, hholder⟩
  · rw [hjob, hholder]
    exact hf i e he hunder r hr hbyOld
  · exact hholder

theorem fenced_of_reaches (h : Reaches Leases.apply Calm (.empty clock) s) : Fenced s := by
  have hboth : Sound s ∧ Fenced s := by
    refine h.invariant (I := fun s => Sound s ∧ Fenced s) ?_
      ⟨sound_empty clock, fun _ _ he => nomatch he⟩
    intro a s s' hcalm happly hs
    exact ⟨hs.1.step happly, hs.2.step hs.1 hcalm happly⟩
  exact hboth.2

/-- With the fence, the statements of an execution that has lost its lease find
no row. -/
theorem Fenced.not_heldBy (hf : Fenced s) (he : s.execs[i]? = some e)
    (hstage : e.stage ≠ .finished) (hlost : Lost s i) {r : Job}
    (hr : r ∈ s.jobs) : r.heldBy e.job.id e.worker = false := by
  by_contra hby
  have hheld : r.heldBy e.job.id e.worker = true := by simpa using hby
  obtain ⟨e₀, he₀, hlost⟩ := hlost
  obtain rfl := some.inj (he₀.symm.trans he)
  rcases hlost with hne | hfree
  · exact hne (hf i e₀ he hstage r hr hheld)
  · obtain ⟨hid, _, hstatus⟩ := heldBy_iff.1 hheld
    cases (hfree r hr hid).symm.trans hstatus

theorem Action.exec_of_statementOf (h : a.statementOf = some i) : a.exec? = some i := by
  cases a <;> first | exact h | cases h

theorem ExecChange.under_way (h : ExecChange s i e a e')
    (ha : a.statementOf = some k) : e.stage ≠ .finished := by
  intro hfinished
  cases h with
  | beat hbeat =>
    rw [hfinished] at hbeat
    cases hbeat
  | marked h | unmarked h | recorded _ _ h =>
    cases hfinished.symm.trans h
  | returned | lost | unrecorded | stopped | died => cases ha

/-- A statement of an execution that has lost its lease changes nothing. -/
theorem Fenced.jobs_eq (hf : Fenced s) (hlost : Lost s i)
    (ha : a.statementOf = some i) (h : s.apply a = some s') :
    s'.jobs = s.jobs := by
  have hexec := Action.exec_of_statementOf ha
  obtain ⟨e, he, happly⟩ := apply_of_exec hexec h
  cases applied_exec hexec he happly with
  | @exec k e₀ e₁ jobs hk he₀ hchange _ _ hnone =>
    cases hk.symm.trans hexec
    cases he₀.symm.trans he
    apply hnone
    intro r hr
    exact hf.not_heldBy he (hchange.under_way ha) hlost hr
  | idle | tick | stop => rfl
  | dequeue hother | enqueue hother =>
    rw [hother] at ha
    cases ha
  | table htable =>
    cases (Action.exec_of_onTable htable).symm.trans hexec

/-- In every run in which no worker dequeues a job that it is still executing:
once the lease of an execution was reaped, the execution has lost it for good,
and an execution that does not hold the lease changes no row with its
statements. -/
theorem lease_fenced {clock : Nat} {s : Leases}
    (h : Reaches Leases.apply Calm (.empty clock) s) :
    (∀ s₁ i e r, s.apply .reap = some s₁ → s.execs[i]? = some e →
      r ∈ s.jobs → r.id = e.job.id → r.leaseExpired s.clock = true →
      ∀ s₂, Reaches Leases.apply Calm s₁ s₂ → Lost s₂ i) ∧
    (∀ i a s', Lost s i → a.statementOf = some i → s.apply a = some s' → s'.jobs = s.jobs) := by
  have hs := sound_of_reaches h
  refine ⟨?_, ?_⟩
  · intro s₁ i e r hreap he hr hid hexpired s₂ hrun
    exact (reap_lost hs hreap he hr hid hexpired).run (hs.step hreap) hrun
  · intro i a s' hlost ha happly
    exact (fenced_of_reaches h).jobs_eq hlost ha happly

/-! ## Who takes the job again -/

def twoAttempts : EnqueueOptions where
  payload := .other "server.validate"
  priority := 0
  runAt := none
  maxAttempts := 2
  lockKey := some "server:1"

/-- A worker takes the job, its lease expires and is reaped, and `worker`
takes the job again while the first handler still runs.  The first handler
returns. -/
def takenAgain (worker : String) : List Action :=
  [.enqueue twoAttempts, .dequeue "w", .markRunning 0, .tick 91, .reap,
    .promote, .dequeue worker, .markRunning 1, .handlerReturns 0 .succeeded]

def afterTakenAgain (worker : String) : Leases :=
  (run Leases.apply (takenAgain worker) (.empty 0)).getD (.empty 0)

theorem lease_fenced_otherWorker :
    Lost (afterTakenAgain "v") 0 ∧
      ∀ s', (afterTakenAgain "v").apply (.record 0 0) = some s' →
        s'.jobs = (afterTakenAgain "v").jobs := by
  have hlost : Lost (afterTakenAgain "v") 0 := ⟨_, rfl, .inl (by decide)⟩
  have hfenced := lease_fenced
    (Reaches.of_run (l := takenAgain "v") (s := .empty 0)
      (t := afterTakenAgain "v") rfl (by decide))
  exact ⟨hlost, fun s' h => hfenced.2 0 _ s' hlost rfl h⟩

/-- The first execution was reaped, the second one of the same worker holds
the lease, and the first one ends the job. -/
theorem lost_lease_succeeds :
    Reaches Leases.apply (fun _ _ => True) (.empty 0) (afterTakenAgain "w") ∧
      Lost (afterTakenAgain "w") 0 ∧
      ∃ s', (afterTakenAgain "w").apply (.record 0 0) = some s' ∧
        (afterTakenAgain "w").jobs.map Job.status = [.running] ∧
        s'.jobs.map Job.status = [.succeeded] := by
  refine ⟨Reaches.of_run (l := takenAgain "w") rfl (by decide), ?_, ?_⟩
  · exact ⟨_, rfl, .inl (by decide)⟩
  · exact ⟨_, rfl, by decide, by decide⟩

end Akerdock.Queue
