import Akerdock.Queue.Fencing

/-!
# The states of a job

What holds of every row of `jobs` in every run.  The lease columns and the
absorbing statuses depend on nothing but the single statements.  The limit on
the attempts depends on who records a failure: `Worker.fail` decides on its
copy of the row whether the job is dead, so it needs the copy to be up to date,
and that is what the fence gives.

* `Counted` bounds how often a job was dequeued by its two counters: a lease
  that is reaped gives one attempt back, at most `maxResumes` times.
* `Limited` keeps the attempts within the limit.
* `terminal_absorbs` says how a terminal status can be left.
-/

namespace Akerdock.Queue

open Store Table List
open Machine (Reaches run)

def waiting : JobStatus → Bool
  | .scheduled | .queued | .retryWait => true
  | _ => false

def terminal : JobStatus → Bool
  | .succeeded | .cancelled | .deadLetter => true
  | _ => false

/-! ## Terminal statuses -/

/-- A terminal status is kept, or a dead letter is forgotten. -/
def Absorbs (s s' : JobStatus) : Prop :=
  s' = s ∨ s = .deadLetter ∧ s' = .cancelled

theorem Absorbs.trans (h : Absorbs s₁ s₂) (h' : Absorbs s₂ s₃) : Absorbs s₁ s₃ := by
  rcases h with rfl | ⟨rfl, rfl⟩
  · exact h'
  · rcases h' with rfl | ⟨h, _⟩
    · exact .inr ⟨rfl, rfl⟩
    · cases h

theorem Absorbs.terminal (h : Absorbs s s') (hs : terminal s = true) : terminal s' = true := by
  rcases h with rfl | ⟨_, rfl⟩
  · exact hs
  · rfl

theorem not_held_of_terminal (h : terminal s = true) : s.held = false := by
  cases s <;> first | rfl | cases h

variable {s s' : Leases} {a : Action} {r r' : Job}

/-- No statement takes a job out of a terminal status. -/
theorem RowChange.absorbs (h : RowChange s a r r')
    (hr : terminal r.status = true) : Absorbs r.status r'.status := by
  have hheld := not_held_of_terminal hr
  cases h with
  | same | flagged | extended => exact .inl rfl
  | leased worker r heligible =>
    rw [Job.eligible_queued heligible] at hr
    cases hr
  | running i e r _ _ hhits =>
    simp only [markJobRunningHits, Bool.and_eq_true, decide_eq_true_eq] at hhits
    rw [hhits.2] at hr
    cases hr
  | recorded i jitter e o r _ _ hby =>
    cases ((heldBy_iff.1 hby).2.2).symm.trans hheld
  | reaped r hexpired =>
    simp only [Job.leaseExpired, hheld, Bool.false_and, Bool.false_eq_true] at hexpired
  | promoted r hwait =>
    rcases hwait with hwait | hwait
    all_goals
      rw [hwait] at hr
      cases hr
  | cancelled ids r hqueued =>
    rw [hqueued] at hr
    cases hr
  | forgotten id r hdead => exact .inr ⟨hdead, rfl⟩

/-- A row that has reached a terminal status, as a later state has it. -/
theorem terminal_absorbs (hs : Sound s)
    (h : Reaches Leases.apply may s s') (hr : r ∈ s.jobs)
    (hr' : r' ∈ s'.jobs) (hid : r'.id = r.id)
    (hterminal : terminal r.status = true) : Absorbs r.status r'.status := by
  have hall : Sound s' ∧ r.id < s'.nextJob ∧
      ∀ q ∈ s'.jobs, q.id = r.id → Absorbs r.status q.status := by
    refine h.invariant (I := fun s => Sound s ∧ r.id < s.nextJob ∧
      ∀ q ∈ s.jobs, q.id = r.id → Absorbs r.status q.status) ?_
      ⟨hs, hs.fresh r hr, ?_⟩
    · intro a s s' _ happly hI
      obtain ⟨hs, hlt, hq⟩ := hI
      have happlied := applied_of_apply happly
      refine ⟨hs.step happly, Nat.lt_of_lt_of_le hlt happlied.nextJob_le, ?_⟩
      intro q' hq' hid
      rcases happlied.row hs.distinct hq' with ⟨q, hqmem, hchange⟩ | ⟨o, _, _, rfl⟩
      · have hold := hq q hqmem (by rw [← hchange.id_eq, hid])
        exact hold.trans (hchange.absorbs (hold.terminal hterminal))
      · have hnew : s.nextJob = r.id := hid
        omega
    · intro q hq hid
      rw [hs.eq_of_id hq hr hid]
      exact .inl rfl
  exact hall.2.2 r' hr' hid

/-! ## How often a job is dequeued -/

/-- The number of executions of a job so far. -/
def Leases.dequeues (s : Leases) (id : Nat) : Nat :=
  (s.execs.map fun e => e.job.id).count id

/-- The jobs of the executions, in order, after an action. -/
theorem Applied.execIds (h : Applied s a s') :
    s'.execs.map (fun e => e.job.id) = s.execs.map (fun e => e.job.id) ∨
      ∃ worker, ∃ r ∈ s.jobs, a = .dequeue worker ∧
        s'.execs.map (fun e => e.job.id) = s.execs.map (fun e => e.job.id) ++ [r.id] ∧
        s'.jobs = Table.updateWhere (fun q => q.id = r.id)
          (Job.leasedTo s.clock worker) s.jobs := by
  cases h with
  | idle | table | tick | stop | enqueue => exact .inl rfl
  | @exec i e e' jobs _ he hchange _ _ _ =>
    refine .inl ?_
    show (s.execs.set i e').map _ = _
    rw [map_set, hchange.frame.2]
    apply ext_getElem?
    intro k
    rw [getElem?_set]
    split
    · rename_i hik
      subst hik
      rw [getElem?_map, he]
      split
      · rfl
      · rename_i hlen
        rw [length_map] at hlen
        cases (getElem?_eq_none (Nat.le_of_not_lt hlen)).symm.trans he
    · rfl
  | @dequeue worker r ha _ hr _ _ =>
    refine .inr ⟨worker, r, hr, ha, ?_, rfl⟩
    rw [map_append]
    rfl

/-- The counters of a row bound how often its job was dequeued. -/
structure Counted (s : Leases) : Prop where
  known : ∀ e ∈ s.execs, e.job.id < s.nextJob
  started : ∀ r ∈ s.jobs, r.status.held = true → 1 ≤ r.attempt
  bound : ∀ r ∈ s.jobs,
    s.dequeues r.id ≤ r.attempt + min r.resumeCount maxResumes

theorem counted_empty (clock : Nat) : Counted (.empty clock) where
  known := fun _ h => nomatch h
  started := forall_mem_nil _
  bound := forall_mem_nil _

/-- The sum of the counters does not decrease. -/
theorem RowChange.counters (h : RowChange s a r r') :
    r.attempt + min r.resumeCount maxResumes ≤ r'.attempt + min r'.resumeCount maxResumes := by
  cases h with
  | same | running | extended | promoted | cancelled | flagged | forgotten =>
    exact Nat.le_refl _
  | leased worker r _ =>
    show _ ≤ r.attempt + 1 + min r.resumeCount maxResumes
    omega
  | recorded i jitter e o r => cases o <;> exact Nat.le_refl _
  | reaped r hexpired =>
    -- the attempt that is given back is counted as a resume
    simp only [Job.reaped]
    split <;> omega

section

variable (hs : Sound s) (hc : Counted s) (h : Applied s a s')

include hs hc h

theorem Counted.known_step (he' : e' ∈ s'.execs) : e'.job.id < s'.nextJob := by
  obtain ⟨i, hi⟩ := getElem?_of_mem he'
  rcases h.exec_at hi with ⟨e, he, heq⟩ | ⟨worker, r, _, _, hr, _, rfl⟩
  · have hlt := hc.known e (mem_of_getElem? he)
    rw [(frame_of_change heq).2]
    exact Nat.lt_of_lt_of_le hlt h.nextJob_le
  · exact Nat.lt_of_lt_of_le (hs.fresh r hr) h.nextJob_le

theorem Counted.started_step (hr' : r' ∈ s'.jobs) (hheld : r'.status.held = true) :
    1 ≤ r'.attempt := by
  rcases h.held hs.distinct hr' hheld with
    ⟨r, hr, _, hold, _, hattempt, _⟩ | ⟨worker, r, _, _, _, _, rfl, _⟩
  · rw [hattempt]
    exact hc.started r hr hold
  · exact Nat.succ_le_succ (Nat.zero_le _)

theorem Counted.bound_step (hr' : r' ∈ s'.jobs) :
    s'.dequeues r'.id ≤ r'.attempt + min r'.resumeCount maxResumes := by
  rcases h.execIds with hids | ⟨worker, r, hr, _, hids, hjobs⟩
  · have hsame : s'.dequeues r'.id = s.dequeues r'.id := by
      rw [Leases.dequeues, hids]
      rfl
    rw [hsame]
    rcases h.row hs.distinct hr' with ⟨q, hq, hchange⟩ | ⟨o, _, _, rfl⟩
    · have hold := hc.bound q hq
      have hsum := hchange.counters
      rw [hchange.id_eq]
      omega
    · have hzero : s.dequeues s.nextJob = 0 := by
        rw [Leases.dequeues, count_eq_zero]
        intro hmem
        obtain ⟨e, he, hid⟩ := mem_map.1 hmem
        have hlt := hc.known e he
        omega
      show s.dequeues s.nextJob ≤ _
      omega
  · have hcount : ∀ id, s'.dequeues id = s.dequeues id + if r.id = id then 1 else 0 := by
      intro id
      rw [Leases.dequeues, hids, count_append]
      simp [Leases.dequeues, count_singleton]
    rw [hjobs] at hr'
    obtain ⟨q, hq, rfl⟩ := mem_updateWhere.1 hr'
    have hold := hc.bound q hq
    rw [hcount]
    by_cases hid : q.id = r.id
    · rw [if_pos (decide_eq_true hid)]
      show s.dequeues q.id + (if r.id = q.id then 1 else 0) ≤
        q.attempt + 1 + min q.resumeCount maxResumes
      rw [if_pos hid.symm]
      omega
    · rw [if_neg (by simpa using hid), if_neg (fun h => hid h.symm)]
      exact hold

end

theorem Counted.step (hs : Sound s) (hc : Counted s) (h : s.apply a = some s') : Counted s' := by
  have happlied := applied_of_apply h
  exact {
    known := fun _ he => hc.known_step hs happlied he
    started := fun _ hr hheld => hc.started_step hs happlied hr hheld
    bound := fun _ hr => hc.bound_step hs happlied hr }

/-! ## The limit on the attempts -/

/-- The attempts of a row are within the limit, with one left if the job
waits. -/
def Limited (r : Job) : Prop :=
  r.attempt ≤ r.maxAttempts ∧ (waiting r.status = true → r.attempt < r.maxAttempts)

theorem EnqueueOptions.row_limited (o : EnqueueOptions) (now id : Nat) :
    Limited (o.row now id) := by
  have hpos : 0 < (o.row now id).maxAttempts := by
    simp only [EnqueueOptions.row]
    split <;> omega
  exact ⟨Nat.zero_le _, fun _ => hpos⟩

/-- The outcome of an execution whose copy of the row is up to date. -/
theorem Execution.outcomeRow_limited {e : Execution} (hr : Limited r)
    (hattempt : e.job.attempt = r.attempt)
    (hmax : e.job.maxAttempts = r.maxAttempts) (o : HandlerResult)
    (now jitter : Nat) : Limited (e.outcomeRow o now jitter r) := by
  cases o with
  | succeeded => exact ⟨hr.1, nofun⟩
  | failed =>
    refine ⟨hr.1, ?_⟩
    intro hwaiting
    show r.attempt < r.maxAttempts
    by_contra hge
    have hdead : e.job.maxAttempts ≤ e.job.attempt := by omega
    simp [Execution.outcomeRow, hdead, waiting] at hwaiting

theorem RowChange.limited (h : RowChange s a r r') (hr : Limited r)
    (hstarted : r.status.held = true → 1 ≤ r.attempt)
    (hcopy : ∀ (i : Nat) (e : Execution), s.execs[i]? = some e →
      e.stage ≠ .finished →
      r.heldBy e.job.id e.worker = true →
      e.job.attempt = r.attempt ∧ e.job.maxAttempts = r.maxAttempts) :
    Limited r' := by
  cases h with
  | same | flagged | extended => exact hr
  | leased worker r heligible =>
    have hlt := hr.2 (by rw [Job.eligible_queued heligible]; rfl)
    exact ⟨hlt, (by rintro ⟨⟩)⟩
  | running i e r | cancelled | forgotten => exact ⟨hr.1, (by rintro ⟨⟩)⟩
  | recorded i jitter e o r he hstage hby =>
    obtain ⟨hattempt, hmax⟩ := hcopy i e he (by rw [hstage]; rintro ⟨⟩) hby
    exact Execution.outcomeRow_limited hr hattempt hmax o s.clock jitter
  | reaped r hexpired =>
    have hheld : r.status.held = true := by
      simp only [Job.leaseExpired, Bool.and_eq_true] at hexpired
      exact hexpired.1
    have hone := hstarted hheld
    have hmax := hr.1
    unfold Limited
    simp only [Job.reaped]
    split
    · exact ⟨hmax, (by rintro ⟨⟩)⟩
    · exact ⟨by omega, fun _ => by omega⟩
  | promoted r hwait =>
    refine ⟨hr.1, fun _ => hr.2 ?_⟩
    rcases hwait with hwait | hwait
    all_goals
      rw [hwait]
      rfl

/-- Behind the fence, the copy of an execution that can record its outcome is
up to date. -/
theorem Fenced.copy (hs : Sound s) (hf : Fenced s) {i : Nat}
    (he : s.execs[i]? = some e) (hstage : e.stage ≠ .finished) (hr : r ∈ s.jobs)
    (hby : r.heldBy e.job.id e.worker = true) :
    e.job.attempt = r.attempt ∧ e.job.maxAttempts = r.maxAttempts ∧
      e.job.lockKey = r.lockKey := by
  have hholder := hf i e he hstage r hr hby
  obtain ⟨hid, _, hheld⟩ := heldBy_iff.1 hby
  obtain ⟨k, e', hk, he', _, _, hattempt, hmax, hlock⟩ :=
    hs.copies r hr hheld
  rw [hid, hholder] at hk
  cases hk
  cases he.symm.trans he'
  exact ⟨hattempt, hmax, hlock⟩

theorem limited_step (hs : Sound s) (hf : Fenced s) (hc : Counted s)
    (hl : ∀ r ∈ s.jobs, Limited r) (h : s.apply a = some s') :
    ∀ r ∈ s'.jobs, Limited r := by
  intro r' hr'
  rcases (applied_of_apply h).row hs.distinct hr' with ⟨r, hr, hchange⟩ | ⟨o, _, _, rfl⟩
  · exact hchange.limited (hl r hr) (hc.started r hr)
      fun i e he hstage hby =>
        have hcopy := hf.copy hs he hstage hr hby
        ⟨hcopy.1, hcopy.2.1⟩
  · exact o.row_limited _ _

/-- Everything that a calm run keeps. -/
theorem calm_invariants (h : Reaches Leases.apply Calm (.empty clock) s) :
    Sound s ∧ Counted s ∧ ∀ r ∈ s.jobs, Limited r := by
  have hall : (Sound s ∧ Fenced s) ∧ Counted s ∧ ∀ r ∈ s.jobs, Limited r := by
    refine h.invariant (I := fun s => (Sound s ∧ Fenced s) ∧ Counted s ∧
      ∀ r ∈ s.jobs, Limited r) ?_
      ⟨⟨sound_empty clock, fun _ _ he => nomatch he⟩,
        counted_empty clock, fun r hr => nomatch hr⟩
    intro a s s' hcalm happly hI
    obtain ⟨⟨hs, hf⟩, hc, hl⟩ := hI
    exact ⟨⟨hs.step happly, hf.step hs hcalm happly⟩, hc.step hs happly,
      limited_step hs hf hc hl happly⟩
  exact ⟨hall.1.1, hall.2⟩

/-- In every run in which no worker dequeues a job that it is still executing:
the lease columns are set exactly in the held statuses, the attempts stay
within the limit, a job is dequeued at most `maxResumes` times more than it
has attempts, and a terminal status is left only from `dead_letter` to
`cancelled`. -/
theorem job_states {clock : Nat} {s : Leases}
    (h : Reaches Leases.apply Calm (.empty clock) s) :
    (∀ r ∈ s.jobs,
      (r.leasedBy.isSome = true ↔ r.status = .leased ∨ r.status = .running) ∧
      (r.leaseExpiresAt.isSome = true ↔ r.status = .leased ∨ r.status = .running) ∧
      r.attempt ≤ r.maxAttempts ∧
      s.dequeues r.id ≤ r.maxAttempts + maxResumes) ∧
    ∀ s', Reaches Leases.apply Calm s s' →
      ∀ r ∈ s.jobs, ∀ r' ∈ s'.jobs, r'.id = r.id →
        terminal r.status = true →
        r'.status = r.status ∨ r.status = .deadLetter ∧ r'.status = .cancelled := by
  obtain ⟨hs, hc, hl⟩ := calm_invariants h
  refine ⟨?_, ?_⟩
  · intro r hr
    obtain ⟨hby, hexpires⟩ := hs.fields r hr
    have hheld : r.status.held = true ↔ r.status = .leased ∨ r.status = .running := by
      cases r.status <;> simp [JobStatus.held]
    have hlimit := (hl r hr).1
    have hbound := hc.bound r hr
    rw [hby, hexpires]
    refine ⟨hheld, hheld, hlimit, ?_⟩
    omega
  · intro s' hrun r hr r' hr' hid hterminal
    exact terminal_absorbs hs hrun hr hr' hid hterminal

theorem job_states_otherWorker :
    (afterTakenAgain "v").jobs.map (fun r => (r.status, r.attempt, r.resumeCount)) =
      [(.running, 1, 1)] ∧
      ∀ r ∈ (afterTakenAgain "v").jobs,
        (afterTakenAgain "v").dequeues r.id ≤ r.maxAttempts + maxResumes := by
  have hstates := job_states
    (Reaches.of_run (l := takenAgain "v") (s := .empty 0)
      (t := afterTakenAgain "v") rfl (by decide))
  exact ⟨by decide, fun r hr => (hstates.1 r hr).2.2.2⟩

/-- The worker `w` runs the job three times, and its first execution, the one
that was reaped, fails last.  Its copy of the row says that there is an
attempt left. -/
def failsLate : List Action :=
  [.enqueue twoAttempts, .dequeue "w", .markRunning 0, .tick 91, .reap,
    .promote, .dequeue "w", .markRunning 1, .handlerReturns 1 .failed,
    .record 1 0, .tick 10, .promote, .dequeue "w", .markRunning 2,
    .handlerReturns 0 .failed, .record 0 0, .tick 10, .promote, .dequeue "w"]

def afterFailsLate : Leases :=
  (run Leases.apply failsLate (.empty 0)).getD (.empty 0)

/-- The third attempt of a job that has two. -/
theorem attempts_exceed_limit :
    Reaches Leases.apply (fun _ _ => True) (.empty 0) afterFailsLate ∧
      afterFailsLate.jobs.map (fun r => (r.status, r.attempt, r.maxAttempts)) =
        [(.leased, 3, 2)] :=
  ⟨Reaches.of_run (l := failsLate) rfl (by decide), by decide⟩

end Akerdock.Queue
