import Akerdock.Queue.JobStates

/-!
# Exclusion by lock keys

Jobs with one lock key are not to be worked on at the same time.  For the rows
of the table that is a matter of `DequeueJob` alone: it takes no job whose lock
key is held.  For the handlers it takes more, since a handler does not stop
when its lease is lost.

* `Locked` says that at most one job per lock key is held.  It holds in every
  run.
* `Prompt` is the assumption on handlers: one runs only as long as the lease
  that its execution knows of, from `DequeueJob` or from its last successful
  heartbeat.
* `Covered` is what a calm run of prompt handlers keeps: every handler that
  runs is covered by a lease that has not expired.
-/

namespace Akerdock.Queue

open Store Table List
open Machine (Reaches run)
open Leases (apply)

/-! ## The rows -/

def Locked (s : Leases) : Prop :=
  ∀ r ∈ s.jobs, ∀ r' ∈ s.jobs, ∀ k, r.lockKey = some k →
    r'.lockKey = some k → r.status.held = true → r'.status.held = true →
    r.id = r'.id

variable {r : Job} {s s' : Leases} {a : Action} {i : Nat} {e' : Execution}

/-- `DequeueJob` takes no job whose lock key is held. -/
theorem Job.eligible_not_held (h : r.eligible jobs now = true)
    (hk : r.lockKey = some k) (hq : q ∈ jobs) (hqk : q.lockKey = some k) :
    q.status.held = false := by
  unfold Job.eligible at h
  rw [hk] at h
  simp only [Bool.and_eq_true, lockHeld, Bool.not_eq_true', any_eq_false] at h
  have hnot := h.2 q hq
  simpa [hqk] using hnot

theorem Locked.step (hs : Sound s) (hl : Locked s) (h : s.apply a = some s') : Locked s' := by
  have happlied := applied_of_apply h
  intro r₁ hr₁ r₂ hr₂ k hk₁ hk₂ hheld₁ hheld₂
  rcases happlied.held hs.distinct hr₁ hheld₁ with
    ⟨q₁, hq₁, hchange₁, hold₁, _⟩ | ⟨w₁, q₁, ha₁, hq₁, hel₁, htaken₁, rfl, _⟩
  · have hkey₁ : q₁.lockKey = some k := by rw [← hchange₁.frame.2, hk₁]
    rcases happlied.held hs.distinct hr₂ hheld₂ with
      ⟨q₂, hq₂, hchange₂, hold₂, _⟩ | ⟨w₂, q₂, _, hq₂, hel₂, _, rfl, _⟩
    · have hkey₂ : q₂.lockKey = some k := by rw [← hchange₂.frame.2, hk₂]
      rw [hchange₁.id_eq, hchange₂.id_eq]
      exact hl q₁ hq₁ q₂ hq₂ k hkey₁ hkey₂ hold₁ hold₂
    · cases (Job.eligible_not_held hel₂ hk₂ hq₁ hkey₁).symm.trans hold₁
  · rcases happlied.held hs.distinct hr₂ hheld₂ with
      ⟨q₂, hq₂, hchange₂, hold₂, _⟩ | ⟨w₂, q₂, ha₂, _, _, htaken₂, _, _⟩
    · have hkey₂ : q₂.lockKey = some k := by rw [← hchange₂.frame.2, hk₂]
      cases (Job.eligible_not_held hel₁ hk₁ hq₂ hkey₂).symm.trans hold₂
    · obtain rfl : w₁ = w₂ := Action.dequeue.inj (ha₁.symm.trans ha₂)
      rw [Option.some.inj (htaken₁.symm.trans htaken₂)]

theorem locked_of_reaches (h : Reaches apply may (.empty clock) s) : Locked s := by
  have hboth : Sound s ∧ Locked s := by
    refine h.invariant (I := fun s => Sound s ∧ Locked s) ?_
      ⟨sound_empty clock, fun r hr => nomatch hr⟩
    intro a s s' _ happly hI
    exact ⟨hI.1.step happly, hI.2.step hI.1 happly⟩
  exact hboth.2

/-! ## The handlers -/

/-- A handler runs only within the lease that its execution knows of. -/
def Prompt (s : Leases) : Prop :=
  ∀ e ∈ s.execs, e.stage = .running → s.clock ≤ e.deadline

instance (s : Leases) : Decidable (Prompt s) :=
  inferInstanceAs (Decidable (∀ e ∈ s.execs, _))

/-- The action leads to a state in which handlers are prompt. -/
def StaysPrompt (a : Action) (s : Leases) : Prop :=
  ∀ s' ∈ s.apply a, Prompt s'

instance (a : Action) (s : Leases) : Decidable (StaysPrompt a s) :=
  match h : s.apply a with
  | none => isTrue (by simp [StaysPrompt, h])
  | some s' => decidable_of_iff (Prompt s') (by simp [StaysPrompt, h])

/-- The leases behind the executions.

* `recent`: no execution counts on more than a full lease.
* `lasting`: the lease in the row lasts as long as the execution counts on it.
* `running`: a handler that runs is covered by a lease of its worker. -/
structure Covered (s : Leases) : Prop where
  recent : ∀ e ∈ s.execs, e.deadline ≤ s.clock + leaseDuration
  lasting : ∀ (i : Nat) (e : Execution), s.execs[i]? = some e →
    e.stage ≠ .finished → ∀ r ∈ s.jobs, r.heldBy e.job.id e.worker = true →
    ∀ t, r.leaseExpiresAt = some t → e.deadline ≤ t
  running : ∀ (i : Nat) (e : Execution), s.execs[i]? = some e →
    e.stage = .running →
    ∃ r ∈ s.jobs, r.heldBy e.job.id e.worker = true

theorem covered_empty (clock : Nat) : Covered (.empty clock) where
  recent := fun _ h => nomatch h
  lasting := fun _ _ h => nomatch h
  running := fun _ _ h => nomatch h

/-- What an action does to the end of the lease as an execution knows it. -/
theorem ExecChange.deadline (h : ExecChange s i e a e') :
    e'.deadline = e.deadline ∨ a = .heartbeat i ∧ e'.deadline = s.clock + leaseDuration := by
  cases h with
  | beat =>
    by_cases hany : s.jobs.any (Job.heldBy e.job.id e.worker) = true
    · exact .inr ⟨rfl, if_pos hany⟩
    · exact .inl (if_neg hany)
  | _ => exact .inl rfl

theorem Covered.recent_step (hc : Covered s) (h : Applied s a s')
    (he' : e' ∈ s'.execs) : e'.deadline ≤ s'.clock + leaseDuration := by
  have hclock := h.clock_le
  obtain ⟨i, hi⟩ := getElem?_of_mem he'
  rcases h.exec_at hi with ⟨e, he, heq⟩ | ⟨worker, r, _, _, _, _, rfl⟩
  · have hold := hc.recent e (mem_of_getElem? he)
    rcases heq with rfl | hchange
    · omega
    · rcases hchange.deadline with hsame | ⟨_, hnew⟩
      · omega
      · omega
  · show s.clock + leaseDuration ≤ _
    omega

/-- What an action does to the lease in a row that is held before and after. -/
theorem RowChange.expires (h : RowChange s a r r')
    (hheld : r.status.held = true) (hheld' : r'.status.held = true) :
    r'.leaseExpiresAt = r.leaseExpiresAt ∧
        (∀ (i : Nat) (e : Execution), a = .heartbeat i →
          s.execs[i]? = some e → r.heldBy e.job.id e.worker = false) ∨
      r'.leaseExpiresAt = some (s.clock + leaseDuration) := by
  cases h with
  | same _ _ hnot => exact .inl ⟨rfl, hnot⟩
  | running | flagged => exact .inl ⟨rfl, fun _ _ h => by cases h⟩
  | leased worker r heligible =>
    rw [Job.eligible_queued heligible] at hheld
    cases hheld
  | extended => exact .inr rfl
  | recorded i jitter e o r =>
    cases o with
    | succeeded => cases hheld'
    | failed =>
      simp only [Execution.outcomeRow] at hheld'
      split at hheld' <;> cases hheld'
  | reaped r =>
    simp only [Job.reaped] at hheld'
    split at hheld' <;> cases hheld'
  | promoted | cancelled | forgotten => cases hheld'

theorem Covered.lasting_step (hs : Sound s) (hc : Covered s) (hcalm : Calm a s)
    (h : Applied s a s') (he' : s'.execs[i]? = some e')
    (hstage : e'.stage ≠ .finished) (hr' : r' ∈ s'.jobs)
    (hby : r'.heldBy e'.job.id e'.worker = true)
    (ht : r'.leaseExpiresAt = some t) : e'.deadline ≤ t := by
  rcases h.heldBy_cases hs hcalm he' hstage hr' hby with
    ⟨e, r, he, hunder, heq, _, hr, hchange, hbyOld, _⟩ |
    ⟨worker, r, rfl, rfl, _⟩
  · have hrecent := hc.recent e (mem_of_getElem? he)
    have hdeadline : e'.deadline = e.deadline ∨
        a = .heartbeat i ∧ e'.deadline = s.clock + leaseDuration := by
      rcases heq with rfl | hexec
      · exact .inl rfl
      · exact hexec.deadline
    rcases hchange.expires (heldBy_iff.1 hbyOld).2.2 (heldBy_iff.1 hby).2.2
      with ⟨hexp, hnot⟩ | hexp
    · rcases hdeadline with hsame | ⟨hbeat, _⟩
      · rw [hsame]
        exact hc.lasting i e he hunder r hr hbyOld t (by rw [← hexp, ht])
      · -- a heartbeat of the execution has extended its row
        cases (hnot i e hbeat he).symm.trans hbyOld
    · rw [hexp] at ht
      have hend := Option.some.inj ht
      rcases hdeadline with hd | ⟨_, hd⟩
      · omega
      · omega
  · have hend : s.clock + leaseDuration = t := Option.some.inj ht
    show s.clock + leaseDuration ≤ t
    omega

/-- What can end a lease: the outcome of an execution of the same worker, or a
reap after its end. -/
theorem RowChange.held_stays (h : RowChange s a r r') (hheld : r.status.held = true) :
    (r'.status.held = true ∧ r'.leasedBy = r.leasedBy) ∨
      (∃ (k : Nat) (e : Execution) (o : HandlerResult),
        s.execs[k]? = some e ∧ e.stage = .returned o ∧
        r.heldBy e.job.id e.worker = true) ∨
      a = .reap ∧ r.leaseExpired s.clock = true := by
  cases h with
  | same | extended | flagged => exact .inl ⟨hheld, rfl⟩
  | running => exact .inl ⟨rfl, rfl⟩
  | recorded k jitter e o r he hstage hby =>
    exact .inr (.inl ⟨k, e, o, he, hstage, hby⟩)
  | reaped r hexpired => exact .inr (.inr ⟨rfl, hexpired⟩)
  | leased worker r heligible =>
    rw [Job.eligible_queued heligible] at hheld
    cases hheld
  | promoted r hwait =>
    rcases hwait with hwait | hwait
    all_goals
      rw [hwait] at hheld
      cases hheld
  | cancelled ids r hqueued =>
    rw [hqueued] at hheld
    cases hheld
  | forgotten id r hdead =>
    rw [hdead] at hheld
    cases hheld

/-- A lease behind the fence is ended by a reap or by its own execution. -/
theorem Fenced.lease_stays (hs : Sound s) (hf : Fenced s) (h : Applied s a s')
    (he : s.execs[i]? = some e) (hstage : e.stage = .leased ∨
      e.stage = .running) (hr : r ∈ s.jobs)
    (hby : r.heldBy e.job.id e.worker = true) :
    (∃ r' ∈ s'.jobs, r'.heldBy e.job.id e.worker = true) ∨
      a = .reap ∧ r.leaseExpired s.clock = true := by
  obtain ⟨hid, hleased, hheld⟩ := heldBy_iff.1 hby
  obtain ⟨r', hr', hchange⟩ := h.row_of_held hs.distinct hs.fresh hr hheld
  have hunder : e.stage ≠ .finished := by
    rcases hstage with hstage | hstage
    all_goals
      rw [hstage]
      nofun
  rcases hchange.held_stays hheld with
    ⟨hheld', hby'⟩ | ⟨k, e₁, o, he₁, hreturned, hby₁⟩ | hreap
  · refine .inl ⟨r', hr', heldBy_iff.2 ⟨?_, ?_, hheld'⟩⟩
    · rw [hchange.id_eq, hid]
    · rw [hby', hleased]
  · -- the outcome would be the one of the execution itself, which has none
    have hk := hf k e₁ he₁ (by rw [hreturned]; nofun) r hr hby₁
    have hi := hf i e he hunder r hr hby
    rw [← (heldBy_iff.1 hby₁).1, hid, hi] at hk
    cases hk
    cases he.symm.trans he₁
    rw [hreturned] at hstage
    rcases hstage with hstage | hstage <;> cases hstage
  · exact .inr hreap

theorem Covered.running_step (hs : Sound s) (hf : Fenced s) (hc : Covered s)
    (hp : Prompt s) (h : Applied s a s') (he' : s'.execs[i]? = some e')
    (hrun : e'.stage = .running) :
    ∃ r ∈ s'.jobs, r.heldBy e'.job.id e'.worker = true := by
  rcases h.exec_at he' with ⟨e, he, heq⟩ | ⟨worker, r, _, _, _, _, rfl⟩
  · obtain ⟨hworker, hjob⟩ := frame_of_change heq
    rw [hjob, hworker]
    by_cases hbefore : e.stage = .running
    · obtain ⟨r, hr, hby⟩ := hc.running i e he hbefore
      rcases hf.lease_stays hs h he (.inr hbefore) hr hby with
        hstays | ⟨_, hexpired⟩
      · exact hstays
      · -- the lease lasts as long as the handler runs
        exfalso
        have hclock := hp e (mem_of_getElem? he) hbefore
        simp only [Job.leaseExpired, Bool.and_eq_true] at hexpired
        cases ht : r.leaseExpiresAt with
        | none =>
          rw [ht] at hexpired
          cases hexpired.2
        | some t =>
          rw [ht] at hexpired
          have hlt : t < s.clock := of_decide_eq_true hexpired.2
          have hlast := hc.lasting i e he (by rw [hbefore]; rintro ⟨⟩) r hr hby t ht
          omega
    · have hmarked : a = .markRunning i ∧ e.stage = .leased ∧
          s.jobs.any (markJobRunningHits e.job.id e.worker) = true := by
        rcases heq with rfl | hchange
        · exact absurd hrun hbefore
        · cases hchange with
          | marked hstage hhits => exact ⟨rfl, hstage, hhits⟩
          | beat => exact absurd hrun hbefore
          | _ => cases hrun
      obtain ⟨ha, hstage, hhits⟩ := hmarked
      obtain ⟨r, hr, hhit⟩ := any_eq_true.1 hhits
      have hby : r.heldBy e.job.id e.worker = true := by
        by_contra hnot
        cases (markJobRunningHits_eq_false (by simpa using hnot)).symm.trans hhit
      rcases hf.lease_stays hs h he (.inl hstage) hr hby with
        hstays | ⟨hreap, _⟩
      · exact hstays
      · cases ha.symm.trans hreap
  · cases hrun

/-- What a calm run of prompt handlers keeps. -/
theorem covered_of_reaches (h : Reaches apply
      (fun a s => Calm a s ∧ StaysPrompt a s) (.empty clock) s) :
    (Sound s ∧ Fenced s) ∧ Covered s := by
  have hall : ((Sound s ∧ Fenced s) ∧ Covered s) ∧ Prompt s := by
    refine h.invariant
      (I := fun s => ((Sound s ∧ Fenced s) ∧ Covered s) ∧ Prompt s) ?_
      ⟨⟨⟨sound_empty clock, fun _ _ he => nomatch he⟩, covered_empty clock⟩,
        fun e he => nomatch he⟩
    intro a s s' hmay happly hI
    obtain ⟨⟨⟨hs, hf⟩, hc⟩, hp⟩ := hI
    have happlied := applied_of_apply happly
    refine ⟨⟨⟨hs.step happly, hf.step hs hmay.1 happly⟩, ?_⟩, hmay.2 s' happly⟩
    exact {
      recent := fun _ he => hc.recent_step happlied he
      lasting := fun i e he hstage r hr hby t ht =>
        hc.lasting_step hs hmay.1 happlied he hstage hr hby ht
      running := fun i e he hrun => hc.running_step hs hf hp happlied he hrun }
  exact hall.1

/-- In every run at most one job per lock key is leased or running.  In every
run of prompt handlers in which no worker dequeues a job that it is still
executing, at most one handler per lock key runs. -/
theorem lock_key_excludes {clock : Nat} {s : Leases} :
    (Reaches apply (fun _ _ => True) (.empty clock) s →
      ∀ r ∈ s.jobs, ∀ r' ∈ s.jobs, ∀ k, r.lockKey = some k →
        r'.lockKey = some k → r.status.held = true →
        r'.status.held = true → r.id = r'.id) ∧
    (Reaches apply (fun a s => Calm a s ∧ StaysPrompt a s) (.empty clock) s →
      ∀ (i : Nat) (e : Execution) (j : Nat) (e' : Execution),
        s.execs[i]? = some e → s.execs[j]? = some e' →
        e.stage = .running → e'.stage = .running →
        ∀ k, e.job.lockKey = some k → e'.job.lockKey = some k → i = j) := by
  refine ⟨fun h => locked_of_reaches h, ?_⟩
  intro h i e j e' he he' hrun hrun' k hk hk'
  obtain ⟨⟨hs, hf⟩, hc⟩ := covered_of_reaches h
  have hl := locked_of_reaches h
  obtain ⟨r, hr, hby⟩ := hc.running i e he hrun
  obtain ⟨r', hr', hby'⟩ := hc.running j e' he' hrun'
  obtain ⟨hid, _, hheld⟩ := heldBy_iff.1 hby
  obtain ⟨hid', _, hheld'⟩ := heldBy_iff.1 hby'
  have hholder := hf i e he (by rw [hrun]; nofun) r hr hby
  have hholder' := hf j e' he' (by rw [hrun']; nofun) r' hr' hby'
  have hkey : r.lockKey = some k := by
    rw [← (hf.copy hs he (by rw [hrun]; nofun) hr hby).2.2, hk]
  have hkey' : r'.lockKey = some k := by
    rw [← (hf.copy hs he' (by rw [hrun']; nofun) hr' hby').2.2, hk']
  have hsame := hl r hr r' hr' k hkey hkey' hheld hheld'
  rw [← hid, hsame, hid', hholder'] at hholder
  exact (Option.some.inj hholder).symm

/-- Two jobs with the lock key "server:1".  The first one comes first, and is
taken by the worker `w`, whose handler runs. -/
def firstRuns : List Action :=
  [.enqueue { twoAttempts with priority := 1 }, .enqueue twoAttempts,
    .dequeue "w", .markRunning 0]

def afterFirstRuns : Leases :=
  (run apply firstRuns (.empty 0)).getD (.empty 0)

theorem lock_key_excludes_first :
    ∀ (j : Nat) (e' : Execution), afterFirstRuns.execs[j]? = some e' →
      e'.stage = .running → e'.job.lockKey = some "server:1" → 0 = j := by
  intro j e' he' hrun hk
  have hreach : Reaches apply (fun a s => Calm a s ∧ StaysPrompt a s) (.empty 0) afterFirstRuns :=
    .of_run (l := firstRuns) rfl (by decide)
  exact lock_key_excludes.2 hreach 0 _ j e' rfl he' rfl hrun "server:1" rfl hk

/-- The first handler has returned when its lease is reaped.  Its worker takes
the job again, and then the first execution records its success: the lock is
free, and `v` starts the other job. -/
def lockFreed : List Action :=
  firstRuns ++ [.handlerReturns 0 .succeeded, .tick 91, .reap, .promote,
    .dequeue "w", .markRunning 1, .record 0 0, .dequeue "v", .markRunning 2]

def afterLockFreed : Leases :=
  (run apply lockFreed (.empty 0)).getD (.empty 0)

/-- Two prompt handlers for one lock key. -/
theorem lock_key_shared :
    Reaches apply (fun a s => StaysPrompt a s) (.empty 0) afterLockFreed ∧
      afterLockFreed.execs.map (fun e => (e.worker, e.stage, e.job.id, e.job.lockKey)) =
        [("w", .closing, 1, some "server:1"),
          ("w", .running, 1, some "server:1"),
          ("v", .running, 2, some "server:1")] :=
  ⟨Reaches.of_run (l := lockFreed) rfl (by decide), by decide⟩

end Akerdock.Queue
