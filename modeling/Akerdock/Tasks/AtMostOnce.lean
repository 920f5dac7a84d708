import Akerdock.Queue.JobStates
import Akerdock.Tasks.System

/-!
# What an execution row performs

The queue is at least once: a job whose attempt fails is tried again, and a job
whose lease runs out is given to another worker.  `Execute` does not look at
the execution row before it runs the command.  So a command runs once for its
row only if, from the moment it took effect, its attempt goes on to be
recorded as a success.

* `Recorded` is that condition on the steps of the queue and the handlers.
* `Once` is the invariant of the runs that meet it.  An execution at work
  holds the lease of its job, and once the effect of a row has taken place,
  the job of that row has succeeded or is held by an execution whose handler
  can only return a success.
-/

namespace Akerdock.Queue

open Store Table

/-! ## Facts about the queue -/

/-- The stages in which an execution has not finished with its job. -/
def Stage.atWork : Stage → Bool
  | .leased | .running | .returned _ => true
  | _ => false

section

variable {q q' : Leases} {a : Queue.Action}

/-- Work is not taken up again. -/
theorem ExecChange.atWork (h : ExecChange q i e a e')
    (hwork : e'.stage.atWork = true) : e.stage.atWork = true := by
  cases h with
  | marked hstage | returned _ hstage => simp only [hstage, Stage.atWork]
  | beat => exact hwork
  | unmarked | recorded | lost | unrecorded | stopped | died => cases hwork

/-- What a lease can be lost by. -/
theorem RowChange.heldBy (h : RowChange q a r r') {id : Nat} (hby : r.heldBy id worker = true) :
    r'.heldBy id worker = true ∨
      (∃ i jitter e o, a = .record i jitter ∧ q.execs[i]? = some e ∧
        e.stage = .returned o ∧ r.heldBy e.job.id e.worker = true) ∨
      a = .reap ∧ r.leaseExpired q.clock = true := by
  have hheld := (heldBy_iff.1 hby).2.2
  cases h with
  | same | extended | flagged => exact .inl hby
  | leased worker r heligible =>
    rw [Job.eligible_queued heligible] at hheld
    cases hheld
  | running i e r _ _ hhits =>
    obtain ⟨hid, hleased, _⟩ := heldBy_iff.1 hby
    exact .inl (heldBy_iff.2 ⟨hid, hleased, rfl⟩)
  | recorded i jitter e o r he hstage hby' =>
    exact .inr (.inl ⟨i, jitter, e, o, rfl, he, hstage, hby'⟩)
  | reaped r hexpired => exact .inr (.inr ⟨rfl, hexpired⟩)
  | promoted r hwait =>
    rcases hwait with hwait | hwait
    all_goals
      rw [hwait] at hheld
      cases hheld
  | cancelled ids r hqueued =>
    rw [hqueued] at hheld
    cases hheld
  | forgotten id r hdead =>
    rw [hdead] at hheld
    cases hheld

/-- The execution that takes the action. -/
theorem Applied.actor (h : Applied q a q') (ha : a.exec? = some i)
    (he : q.execs[i]? = some e) (he' : q'.execs[i]? = some e') :
    ExecChange q i e a e' := by
  cases h with
  | @exec k e₀ e₁ jobs ha₀ he₀ hchange _ _ _ =>
    obtain rfl : k = i := Option.some.inj (ha₀.symm.trans ha)
    obtain rfl : e₀ = e := Option.some.inj (he₀.symm.trans he)
    have hk : k < q.execs.length := (List.getElem?_eq_some_iff.1 he).1
    cases (List.getElem?_set_self hk).symm.trans he'
    exact hchange
  | dequeue ha₀ | idle ha₀ | tick ha₀ | stop ha₀ | enqueue ha₀ =>
    rw [ha₀] at ha
    cases ha
  | table ha₀ =>
    cases (Action.exec_of_onTable ha₀).symm.trans ha

theorem Applied.begun (h : Applied q a q') (he' : q'.execs[q.execs.length]? = some e') :
    q'.holder e'.job.id = some q.execs.length ∧
      ∃ r ∈ q'.jobs, r.heldBy e'.job.id e'.worker = true := by
  have hnone : q.execs[q.execs.length]? = none :=
    List.getElem?_eq_none le_rfl
  cases h with
  | exec ha he _ _ _ _ =>
    cases (List.getElem?_eq_none (by simp)).symm.trans he'
  | idle | table | tick | stop | enqueue =>
    cases hnone.symm.trans he'
  | @dequeue worker r ha hstop hr heligible htaken =>
    have happ : (q.execs ++ [_])[q.execs.length]? = some e' := he'
    rw [List.getElem?_append_right le_rfl, Nat.sub_self] at happ
    cases happ
    refine ⟨Function.update_self _ _ _, r.leasedTo q.clock worker, ?_, ?_⟩
    · refine mem_updateWhere.2 ⟨r, hr, ?_⟩
      rw [if_pos (by simp)]
    · exact heldBy_iff.2 ⟨rfl, rfl, rfl⟩

theorem apply_record (h : q.apply (.record i jitter) = some q') :
    ∃ e o, q.execs[i]? = some e ∧ e.stage = .returned o ∧
      q'.jobs = updateWhere (Job.heldBy e.job.id e.worker)
        (e.outcomeRow o q.clock jitter) q.jobs := by
  obtain ⟨e, he, happly⟩ := apply_of_exec rfl h
  simp only [Leases.applyExec] at happly
  split at happly
  · rename_i o hstage
    split at happly
    · cases happly
    · cases happly
      exact ⟨e, o, he, hstage, e.outcome_eq o _ _ _⟩
  · cases happly

end

end Akerdock.Queue

namespace Akerdock.Tasks

open Store Queue Table Proc

/-! ## The condition -/

/-- The execution row `x` of a job, if it is a run of a task, has not been
performed. -/
def unperformed (s : State) (j : Job) : Prop :=
  ∀ x ∈ execution? j.payload, x ∉ s.performed

instance (s : State) (j : Job) : Decidable (unperformed s j) :=
  inferInstanceAs (Decidable (∀ x ∈ execution? j.payload, x ∉ s.performed))

/-- What has been performed is recorded.

* The lease of a task's job runs out only if the execution that held it is
  gone.
* An execution does not die, and does not lose the statement that records its
  outcome, after it has performed.
* The closing write of a command that ran does not fail. -/
def Recorded (a : Action) (s : State) : Prop :=
  match a with
  | .queue .reap =>
    ∀ r ∈ s.queue.jobs, r.leaseExpired s.queue.clock = true →
      (execution? r.payload).isSome = true →
        ∀ e ∈ s.queue.execs, e.job.id = r.id → e.stage.atWork = false
  | .queue (.dies i) | .queue (.loses i) =>
    ∀ e ∈ s.queue.execs[i]?, e.stage.atWork = true → unperformed s e.job
  | .handler i o =>
    match s.handlers i with
    | .finish _ .returned => o.isDone = true
    | _ => True
  | _ => True

instance (a : Action) (s : State) : Decidable (Recorded a s) := by
  unfold Recorded
  split <;> try infer_instance
  split <;> infer_instance

/-! ## The invariant -/

def Handler.past : Handler → Bool
  | .finish _ .returned | .finish _ (.logged .succeeded)
  | .returns .succeeded => true
  | _ => false

/-- The execution `i` has performed what its job is for. -/
def Past (s : State) (i : Nat) (e : Execution) : Prop :=
  e.stage = .running ∧ (s.handlers i).past = true ∨ e.stage = .returned .succeeded

theorem Past.atWork (h : Past s i e) : e.stage.atWork = true := by
  rcases h with ⟨h, _⟩ | h
  all_goals
    rw [h]
    rfl

/-- What holds in the runs in which everything performed is recorded. -/
structure Once (s : State) : Prop where
  linked : Linked s
  held : ∀ i e, s.queue.execs[i]? = some e → e.stage.atWork = true →
    (execution? e.job.payload).isSome = true →
      s.queue.holder e.job.id = some i ∧ ∃ r ∈ s.queue.jobs, r.heldBy e.job.id e.worker = true
  settled : ∀ x ∈ s.performed, ∀ r ∈ s.queue.jobs,
    execution? r.payload = some x → r.status = .succeeded ∨
      ∃ i e, s.queue.execs[i]? = some e ∧ e.job.id = r.id ∧ Past s i e
  nodup : s.performed.Nodup

theorem once_empty (clock : Nat) : Once (.empty clock) where
  linked := linked_empty clock
  held := fun _ _ h => nomatch h
  settled := nofun
  nodup := List.nodup_nil

theorem Once.eq_of_atWork (hs : Once s) {i j : Nat}
    (he : s.queue.execs[i]? = some e) (he' : s.queue.execs[j]? = some e')
    (hid : e.job.id = e'.job.id)
    (hpayload : (execution? e.job.payload).isSome = true)
    (hwork : e.stage.atWork = true) (hwork' : e'.stage.atWork = true) :
    i = j := by
  obtain ⟨hi, r, hr, hby⟩ := hs.held i e he hwork hpayload
  have hrid := (heldBy_iff.1 hby).1
  have hp := hs.linked.copies e (List.mem_of_getElem? he) r hr hrid
  have hp' := hs.linked.copies e' (List.mem_of_getElem? he') r hr (hrid.trans hid)
  rw [← hp, hp'] at hpayload
  obtain ⟨hj, _⟩ := hs.held j e' he' hwork' hpayload
  rw [hid, hj] at hi
  exact (Option.some.inj hi).symm

theorem Once.held_row (hs : Once s) {i : Nat} (he : s.queue.execs[i]? = some e)
    (hwork : e.stage.atWork = true) {r : Job} (hr : r ∈ s.queue.jobs)
    (hid : e.job.id = r.id) (hpayload : (execution? r.payload).isSome = true) :
    r.heldBy e.job.id e.worker = true := by
  rw [hs.linked.copies e (List.mem_of_getElem? he) r hr hid.symm] at hpayload
  obtain ⟨_, q, hq, hby⟩ := hs.held i e he hwork hpayload
  have hqid := (heldBy_iff.1 hby).1
  rw [hs.linked.sound.eq_of_id hr hq (hid.symm.trans hqid.symm)]
  exact hby

/-! ## Steps of the queue -/

section Queue

variable {s : State} {a : Queue.Action} {q : Leases}

/-- An execution of a task that is at work after the step and was there
before. -/
theorem Once.held_old (hs : Once s) (h : s.queue.apply a = some q)
    (hmay : Recorded (.queue a) s) {e e' : Execution}
    (he : s.queue.execs[i]? = some e) (he' : q.execs[i]? = some e')
    (hjob : e'.job = e.job) (hworker : e'.worker = e.worker)
    (hwork : e.stage.atWork = true) (hwork' : e'.stage.atWork = true)
    (hpayload : (execution? e.job.payload).isSome = true) :
    q.holder e'.job.id = some i ∧ ∃ r ∈ q.jobs, r.heldBy e'.job.id e'.worker = true := by
  have happlied := applied_of_apply h
  have hsound := hs.linked.sound
  obtain ⟨hholder, r, hr, hby⟩ := hs.held i e he hwork hpayload
  obtain ⟨hid, _, hheld⟩ := heldBy_iff.1 hby
  have hrp := hs.linked.copies e (List.mem_of_getElem? he) r hr hid
  obtain ⟨r', hr', hchange⟩ :=
    happlied.row_of_held hsound.distinct hsound.fresh hr hheld
  rw [hjob, hworker]
  rcases hchange.heldBy hby with hkept | ⟨k, jitter, e₀, o, rfl, he₀, hstage,
    hby₀⟩ | ⟨rfl, hexpired⟩
  · -- The lease is kept, and with it the holder.
    refine ⟨?_, r', hr', hkept⟩
    obtain ⟨_, _, hheld'⟩ := heldBy_iff.1 hkept
    rcases happlied.held hsound.distinct hr' hheld' with
      ⟨r₀, hr₀, hc₀, _, _, _, hsame⟩ |
      ⟨worker, r₀, _, hr₀, heligible, _, rfl, _, _⟩
    · have hr₀id : r₀.id = e.job.id := by rw [← hc₀.id_eq, hchange.id_eq, hid]
      rw [← hr₀id, hsame, hr₀id]
      exact hholder
    · have hsameid : r₀.id = r.id := hchange.id_eq
      have hqueued := Job.eligible_queued heligible
      rw [hsound.eq_of_id hr₀ hr hsameid] at hqueued
      rw [hqueued] at hheld
      cases hheld
  · -- The only execution that can record an outcome is `i` itself.
    have hid₀ : e.job.id = e₀.job.id := by
      rw [← hid, (heldBy_iff.1 hby₀).1]
    have hwork₀ : e₀.stage.atWork = true := by
      rw [hstage]
      rfl
    obtain rfl := hs.eq_of_atWork he he₀ hid₀ hpayload hwork hwork₀
    have hact := Applied.actor happlied rfl he he'
    cases hact
    cases hwork'
  · rw [← hrp] at hpayload
    have hnot := hmay r hr hexpired hpayload e (List.mem_of_getElem? he) hid.symm
    cases hnot.symm.trans hwork

theorem Once.held_queue (hs : Once s) (h : s.queue.apply a = some q)
    (hmay : Recorded (.queue a) s) (he' : q.execs[i]? = some e')
    (hwork' : e'.stage.atWork = true)
    (hpayload : (execution? e'.job.payload).isSome = true) :
    q.holder e'.job.id = some i ∧ ∃ r ∈ q.jobs, r.heldBy e'.job.id e'.worker = true := by
  have happlied := applied_of_apply h
  rcases happlied.exec_at he' with ⟨e, he, heq⟩ | ⟨_, _, _, rfl, _⟩
  · rcases heq with rfl | hchange
    · exact hs.held_old h hmay he he' rfl rfl hwork' hwork' hpayload
    · obtain ⟨hworker, hjob⟩ := hchange.frame
      rw [hjob] at hpayload
      exact hs.held_old h hmay he he' hjob hworker (hchange.atWork hwork') hwork' hpayload
  · exact Applied.begun happlied he'

/-- An execution that has performed goes on until its success is recorded. -/
theorem Past.step (h : s.queue.apply a = some q) (hmay : Recorded (.queue a) s)
    (hreturns : s.Returns a) (he : s.queue.execs[i]? = some e)
    (hpast : Past s i e) (hx : x ∈ s.performed)
    (hpayload : execution? e.job.payload = some x)
    (hrecord : ∀ jitter, a ≠ .record i jitter) :
    ∃ e', q.execs[i]? = some e' ∧ e'.job = e.job ∧ Past { s with queue := q } i e' := by
  have happlied := applied_of_apply h
  obtain ⟨e', he', _, hjob⟩ := happlied.exec_stays he
  refine ⟨e', he', hjob, ?_⟩
  have hwork := hpast.atWork
  rcases happlied.exec_change he he' with rfl | hchange
  · exact hpast
  · cases hchange with
    | marked hstage | unmarked hstage =>
      rcases hpast with ⟨hrun, _⟩ | hret
      · cases hstage.symm.trans hrun
      · cases hstage.symm.trans hret
    | beat => exact hpast
    | returned o hstage =>
      have hhandler := hreturns i o _ rfl he (by rw [hpayload]; rfl)
      rcases hpast with ⟨_, hp⟩ | hret
      · rw [hhandler] at hp
        cases o with
        | succeeded => exact .inr rfl
        | failed => cases hp
      · cases hstage.symm.trans hret
    | recorded o jitter => exact absurd rfl (hrecord jitter)
    | lost | unrecorded | died =>
      exact absurd hx (hmay _ he hwork x hpayload)
    | stopped hstage =>
      rw [hstage] at hwork
      cases hwork

section

variable (hs : Once s) (h : s.queue.apply a = some q) (hmay : Recorded (.queue a) s)
    (hnew : NoTask a)
    (hreturns : s.Returns a)

include hs h hmay hnew hreturns

theorem Once.settled_queue (hx : x ∈ s.performed) {r' : Job}
    (hr' : r' ∈ q.jobs) (hpayload : execution? r'.payload = some x) :
    r'.status = .succeeded ∨
      ∃ i e, q.execs[i]? = some e ∧ e.job.id = r'.id ∧ Past { s with queue := q } i e := by
  have happlied := applied_of_apply h
  obtain ⟨r, hr, hchange, hrp⟩ :=
    job_of_applied happlied hs.linked.sound hnew hr' hpayload
  rcases hs.settled x hx r hr hrp with hdone | ⟨i, e, he, hid, hpast⟩
  · refine .inl ?_
    have habsorbs := hchange.absorbs (by rw [hdone]; rfl)
    rcases habsorbs with heq | ⟨hdead, _⟩
    · rw [heq, hdone]
    · cases hdone.symm.trans hdead
  · have hcopy := hs.linked.copies e (List.mem_of_getElem? he) r hr hid.symm
    have hep : execution? e.job.payload = some x := by rw [← hcopy, hrp]
    by_cases hrecord : ∃ jitter, a = .record i jitter
    · -- The success is recorded, and the row of the job carries it.
      obtain ⟨jitter, rfl⟩ := hrecord
      obtain ⟨e₀, o, he₀, hstage, hjobs⟩ := apply_record h
      obtain rfl := Option.some.inj (he₀.symm.trans he)
      have ho : o = .succeeded := by
        rcases hpast with ⟨hrun, _⟩ | hret
        · cases hstage.symm.trans hrun
        · cases hstage.symm.trans hret
          rfl
      have hby := hs.held_row he hpast.atWork hr hid (by rw [hrp]; rfl)
      rw [hjobs] at hr'
      obtain ⟨r₀, hr₀, hr'eq⟩ := mem_updateWhere.1 hr'
      have hid₀ : r₀.id = r.id := by
        rw [← hchange.id_eq, hr'eq]
        split
        · exact (e₀.outcomeRow_id _ _ _ _).symm
        · rfl
      rw [hs.linked.sound.eq_of_id hr₀ hr hid₀, if_pos hby, ho] at hr'eq
      rw [hr'eq]
      exact .inl rfl
    · obtain ⟨e', he', hjob, hpast'⟩ := Past.step h hmay hreturns he hpast hx
        hep fun jitter heq => hrecord ⟨jitter, heq⟩
      exact .inr ⟨i, e', he', by rw [hjob, hid, hchange.id_eq], hpast'⟩

theorem Once.queue : Once { s with queue := q } where
  linked := hs.linked.queue h hnew
  held := fun _ _ he hwork hp => hs.held_queue h hmay he hwork hp
  settled := fun _ hx _ hr hp => hs.settled_queue h hmay hnew hreturns hx hr hp
  nodup := hs.nodup

end

end Queue

/-! ## Steps of the handlers -/

/-- A call that takes effect is followed by nothing that can fail the job. -/
theorem Handler.past_next_of_performs {h : Handler}
    (hperforms : h.performs o = true) (task : Option ScheduledTask) :
    (h.next task o).past = true := by
  cases h with
  | exec | dispatch => cases o <;> rfl
  | _ => cases hperforms

/-- After the effect the handler returns a success, provided that the closing
write of a command does not fail. -/
theorem Handler.past_next {h : Handler} (hpast : h.past = true)
    (hdone : ∀ status, h = .finish status .returned → o.isDone = true)
    (task : Option ScheduledTask) : (h.next task o).past = true := by
  cases h with
  | finish status closing =>
    cases closing with
    | returned =>
      simp only [Handler.next, Closing.result, hdone status rfl]
      rfl
    | logged r =>
      cases r with
      | succeeded => rfl
      | failed => cases hpast
  | returns r => exact hpast
  | _ => cases hpast

/-- Nothing is performed twice by one handler. -/
theorem Handler.not_past_of_performs {h : Handler}
    (hperforms : h.performs o = true) : h.past = false := by
  cases h with
  | exec | dispatch => rfl
  | _ => cases hperforms

section Handler

variable {s : State} {i x : Nat} {o : HandlerEnd} {e : Execution}

theorem Once.handler (hs : Once s) (hmay : Recorded (.handler i o) s)
    (he : s.queue.execs[i]? = some e) (hstage : e.stage = .running)
    (hpayload : e.job.payload = .scheduledTaskRun taskId x) :
    Once (s.handlerStep i taskId x o) := by
  have hwork : e.stage.atWork = true := by
    rw [hstage]
    rfl
  have hep : execution? e.job.payload = some x := by
    rw [hpayload]
    rfl
  have hsome : (execution? e.job.payload).isSome = true := by
    rw [hep]
    rfl
  have hdone : ∀ status, s.handlers i = .finish status .returned → o.isDone = true := by
    intro status heq
    simp only [Recorded, heq] at hmay
    exact hmay
  -- An execution that has performed before is the one that takes the step.
  have hself : x ∈ s.performed → (s.handlers i).past = true := by
    intro hx
    obtain ⟨_, r, hr, hby⟩ := hs.held i e he hwork hsome
    obtain ⟨hid, _, hheld⟩ := heldBy_iff.1 hby
    have hcopy := hs.linked.copies e (List.mem_of_getElem? he) r hr hid
    rcases hs.settled x hx r hr (by rw [hcopy, hep]) with hdone | ⟨j, e', he', hid', hpast⟩
    · rw [hdone] at hheld
      cases hheld
    · have hij := hs.eq_of_atWork he he' (by rw [hid', hid]) hsome hwork hpast.atWork
      subst hij
      cases he.symm.trans he'
      rcases hpast with ⟨_, hp⟩ | hret
      · exact hp
      · cases hstage.symm.trans hret
  -- The place of a handler that has performed, after the step.
  have hpast : ∀ j e', s.queue.execs[j]? = some e' → Past s j e' →
      Past (s.handlerStep i taskId x o) j e' := by
    intro j e' he' hp
    rcases hp with ⟨hrun, hp⟩ | hret
    · refine .inl ⟨hrun, ?_⟩
      show (Function.update s.handlers i _ j).past = true
      by_cases hji : j = i
      · subst hji
        rw [Function.update_self]
        exact Handler.past_next hp hdone _
      · rw [Function.update_of_ne hji]
        exact hp
    · exact .inr hret
  refine {
    linked := hs.linked.handler he hpayload
    held := hs.held
    settled := ?_
    nodup := ?_ }
  · intro y hy r hr hrp
    by_cases hold : y ∈ s.performed
    · rcases hs.settled y hold r hr hrp with hdone | ⟨j, e', he', hid, hp⟩
      · exact .inl hdone
      · exact .inr ⟨j, e', he', hid, hpast j e' he' hp⟩
    · -- The effect has just taken place, and the handler is past it.
      have hcons : y ∈ (if (s.handlers i).performs o then x :: s.performed
          else s.performed) := hy
      split at hcons
      · rename_i hperforms
        obtain rfl : y = x := by
          rcases List.mem_cons.1 hcons with hyx | hyp
          · exact hyx
          · exact absurd hyp hold
        obtain ⟨_, r₀, hr₀, hby⟩ := hs.held i e he hwork hsome
        have hid := (heldBy_iff.1 hby).1
        have hcopy :=
          hs.linked.copies e (List.mem_of_getElem? he) r₀ hr₀ hid
        have hone := hs.linked.one r hr r₀ hr₀ y hrp (by rw [hcopy, hep])
        refine .inr ⟨i, e, he, by rw [hone, hid], .inl ⟨hstage, ?_⟩⟩
        show (Function.update s.handlers i _ i).past = true
        rw [Function.update_self]
        exact Handler.past_next_of_performs hperforms _
      · exact absurd hcons hold
  · show (if (s.handlers i).performs o then x :: s.performed
      else s.performed).Nodup
    split
    · rename_i hperforms
      refine List.nodup_cons.2 ⟨fun hx => ?_, hs.nodup⟩
      have hp := hself hx
      cases (Handler.not_past_of_performs hperforms).symm.trans hp
    · exact hs.nodup

end Handler

/-! ## All steps -/

/-- A client or an edit, which touches neither the queue nor a handler. -/
theorem Once.frame (hs : Once s) (hl : Linked s') (hqueue : s'.queue = s.queue)
    (hhandlers : s'.handlers = s.handlers)
    (hperformed : s'.performed = s.performed) : Once s' := by
  refine {
    linked := hl
    held := ?_
    settled := ?_
    nodup := ?_ }
  · rw [hqueue]
    exact hs.held
  · rw [hqueue, hperformed]
    unfold Past
    rw [hhandlers]
    exact hs.settled
  · rw [hperformed]
    exact hs.nodup

/-- A new job is for a row that nothing was performed for. -/
theorem Once.enqueue (hs : Once s) (hk : Opens s k x)
    (hl : Linked ((s.setClient k c').enqueue t x)) :
    Once ((s.setClient k c').enqueue t x) where
  linked := hl
  held := by
    intro i e he hwork hpayload
    obtain ⟨hholder, r, hr, hby⟩ := hs.held i e he hwork hpayload
    exact ⟨hholder, r, List.mem_append_left _ hr, hby⟩
  settled := by
    refine fun y hy => forall_concat (hs.settled y hy) fun hrp => ?_
    obtain rfl : x = y := Option.some.inj hrp
    exact absurd (.inr (.inr hy)) (hs.linked.opening k x hk).2
  nodup := hs.nodup

theorem Once.step (hs : Once s) (hmay : Recorded a s) (h : Step cal s a s') : Once s' := by
  have hl := hs.linked.step h
  cases h with
  | queue hforeign h =>
    exact hs.queue h hmay (noTask_of_foreign hforeign) (returns_of_foreign hforeign)
  | returns _ _ hhandler h =>
    exact hs.queue h trivial nofun (returns_of_handler hhandler)
  | handler he hstage hpayload => exact hs.handler hmay he hstage hpayload
  | enqueues hk hc => exact hs.enqueue ⟨_, hk, rfl⟩ hl
  | _ => exact hs.frame hl rfl rfl rfl

theorem once_of_reaches (hmay : ∀ a s, may a s → Recorded a s)
    (h : Machine.Reaches (State.apply cal) may (.empty clock) s) : Once s :=
  h.invariant
    (fun a s _ hm happly hs => hs.step (hmay a s hm) (step_of_apply happly))
    (once_empty clock)

end Akerdock.Tasks
