import Akerdock.Lib.Pool

/-!
# Idempotency keys of jobs

`Enqueue` of `internal/queue/queue.go`, and the requests that call it with the
`Idempotency-Key` of their client.  The key is unique over the whole table of
jobs: an insertion that meets a row with the key inserts nothing, and the row
that is there is returned.

* `Enqueue` and `serve` are programs over the statements; any number of
  requests and of deferred cleanups run side by side, with the retention of the
  scheduler and with the producers that use no key.
* `KeysApart` is what a run is supposed to give: `apart`, no job is returned to
  two producers, and `served`, every deployment has a job of its own.
* A client may choose the key of another client, or its own one twice, so
  neither holds.  `keys_apart` has the condition: a key that is in the table is
  the key of the same producer, and no deployment is enqueued with it.
-/

namespace Akerdock.Keys

open Proc List Function Pool
open Prog (Follows)

/-! ## Producers of jobs -/

/-- The endpoints that enqueue a job with the key of the client. -/
inductive Endpoint where
  | deployApplication
  | deployService
  | rollbackApplication
  | redeployPreview
  | webhookDeploy
  | createAdoptionScan
  | adoptResources
  | disownApplication
  | disownService
  | validateServer
  | rotateEncryption
  | runServerCleanup
  | renewCertificate
  | executeBackupPlan
  | restoreBackupExecution
  | runRestoreDrill
  | executeComponentBackupPlan
  | restoreComponentBackupExecution
  | runComponentRestoreDrill
  | retryJob
  deriving DecidableEq

/-- The endpoint creates a deployment for the job to run. -/
def Endpoint.deploys : Endpoint → Bool
  | .deployApplication | .deployService | .rollbackApplication
  | .redeployPreview | .webhookDeploy => true
  | _ => false

/-- On whose behalf a job is enqueued with a key: a request of a team to an
endpoint, for one of its targets, or a cleanup that is put off. -/
inductive Producer where
  | request (team : Nat) (endpoint : Endpoint) (target : Nat)
  | deferCleanup (job : Nat)
  deriving DecidableEq

/-- The producer creates a deployment for the job to run. -/
def Producer.deploys : Producer → Bool
  | .request _ endpoint _ => endpoint.deploys
  | .deferCleanup _ => false

/-- The payload of a job, as far as it designates a deployment. -/
inductive JobPayload where
  | deploymentRun (deploymentID : Nat)
  | other
  deriving DecidableEq

/-- What `Enqueue` is called with.  `producer` stands for the fields that say
whose job it is. -/
structure EnqueueOptions where
  producer : Producer
  payload : JobPayload
  idempotencyKey : Option String

/-- `jobs`: a row, with the producer that inserted it, if that one is among
those that use keys. -/
structure JobRow where
  id : Nat
  payload : JobPayload
  idempotencyKey : Option String
  producer : Option Producer
  deriving DecidableEq

structure Tables where
  jobs : List JobRow
  nextJob : Nat
  nextDeployment : Nat

/-- Before the first request. -/
def Tables.empty : Tables :=
  ⟨[], 0, 0⟩

/-! ## The statements -/

/-- The statements of a request.  `getJobByIdempotencyKey` reads the key of the
options only. -/
inductive EnqueueCall where
  | createDeployment (target : Nat)
  | enqueueJob (opts : EnqueueOptions)
  | getJobByIdempotencyKey (opts : EnqueueOptions)

/-- The answers: the number of the deployment; the row, or no row. -/
def EnqueueAns : EnqueueCall → Type
  | .createDeployment _ => Nat
  | .enqueueJob _ => Option JobRow
  | .getJobByIdempotencyKey _ => Option JobRow

def JobRow.hasKey (key : Option String) (job : JobRow) : Bool :=
  key.isSome && job.idempotencyKey == key

def Tables.row (s : Tables) (opts : EnqueueOptions) : JobRow :=
  ⟨s.nextJob, opts.payload, opts.idempotencyKey, some opts.producer⟩

/-- What a statement does to the tables. -/
def EnqueueCall.act : (c : EnqueueCall) → Unit → Tables → EnqueueAns c × Tables
  | .createDeployment _, _, s =>
    (s.nextDeployment, { s with nextDeployment := s.nextDeployment + 1 })
  | .enqueueJob opts, _, s =>
    if s.jobs.any (JobRow.hasKey opts.idempotencyKey) then (none, s)
    else (some (s.row opts), { s with
      jobs := s.row opts :: s.jobs, nextJob := s.nextJob + 1 })
  | .getJobByIdempotencyKey opts, _, s =>
    (s.jobs.find? (JobRow.hasKey opts.idempotencyKey), s)

/-- What others do to the tables: the retention deletes rows, and producers
without a key insert rows and create deployments. -/
inductive Elsewhere : Tables → Tables → Prop where
  | purgeTerminalJobs (s : Tables) (keep : JobRow → Bool) :
      Elsewhere s { s with jobs := s.jobs.filter keep }
  | enqueueJob (s : Tables) (payload : JobPayload) :
      Elsewhere s { s with
        jobs := ⟨s.nextJob, payload, none, none⟩ :: s.jobs
        nextJob := s.nextJob + 1 }
  | createDeployment (s : Tables) :
      Elsewhere s { s with nextDeployment := s.nextDeployment + 1 }

/-! ## The requests -/

def Enqueue (opts : EnqueueOptions) : Prog EnqueueAns (Option JobRow) :=
  .call (.enqueueJob opts) fun (job : Option JobRow) =>
    match job with
    | some job => .ret (some job)
    | none =>
      if opts.idempotencyKey.isSome then
        .call (.getJobByIdempotencyKey opts) fun (job : Option JobRow) =>
          .ret job
      else .ret none

/-- A request that enqueues a job for each of its targets; only the webhook has
more than one.  `payload` is what the endpoints enqueue that create no
deployment. -/
structure ApiRequest where
  team : Nat
  endpoint : Endpoint
  targets : List Nat
  payload : JobPayload
  idempotencyKey : Option String

def ApiRequest.options (r : ApiRequest) (target : Nat) (payload : JobPayload) : EnqueueOptions :=
  ⟨.request r.team r.endpoint target, payload, r.idempotencyKey⟩

/-- The job for one target: `enqueueDeploymentWith`,
`enqueueNoBuildDeployment` and `RollbackApplication` create the deployment
first. -/
def enqueueTarget (r : ApiRequest) (target : Nat) : Prog EnqueueAns (Option JobRow) :=
  if r.endpoint.deploys then
    .call (.createDeployment target) fun (deploymentID : Nat) =>
      Enqueue (r.options target (.deploymentRun deploymentID))
  else Enqueue (r.options target r.payload)

/-- The targets of a request, one after another, up to an error.  The result is
the jobs that were returned. -/
def serve (r : ApiRequest) : List Nat → Prog EnqueueAns (List JobRow)
  | [] => .ret []
  | target :: rest => (enqueueTarget r target).bind fun
    | none => .ret []
    | some job => (serve r rest).bind fun jobs => .ret (job :: jobs)

/-- `deferCleanup`, for the job that found the server busy. -/
def deferCleanup (job : Nat) : Prog EnqueueAns (List JobRow) :=
  (Enqueue ⟨.deferCleanup job, .other,
    some ("server-cleanup-deferred:" ++ toString job)⟩).bind fun
  | none => .ret []
  | some job => .ret [job]

/-- The tables, with the statements that may be made. -/
def tables (may : EnqueueCall → Tables → Prop) : System EnqueueAns Unit Tables where
  sem := EnqueueCall.act
  ok c _ s := may c s
  rely := Elsewhere

/-- The requests and the deferred cleanups, side by side. -/
def producers (may : EnqueueCall → Tables → Prop) : Pool (tables may) (List JobRow) where
  spawn s p s' := s = s' ∧
    ((∃ r : ApiRequest, p = serve r r.targets) ∨ ∃ job, p = deferCleanup job)

theorem spawns_serve (s : Tables) (r : ApiRequest) :
    (producers may).spawn s (serve r r.targets) s :=
  ⟨rfl, .inl ⟨r, rfl⟩⟩

/-! ## What keys are supposed to give -/

/-- The trace of a run, newest event first. -/
abbrev KeyTrace := List (Event EnqueueAns (List JobRow))

def Returned (t : KeyTrace) (opts : EnqueueOptions) (job : JobRow) : Prop :=
  ∃ k, Event.called k (.enqueueJob opts) (some job) ∈ t ∨
    Event.called k (.getJobByIdempotencyKey opts) (some job) ∈ t

def Designated (t : KeyTrace) (deploymentID : Nat) : Prop :=
  ∃ k opts job, Event.called k (.enqueueJob opts) (some job) ∈ t ∧
    job.payload = .deploymentRun deploymentID

/-- The keys do not interfere. -/
structure KeysApart (t : KeyTrace) : Prop where
  /-- No job is returned to two producers. -/
  apart : ∀ opts opts' job job', Returned t opts job →
    Returned t opts' job' → opts.producer ≠ opts'.producer → job.id ≠ job'.id
  /-- A request that is over has a job for each deployment it created. -/
  served : ∀ k jobs target (d : Nat), Event.ended k jobs ∈ t →
    Event.called k (.createDeployment target) d ∈ t → Designated t d

/-! ## Watching one producer -/

/-- How far a producer has come with a target: `created` with a deployment that
has no job yet, `refused` once the insertion of its job met a row. -/
inductive Progress where
  | clear
  | created (d : Nat)
  | refused

def Progress.next : Progress → (c : EnqueueCall) → EnqueueAns c → Progress
  | .refused, _, _ => .refused
  | _, .createDeployment _, d => .created d
  | .created _, .enqueueJob _, none => .refused
  | _, .enqueueJob _, _ => .clear
  | st, .getJobByIdempotencyKey _, _ => st

/-- The statements of each stage. -/
def Progress.calls : Progress → EnqueueCall → Prop
  | .clear, .enqueueJob opts => opts.producer.deploys = false
  | .created d, .enqueueJob opts => opts.producer.deploys = true ∧
      opts.payload = .deploymentRun d
  | .created _, _ => False
  | _, _ => True

/-- A producer does not end with a deployment that it has not enqueued. -/
def Progress.ends {α : Type} : Progress → α → Prop
  | .created _, _ => False
  | _, _ => True

variable {opts : EnqueueOptions} {c : EnqueueCall}

section Follows

variable {α : Type}

theorem follows_refused (p : Prog EnqueueAns α) :
    Follows Progress.next Progress.calls Progress.ends .refused p := by
  induction p with
  | ret a => exact .ret _ _ trivial
  | call c next ih => exact .call _ _ _ trivial ih

theorem follows_of_ends (hst : st.ends b)
    (hp : Follows Progress.next Progress.calls Progress.ends .clear p) :
    Follows Progress.next Progress.calls Progress.ends st p := by
  cases st with
  | clear => exact hp
  | created d => cases hst
  | refused => exact follows_refused p

theorem follows_Enqueue (h : st.calls (.enqueueJob opts)) :
    Follows Progress.next Progress.calls Progress.ends st (Enqueue opts) := by
  refine .call _ _ _ h ?_
  intro (job : Option JobRow)
  cases st with
  | refused => exact follows_refused _
  | clear =>
    cases job with
    | some job => exact .ret _ _ trivial
    | none =>
      show Follows _ _ _ Progress.clear (if _ then _ else _)
      split
      · exact .call _ _ _ trivial fun _ => .ret _ _ trivial
      · exact .ret _ _ trivial
  | created d =>
    cases job with
    | some job => exact .ret _ _ trivial
    | none => exact follows_refused _

theorem follows_enqueueTarget (r : ApiRequest) (target : Nat) :
    Follows Progress.next Progress.calls Progress.ends .clear
      (enqueueTarget r target) := by
  unfold enqueueTarget
  split
  · next hdeploys =>
    exact .call _ _ _ trivial fun _ => follows_Enqueue ⟨hdeploys, rfl⟩
  · next hdeploys =>
    exact follows_Enqueue (Bool.eq_false_iff.2 hdeploys)

theorem follows_serve (r : ApiRequest) (targets : List Nat) :
    Follows Progress.next Progress.calls Progress.ends .clear (serve r targets) := by
  induction targets with
  | nil => exact .ret _ _ trivial
  | cons target rest ih =>
    refine (follows_enqueueTarget r target).bind ?_
    intro st job hst
    refine follows_of_ends hst ?_
    cases job with
    | none => exact .ret _ _ trivial
    | some job =>
      refine ih.bind ?_
      intro st jobs hst
      exact follows_of_ends hst (.ret _ _ trivial)

theorem follows_deferCleanup (job : Nat) :
    Follows Progress.next Progress.calls Progress.ends .clear (deferCleanup job) := by
  have hcalls : Progress.clear.calls (.enqueueJob ⟨.deferCleanup job, .other,
      some ("server-cleanup-deferred:" ++ toString job)⟩) := rfl
  refine (follows_Enqueue hcalls).bind ?_
  intro st job hst
  refine follows_of_ends hst ?_
  cases job <;> exact .ret _ _ trivial

end Follows

/-! ## When the keys do not interfere -/

/-- A row with the key of the options is a job of the same producer, and that
one creates no deployments. -/
def SameProducer (opts : EnqueueOptions) (s : Tables) : Prop :=
  ∀ job ∈ s.jobs, job.hasKey opts.idempotencyKey = true →
    job.producer = some opts.producer ∧ opts.producer.deploys = false

/-- The condition on the statements of a run. -/
def KeysOwned : EnqueueCall → Tables → Prop
  | .createDeployment _, _ => True
  | .enqueueJob opts, s => SameProducer opts s
  | .getJobByIdempotencyKey opts, s => SameProducer opts s

instance (opts : EnqueueOptions) (s : Tables) : Decidable (SameProducer opts s) :=
  inferInstanceAs (Decidable (∀ job ∈ s.jobs, _))

instance (c : EnqueueCall) (o : Unit) (s : Tables) :
    Decidable ((tables KeysOwned).ok c o s) := by
  show Decidable (KeysOwned c s)
  unfold KeysOwned
  split <;> infer_instance

def Known (s : Tables) (t : KeyTrace) (job : JobRow) : Prop :=
  job ∈ s.jobs ∨ ∃ opts, Returned t opts job

/-- The numbers of the jobs are theirs alone. -/
structure Numbered (s : Tables) (t : KeyTrace) : Prop where
  lt : ∀ job, Known s t job → job.id < s.nextJob
  single : ∀ job job', Known s t job → Known s t job' → job.id = job'.id →
    job = job'

/-- The deployment `d` of the process `k` has a job, or the process is about to
enqueue one, or it died. -/
def Attended (m : Nat → Option Progress) (t : KeyTrace) (k d : Nat) : Prop :=
  Designated t d ∨ m k = some (.created d) ∨ (m k = none ∧ ∀ jobs, Event.ended k jobs ∉ t)

/-- What holds in every run under the condition. -/
structure Kept (m : Nat → Option Progress) (s : Tables) (t : KeyTrace) : Prop where
  numbered : Numbered s t
  own : ∀ opts job, Returned t opts job → job.producer = some opts.producer
  attended : ∀ k target (d : Nat),
    Event.called k (.createDeployment target) d ∈ t → Attended m t k d
  running : ∀ k st, m k = some st → ∀ jobs, Event.ended k jobs ∉ t
  admitted : ∀ k, m k ≠ some .refused

theorem Numbered.mono (h : Numbered s t) (hle : s.nextJob ≤ s'.nextJob)
    (hknown : ∀ job, Known s' t' job → Known s t job) : Numbered s' t' := by
  refine ⟨?_, ?_⟩
  · intro job hjob
    exact Nat.lt_of_lt_of_le (h.lt job (hknown job hjob)) hle
  · intro job job' hjob hjob'
    exact h.single job job' (hknown job hjob) (hknown job' hjob')

theorem Numbered.insert (h : Numbered s t) (hnew : new.id = s.nextJob)
    (hlt : s'.nextJob = s.nextJob + 1)
    (hknown : ∀ job, Known s' t' job → Known s t job ∨ job = new) :
    Numbered s' t' := by
  refine ⟨?_, ?_⟩
  · intro job hjob
    rcases hknown job hjob with hold | hold
    · have := h.lt job hold
      omega
    · rw [hold]
      omega
  · intro job job' hjob hjob' hid
    rcases hknown job hjob with hold | hold <;>
      rcases hknown job' hjob' with hold' | hold'
    · exact h.single job job' hold hold' hid
    · have := h.lt job hold
      rw [hold'] at hid
      omega
    · have := h.lt job' hold'
      rw [hold] at hid
      omega
    · rw [hold, hold']

theorem Designated.cons (h : Designated t d) : Designated (e :: t) d := by
  obtain ⟨k, opts, job, hmem, hpayload⟩ := h
  exact ⟨k, opts, job, mem_cons_of_mem _ hmem, hpayload⟩

theorem Returned.of_cons (h : Returned (e :: t) opts job) :
    Returned t opts job ∨
      ∃ k, e = .called k (.enqueueJob opts) (some job) ∨
        e = .called k (.getJobByIdempotencyKey opts) (some job) := by
  obtain ⟨k, hk | hk⟩ := h
  · rcases mem_cons.1 hk with he | hmem
    · exact .inr ⟨k, .inl he.symm⟩
    · exact .inl ⟨k, .inl hmem⟩
  · rcases mem_cons.1 hk with he | hmem
    · exact .inr ⟨k, .inr he.symm⟩
    · exact .inl ⟨k, .inr hmem⟩

theorem Known.of_cons (h : Known s (e :: t) job) :
    Known s t job ∨ ∃ k opts, e = .called k (.enqueueJob opts) (some job) ∨
      e = .called k (.getJobByIdempotencyKey opts) (some job) := by
  rcases h with hmem | ⟨opts, hret⟩
  · exact .inl (.inl hmem)
  · rcases hret.of_cons with hold | ⟨k, he⟩
    · exact .inl (.inr ⟨opts, hold⟩)
    · exact .inr ⟨k, opts, he⟩

/-- A process that has enqueued what it created can go on, or end. -/
theorem Attended.cons (h : Attended m t k' d) (hk : m k = some st) (he : e.proc = k)
    (hst : st = .created d → Designated (e :: t) d) :
    Attended (update m k x) (e :: t) k' d := by
  rcases h with h | h | ⟨hnone, hended⟩
  · exact .inl h.cons
  · by_cases hkk : k' = k
    · subst hkk
      exact .inl (hst (Option.some.inj (hk.symm.trans h)))
    · exact .inr (.inl (by rw [update_of_ne hkk, h]))
  · have hkk : k' ≠ k := by
      intro heq
      rw [heq, hk] at hnone
      cases hnone
    refine .inr (.inr ⟨by rw [update_of_ne hkk, hnone], ?_⟩)
    intro jobs hmem
    rcases mem_cons.1 hmem with rfl | hmem
    · exact hkk he
    · exact hended jobs hmem

section

variable (h : Kept m s t) (hk : m k = some st)

include h hk

/-- A call keeps the trace in order if what it returns is the producer's own
and the deployment of its process is attended. -/
theorem Kept.called (hnumbered : Numbered s' (.called k c a :: t))
    (hown : ∀ opts job, (⟨c, a⟩ : Sigma EnqueueAns) = ⟨.enqueueJob opts, some job⟩ ∨
      (⟨c, a⟩ : Sigma EnqueueAns) = ⟨.getJobByIdempotencyKey opts, some job⟩ →
      job.producer = some opts.producer)
    (hst : ∀ d, st = .created d → Designated (.called k c a :: t) d)
    (hcreated : ∀ target (d : Nat), (⟨c, a⟩ : Sigma EnqueueAns) =
      ⟨.createDeployment target, d⟩ → st' = .created d) (hst' : st' ≠ .refused) :
    Kept (update m k (some st')) s' (.called k c a :: t) := by
  refine ⟨hnumbered, ?_, ?_, ?_, ?_⟩
  · intro opts job hret
    rcases hret.of_cons with hold | ⟨k', he | he⟩
    · exact h.own opts job hold
    · cases he
      exact hown opts job (.inl rfl)
    · cases he
      exact hown opts job (.inr rfl)
  · intro k' target d hmem
    rcases mem_cons.1 hmem with he | hold
    · cases he
      refine .inr (.inl ?_)
      rw [update_self, hcreated target d rfl]
    · exact (h.attended k' target d hold).cons hk rfl (hst d)
  · intro k' st₁ hk' jobs hmem
    rcases mem_cons.1 hmem with he | hold
    · cases he
    · rcases update_some hk' with ⟨rfl, -⟩ | hk'
      · exact h.running _ st hk jobs hold
      · exact h.running k' st₁ hk' jobs hold
  · intro k' hk'
    rcases update_some hk' with ⟨-, heq⟩ | hk'
    · exact hst' heq.symm
    · exact h.admitted k' hk'

/-- The stage of a process that creates a deployment or looks up a job. -/
theorem Kept.clear (hc : st.calls c) (hne : ∀ opts, c ≠ .enqueueJob opts) : st = .clear := by
  cases st with
  | clear => rfl
  | refused => exact absurd hk (h.admitted k)
  | created d =>
    cases c with
    | enqueueJob opts => exact absurd rfl (hne opts)
    | createDeployment target | getJobByIdempotencyKey opts => cases hc

theorem Kept.createDeployment (hc : st.calls (.createDeployment target)) :
    Kept (update m k (some (st.next (.createDeployment target) s.nextDeployment)))
      { s with nextDeployment := s.nextDeployment + 1 }
      (.called k (.createDeployment target) s.nextDeployment :: t) := by
  have hclear : st = .clear := h.clear hk hc (by simp)
  subst hclear
  refine h.called hk ?_ ?_ (by simp) ?_ (by simp [Progress.next])
  · refine h.numbered.mono (Nat.le_refl _) ?_
    intro job hjob
    rcases hjob.of_cons with hold | ⟨k', opts', he | he⟩
    · exact hold
    · cases he
    · cases he
  · rintro opts job (heq | heq) <;> cases heq
  · intro target' d heq
    cases heq
    rfl

theorem Kept.getJobByIdempotencyKey (hc : st.calls (.getJobByIdempotencyKey opts))
    (hsame : SameProducer opts s)
    (ha : s.jobs.find? (JobRow.hasKey opts.idempotencyKey) = a) :
    Kept (update m k (some (st.next (.getJobByIdempotencyKey opts)
        a))) s (.called k (.getJobByIdempotencyKey opts) a :: t) := by
  have hclear : st = .clear := h.clear hk hc (by simp)
  subst hclear
  refine h.called hk ?_ ?_ (by simp) ?_ (by simp [Progress.next])
  · refine h.numbered.mono (Nat.le_refl _) ?_
    intro job hjob
    rcases hjob.of_cons with hold | ⟨k', opts', he | he⟩
    · exact hold
    · cases he
    · cases he
      exact .inl (mem_of_find?_eq_some ha)
  · rintro opts' job (heq | heq) <;> cases heq
    exact (hsame job (mem_of_find?_eq_some ha) (find?_some ha)).1
  · intro target d heq
    cases heq

theorem Kept.inserted (hc : st.calls (.enqueueJob opts)) :
    Kept (update m k (some .clear))
      { s with jobs := s.row opts :: s.jobs, nextJob := s.nextJob + 1 }
      (.called k (.enqueueJob opts) (some (s.row opts)) :: t) := by
  refine h.called hk ?_ ?_ ?_ ?_ (by simp)
  · have hid : (s.row opts).id = s.nextJob := rfl
    refine h.numbered.insert hid rfl ?_
    intro job hjob
    rcases hjob.of_cons with (hmem | hret) | ⟨k', opts', he | he⟩
    · rcases mem_cons.1 hmem with hnew | hold
      · exact .inr hnew
      · exact .inl (.inl hold)
    · exact .inl (.inr hret)
    · cases he
      exact .inr rfl
    · cases he
  · rintro opts' job (heq | heq) <;> cases heq
    rfl
  · intro d hst
    subst hst
    exact ⟨k, opts, s.row opts, mem_cons_self, hc.2⟩
  · intro target d heq
    cases heq

theorem Kept.conflict (hc : st.calls (.enqueueJob opts)) (hsame : SameProducer opts s)
    (hany : s.jobs.any (JobRow.hasKey opts.idempotencyKey) = true) :
    Kept (update m k (some (st.next (.enqueueJob opts) none))) s
      (.called k (.enqueueJob opts) none :: t) := by
  obtain ⟨job, hjob, hkey⟩ := any_eq_true.1 hany
  have hdeploys := (hsame job hjob hkey).2
  have hclear : st = .clear := by
    cases st with
    | clear => rfl
    | refused => exact absurd hk (h.admitted k)
    | created d => rw [hc.1] at hdeploys; cases hdeploys
  subst hclear
  refine h.called hk ?_ ?_ (by simp) ?_ (by simp [Progress.next])
  · refine h.numbered.mono (Nat.le_refl _) ?_
    intro job hjob
    rcases hjob.of_cons with hold | ⟨k', opts', he | he⟩
    · exact hold
    · cases he
    · cases he
  · rintro opts' job (heq | heq) <;> cases heq
  · intro target d heq
    cases heq

theorem Kept.call (hc : st.calls c) (hok : KeysOwned c s) :
    Kept (update m k (some (st.next c (c.act () s).1))) (c.act () s).2
      (.called k c (c.act () s).1 :: t) := by
  cases c with
  | createDeployment target => exact h.createDeployment hk hc
  | getJobByIdempotencyKey opts => exact h.getJobByIdempotencyKey hk hc hok rfl
  | enqueueJob opts =>
    by_cases hany : s.jobs.any (JobRow.hasKey opts.idempotencyKey) = true
    · have hact : (EnqueueCall.enqueueJob opts).act () s = (none, s) := if_pos hany
      rw [hact]
      exact h.conflict hk hc hok hany
    · have hact : (EnqueueCall.enqueueJob opts).act () s = (some (s.row opts),
          { s with jobs := s.row opts :: s.jobs, nextJob := s.nextJob + 1 }) :=
        if_neg hany
      have hnext : st.next (.enqueueJob opts) (some (s.row opts)) = .clear := by
        cases st with
        | refused => exact absurd hk (h.admitted k)
        | clear | created d => rfl
      rw [hact, hnext]
      exact h.inserted hk hc

end

theorem Kept.start (h : Kept m s t) (hnew : ∀ e ∈ t, e.proc ≠ k) :
    Kept (update m k (some .clear)) s t := by
  refine ⟨h.numbered, h.own, ?_, ?_, ?_⟩
  · intro k' target d hmem
    have hkk : k' ≠ k := hnew _ hmem
    rw [Attended, update_of_ne hkk]
    exact h.attended k' target d hmem
  · intro k' st' hk' jobs hmem
    rcases update_some hk' with ⟨heq, -⟩ | hold
    · exact hnew _ hmem heq
    · exact h.running k' st' hold jobs hmem
  · intro k' hk'
    rcases update_some hk' with ⟨-, heq⟩ | hold
    · cases heq
    · exact h.admitted k' hold

theorem Kept.done (h : Kept m s t) (hk : m k = some st) (hends : st.ends jobs) :
    Kept (update m k none) s (.ended k jobs :: t) := by
  refine ⟨?_, ?_, ?_, ?_, ?_⟩
  · refine h.numbered.mono (Nat.le_refl _) ?_
    intro job hjob
    rcases hjob.of_cons with hold | ⟨k', opts', he | he⟩
    · exact hold
    · cases he
    · cases he
  · intro opts job hret
    rcases hret.of_cons with hold | ⟨k', he | he⟩
    · exact h.own opts job hold
    · cases he
    · cases he
  · intro k' target d hmem
    rcases mem_cons.1 hmem with he | hold
    · cases he
    · refine (h.attended k' target d hold).cons hk rfl ?_
      rintro rfl
      cases hends
  · intro k' st' hk' jobs' hmem
    rcases mem_cons.1 hmem with he | hold
    · cases he
      simp at hk'
    · exact h.running k' st' (update_none hk') jobs' hold
  · intro k' hk'
    exact h.admitted k' (update_none hk')

theorem Kept.die (h : Kept m s t) : Kept (update m k none) s t := by
  refine ⟨h.numbered, h.own, ?_, ?_, ?_⟩
  · intro k' target d hmem
    by_cases hkk : k' = k
    · subst hkk
      rcases h.attended k' target d hmem with hd | hd | hd
      · exact .inl hd
      · exact .inr (.inr ⟨update_self .., h.running k' _ hd⟩)
      · exact .inr (.inr ⟨update_self .., hd.2⟩)
    · rw [Attended, update_of_ne hkk]
      exact h.attended k' target d hmem
  · intro k' st' hk'
    exact h.running k' st' (update_none hk')
  · intro k' hk'
    exact h.admitted k' (update_none hk')

theorem Kept.other (h : Kept m s t) (hmove : Elsewhere s s') : Kept m s' t := by
  refine ⟨?_, h.own, h.attended, h.running, h.admitted⟩
  cases hmove with
  | purgeTerminalJobs keep =>
    refine h.numbered.mono (Nat.le_refl _) ?_
    intro job hjob
    exact hjob.imp_left fun hmem => (mem_filter.1 hmem).1
  | enqueueJob payload =>
    have hid : (JobRow.mk s.nextJob payload none none).id = s.nextJob := rfl
    refine h.numbered.insert hid rfl ?_
    intro job hjob
    rcases hjob with hmem | hret
    · rcases mem_cons.1 hmem with hnew | hold
      · exact .inr hnew
      · exact .inl (.inl hold)
    · exact .inl (.inr hret)
  | createDeployment =>
    exact h.numbered.mono (Nat.le_refl _) fun job hjob => hjob

theorem watch_kept : Pool.Watch (producers KeysOwned) Progress.next
    Progress.calls Progress.ends Kept where
  start h _ hnew hspawn := by
    obtain ⟨rfl, ⟨r, rfl⟩ | ⟨job, rfl⟩⟩ := hspawn
    · exact ⟨.clear, follows_serve r r.targets, h.start hnew⟩
    · exact ⟨.clear, follows_deferCleanup job, h.start hnew⟩
  call h hk hc hok := h.call hk hc hok
  done h hk hends := h.done hk hends
  die h := h.die
  other h hmove := h.other hmove

theorem kept_empty : Kept (fun _ => none) .empty [] := by
  have hnone : ∀ job, ¬Known .empty [] job := by
    intro job hjob
    rcases hjob with hmem | ⟨opts, k, hmem | hmem⟩ <;> cases hmem
  refine ⟨⟨?_, ?_⟩, ?_, ?_, ?_, ?_⟩
  · intro job hjob
    exact absurd hjob (hnone job)
  · intro job job' hjob
    exact absurd hjob (hnone job)
  · intro opts job hret
    exact absurd (.inr ⟨opts, hret⟩) (hnone job)
  · intro k target d hmem
    cases hmem
  · intro k st hk
    cases hk
  · intro k hk
    cases hk

/-- A deployment of an application, with the key `k`. -/
def deployRequest (team application : Nat) : ApiRequest :=
  ⟨team, .deployApplication, [application], .other, some "k"⟩

/-- The check of a server of another team, with a key of its own. -/
def validateRequest : ApiRequest :=
  ⟨2, .validateServer, [5], .other, some "v"⟩

/-- A deployment of one team, and the check that the other team asks for twice. -/
def repeatedCheck : Pool.Config EnqueueAns Tables (List JobRow) :=
  ((((((Pool.Config.initial Tables.empty).launch (tables KeysOwned) ()
    (serve (deployRequest 1 1) [1]) 2).finish 0).launch (tables KeysOwned) ()
      (serve validateRequest [5]) 1).finish 1).launch (tables KeysOwned) ()
        (serve validateRequest [5]) 2).finish 2

/-- The request of one team, and then a request of another team with the same
key. -/
def twoTeams : Pool.Config EnqueueAns Tables (List JobRow) :=
  ((((Pool.Config.initial Tables.empty).launch (tables fun _ _ => True) ()
    (serve (deployRequest 1 1) [1]) 2).finish 0).launch
      (tables fun _ _ => True) () (serve (deployRequest 2 2) [2]) 3).finish 1

end Akerdock.Keys
