import Akerdock.Lib.Machine
import Akerdock.Lib.Table

/-!
# The commands that an agent runs

The agent reads commands, cancels and input from its channel.  A command runs in
its own goroutine, which enters itself into `inflight` when it starts, and an
exec session also into `attaches`; a cancel and an input chunk find it there.
Both registries are keyed by the id of the command alone, and the control plane
counts the ids of each connection from one.

* `Run` is one command, from its frame to the end of its goroutine.
* `Apart` is that a command is read when no command of an earlier connection
  with its id is running, and a cancel when its command is registered.
* `commands_apart` is the result.
-/

namespace Akerdock.Agent.Commands

open Table List
open Machine (Reaches run)

/-! ## The model -/

/-- How far `Execute` is: its goroutine is started, the command is registered,
its context is cancelled at the end, and it is not registered any more. -/
inductive Stage where
  | spawned
  | running
  | leaving
  | finished
  deriving DecidableEq

/-- A command of the connection `conn`.

* `attached` says that its exec session is in `attaches`.
* `cancelled` is its context.
* `asked` says that a cancel for it was read on its connection, before it was
  finished. -/
structure Run where
  key : Nat
  conn : Nat
  id : Nat
  stage : Stage
  attached : Bool
  cancelled : Bool
  asked : Bool

/-- The executor.  `conn` is the number of the last connection, and `writes` are
the input chunks that were written: the connection and the command they came
for, and the run that got them. -/
structure State where
  conn : Nat
  runs : List Run
  inflight : AList fun _ : Nat => Nat
  attaches : AList fun _ : Nat => Nat
  writes : List (Nat × Nat × Nat)

def State.empty : State := ⟨0, [], ∅, ∅, []⟩

/-- A frame that the read loop hands to the executor. -/
inductive Frame where
  | command (id : Nat)
  | cancel (id : Nat)
  | input (id : Nat)

/-- The steps.

* `connect` closes the channel, which ends the contexts of its commands, and
  dials a new one.
* `frame` is the read loop of a connection.  That of an earlier one may still
  be handling a frame.
* `register` to `remove` are of the goroutine of a command. -/
inductive Action where
  | connect
  | frame (c : Nat) (f : Frame)
  | register (k : Nat)
  | attach (k : Nat)
  | detach (k : Nat)
  | leave (k : Nat)
  | remove (k : Nat)

/-- The runs with `p` change. -/
def State.update (s : State) (p : Run → Bool) (f : Run → Run) : State :=
  { s with runs := updateWhere p f s.runs }

/-- The command `id` of the connection `c`. -/
def Run.isOf (r : Run) (c id : Nat) : Bool := r.conn = c && r.id = id

/-- What the read loop of the connection `c` does with a frame.  The control
plane numbers the commands of a connection, and sends input only for a command
that it has sent. -/
def State.handle (s : State) (c : Nat) : Frame → Option State
  | .command id =>
    if s.runs.any (·.isOf c id) then none
    else some { s with
      runs := s.runs ++ [⟨s.runs.length, c, id, .spawned, false, false, false⟩] }
  | .cancel id =>
    some ((s.update (fun r => s.inflight.lookup id = some r.key)
        fun r => { r with cancelled := true }).update
      (fun r => r.isOf c id && r.stage ≠ .finished) fun r => { r with asked := true })
  | .input id =>
    if s.runs.any (·.isOf c id) then
      some { s with
        writes := ((s.attaches.lookup id).map fun k => (c, id, k)).toList ++ s.writes }
    else none

/-- A step of the goroutine of the command `k`. -/
def State.onRun (s : State) (k : Nat) (may : Run → Bool) (f : Run → Run)
    (act : State → Nat → State) : Option State :=
  (row? Run.key k s.runs).bind fun r =>
    if may r then some (act (s.update (·.key = k) f) r.id) else none

def State.apply (a : Action) (s : State) : Option State :=
  match a with
  | .connect =>
    some { s.update (fun _ => true) (fun r => { r with cancelled := true }) with
      conn := s.conn + 1 }
  | .frame c f => if 0 < c ∧ c ≤ s.conn then s.handle c f else none
  | .register k =>
    s.onRun k (·.stage = .spawned) (fun r => { r with stage := .running })
      fun s id => { s with inflight := s.inflight.insert id k }
  | .attach k =>
    s.onRun k (fun r => r.stage = .running && !r.attached)
      (fun r => { r with attached := true })
      fun s id => { s with attaches := s.attaches.insert id k }
  | .detach k =>
    s.onRun k (·.attached) (fun r => { r with attached := false })
      fun s id => { s with attaches := s.attaches.erase id }
  | .leave k =>
    s.onRun k (fun r => r.stage = .running && !r.attached)
      (fun r => { r with stage := .leaving, cancelled := true }) fun s _ => s
  | .remove k =>
    s.onRun k (·.stage = .leaving) (fun r => { r with stage := .finished })
      fun s id => { s with inflight := s.inflight.erase id }

/-! ## The condition -/

/-- The commands do not meet.

* Frames are handled on the last connection only.
* A command is read when the commands of earlier connections with its id are
  finished.
* A cancel is read when the goroutine of its command has registered it. -/
def Apart (a : Action) (s : State) : Prop :=
  match a with
  | .frame c f =>
    c = s.conn ∧
      match f with
      | .command id => ∀ r ∈ s.runs, r.id = id → r.stage = .finished
      | .cancel id => ∀ r ∈ s.runs, r.isOf c id = true → r.stage ≠ .spawned
      | .input _ => True
  | _ => True

instance (a : Action) (s : State) : Decidable (Apart a s) := by
  unfold Apart
  split
  · refine @instDecidableAnd _ _ inferInstance ?_
    split <;> infer_instance
  · infer_instance

/-! ## The invariant -/

/-- The goroutine of the command has it in `inflight`. -/
def Run.registered (r : Run) : Prop := r.stage = .running ∨ r.stage = .leaving

/-- What holds in every run in which the commands do not meet. -/
structure Separate (s : State) : Prop where
  keys : ∀ r ∈ s.runs, r.key < s.runs.length
  distinct : (s.runs.map Run.key).Nodup
  conns : ∀ r ∈ s.runs, r.conn ≤ s.conn
  apart : ∀ r ∈ s.runs, ∀ r' ∈ s.runs, r.id = r'.id → r.key < r'.key →
    r.conn < r'.conn ∧ r.stage = .finished
  inflight : ∀ r ∈ s.runs, r.registered → s.inflight.lookup r.id = some r.key
  attaches : ∀ r ∈ s.runs, r.attached = true →
    s.attaches.lookup r.id = some r.key ∧ r.stage = .running
  owners : ∀ id k, s.attaches.lookup id = some k →
    ∃ r ∈ s.runs, r.key = k ∧ r.id = id ∧ r.attached = true
  asked : ∀ r ∈ s.runs, r.asked = true → r.cancelled = true
  writes : ∀ w ∈ s.writes, ∃ r ∈ s.runs, r.key = w.2.2 ∧
    r.conn = w.1 ∧ r.id = w.2.1

theorem separate_empty : Separate .empty where
  keys := nofun
  distinct := nodup_nil
  conns := nofun
  apart := nofun
  inflight := nofun
  attaches := nofun
  owners := nofun
  asked := nofun
  writes := nofun

section Steps

variable {s s' : State}

/-- Two commands with one id that are not finished are the same. -/
theorem Separate.alone (hs : Separate s) (hr : r ∈ s.runs) (hr' : r' ∈ s.runs)
    (hid : r.id = r'.id) (hlive : r.stage ≠ .finished)
    (hlive' : r'.stage ≠ .finished) : r = r' := by
  rcases Nat.lt_trichotomy r.key r'.key with hlt | heq | hgt
  · exact absurd (hs.apart r hr r' hr' hid hlt).2 hlive
  · exact inj_on_of_nodup_map hs.distinct hr hr' heq
  · exact absurd (hs.apart r' hr' r hr hid.symm hgt).2 hlive'

/-- What an update keeps of a command. -/
structure Keeps (f : Run → Run) (r : Run) : Prop where
  key : (f r).key = r.key
  id : (f r).id = r.id
  conn : (f r).conn = r.conn
  finished : r.stage = .finished → (f r).stage = .finished

section

variable (hs : Separate s)

include hs

/-- An update that keeps the identities of the commands. -/
theorem Separate.mapped (hf : ∀ r ∈ s.runs, p r = true → Keeps f r) :
    (∀ r ∈ updateWhere p f s.runs, r.key < (updateWhere p f s.runs).length) ∧
    ((updateWhere p f s.runs).map Run.key).Nodup ∧
    (∀ r ∈ updateWhere p f s.runs, r.conn ≤ s.conn) ∧
    (∀ r ∈ updateWhere p f s.runs, ∀ r' ∈ updateWhere p f s.runs,
      r.id = r'.id → r.key < r'.key → r.conn < r'.conn ∧ r.stage = .finished) ∧
    ∀ w ∈ s.writes, ∃ r ∈ updateWhere p f s.runs, r.key = w.2.2 ∧
      r.conn = w.1 ∧ r.id = w.2.1 := by
  have hkeep : ∀ r ∈ s.runs, Keeps (fun r => if p r then f r else r) r := by
    intro r hr
    by_cases hp : p r = true
    · have h := hf r hr hp
      exact ⟨by simp [hp, h.key], by simp [hp, h.id], by simp [hp, h.conn],
        by simpa [hp] using h.finished⟩
    · exact ⟨by simp [hp], by simp [hp], by simp [hp], by simp [hp]⟩
  have hmap : (updateWhere p f s.runs).map Run.key = s.runs.map Run.key := by
    rw [updateWhere, map_map]
    exact map_congr_left fun r hr => (hkeep r hr).key
  have hlength : (updateWhere p f s.runs).length = s.runs.length :=
    length_map _
  refine ⟨?_, hmap ▸ hs.distinct, ?_, ?_, ?_⟩
  · intro r hr
    obtain ⟨q, hq, rfl⟩ := mem_updateWhere.1 hr
    rw [hlength, (hkeep q hq).key]
    exact hs.keys q hq
  · intro r hr
    obtain ⟨q, hq, rfl⟩ := mem_updateWhere.1 hr
    rw [(hkeep q hq).conn]
    exact hs.conns q hq
  · intro r hr r' hr' hid hlt
    obtain ⟨q, hq, rfl⟩ := mem_updateWhere.1 hr
    obtain ⟨q', hq', rfl⟩ := mem_updateWhere.1 hr'
    rw [(hkeep q hq).id, (hkeep q' hq').id] at hid
    rw [(hkeep q hq).key, (hkeep q' hq').key] at hlt
    rw [(hkeep q hq).conn, (hkeep q' hq').conn]
    have h := hs.apart q hq q' hq' hid hlt
    exact ⟨h.1, (hkeep q hq).finished h.2⟩
  · intro w hw
    obtain ⟨q, hq, hkey, hconn, hid⟩ := hs.writes w hw
    refine ⟨_, mem_updateWhere.2 ⟨q, hq, rfl⟩, ?_, ?_, ?_⟩
    · rw [(hkeep q hq).key, hkey]
    · rw [(hkeep q hq).conn, hconn]
    · rw [(hkeep q hq).id, hid]

/-- A step of the goroutine of the command `r`, which changes the registries at
its id only. -/
theorem Separate.change (hr : row? Run.key k s.runs = some r)
    (hlive : r.stage ≠ .finished) (hkeep : Keeps f r)
    (hasked : (f r).asked = true → (f r).cancelled = true)
    {inflight attaches : AList fun _ : Nat => Nat}
    (hin : ∀ id, id ≠ r.id → inflight.lookup id = s.inflight.lookup id)
    (hin' : (f r).registered → inflight.lookup r.id = some k)
    (hat : ∀ id, id ≠ r.id → attaches.lookup id = s.attaches.lookup id)
    (hat' : (f r).attached = true → attaches.lookup r.id = some k ∧ (f r).stage = .running)
    (hown : ∀ k', attaches.lookup r.id = some k' → k' = k ∧ (f r).attached = true) :
    Separate { s.update (·.key = k) f with
      inflight := inflight, attaches := attaches } := by
  have hmem := row?_mem hr
  have hkey := row?_key hr
  have hself : ∀ q ∈ s.runs, q.key = k → q = r := by
    intro q hq hqk
    exact inj_on_of_nodup_map hs.distinct hq hmem (hqk.trans hkey.symm)
  -- A command that is not finished has another id than `r`, or is `r`.
  have hother : ∀ q ∈ s.runs, q.key ≠ k → q.stage ≠ .finished → q.id ≠ r.id := by
    intro q hq hqk hqlive hid
    exact hqk (by rw [hs.alone hq hmem hid hqlive hlive, hkey])
  have hmapped := hs.mapped (p := (·.key = k)) (f := f) fun q hq hqk =>
    hself q hq (of_decide_eq_true hqk) ▸ hkeep
  refine ⟨hmapped.1, hmapped.2.1, hmapped.2.2.1, hmapped.2.2.2.1, ?_, ?_, ?_, ?_,
    hmapped.2.2.2.2⟩
  · intro q' hq' hregistered
    rcases of_mem_updateKey hq' with ⟨q, hq, hqk, rfl⟩ | ⟨hq, hqk⟩
    · obtain rfl := hself q hq hqk
      rw [hkeep.id, hkeep.key, hkey]
      exact hin' hregistered
    · have hqlive : q'.stage ≠ .finished := by rcases hregistered with h | h <;> rw [h] <;> nofun
      rw [hin q'.id (hother q' hq hqk hqlive)]
      exact hs.inflight q' hq hregistered
  · intro q' hq' hattached
    rcases of_mem_updateKey hq' with ⟨q, hq, hqk, rfl⟩ | ⟨hq, hqk⟩
    · obtain rfl := hself q hq hqk
      rw [hkeep.id, hkeep.key, hkey]
      exact hat' hattached
    · have h := hs.attaches q' hq hattached
      rw [hat q'.id (hother q' hq hqk (by rw [h.2]; nofun))]
      exact h
  · intro id k' hlookup
    by_cases hid : id = r.id
    · subst hid
      obtain ⟨rfl, hattached⟩ := hown k' hlookup
      refine ⟨f r, mem_updateWhere.2 ⟨r, hmem, ?_⟩, ?_, hkeep.id, hattached⟩
      · rw [if_pos (decide_eq_true hkey)]
      · rw [hkeep.key, hkey]
    · have hlookup' : s.attaches.lookup id = some k' := by rwa [← hat id hid]
      obtain ⟨q, hq, hqkey, hqid, hattached⟩ := hs.owners id k' hlookup'
      have hqk : q.key ≠ k := by
        intro hqk
        rw [hself q hq hqk] at hqid
        exact hid hqid.symm
      refine ⟨q, mem_updateWhere.2 ⟨q, hq, ?_⟩, hqkey, hqid, hattached⟩
      rw [if_neg (by simpa using hqk)]
  · intro q' hq' h
    rcases of_mem_updateKey hq' with ⟨q, hq, hqk, rfl⟩ | ⟨hq, -⟩
    · obtain rfl := hself q hq hqk
      exact hasked h
    · exact hs.asked q' hq h

/-- The session of a command that is not finished is in `attaches` under its
id. -/
theorem Separate.owner (hr : row? Run.key k s.runs = some r)
    (hlive : r.stage ≠ .finished) (k' : Nat) (h : s.attaches.lookup r.id = some k') :
    k' = k ∧ r.attached = true := by
  obtain ⟨q, hq, hkey, hid, hattached⟩ := hs.owners r.id k' h
  have hq' := hs.alone hq (row?_mem hr) hid
    (by rw [(hs.attaches q hq hattached).2]; nofun) hlive
  subst hq'
  exact ⟨hkey.symm.trans (row?_key hr), hattached⟩

/-- An attached command runs. -/
theorem Separate.not_attached (hr : row? Run.key k s.runs = some r)
    (hstage : r.stage ≠ .running) : r.attached ≠ true :=
  fun h => hstage (hs.attaches r (row?_mem hr) h).2

theorem Separate.entry (hr : row? Run.key k s.runs = some r)
    (h : r.registered) : s.inflight.lookup r.id = some k := by
  rw [← row?_key hr]
  exact hs.inflight r (row?_mem hr) h

theorem Separate.touch (hf : ∀ r, (f r).key = r.key ∧ (f r).id = r.id ∧ (f r).conn = r.conn ∧
      (f r).stage = r.stage ∧ (f r).attached = r.attached)
    (hasked : ∀ r ∈ s.runs, p r = true → (f r).asked = true →
      (f r).cancelled = true) : Separate (s.update p f) := by
  have hmapped := hs.mapped (p := p) (f := f) fun r _ _ =>
    ⟨(hf r).1, (hf r).2.1, (hf r).2.2.1, fun h => (hf r).2.2.2.1.trans h⟩
  refine ⟨hmapped.1, hmapped.2.1, hmapped.2.2.1, hmapped.2.2.2.1, ?_, ?_, ?_, ?_,
    hmapped.2.2.2.2⟩
  · refine forall_updateWhere hs.inflight fun r hr _ _ h => ?_
    rw [(hf r).2.1, (hf r).1]
    refine hs.inflight r hr ?_
    rwa [Run.registered, (hf r).2.2.2.1] at h
  · refine forall_updateWhere hs.attaches fun r hr _ _ h => ?_
    rw [(hf r).2.1, (hf r).1, (hf r).2.2.2.1]
    exact hs.attaches r hr ((hf r).2.2.2.2 ▸ h)
  · intro id k h
    obtain ⟨r, hr, hkey, hid, hattached⟩ := hs.owners id k h
    refine ⟨_, mem_updateWhere.2 ⟨r, hr, rfl⟩, ?_⟩
    split
    · rw [(hf r).1, (hf r).2.1, (hf r).2.2.2.2]
      exact ⟨hkey, hid, hattached⟩
    · exact ⟨hkey, hid, hattached⟩
  · exact forall_updateWhere hs.asked fun r hr hp _ => hasked r hr hp

/-- A cancel reaches its command. -/
theorem Separate.cancel {id : Nat}
    (hmay : ∀ r ∈ s.runs, r.isOf s.conn id = true → r.stage ≠ .spawned) :
    Separate ((s.update (fun r => s.inflight.lookup id = some r.key)
        fun r => { r with cancelled := true }).update
      (fun r => r.isOf s.conn id && r.stage ≠ .finished)
        fun r => { r with asked := true }) := by
  have hcancelled : Separate (s.update (fun r => s.inflight.lookup id = some r.key)
      fun r => { r with cancelled := true }) :=
    hs.touch (fun _ => ⟨rfl, rfl, rfl, rfl, rfl⟩) fun _ _ _ _ => rfl
  refine hcancelled.touch (fun _ => ⟨rfl, rfl, rfl, rfl, rfl⟩) ?_
  intro r' hr' hp _
  obtain ⟨r, hr, rfl⟩ := mem_updateWhere.1 hr'
  by_cases hkey : s.inflight.lookup id = some r.key
  · rw [if_pos (decide_eq_true hkey)]
  · rw [if_neg (by simpa using hkey)] at hp
    simp only [Bool.and_eq_true, decide_eq_true_eq] at hp
    have hid : r.id = id := by
      have h := hp.1
      simp only [Run.isOf, Bool.and_eq_true, decide_eq_true_eq] at h
      exact h.2
    have hregistered : r.registered := by
      unfold Run.registered
      cases hstage : r.stage <;> simp_all
    exact absurd (hid ▸ hs.inflight r hr hregistered) hkey

theorem Separate.command {id : Nat}
    (hfresh : s.runs.any (·.isOf s.conn id) ≠ true)
    (hmay : ∀ r ∈ s.runs, r.id = id → r.stage = .finished) :
    Separate { s with
      runs := s.runs ++ [⟨s.runs.length, s.conn, id, .spawned, false, false, false⟩] } := by
  refine { hs with
    keys := ?_, distinct := ?_, conns := forall_concat hs.conns le_rfl
    apart := ?_, inflight := forall_concat hs.inflight (by simp [Run.registered])
    attaches := forall_concat hs.attaches (by simp), owners := ?_
    asked := forall_concat hs.asked (by simp), writes := ?_ }
  · rw [length_append]
    exact forall_concat (fun r hr => Nat.lt_add_right 1 (hs.keys r hr)) (Nat.lt_succ_self _)
  · exact nodup_concat hs.distinct fun r hr => Nat.ne_of_lt (hs.keys r hr)
  · refine forall_concat ?_ ?_
    · intro r hr
      refine forall_concat (hs.apart r hr) fun hid _ => ?_
      refine ⟨Nat.lt_of_le_of_ne (hs.conns r hr) ?_, hmay r hr hid⟩
      intro hconn
      have hid' : r.id = id := hid
      exact hfresh (any_eq_true.2 ⟨r, hr, by simp [Run.isOf, hconn, hid']⟩)
    · refine forall_concat ?_ fun _ hlt => absurd hlt (Nat.lt_irrefl _)
      intro r hr _ hlt
      exact absurd hlt (Nat.lt_asymm (hs.keys r hr))
  · intro id' k h
    obtain ⟨r, hr, h⟩ := hs.owners id' k h
    exact ⟨r, mem_append_left _ hr, h⟩
  · intro w hw
    obtain ⟨r, hr, h⟩ := hs.writes w hw
    exact ⟨r, mem_append_left _ hr, h⟩

theorem Separate.input {id : Nat} (hthere : s.runs.any (·.isOf s.conn id) = true) :
    Separate { s with
      writes := ((s.attaches.lookup id).map fun k => (s.conn, id, k)).toList ++ s.writes } := by
  refine { hs with writes := fun w hw => ?_ }
  rcases mem_append.1 hw with hw | hw
  · obtain ⟨k, hk, rfl⟩ : ∃ k, s.attaches.lookup id = some k ∧ (s.conn, id, k) = w := by
      simpa using hw
    obtain ⟨q, hq, hkey, hid, hattached⟩ := hs.owners id k hk
    obtain ⟨r, hr, hof⟩ := any_eq_true.1 hthere
    simp only [Run.isOf, Bool.and_eq_true, decide_eq_true_eq] at hof
    refine ⟨q, hq, hkey, ?_, hid⟩
    -- The session is not of an earlier command with this id: that is finished.
    have hlive : q.stage ≠ .finished := by
      rw [(hs.attaches q hq hattached).2]
      nofun
    rcases Nat.lt_trichotomy q.key r.key with hlt | heq | hgt
    · exact absurd (hs.apart q hq r hr (hid.trans hof.2.symm) hlt).2 hlive
    · rw [inj_on_of_nodup_map hs.distinct hq hr heq]
      exact hof.1
    · have hbefore := (hs.apart r hr q hq (hof.2.trans hid.symm) hgt).1
      have hle := hs.conns q hq
      omega
  · exact hs.writes w hw

theorem Separate.handle {f : Frame}
    (hmay : Apart (.frame s.conn f) s) (h : s.handle s.conn f = some s') :
    Separate s' := by
  cases f with
  | command id =>
    simp only [State.handle] at h
    split at h
    · cases h
    · rename_i hfresh
      cases h
      exact hs.command hfresh hmay.2
  | cancel id =>
    cases h
    exact hs.cancel hmay.2
  | input id =>
    obtain ⟨hthere, rfl⟩ := Machine.of_guard h
    exact hs.input hthere

end

/-- What a step of the goroutine of a command is. -/
theorem onRun_eq_some (h : s.onRun k may f act = some s') :
    ∃ r, row? Run.key k s.runs = some r ∧ may r = true ∧
      s' = act (s.update (·.key = k) f) r.id := by
  obtain ⟨r, hr, h⟩ := Option.bind_eq_some_iff.1 h
  split at h
  · rename_i hguard
    exact ⟨r, hr, hguard, (Option.some.inj h).symm⟩
  · cases h

theorem Separate.step (hs : Separate s) {a : Action} (hmay : Apart a s)
    (h : s.apply a = some s') : Separate s' := by
  cases a with
  | connect =>
    cases h
    have htouch : Separate (s.update (fun _ => true) fun r => { r with cancelled := true }) :=
      hs.touch (fun _ => ⟨rfl, rfl, rfl, rfl, rfl⟩) fun _ _ _ _ => rfl
    exact { htouch with
      conns := fun r hr => Nat.le_succ_of_le (htouch.conns r hr) }
  | frame c f =>
    simp only [State.apply] at h
    split at h
    · obtain rfl : c = s.conn := hmay.1
      exact hs.handle hmay h
    · cases h
  | register k =>
    simp only [State.apply] at h
    obtain ⟨r, hr, hguard, rfl⟩ := onRun_eq_some h
    have hspawned : r.stage = .spawned := of_decide_eq_true hguard
    have hlive : r.stage ≠ .finished := by rw [hspawned]; nofun
    refine hs.change hr hlive ⟨rfl, rfl, rfl, fun h => absurd h hlive⟩
      (hs.asked r (row?_mem hr)) ?_ ?_ (fun _ _ => rfl) ?_ ?_
    · exact fun id hid => AList.lookup_insert_ne hid
    · exact fun _ => AList.lookup_insert _
    · exact fun h => (hs.not_attached hr (by rw [hspawned]; nofun) h).elim
    · exact hs.owner hr hlive
  | attach k =>
    simp only [State.apply] at h
    obtain ⟨r, hr, hguard, rfl⟩ := onRun_eq_some h
    simp only [Bool.and_eq_true, decide_eq_true_eq] at hguard
    have hlive : r.stage ≠ .finished := by rw [hguard.1]; nofun
    refine hs.change hr hlive ⟨rfl, rfl, rfl, id⟩ (hs.asked r (row?_mem hr))
      (fun _ _ => rfl) ?_ ?_ ?_ ?_
    · exact fun h => hs.entry hr h
    · exact fun id hid => AList.lookup_insert_ne hid
    · exact fun _ => ⟨AList.lookup_insert _, hguard.1⟩
    · intro k' hlookup
      have hk : k' = k := by
        rw [AList.lookup_insert] at hlookup
        exact (Option.some.inj hlookup).symm
      exact ⟨hk, rfl⟩
  | detach k =>
    simp only [State.apply] at h
    obtain ⟨r, hr, hguard, rfl⟩ := onRun_eq_some h
    have hrunning := (hs.attaches r (row?_mem hr) hguard).2
    refine hs.change hr (by rw [hrunning]; nofun) ⟨rfl, rfl, rfl, id⟩
      (hs.asked r (row?_mem hr)) (fun _ _ => rfl) ?_ ?_ nofun ?_
    · exact fun h => hs.entry hr h
    · exact fun id hid => AList.lookup_erase_ne hid
    · intro k' hlookup
      rw [AList.lookup_erase] at hlookup
      cases hlookup
  | leave k =>
    simp only [State.apply] at h
    obtain ⟨r, hr, hguard, rfl⟩ := onRun_eq_some h
    simp only [Bool.and_eq_true, decide_eq_true_eq, Bool.not_eq_true'] at hguard
    have hlive : r.stage ≠ .finished := by rw [hguard.1]; nofun
    refine hs.change hr hlive ⟨rfl, rfl, rfl, fun h => absurd h hlive⟩
      (fun _ => rfl) (fun _ _ => rfl) ?_ (fun _ _ => rfl) ?_ ?_
    · exact fun _ => hs.entry hr (.inl hguard.1)
    · intro hattached
      cases hguard.2.symm.trans hattached
    · exact hs.owner hr hlive
  | remove k =>
    simp only [State.apply] at h
    obtain ⟨r, hr, hguard, rfl⟩ := onRun_eq_some h
    have hleaving : r.stage = .leaving := of_decide_eq_true hguard
    have hlive : r.stage ≠ .finished := by rw [hleaving]; nofun
    refine hs.change hr hlive ⟨rfl, rfl, rfl, fun _ => rfl⟩
      (hs.asked r (row?_mem hr)) ?_ ?_ (fun _ _ => rfl) ?_ ?_
    · exact fun id hid => AList.lookup_erase_ne hid
    · intro hregistered
      rcases hregistered with h | h <;> cases h
    · exact fun h => (hs.not_attached hr (by rw [hleaving]; nofun) h).elim
    · exact hs.owner hr hlive

end Steps

/-! ## The result -/

/-- In every run in which the commands do not meet:

* a command whose cancel was read before it was finished is cancelled;
* a command is in the registries from its registration to its end, and its
  session while it is attached, whatever commands of other connections do;
* an input chunk is written only to the session of the command with its id on
  its connection. -/
theorem commands_apart {s : State} (h : Reaches State.apply Apart .empty s) :
    (∀ r ∈ s.runs, r.asked = true → r.cancelled = true) ∧
    (∀ r ∈ s.runs,
      (r.registered → s.inflight.lookup r.id = some r.key) ∧
      (r.attached = true → s.attaches.lookup r.id = some r.key)) ∧
    ∀ w ∈ s.writes, ∃ r ∈ s.runs, r.key = w.2.2 ∧ r.conn = w.1 ∧ r.id = w.2.1 := by
  have hs : Separate s := h.invariant
    (fun a s s' hmay happly hs => hs.step hmay happly) separate_empty
  refine ⟨hs.asked, fun r hr => ⟨hs.inflight r hr, fun hattached => ?_⟩, hs.writes⟩
  exact (hs.attaches r hr hattached).1

/-- The first command of two connections, one after the other.  Both get input,
and the second is cancelled. -/
def inTurn : List Action :=
  [.connect, .frame 1 (.command 1), .register 0, .attach 0, .frame 1 (.input 1),
    .detach 0, .leave 0, .remove 0, .connect, .frame 2 (.command 1),
    .register 1, .attach 1, .frame 2 (.input 1), .frame 2 (.cancel 1)]

theorem commands_apart_inTurn :
    ∃ s, run State.apply inTurn .empty = some s ∧
      s.writes = [(2, 1, 1), (1, 1, 0)] ∧ (s.runs.any Run.asked) = true ∧
      (∀ r ∈ s.runs, r.asked = true → r.cancelled = true) ∧
      (∀ r ∈ s.runs,
        (r.registered → s.inflight.lookup r.id = some r.key) ∧
        (r.attached = true → s.attaches.lookup r.id = some r.key)) ∧
      ∀ w ∈ s.writes, ∃ r ∈ s.runs, r.key = w.2.2 ∧ r.conn = w.1 ∧ r.id = w.2.1 := by
  have hrun : (run State.apply inTurn .empty).any (fun s =>
      s.writes = [(2, 1, 1), (1, 1, 0)] ∧ s.runs.any Run.asked = true) =
      true := by
    decide +kernel
  obtain ⟨s, hs, hlast⟩ := (Option.any_eq_true _ _).1 hrun
  obtain ⟨hwrites, hasked⟩ := of_decide_eq_true hlast
  have h : Reaches State.apply Apart .empty s :=
    .of_run hs (by decide +kernel)
  exact ⟨s, hs, hwrites, hasked, commands_apart h⟩

/-- How commands are confused.

* A cancel is read before the goroutine of its command has registered it, and
  the command goes on.
* A command of an earlier connection ends after the first of the current one has
  registered, and takes its registration away; the cancel that is then read is
  lost.
* Input for the first command of the current connection, which is not attached
  yet, is written to the session of the earlier one. -/
theorem commands_confused :
    ((run State.apply
      [.connect, .frame 1 (.command 1), .frame 1 (.cancel 1), .register 0]
      .empty).any fun s => s.runs.any fun r =>
        r.asked && r.stage = .running && !r.cancelled) = true ∧
    ((run State.apply
      [.connect, .frame 1 (.command 1), .register 0, .connect,
        .frame 2 (.command 1), .register 1, .leave 0, .remove 0,
        .frame 2 (.cancel 1)]
      .empty).any fun s => s.inflight.lookup 1 = none && s.runs.any fun r =>
        r.conn = 2 && r.asked && r.stage = .running && !r.cancelled) = true ∧
    ((run State.apply
      [.connect, .frame 1 (.command 1), .register 0, .attach 0, .connect,
        .frame 2 (.command 1), .frame 2 (.input 1)]
      .empty).any fun s => s.writes = [(2, 1, 0)]) = true := by
  decide +kernel

end Akerdock.Agent.Commands
