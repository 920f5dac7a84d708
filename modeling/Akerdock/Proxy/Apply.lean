import Akerdock.Lib.Turns
import Akerdock.Lib.Aead

/-!
# Applying the routing of a resource

`internal/jobs/proxyapply.go`: the file of one scope on one server and the
revisions of it, and `reconcileServer` of `internal/scheduler/scheduler.go`,
which writes the file again when it differs from what was applied.

* `Apply` and `reconcileServer` are programs over the statements of
  `db/queries/proxy_revisions.sql` and the file operations of the agent.  Each
  of those may fail, before or after it took effect.
* `Agrees` is what the file is supposed to be.  `apply_restores` and
  `reconcile_restores` say when an operation that runs alone ends with it.
-/

namespace Akerdock.Proxy

open Crypto (Bytes)
open Proc
open Pool (Restores Config active)

/-! ## Rows and the file -/

/-- `proxy_config_revisions.status`. -/
inductive RevisionStatus where
  | pending
  | applied
  | failed
  | rolledBack
  deriving DecidableEq

/-- `proxy_config_revisions`, as far as one scope of one server is concerned.
The checksum of the content and the number within the server are only shown. -/
structure Revision where
  id : Nat
  content : Bytes
  status : RevisionStatus

/-- The revisions of the scope, newest first, the file, and whether the last
upload that was attempted failed. -/
structure Routing where
  revisions : List Revision
  file : Option Bytes
  uploadFailed : Bool

/-- `GetLastAppliedProxyRevision`, and the row that `ListAppliedProxyRevisions`
has for the scope. -/
def Routing.lastApplied (s : Routing) : Option Revision :=
  s.revisions.find? fun r => r.status = .applied

def uploaded (content : Bytes) : Option Bytes :=
  if content = [] then none else some content

/-- What the file is supposed to be: the content that was applied last. -/
def Routing.expected (s : Routing) : Option Bytes :=
  s.lastApplied.bind fun r => uploaded r.content

/-- `UPDATE proxy_config_revisions SET status = .. WHERE id = ..`. -/
def Routing.mark (s : Routing) (id : Nat) (status : RevisionStatus) : Routing :=
  { s with revisions := s.revisions.map fun r =>
      if r.id = id then { r with status } else r }

def Routing.create (s : Routing) (content : Bytes) : Nat × Routing :=
  let id := s.revisions.length
  (id, { s with revisions := ⟨id, content, .pending⟩ :: s.revisions })

/-! ## Calls -/

/-- What the two operations call.  `others` is the part of `reconcileServer`
that is about the scopes before this one, and the agent's connection. -/
inductive ProxyCall where
  | createProxyRevision (content : Bytes)
  | upload (content : Bytes)
  | verify
  | markProxyRevisionApplied (id : Nat)
  | markProxyRevisionFailed (id : Nat)
  | getLastAppliedProxyRevision
  | markProxyRevisionRolledBack (id : Nat)
  | listAppliedProxyRevisions
  | others
  | readFile
  | writeFile (content : Bytes)

/-- The answers.  `none` and `false` are errors; for
`GetLastAppliedProxyRevision` also that there is no row. -/
def ProxyAns : ProxyCall → Type
  | .createProxyRevision _ => Option Nat
  | .getLastAppliedProxyRevision => Option Revision
  | .listAppliedProxyRevisions => Option (Option Revision)
  | .readFile => Option Bytes
  | _ => Bool

def defaultReadCap : Nat := 4 * 2 ^ 20

def ProxyCall.act : (c : ProxyCall) → CallEnd → Routing → ProxyAns c × Routing
  | .createProxyRevision content, e, s =>
    match e with
    | .done => (some (s.create content).1, (s.create content).2)
    | .failed => (none, s)
    | .lost => (none, (s.create content).2)
  | .upload content, e, s =>
    match e with
    | .done => (true, { s with file := uploaded content, uploadFailed := false })
    | .failed => (false, { s with uploadFailed := true })
    | .lost => (false, { s with file := uploaded content, uploadFailed := true })
  | .writeFile content, e, s =>
    match e with
    | .done => (true, { s with file := some content, uploadFailed := false })
    | .failed => (false, { s with uploadFailed := true })
    | .lost => (false, { s with file := some content, uploadFailed := true })
  | .markProxyRevisionApplied id, e, s =>
    match e with
    | .done => (true, s.mark id .applied)
    | .failed => (false, s)
    | .lost => (false, s.mark id .applied)
  | .markProxyRevisionFailed id, e, s =>
    match e with
    | .done => (true, s.mark id .failed)
    | .failed => (false, s)
    | .lost => (false, s.mark id .failed)
  | .markProxyRevisionRolledBack id, e, s =>
    match e with
    | .done => (true, s.mark id .rolledBack)
    | .failed => (false, s)
    | .lost => (false, s.mark id .rolledBack)
  | .getLastAppliedProxyRevision, e, s =>
    (if e = .done then s.lastApplied else none, s)
  | .listAppliedProxyRevisions, e, s =>
    (if e = .done then some s.lastApplied else none, s)
  | .readFile, e, s =>
    (if e = .done then some ((s.file.getD []).take defaultReadCap) else none, s)
  | .verify, e, s => (decide (e = .done), s)
  | .others, e, s => (decide (e = .done), s)

/-! ## The operations -/

/-- How `Apply` ends. -/
inductive Applied where
  | ok
  | notRecorded
  | notMarked
  | noPrevious
  | anomaly
  | rolledBack (revision : Nat)

def Apply (content : Bytes) : Prog ProxyAns Applied :=
  .call (.createProxyRevision content) fun
    | none => .ret .notRecorded
    | some rev => .call (.upload content) fun (up : Bool) =>
      if up then .call .verify fun (verified : Bool) =>
        if verified then
          .call (.markProxyRevisionApplied rev) fun (marked : Bool) =>
            .ret (if marked then .ok else .notMarked)
        else rollBack rev
      else rollBack rev
where
  rollBack (rev : Nat) : Prog ProxyAns Applied :=
    .call (.markProxyRevisionFailed rev) fun _ =>
      .call .getLastAppliedProxyRevision fun
        | none => .call (.upload []) fun _ => .ret .noPrevious
        | some previous =>
          .call (.upload previous.content) fun (restored : Bool) =>
            if restored then .call (.markProxyRevisionRolledBack rev) fun _ =>
              .ret (.rolledBack previous.id)
            else .ret .anomaly

/-- `strings.TrimRight(s, "\n") + "\n"`. -/
def normalized (s : Bytes) : Bytes :=
  (s.reverse.dropWhile fun c => c = 10).reverse ++ [10]

/-- `reconcileServer`, for the scope.  Checksums are compared as the contents
that they are of. -/
def reconcileServer : Prog ProxyAns Unit :=
  .call .listAppliedProxyRevisions fun
    | none | some none => .ret ()
    | some (some rev) => .call .others fun (reached : Bool) =>
      if reached then .call .readFile fun
        | none => .ret ()
        | some content =>
          if normalized content = normalized rev.content then .ret ()
          else .call (.writeFile rev.content) fun _ => .ret ()
      else .ret ()

/-- The operations on the scope. -/
inductive Operation where
  | apply (content : Bytes)
  | reconcile

def Operation.program : Operation → Prog ProxyAns (Option Applied)
  | .apply content => (Apply content).bind fun r => .ret (some r)
  | .reconcile => reconcileServer.bind fun _ => .ret none

abbrev scope (may : ProxyCall → CallEnd → Routing → Prop) : System ProxyAns CallEnd Routing :=
  .alone ProxyCall.act may

/-- Any number of operations, side by side. -/
def operations (may : ProxyCall → CallEnd → Routing → Prop) :
    Pool (scope may) (Option Applied) where
  spawn s p s' := s = s' ∧ ∃ op : Operation, p = op.program

/-! ## What an operation does alone -/

/-- The ids were given in order. -/
def Routing.Numbered (s : Routing) : Prop :=
  ∀ r ∈ s.revisions, r.id < s.revisions.length

/-- The file is what was applied last, unless the last upload failed. -/
def Routing.Agrees (s : Routing) : Prop :=
  s.uploadFailed = false → s.file = s.expected

/-- What the operations have to leave behind. -/
structure Routing.Sound (s : Routing) : Prop where
  numbered : s.Numbered
  agrees : s.Agrees

/-- `s` has one revision more than `s₀`. -/
structure Adds (s₀ : Routing) (content : Bytes) (status : RevisionStatus)
    (s : Routing) : Prop where
  numbered : s₀.Numbered
  revisions : s.revisions =
    ⟨s₀.revisions.length, content, status⟩ :: s₀.revisions

theorem Adds.create (h : s₀.Numbered) : Adds s₀ content .pending (s₀.create content).2 :=
  ⟨h, rfl⟩

section

variable (h : Adds s₀ content status s)

include h

/-- Marking the new revision leaves the others alone. -/
theorem Adds.mark (status' : RevisionStatus) :
    Adds s₀ content status' (s.mark s₀.revisions.length status') := by
  refine ⟨h.numbered, ?_⟩
  have hold : s₀.revisions.map (fun r => if r.id = s₀.revisions.length then
      { r with status := status' } else r) = s₀.revisions := by
    conv_rhs => rw [← List.map_id s₀.revisions]
    refine List.map_congr_left fun r hr => ?_
    rw [if_neg (Nat.ne_of_lt (h.numbered r hr))]
    rfl
  simp [Routing.mark, h.revisions, hold]

theorem Adds.numbered' : s.Numbered := by
  intro r hr
  rw [h.revisions, List.length_cons]
  rw [h.revisions] at hr
  rcases List.mem_cons.1 hr with rfl | hr
  · exact Nat.lt_succ_self _
  · exact Nat.lt_succ_of_lt (h.numbered r hr)

theorem Adds.lastApplied (hs : status ≠ .applied) : s.lastApplied = s₀.lastApplied := by
  simp [Routing.lastApplied, h.revisions, hs]

theorem Adds.expected (hs : status ≠ .applied) : s.expected = s₀.expected := by
  rw [Routing.expected, h.lastApplied hs, ← Routing.expected]

end

theorem Adds.expected_applied (h : Adds s₀ content .applied s) : s.expected = uploaded content := by
  simp [Routing.expected, Routing.lastApplied, h.revisions]

theorem Adds.upload (h : Adds s₀ content status s) (file : Option Bytes) (failed : Bool) :
    Adds s₀ content status { s with file, uploadFailed := failed } :=
  ⟨h.numbered, h.revisions⟩

/-- The condition under which operations that take turns keep the file right:
the mark of a revision does not get lost, unless the file was right anyway;
the last applied revision is found, unless there is no file to restore; and no
removal is repaired. -/
def Kept : ProxyCall → CallEnd → Routing → Prop
  | .markProxyRevisionApplied _, e, s => e = .failed → s.file = s.expected
  | .getLastAppliedProxyRevision, e, s => e ≠ .done → s.expected = none
  | .writeFile content, _, _ => content ≠ []
  | _, _, _ => True

/-- A revision that was not applied leaves the file to be what it was to be
before. -/
theorem Adds.sound (h : Adds s₀ content status s) (hs : status ≠ .applied)
    (hfile : s.uploadFailed = false → s.file = s₀.expected) : s.Sound :=
  ⟨h.numbered', fun hu => (hfile hu).trans (h.expected hs).symm⟩

theorem rollBack_restores (h : Adds s₀ content status s) (hs : status ≠ .applied) :
    wp ((scope Kept).keeping fun _ => True)
      (Apply.rollBack s₀.revisions.length) (fun _ s => s.Sound) s := by
  refine wp_alone fun e _ => ?_
  -- Whether or not the failure is recorded, the revision is not applied.
  obtain ⟨status', hs', h'⟩ : ∃ status', status' ≠ .applied ∧
      Adds s₀ content status'
        ((ProxyCall.markProxyRevisionFailed s₀.revisions.length).act e s).2 := by
    cases e with
    | done | lost => exact ⟨.failed, by decide, h.mark .failed⟩
    | failed => exact ⟨status, hs, h⟩
  generalize ((ProxyCall.markProxyRevisionFailed s₀.revisions.length).act e s).2 = s' at h'
  refine wp_alone fun e he => ?_
  have hfound : e ≠ .done → s₀.expected = none := fun hne =>
    (h'.expected hs').symm.trans (he hne)
  show wp _ (match (if e = .done then s'.lastApplied else none) with
    | none => _
    | some previous => _) _ s'
  cases hl : (if e = .done then s'.lastApplied else none) with
  | none =>
    have hnone : s₀.expected = none := by
      by_cases hd : e = .done
      · rw [if_pos hd, h'.lastApplied hs'] at hl
        rw [Routing.expected, hl, Option.bind_none]
      · exact hfound hd
    refine wp_alone fun e _ => ?_
    cases e with
    | done => exact (h'.upload none false).sound hs' fun _ => hnone.symm
    | failed => exact (h'.upload s'.file true).sound hs' (by simp)
    | lost => exact (h'.upload none true).sound hs' (by simp)
  | some previous =>
    have hprev : s₀.expected = uploaded previous.content := by
      by_cases hd : e = .done
      · rw [if_pos hd, h'.lastApplied hs'] at hl
        rw [Routing.expected, hl, Option.bind_some]
      · cases (if_neg hd).symm.trans hl
    refine wp_alone fun e _ => ?_
    cases e with
    | failed => exact (h'.upload s'.file true).sound hs' (by simp)
    | lost => exact (h'.upload _ true).sound hs' (by simp)
    | done =>
      have hup := h'.upload (uploaded previous.content) false
      refine wp_alone fun e _ => ?_
      cases e with
      | done | lost =>
        exact (hup.mark .rolledBack).sound (by decide) fun _ => hprev.symm
      | failed => exact hup.sound hs' fun _ => hprev.symm

/-- An `Apply` that runs alone leaves the file right. -/
theorem apply_restores (content : Bytes) (h : s.Sound) :
    wp ((scope Kept).keeping fun _ => True) (Apply content) (fun _ s => s.Sound) s := by
  have hadds : Adds s content .pending (s.create content).2 := .create h.numbered
  have hkeeps : (s.create content).2.Sound :=
    hadds.sound (by decide) h.agrees
  refine wp_alone fun e _ => ?_
  cases e with
  | failed => exact h
  | lost => exact hkeeps
  | done =>
    refine wp_alone fun e _ => ?_
    cases e with
    | failed | lost => exact rollBack_restores (hadds.upload _ true) (by decide)
    | done =>
      have hup := hadds.upload (uploaded content) false
      refine wp_alone fun e _ => ?_
      cases e with
      | failed | lost => exact rollBack_restores hup (by decide)
      | done =>
        -- Only here the revision becomes the one that counts.
        have hmarked := hup.mark .applied
        refine wp_alone fun e he => ?_
        cases e with
        | failed => exact ⟨hup.numbered', fun _ => he rfl⟩
        | done | lost =>
          exact ⟨hmarked.numbered', fun _ => hmarked.expected_applied.symm⟩

theorem reconcile_restores (h : s.Sound) :
    wp ((scope Kept).keeping fun _ => True) reconcileServer (fun _ s => s.Sound) s := by
  refine wp_alone fun e _ => ?_
  show wp _ (match (if e = .done then some s.lastApplied else none) with
    | none | some none => _
    | some (some rev) => _) _ s
  cases hl : (if e = .done then some s.lastApplied else none) with
  | none => exact h
  | some last =>
    have hlast : s.lastApplied = last := by
      split at hl
      · exact Option.some.inj hl
      · cases hl
    cases last with
    | none => exact h
    | some rev =>
      refine wp_alone fun e _ => ?_
      by_cases hd : e = .done
      · subst hd
        refine wp_alone fun e _ => ?_
        cases e with
        | failed | lost => exact h
        | done =>
          show wp _ (if _ then _ else _) _ s
          split
          · exact h
          · refine wp_alone fun e he => ?_
            have hexpected : s.expected = some rev.content := by
              rw [Routing.expected, hlast, Option.bind_some, uploaded, if_neg he]
            cases e with
            | done => exact ⟨h.numbered, fun _ => hexpected.symm⟩
            | failed | lost =>
              exact ⟨h.numbered, by simp [Routing.Agrees, ProxyCall.act]⟩
      · cases e with
        | done => exact absurd rfl hd
        | failed | lost => exact h

/-! ## Any number of operations -/

theorem operation_restores (op : Operation) :
    Restores (scope Kept) (fun _ => Routing.Sound) op.program := by
  cases op with
  | apply content =>
    exact ⟨⟨_, _, rfl⟩, fun _ _ hs => wp_bind (apply_restores content hs)⟩
  | reconcile =>
    exact ⟨⟨_, _, rfl⟩, fun _ _ hs => wp_bind (reconcile_restores hs)⟩

/-- In the runs in which the operations on a scope take turns and their calls
end as in `Kept`, the file is the content that was applied last, whenever no
operation is in progress and the last upload did not fail. -/
theorem file_is_last_applied {s : Routing} (hs : s.Sound)
    {x : Config ProxyAns Routing (Option Applied)}
    (hx : (operations Kept).Reaches s x) (hturns : Pool.TakesTurns x.trace)
    (hidle : active x.trace = [])
    (hup : x.state.uploadFailed = false) :
    x.state.file = x.state.expected := by
  have hquiet : Pool.Quiet (scope Kept)
      fun (_ : List (Option Applied)) => Routing.Sound := .alone _
  have hspawn : ∀ {s p s'}, (operations Kept).spawn s p s' →
      (scope Kept).rely s s' ∧ Restores (scope Kept) (fun _ => Routing.Sound) p := by
    intro s p s' h
    obtain ⟨hs, op, rfl⟩ := h
    exact ⟨hs, operation_restores op⟩
  exact (Pool.holds_between_turns hquiet hspawn hs hx hturns hidle).agrees hup

def appliedA : Routing where
  revisions := [⟨0, [97], .applied⟩]
  file := some [97]
  uploadFailed := false

/-- The configuration after `op` starts and makes its next `n` calls. -/
def launch (may : ProxyCall → CallEnd → Routing → Prop) (op : Operation)
    (n : Nat) (x : Config ProxyAns Routing (Option Applied)) :
    Config ProxyAns Routing (Option Applied) :=
  (x.started op.program x.state).calls (scope may) .done x.next n

theorem reaches_launch (h : (operations may).Reaches s x) (op : Operation)
    (hok : (x.started op.program x.state).CallsOk (scope may) .done x.next n) :
    (operations may).Reaches s (launch may op n x) :=
  Pool.Reaches.calls (h.tail (.start x _ _ ⟨rfl, op, rfl⟩)) hok

instance (c : ProxyCall) (e : CallEnd) (s : Routing) : Decidable ((scope Kept).ok c e s) := by
  show Decidable (Kept c e s)
  unfold Kept
  split <;> infer_instance

theorem appliedA_sound : appliedA.Sound :=
  ⟨by unfold Routing.Numbered; decide, fun _ => by decide⟩

/-- An `Apply` of the content `b` that is not verified. -/
def unverified (x : Config ProxyAns Routing (Option Applied)) :
    Config ProxyAns Routing (Option Applied) :=
  (launch Kept (.apply [98]) 2 x).calls (scope Kept) .failed x.next 1

/-- The content `a` is not restored, since the upload fails. -/
def drifted : Config ProxyAns Routing (Option Applied) :=
  (((unverified (.initial appliedA)).calls (scope Kept) .done 0 2).calls
    (scope Kept) .failed 0 1).finish 0

/-- A reconciliation repairs the file, and then another `Apply` is rolled
back. -/
def repaired : Config ProxyAns Routing (Option Applied) :=
  ((unverified ((launch Kept .reconcile 4 drifted).finish 1)).calls (scope Kept) .done 2 4).finish 2

theorem file_is_last_applied_repaired :
    (operations Kept).Reaches appliedA repaired ∧
      drifted.state.file = some [98] ∧
      repaired.state.revisions.map Revision.status = [.rolledBack, .failed, .applied] ∧
      repaired.state.file = repaired.state.expected := by
  have hdrifted : (operations Kept).Reaches appliedA drifted :=
    ((((reaches_launch .refl _ (by decide)).calls (by decide)).calls (by decide)).calls
      (by decide)).finish 0
  have hreconciled : (operations Kept).Reaches appliedA
      ((launch Kept .reconcile 4 drifted).finish 1) :=
    (reaches_launch hdrifted _ (by decide)).finish 1
  have hx : (operations Kept).Reaches appliedA repaired :=
    (((reaches_launch hreconciled _ (by decide)).calls (by decide)).calls (by decide)).finish 2
  exact ⟨hx, by decide, by decide, file_is_last_applied appliedA_sound hx (by decide)
    (by decide) (by decide)⟩

/-- The content `b` is uploaded and verified, and then the statement that marks
its revision fails. -/
def unmarkedB : Config ProxyAns Routing (Option Applied) :=
  ((launch (fun _ _ _ => True) (.apply [98]) 3 (.initial appliedA)).calls
    (scope fun _ _ _ => True) .failed 0 1).finish 0

/-- A reconciliation lists the revisions, then the content `b` is applied, and
then the reconciliation goes on. -/
def staleA : Config ProxyAns Routing (Option Applied) :=
  (((launch (fun _ _ _ => True) (.apply [98]) 4
    (launch (fun _ _ _ => True) .reconcile 1 (.initial appliedA))).finish
      1).calls (scope fun _ _ _ => True) .done 0 3).finish 0

/-- The file is not what was applied last, with no operation in progress and no
upload that failed: after a single `Apply`, and after an `Apply` within a
reconciliation, all of whose calls succeeded. -/
theorem file_differs :
    ((operations fun _ _ _ => True).Reaches appliedA unmarkedB ∧
      active unmarkedB.trace = [] ∧
      unmarkedB.state.uploadFailed = false ∧
      unmarkedB.state.file = some [98] ∧
      unmarkedB.state.expected = some [97]) ∧
    ((operations fun _ _ _ => True).Reaches appliedA staleA ∧
      active staleA.trace = [] ∧
      staleA.state.uploadFailed = false ∧
      staleA.state.file = some [97] ∧
      staleA.state.expected = some [98]) := by
  have hall : ∀ {e k n} {x : Config ProxyAns Routing (Option Applied)},
      x.CallsOk (scope fun _ _ _ => True) e k n :=
    Config.callsOk_of_forall (fun _ _ => trivial) _ _ _
  refine ⟨⟨?_, by decide, by decide, by decide, by decide⟩,
    ⟨?_, by decide, by decide, by decide, by decide⟩⟩
  · exact ((reaches_launch .refl _ hall).calls hall).finish 0
  · exact (((reaches_launch (reaches_launch .refl _ hall) _ hall).finish 1).calls hall).finish 0

end Akerdock.Proxy
