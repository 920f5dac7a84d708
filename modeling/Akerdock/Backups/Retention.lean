import Mathlib

/-!
# Retention of backups

After each dump the plan's expired copies are deleted, on the server and in the
bucket.  A copy behind the last successful backup expires by its rank or its
age.  What is newer never expires, so the bound on the copies holds as long as
not too many dumps were made since: `retention_bounded_iff`.
-/

namespace Akerdock.Backups

open List

inductive ExecutionStatus where
  | failed
  | incomplete
  | succeeded
  deriving DecidableEq

inductive Copy where
  | onServer
  | inBucket

/-- A row of `backup_executions`.  `onServer` is the dump whose file name is
set and that is not deleted, and likewise `inBucket`. -/
structure Execution where
  status : ExecutionStatus
  createdAt : Nat
  onServer : Bool
  inBucket : Bool

def Execution.live (e : Execution) : Copy → Bool
  | .onServer => e.status ≠ .failed && e.onServer
  | .inBucket => e.inBucket

def Execution.delete (e : Execution) : Copy → Execution
  | .onServer => { e with onServer := false }
  | .inBucket => { e with inBucket := false }

structure Plan where
  s3Storage : Bool
  s3Only : Bool
  maxCount : Copy → Nat
  maxDays : Copy → Nat

def Plan.expires (p : Plan) (now : Nat) (c : Copy) (rank : Nat) (e : Execution) : Bool :=
  0 < p.maxCount c && p.maxCount c < rank ||
    0 < p.maxDays c && e.createdAt + 86400 * p.maxDays c < now

/-- `ListExpiredLocalBackups` or `ListExpiredS3Backups`, with the deletions.
The rows stand newest first: `newer` says that one before them succeeded, which
is that their id is less than that of the last successful one, and `rank` is
the number of live rows before them. -/
def Plan.retain (p : Plan) (now : Nat) (c : Copy) :
    Bool → Nat → List Execution → List Execution
  | _, _, [] => []
  | newer, rank, e :: es =>
    if e.live c then
      (if newer && p.expires now c (rank + 1) e then e.delete c else e) ::
        p.retain now c (newer || e.status = .succeeded) (rank + 1) es
    else e :: p.retain now c (newer || e.status = .succeeded) rank es

def Plan.applyRetention (p : Plan) (now : Nat) (es : List Execution) : List Execution :=
  let es := p.retain now .onServer false 0 es
  if p.s3Storage then p.retain now .inBucket false 0 es else es

/-- The row that `backup` writes.  An upload that fails makes it incomplete. -/
def Plan.dumped (p : Plan) (now : Nat) (uploaded : Bool) : Execution :=
  let uploaded := p.s3Storage && uploaded
  ⟨if p.s3Storage && !uploaded then .incomplete else .succeeded, now,
    !(p.s3Only && uploaded), uploaded⟩

/-- The rows of a plan after executions, the latest first.  Each has its time,
and no dump, or a dump and how its upload ends. -/
def Plan.run (p : Plan) : List (Nat × Option Bool) → List Execution
  | [] => []
  | (now, none) :: l => ⟨.failed, now, false, false⟩ :: p.run l
  | (now, some uploaded) :: l => p.applyRetention now (p.dumped now uploaded :: p.run l)

/-- The copies that the dumps since the last successful backup make, with the
one that it makes. -/
def Plan.newest (p : Plan) (c : Copy) : List (Nat × Option Bool) → Nat
  | [] => 0
  | (_, none) :: l => p.newest c l
  | (now, some uploaded) :: l =>
    let e := p.dumped now uploaded
    (if e.live c then 1 else 0) + if e.status = .succeeded then 0 else p.newest c l

/-- The live copies up to the last successful backup. -/
def spared (c : Copy) : List Execution → Nat
  | [] => 0
  | e :: es => (if e.live c then 1 else 0) + if e.status = .succeeded then 0 else spared c es

variable {p : Plan} {c c' : Copy} {now : Nat}

theorem live_delete (e : Execution) : (e.delete c).live c = false := by
  cases c <;> simp [Execution.live, Execution.delete]

/-- A pass does not reach the copies as new as the last successful backup. -/
theorem spared_retain (rank : Nat) (es : List Execution) :
    spared c (p.retain now c' false rank es) = spared c es := by
  induction es generalizing rank with
  | nil => rfl
  | cons e es ih => by_cases hs : e.status = .succeeded <;> cases hlive : e.live c' <;>
      simp [Plan.retain, spared, hs, hlive, ih]

theorem spared_run (l : List (Nat × Option Bool)) : spared c (p.run l) = p.newest c l := by
  induction l with
  | nil => rfl
  | cons x l ih =>
    obtain ⟨now, _ | uploaded⟩ := x
    · cases c <;> simp [Plan.run, Plan.newest, spared, Execution.live, ih]
    · have hpass : spared c (p.applyRetention now (p.dumped now uploaded :: p.run l)) =
          spared c (p.dumped now uploaded :: p.run l) := by
        unfold Plan.applyRetention
        split <;> simp only [spared_retain]
      simp only [Plan.run, hpass, spared, Plan.newest, ih]

/-- An upload that fails leaves nothing in the bucket. -/
theorem newest_inBucket (l : List (Nat × Option Bool)) : p.newest .inBucket l ≤ 1 := by
  induction l with
  | nil => exact Nat.zero_le _
  | cons x l ih =>
    obtain ⟨now, _ | uploaded⟩ := x
    · exact ih
    · cases hs : p.s3Storage <;> cases uploaded <;>
        simp [Plan.newest, Plan.dumped, Execution.live, hs, ih]

theorem countP_retain_other (newer : Bool) (rank : Nat) (es : List Execution) :
    (p.retain now .inBucket newer rank es).countP (·.live .onServer) =
      es.countP (·.live .onServer) := by
  induction es generalizing newer rank with
  | nil => rfl
  | cons e es ih =>
    have hsame : (e.delete .inBucket).live .onServer = e.live .onServer := rfl
    simp only [Plan.retain]
    split_ifs <;> simp only [countP_cons, ih, hsame]

section

variable (hk : 0 < p.maxCount c)

include hk

/-- Behind a successful backup only the first ranks stay. -/
theorem countP_retain_newer (rank : Nat) (es : List Execution) :
    (p.retain now c true rank es).countP (·.live c) ≤ p.maxCount c - rank := by
  induction es generalizing rank with
  | nil => exact Nat.zero_le _
  | cons e es ih =>
    have hrest := ih (rank + 1)
    cases hlive : e.live c with
    | false => simpa [Plan.retain, hlive] using ih rank
    | true =>
      cases hexp : p.expires now c (rank + 1) e with
      | true =>
        simp only [Plan.retain, hlive, hexp, countP_cons, live_delete, Bool.and_self, Bool.true_or,
          if_true, Bool.false_eq_true, if_false]
        omega
      | false =>
        have hrank : rank + 1 ≤ p.maxCount c := by
          simp [Plan.expires, hk] at hexp
          omega
        simp [Plan.retain, hlive, hexp]
        omega

theorem countP_retain (rank : Nat) (es : List Execution) :
    spared c es ≤ (p.retain now c false rank es).countP (·.live c) ∧
      (p.retain now c false rank es).countP (·.live c) ≤
        max (p.maxCount c - rank) (spared c es) := by
  induction es generalizing rank with
  | nil => simp [Plan.retain, spared]
  | cons e es ih =>
    by_cases hs : e.status = .succeeded
    · have hrest := @countP_retain_newer p c now hk (if e.live c then rank + 1 else rank) es
      cases hlive : e.live c <;>
        simp [Plan.retain, spared, hs, hlive, -countP_eq_zero] at hrest ⊢ <;> omega
    · have hrest := ih (if e.live c then rank + 1 else rank)
      cases hlive : e.live c <;> simp [Plan.retain, spared, hs, hlive] at hrest ⊢ <;> omega

/-- Whatever the executions of a plan are, after each of them at most one copy
more is live than the plan keeps exactly if not more than that were made since
the last successful backup.  In the bucket this is so. -/
theorem retention_bounded_iff (hbucket : c = .inBucket → p.s3Storage)
    (l : List (Nat × Option Bool)) :
    ((p.run l).countP (·.live c) ≤ p.maxCount c + 1 ↔ p.newest c l ≤ p.maxCount c + 1) ∧
    p.newest .inBucket l ≤ 1 := by
  refine ⟨?_, newest_inBucket l⟩
  induction l with
  | nil => simp [Plan.run, Plan.newest]
  | cons x l ih =>
    obtain ⟨now, _ | uploaded⟩ := x
    · have hfailed : (⟨.failed, now, false, false⟩ : Execution).live c = false := by cases c <;> rfl
      simpa [Plan.run, Plan.newest, hfailed] using ih
    · have hspared : spared c (p.dumped now uploaded :: p.run l) =
          p.newest c ((now, some uploaded) :: l) := by
        simp only [spared, Plan.newest, spared_run]
      have hcount := @countP_retain p c now hk 0
      rw [← hspared, Plan.run, Plan.applyRetention]
      cases c with
      | onServer =>
        have hpass := hcount (p.dumped now uploaded :: p.run l)
        split
        · rw [countP_retain_other]
          omega
        · omega
      | inBucket =>
        have hpass := hcount (p.retain now .onServer false 0 (p.dumped now uploaded :: p.run l))
        rw [spared_retain] at hpass
        rw [if_pos (hbucket rfl)]
        omega

end

/-- One copy of each dump is kept on the server and in the bucket. -/
def keepOne : Plan :=
  ⟨true, false, fun _ => 1, fun _ => 0⟩

/-- The upload of the first dump and that of the last one fail. -/
theorem retention_bounded_uploaded : ((keepOne.run [(4, some false), (3, none), (2, some true),
    (1, some true), (0, some false)]).countP (·.live .onServer)) ≤ 2 :=
  (retention_bounded_iff (by decide) (fun _ => rfl) _).1.2 (by decide)

/-- Every upload fails. -/
theorem failed_uploads_kept : (keepOne.run [(2, some false), (1, some false),
    (0, some false)]).countP (·.live .onServer) = 3 := by decide

end Akerdock.Backups
