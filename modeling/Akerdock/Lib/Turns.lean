import Akerdock.Lib.Pool

/-!
# Processes that take turns

A process of a pool is active from its first call until it ends.  In the runs
of this module at most one process is active at a time: `TakesTurns` says so
about a trace.  What each process establishes when it runs alone then holds
whenever no process is active, which is `holds_between_turns`.  It may depend
on the results of the processes that have ended.

A process that dies before its end stays active, so nothing is said about what
comes after it.  `CallEnd` are the ways in which a single call can go wrong.
-/

namespace Proc

/-- How a call that may fail ends: well, with an error and without effect, or
with an error after it took effect. -/
inductive CallEnd where
  | done
  | failed
  | lost
  deriving DecidableEq

namespace Pool

open Prog List

variable {Call : Type} {Ans : Call → Type} {Out W α : Type}

/-- The processes that made a call and have not ended. -/
def active : List (Event Ans α) → List Nat
  | [] => []
  | .called k _ _ :: t => k :: active t
  | .ended k _ :: t => (active t).filter fun j => j ≠ k

/-- No process makes a call while another one is active. -/
def TakesTurns : List (Event Ans α) → Prop
  | [] => True
  | .called k _ _ :: t => (∀ j ∈ active t, j = k) ∧ TakesTurns t
  | .ended _ _ :: t => TakesTurns t

instance instDecidableTakesTurns :
    (t : List (Event Ans α)) → Decidable (TakesTurns t)
  | [] => isTrue trivial
  | .called k _ _ :: t =>
    have := instDecidableTakesTurns t
    inferInstanceAs (Decidable ((∀ j ∈ active t, j = k) ∧ TakesTurns t))
  | .ended _ _ :: t => instDecidableTakesTurns t

theorem TakesTurns.eq_of_mem (h : TakesTurns t) (hi : i ∈ active t)
    (hj : j ∈ active t) : i = j := by
  induction t with
  | nil => cases hi
  | cons e t ih =>
    cases e with
    | called k c a =>
      have hk : ∀ i ∈ active (.called k c a :: t), i = k := forall_mem_cons.2 ⟨rfl, h.1⟩
      rw [hk i hi, hk j hj]
    | ended k a =>
      exact ih h (mem_filter.1 hi).1 (mem_filter.1 hj).1

/-- The results of the processes that have ended, the last one first. -/
def results : List (Event Ans α) → List α
  | [] => []
  | .called _ _ _ :: t => results t
  | .ended _ a :: t => a :: results t

variable {x : Config Ans W α} {w : W}

section Rule

variable {M : System Ans Out W} {P : Pool M α} {I : List α → W → Prop}

/-- `p` keeps `I` when it runs alone.  It makes a call at least. -/
structure Restores (M : System Ans Out W) (I : List α → W → Prop) (p : Prog Ans α) : Prop where
  calls : ∃ c next, p = .call c next
  keeps : ∀ l w, I l w →
    wp (M.keeping fun _ => True) p (fun a w => I (a :: l) w) w

/-- What holds in the runs in which processes take turns. -/
structure Turns (M : System Ans Out W) (I : List α → W → Prop) (x : Config Ans W α) : Prop where
  between : active x.trace = [] → I (results x.trace) x.state
  waiting : ∀ k p, x.procs k = some p → k ∉ active x.trace → Restores M I p
  running : ∀ k p, x.procs k = some p → k ∈ active x.trace →
    wp (M.keeping fun _ => True) p (fun a w => I (a :: results x.trace) w) x.state

structure Numbered (x : Config Ans W α) : Prop where
  procs : ∀ k p, x.procs k = some p → k < x.next
  active : ∀ k ∈ active x.trace, k < x.next

/-- What others do between two calls. -/
structure Quiet (M : System Ans Out W) (I : List α → W → Prop) : Prop where
  refl : ∀ w, M.rely w w
  trans : ∀ {w w' w''}, M.rely w w' → M.rely w' w'' → M.rely w w''
  keeps : ∀ {l w w'}, M.rely w w' → I l w → I l w'

theorem Turns.moved (hq : Quiet M I) (h : Turns M I x) (hw : M.rely x.state w) :
    Turns M I (x.moved w) where
  between := fun ha => hq.keeps hw (h.between ha)
  waiting := h.waiting
  running := by
    intro k p hk ha
    have hwp := h.running k p hk ha
    exact wp_stable (S := M.keeping fun _ => True) hq.trans (fun _ hI => hq.keeps hw hI) hw hwp

theorem Turns.called (hq : Quiet M I) (h : Turns M I x)
    (hk : x.procs k = some (.call c f)) (ho : M.ok c o x.state)
    (hactive : ∀ j ∈ active x.trace, j = k) :
    Turns M I (x.called k c f (M.sem c o x.state)) := by
  -- Either it is this process's turn, or it begins one.
  have hwp : wp (M.keeping fun _ => True) (.call c f)
      (fun a w => I (a :: results x.trace) w) x.state := by
    by_cases ha : k ∈ active x.trace
    · exact h.running k _ hk ha
    · have hnone : active x.trace = [] := by
        rw [eq_nil_iff_forall_not_mem]
        intro j hj
        exact ha (hactive j hj ▸ hj)
      exact (h.waiting k _ hk ha).keeps _ _ (h.between hnone)
  have hnext := (hwp x.state (hq.refl _)).2 o ho
  refine ⟨fun ha => absurd ha (cons_ne_nil _ _), ?_, ?_⟩
  · intro j p hj hnot
    have hne : j ≠ k := fun hjk => hnot (by simp [Config.called, active, hjk])
    have hj' : x.procs j = some p := by
      simpa [Config.called, hne] using hj
    refine h.waiting j p hj' fun hmem => hnot ?_
    exact mem_cons_of_mem _ hmem
  · intro j p hj hmem
    have hjk : j = k := by
      rcases mem_cons.1 hmem with hjk | hmem
      · exact hjk
      · exact hactive j hmem
    have hp : f (M.sem c o x.state).1 = p := by
      simpa [Config.called, hjk] using hj
    rw [← hp]
    exact hnext

theorem Turns.ended (h : Turns M I x) (hk : x.procs k = some (.ret a))
    (hone : ∀ i ∈ active x.trace, ∀ j ∈ active x.trace, i = j) :
    Turns M I (x.ended k a) := by
  have hactive : k ∈ active x.trace := by
    by_contra hnot
    obtain ⟨c, next, hp⟩ := (h.waiting k _ hk hnot).calls
    cases hp
  have hprocs : ∀ {j p}, (x.ended k a).procs j = some p → j ≠ k ∧ x.procs j = some p := by
    intro j p hj
    by_cases hjk : j = k
    · simp [Config.ended, hjk] at hj
    · exact ⟨hjk, by simpa [Config.ended, hjk] using hj⟩
  have hmem : ∀ {j}, j ∈ active (x.ended k a).trace ↔ j ∈ active x.trace ∧ j ≠ k := by
    intro j
    simp [Config.ended, active]
  refine ⟨fun _ => h.running k _ hk hactive, ?_, ?_⟩
  · intro j p hj hnot
    obtain ⟨hne, hj⟩ := hprocs hj
    exact h.waiting j p hj fun ha => hnot (hmem.2 ⟨ha, hne⟩)
  · intro j p hj ha
    obtain ⟨ha, hne⟩ := hmem.1 ha
    exact absurd (hone j ha k hactive) hne

theorem Turns.dead (h : Turns M I x) (k : Nat) : Turns M I (x.dead k) where
  between := h.between
  waiting := fun j p hj => h.waiting j p (update_none hj)
  running := fun j p hj => h.running j p (update_none hj)

theorem Turns.started (hq : Quiet M I) (h : Turns M I x) (hn : Numbered x)
    (hw : M.rely x.state w) (hp : Restores M I p) :
    Turns M I (x.started p w) := by
  have hmoved := h.moved hq hw
  refine ⟨hmoved.between, ?_, ?_⟩
  · intro j q hj hnot
    rcases update_some hj with ⟨-, rfl⟩ | hj
    · exact hp
    · exact h.waiting j q hj hnot
  · intro j q hj ha
    rcases update_some hj with ⟨rfl, -⟩ | hj
    · exact absurd (hn.active _ ha) (Nat.lt_irrefl _)
    · exact hmoved.running j q hj ha

theorem Numbered.step (hn : Numbered x) (hstep : Step P x y) : Numbered y := by
  cases hstep with
  | start p w hp =>
    refine ⟨?_, fun k hk => Nat.lt_succ_of_lt (hn.active k hk)⟩
    intro k q hk
    rcases update_some hk with ⟨rfl, -⟩ | hk
    · exact Nat.lt_succ_self _
    · exact Nat.lt_succ_of_lt (hn.procs k q hk)
  | call k c next o hk ho =>
    refine ⟨?_, ?_⟩
    · intro j q hj
      rcases update_some hj with ⟨rfl, -⟩ | hj
      · exact hn.procs _ _ hk
      · exact hn.procs j q hj
    · exact forall_mem_cons.2 ⟨hn.procs _ _ hk, hn.active⟩
  | done k a hk =>
    refine ⟨fun j q hj => hn.procs j q (update_none hj), ?_⟩
    intro j hj
    exact hn.active j (mem_filter.1 hj).1
  | die k => exact ⟨fun j q hj => hn.procs j q (update_none hj), hn.active⟩
  | other w hw => exact ⟨hn.procs, hn.active⟩

theorem Reaches.numbered (hx : P.Reaches w x) : Numbered x := by
  induction hx with
  | refl => exact ⟨by simp [Config.initial], by simp [Config.initial, active]⟩
  | tail _ hstep ih => exact ih.step hstep

section

variable (hq : Quiet M I)
    (hspawn : ∀ {w p w'}, P.spawn w p w' → M.rely w w' ∧ Restores M I p) (hw : I [] w)
    (hx : P.Reaches w x) (ht : TakesTurns x.trace)

include hq hspawn hw hx ht

theorem Reaches.turns : Turns M I x := by
  induction hx with
  | refl => exact ⟨fun _ => hw, by simp [Config.initial],
      by simp [Config.initial]⟩
  | @tail y z hx hstep ih =>
    cases hstep with
    | start p w hp =>
      have hs := hspawn hp
      exact (ih ht).started hq (Reaches.numbered hx) hs.1 hs.2
    | call k c next o hk ho => exact (ih ht.2).called hq hk ho ht.1
    | done k a hk =>
      have ht' : TakesTurns y.trace := ht
      exact (ih ht').ended hk fun i hi j hj => ht'.eq_of_mem hi hj
    | die k => exact (ih ht).dead k
    | other w hw => exact (ih ht).moved hq hw

/-- What every process restores when it runs alone holds whenever none is
active, in the runs in which processes take turns. -/
theorem holds_between_turns (hnone : active x.trace = []) : I (results x.trace) x.state :=
  (hx.turns hq hspawn hw ht).between hnone

end

end Rule

end Pool

/-! ## Nobody else -/

section Alone

variable {Call : Type} {Ans : Call → Type} {Out W α : Type}
  {sem : (c : Call) → Out → W → Ans c × W} {ok : Call → Out → W → Prop}

/-- A system in which nobody acts but the processes. -/
abbrev System.alone (sem : (c : Call) → Out → W → Ans c × W)
    (ok : Call → Out → W → Prop) : System Ans Out W where
  sem := sem
  ok := ok
  rely := (· = ·)

theorem wp_alone (h : ∀ o, ok c o w → wp ((System.alone sem ok).keeping fun _ =>
      True) (next (sem c o w).1) Q (sem c o w).2) :
    wp ((System.alone sem ok).keeping fun _ => True) (.call c next) Q w := by
  intro w' hw
  obtain rfl : w = w' := hw
  exact ⟨trivial, h⟩

theorem Pool.Quiet.alone (I : List α → W → Prop) : Pool.Quiet (System.alone sem ok) I :=
  ⟨fun _ => rfl, fun h h' => h.trans h', fun h hI => h ▸ hI⟩

end Alone

end Proc
