import Akerdock.Lib.Machine

/-!
# Readings of containers after their events

An event of a container makes the agent read its state, after a delay in which
further events are waited for.  A map has the containers for which a goroutine
waits.  The goroutine takes its mark away before it reads, so an event is
either seen by the reading or starts a goroutine of its own:
`events_inspected`.
-/

namespace Akerdock.Agent.Verify

open List
open Machine (Reaches run of_guard)

/-- The agent, with a state reader and a context that is alive.  `asleep` are
the goroutines with a mark, and `awake` those that have taken it away and read
next.  The log has the events and the inspections, with their times. -/
structure State where
  clock : Nat
  pending : List String
  asleep : List String
  awake : List String
  events : List (String × Nat)
  inspections : List (String × Nat)
  deriving DecidableEq

def State.start : State :=
  ⟨0, [], [], [], [], []⟩

/-- The critical section of a call, that of its goroutine, and the reading. -/
inductive Action where
  | verifyLater (container : String)
  | wake (container : String)
  | observe (container : String)

def State.apply : Action → State → Option State
  | .verifyLater c, s =>
    let s := { s with clock := s.clock + 1, events := (c, s.clock) :: s.events }
    if c = "" ∨ c ∈ s.pending then some s
    else some { s with pending := c :: s.pending, asleep := c :: s.asleep }
  | .wake c, s =>
    if c ∈ s.asleep then
      some { s with
        pending := s.pending.filter (· ≠ c)
        asleep := s.asleep.erase c, awake := c :: s.awake }
    else none
  | .observe c, s =>
    if c ∈ s.awake then
      some { s with
        clock := s.clock + 1
        awake := s.awake.erase c, inspections := (c, s.clock) :: s.inspections }
    else none

/-- The container was inspected after the event. -/
def State.Inspected (s : State) (e : String × Nat) : Prop :=
  ∃ i ∈ s.inspections, i.1 = e.1 ∧ e.2 < i.2

structure Covered (s : State) : Prop where
  marked : ∀ c, c ∈ s.pending ↔ c ∈ s.asleep
  once : s.asleep.Nodup
  past : ∀ e ∈ s.events, e.2 < s.clock
  covered : ∀ e ∈ s.events, e.1 ≠ "" → e.1 ∈ s.asleep ∨ e.1 ∈ s.awake ∨ s.Inspected e

variable {s s' : State} {a : Action}

theorem Covered.step (h : Covered s) (happly : s.apply a = some s') : Covered s' := by
  cases a with
  | verifyLater c =>
    have hpast : ∀ e ∈ (c, s.clock) :: s.events, e.2 < s.clock + 1 := forall_mem_cons.2
      ⟨Nat.lt_succ_self _, fun e he => Nat.lt_succ_of_lt (h.past e he)⟩
    simp only [State.apply] at happly
    split at happly <;> cases happly
    · next hskip =>
      -- a goroutine with a mark waits already
      refine ⟨h.marked, h.once, hpast, forall_mem_cons.2 ⟨fun hne => .inl ?_, h.covered⟩⟩
      exact (h.marked c).1 (hskip.resolve_left hne)
    · next hskip =>
      have hnew : c ∉ s.asleep := fun hc => hskip (.inr ((h.marked c).2 hc))
      refine ⟨by simp [h.marked], nodup_cons.2 ⟨hnew, h.once⟩, hpast, ?_⟩
      refine forall_mem_cons.2 ⟨fun _ => .inl mem_cons_self, fun e he hne => ?_⟩
      exact (h.covered e he hne).imp_left (mem_cons_of_mem _)
  | wake c =>
    obtain ⟨-, rfl⟩ := of_guard happly
    refine ⟨?_, h.once.erase c, h.past, fun e he hne => ?_⟩
    · intro d
      rw [h.once.mem_erase_iff, mem_filter, h.marked]
      simp [and_comm]
    · by_cases heq : e.1 = c
      · exact .inr (.inl (heq ▸ mem_cons_self))
      · rcases h.covered e he hne with hc | hc | hc
        · exact .inl ((mem_erase_of_ne heq).2 hc)
        · exact .inr (.inl (mem_cons_of_mem _ hc))
        · exact .inr (.inr hc)
  | observe c =>
    obtain ⟨-, rfl⟩ := of_guard happly
    refine ⟨h.marked, h.once, fun e he => Nat.lt_succ_of_lt (h.past e he), fun e he hne => ?_⟩
    by_cases heq : e.1 = c
    · -- the reading starts after every event so far
      exact .inr (.inr ⟨_, mem_cons_self, heq.symm, h.past e he⟩)
    · rcases h.covered e he hne with hc | hc | ⟨i, hi, hafter⟩
      · exact .inl hc
      · exact .inr (.inl ((mem_erase_of_ne heq).2 hc))
      · exact .inr (.inr ⟨i, mem_cons_of_mem _ hi, hafter⟩)

/-- The steps that the goroutines have left. -/
def State.left (s : State) : Nat :=
  2 * s.asleep.length + s.awake.length

theorem left_lt (h : s.apply (.wake c) = some s' ∨ s.apply (.observe c) = some s') :
    s'.left < s.left := by
  rcases h with h | h <;> obtain ⟨hmem, rfl⟩ := of_guard h <;>
    have hlen := length_erase_add_one hmem <;> simp only [State.left, length_cons] <;> omega

theorem exists_step (h : s.left ≠ 0) :
    ∃ c s', s.apply (.wake c) = some s' ∨ s.apply (.observe c) = some s' := by
  rcases s with ⟨clock, pending, _ | ⟨c, asleep⟩, _ | ⟨d, awake⟩, events, inspections⟩
  · exact absurd rfl h
  · exact ⟨d, _, .inr (if_pos mem_cons_self)⟩
  all_goals exact ⟨c, _, .inl (if_pos mem_cons_self)⟩

/-- No container has two goroutines with a mark.  The goroutines come to their
end, and then each event was followed by an inspection. -/
theorem events_inspected (h : Reaches State.apply (fun _ _ => True) .start s) :
    s.asleep.Nodup ∧ (s.left = 0 → ∀ e ∈ s.events, e.1 ≠ "" → s.Inspected e) ∧
      (s.left ≠ 0 → ∃ c s', s.apply (.wake c) = some s' ∨ s.apply (.observe c) = some s') ∧
      ∀ c s', s.apply (.wake c) = some s' ∨ s.apply (.observe c) = some s' →
        s'.left < s.left := by
  have hs : Covered s :=
    h.invariant (fun _ _ _ _ happly hs => hs.step happly)
      ⟨by simp [State.start], .nil, nofun, nofun⟩
  refine ⟨hs.once, fun hleft e he hne => ?_, exists_step, fun _ _ => left_lt⟩
  have hnone : s.asleep.length = 0 ∧ s.awake.length = 0 := by
    unfold State.left at hleft
    omega
  simp only [length_eq_zero_iff] at hnone
  simpa [hnone] using hs.covered e he hne

/-- After two events of a container in a row. -/
def burst : State :=
  ⟨3, [], [], [], [("web", 1), ("web", 0)], [("web", 2)]⟩

theorem events_inspected_burst :
    burst.Inspected ("web", 0) ∧ burst.Inspected ("web", 1) := by
  have hrun : run State.apply [.verifyLater "web", .verifyLater "web", .wake "web",
    .observe "web"] .start = some burst := by decide +kernel
  have h := (events_inspected (.of_run hrun Machine.runMay_true)).2.1 rfl
  exact ⟨h _ (by simp [burst]) (by simp), h _ (by simp [burst]) (by simp)⟩

/-- An event without the name of its container. -/
theorem unnamed_not_inspected : ∃ s, run State.apply [.verifyLater ""] .start = some s ∧
    s.left = 0 ∧ ("", 0) ∈ s.events ∧ ¬s.Inspected ("", 0) :=
  ⟨_, rfl, rfl, mem_cons_self, by simp [State.Inspected, State.start]⟩

end Akerdock.Agent.Verify
