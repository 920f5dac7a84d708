import Akerdock.Lib.Wp

/-!
# Processes that run side by side

`Pool M` is a system `M` with any number of processes.  A process starts, makes
its calls one by one, and ends or dies; the calls of different processes
interleave in any order, and between two of them the other parties of `M` act.
Processes are numbered in the order they start, and a number is not used
again, so the `trace` of a run says which process made which call, with which
answer.

`Watch` is the proof rule.  Every process is watched by an automaton that sees
its own calls and answers, as in `Prog.Follows`.  The assertion `G` relates the
states of all automata, the state of the system and the trace, and one has to
show what each kind of step does to it.  `Watch.reaches` then gives `G` for
every configuration of every run.

`Prog.inl` lets a program over one kind of calls run among processes that make
calls of another kind as well.
-/

namespace Proc

open Prog Function

variable {Call : Type} {Ans : Call → Type} {Out W α σ : Type}

/-- What a process did. -/
inductive Event (Ans : Call → Type) (α : Type) where
  | called (k : Nat) (c : Call) (a : Ans c)
  | ended (k : Nat) (a : α)

/-- The process that an event belongs to. -/
def Event.proc : Event Ans α → Nat
  | .called k _ _ => k
  | .ended k _ => k

/-- A system with processes.  `spawn w p w'` says that the process `p` may
start in the state `w`, and that its start takes the state to `w'`. -/
structure Pool (M : System Ans Out W) (α : Type) where
  spawn : W → Prog Ans α → W → Prop

namespace Pool

variable {M : System Ans Out W}

/-- What is left of each process, the next number, the state, and the trace,
newest event first. -/
structure Config (Ans : Call → Type) (W α : Type) where
  procs : Nat → Option (Prog Ans α)
  next : Nat
  state : W
  trace : List (Event Ans α)

def Config.initial (w : W) : Config Ans W α where
  procs := fun _ => none
  next := 0
  state := w
  trace := []

/-- The process `p` starts, with the state `w` as the result. -/
def Config.started (x : Config Ans W α) (p : Prog Ans α) (w : W) : Config Ans W α where
  procs := update x.procs x.next (some p)
  next := x.next + 1
  state := w
  trace := x.trace

/-- The process `k` makes the call `c`, with `next` as what is left of it. -/
def Config.called (x : Config Ans W α) (k : Nat) (c : Call)
    (next : Ans c → Prog Ans α) (r : Ans c × W) : Config Ans W α where
  procs := update x.procs k (some (next r.1))
  next := x.next
  state := r.2
  trace := .called k c r.1 :: x.trace

def Config.ended (x : Config Ans W α) (k : Nat) (a : α) : Config Ans W α where
  procs := update x.procs k none
  next := x.next
  state := x.state
  trace := .ended k a :: x.trace

def Config.dead (x : Config Ans W α) (k : Nat) : Config Ans W α :=
  { x with procs := update x.procs k none }

/-- The other parties take the state to `w`. -/
def Config.moved (x : Config Ans W α) (w : W) : Config Ans W α :=
  { x with state := w }

inductive Step (P : Pool M α) : Config Ans W α → Config Ans W α → Prop where
  | start (x : Config Ans W α) (p : Prog Ans α) (w : W)
      (h : P.spawn x.state p w) : Step P x (x.started p w)
  | call (x : Config Ans W α) (k : Nat) (c : Call)
      (next : Ans c → Prog Ans α) (o : Out)
      (hk : x.procs k = some (.call c next)) (ho : M.ok c o x.state) :
      Step P x (x.called k c next (M.sem c o x.state))
  | done (x : Config Ans W α) (k : Nat) (a : α)
      (hk : x.procs k = some (.ret a)) : Step P x (x.ended k a)
  | die (x : Config Ans W α) (k : Nat) : Step P x (x.dead k)
  | other (x : Config Ans W α) (w : W) (h : M.rely x.state w) : Step P x (x.moved w)

def Reaches (P : Pool M α) (w : W) : Config Ans W α → Prop :=
  Relation.ReflTransGen (Step P) (.initial w)

/-! ## Watching every process -/

variable {m : Nat → Option σ} {k : Nat} {x : Config Ans W α} {w : W}

/-- Where a state in an updated map comes from. -/
theorem update_some (h : update m k (some s') i = some s) : i = k ∧ s = s' ∨ m i = some s := by
  by_cases hi : i = k
  · subst hi
    exact .inl ⟨rfl, by simpa using h.symm⟩
  · exact .inr (by simpa [hi] using h)

theorem update_none (h : update m k none i = some s) : m i = some s := by
  by_cases hi : i = k
  · subst hi
    simp at h
  · simpa [hi] using h

/-- What an invariant proof has to provide.  `m k` is the state of the
automaton that watches the process `k`. -/
structure Watch (P : Pool M α) (δ : σ → (c : Call) → Ans c → σ)
    (A : σ → Call → Prop) (Q : σ → α → Prop)
    (G : (Nat → Option σ) → W → List (Event Ans α) → Prop) : Prop where
  start : ∀ {m w t k p w'}, G m w t → m k = none →
    (∀ e ∈ t, e.proc ≠ k) → P.spawn w p w' →
    ∃ s, Follows δ A Q s p ∧ G (update m k (some s)) w' t
  call : ∀ {m w t k s c o}, G m w t → m k = some s → A s c → M.ok c o w →
    G (update m k (some (δ s c (M.sem c o w).1))) (M.sem c o w).2
      (.called k c (M.sem c o w).1 :: t)
  done : ∀ {m w t k s a}, G m w t → m k = some s → Q s a →
    G (update m k none) w (.ended k a :: t)
  die : ∀ {m w t k}, G m w t → G (update m k none) w t
  other : ∀ {m w w' t}, G m w t → M.rely w w' → G m w' t

section Watch

variable {δ : σ → (c : Call) → Ans c → σ} {A : σ → Call → Prop}
    {Q : σ → α → Prop} {G : (Nat → Option σ) → W → List (Event Ans α) → Prop}

/-- What is left of a process follows its automaton. -/
inductive Tracked (δ : σ → (c : Call) → Ans c → σ) (A : σ → Call → Prop)
    (Q : σ → α → Prop) : Option (Prog Ans α) → Option σ → Prop where
  | gone : Tracked δ A Q none none
  | runs {p : Prog Ans α} {s : σ} (h : Follows δ A Q s p) : Tracked δ A Q (some p) (some s)

/-- The automata `m` watch the processes of `x`, and the numbers from `x.next`
on were not used. -/
structure Watched (δ : σ → (c : Call) → Ans c → σ) (A : σ → Call → Prop)
    (Q : σ → α → Prop)
    (G : (Nat → Option σ) → W → List (Event Ans α) → Prop)
    (m : Nat → Option σ) (x : Config Ans W α) : Prop where
  holds : G m x.state x.trace
  tracked : ∀ k, Tracked δ A Q (x.procs k) (m k)
  unused : ∀ k, x.next ≤ k → x.procs k = none
  past : ∀ e ∈ x.trace, e.proc < x.next

theorem Tracked.of_none (h : Tracked δ A Q none s) : s = none := by
  cases h
  rfl

theorem Tracked.of_some (h : Tracked δ A Q (some p) s) :
    ∃ s', s = some s' ∧ Follows δ A Q s' p := by
  cases h with
  | runs h => exact ⟨_, rfl, h⟩

/-- Replacing one process and its automaton. -/
theorem Tracked.update (h : ∀ k, Tracked δ A Q (f k) (m k)) (hk : Tracked δ A Q p s) (i : Nat) :
    Tracked δ A Q (update f k p i) (update m k s i) := by
  by_cases hi : i = k
  · subst hi
    simpa using hk
  · simpa [hi] using h i

theorem Watched.lt_next (h : Watched δ A Q G m x) (hk : x.procs k = some p) : k < x.next := by
  by_contra hge
  cases (h.unused k (Nat.le_of_not_lt hge)).symm.trans hk

/-- An update of a used number leaves the unused ones alone. -/
theorem Watched.unused_update (h : Watched δ A Q G m x) (hk : x.procs k = p)
    (hp : p ≠ none ∨ q = none) (i : Nat) (hi : x.next ≤ i) :
    update x.procs k q i = none := by
  by_cases hik : i = k
  · subst hik
    rcases hp with hp | hq
    · exact absurd (h.unused i hi) (hk ▸ hp)
    · simpa using hq
  · simpa [hik] using h.unused i hi

theorem Watch.step (h : Watch P δ A Q G) (hstep : Step P x y)
    (hx : Watched δ A Q G m x) : ∃ m', Watched δ A Q G m' y := by
  cases hstep with
  | start p w hp =>
    have hfree := hx.unused x.next (Nat.le_refl _)
    obtain ⟨s, hs, hG⟩ := h.start hx.holds
      (Tracked.of_none (hfree ▸ hx.tracked x.next))
      (fun e he => Nat.ne_of_lt (hx.past e he)) hp
    refine ⟨_, hG, fun k => Tracked.update hx.tracked (.runs hs) k, ?_, ?_⟩
    · intro k hk
      have hne : k ≠ x.next := by
        rintro rfl
        exact Nat.lt_irrefl _ hk
      simpa [Config.started, hne] using hx.unused k (Nat.le_of_succ_le hk)
    · exact fun e he => Nat.lt_succ_of_lt (hx.past e he)
  | call k c next o hk ho =>
    obtain ⟨s, hs, hf⟩ := Tracked.of_some (hk ▸ hx.tracked k)
    cases hf with
    | call _ _ _ hA hnext =>
      refine ⟨_, h.call hx.holds hs hA ho,
        fun i => Tracked.update hx.tracked (.runs (hnext _)) i,
        hx.unused_update hk (.inl (by simp)), ?_⟩
      exact List.forall_mem_cons.2 ⟨hx.lt_next hk, hx.past⟩
  | done k a hk =>
    obtain ⟨s, hs, hf⟩ := Tracked.of_some (hk ▸ hx.tracked k)
    cases hf with
    | ret _ _ hQ =>
      refine ⟨_, h.done hx.holds hs hQ,
        fun i => Tracked.update hx.tracked .gone i,
        hx.unused_update rfl (.inr rfl), ?_⟩
      exact List.forall_mem_cons.2 ⟨hx.lt_next hk, hx.past⟩
  | die k =>
    exact ⟨_, h.die hx.holds, fun i => Tracked.update hx.tracked .gone i,
      hx.unused_update rfl (.inr rfl), hx.past⟩
  | other w hw =>
    exact ⟨m, h.other hx.holds hw, hx.tracked, hx.unused, hx.past⟩

theorem Watch.reaches (h : Watch P δ A Q G) (hw : G (fun _ => none) w [])
    (hx : P.Reaches w x) : ∃ m, G m x.state x.trace := by
  have hall : ∃ m, Watched δ A Q G m x := by
    induction hx with
    | refl =>
      exact ⟨_, hw, fun _ => .gone, fun _ _ => rfl, nofun⟩
    | tail _ hstep ih =>
      obtain ⟨m, hm⟩ := ih
      exact h.step hstep hm
  obtain ⟨m, hm⟩ := hall
  exact ⟨m, hm.holds⟩

end Watch

/-! ## Building runs -/

/-- The process `k` makes its next `n` calls, with the outcome `o` for each of
them. -/
def Config.calls (M : System Ans Out W) (o : Out) (k : Nat) : Nat → Config Ans W α → Config Ans W α
  | 0, x => x
  | n + 1, x =>
    match x.procs k with
    | some (.call c next) =>
      Config.calls M o k n (x.called k c next (M.sem c o x.state))
    | _ => x

/-- The next `n` calls of the process `k` are allowed. -/
def Config.CallsOk (M : System Ans Out W) (o : Out) (k : Nat) : Nat → Config Ans W α → Prop
  | 0, _ => True
  | n + 1, x =>
    match x.procs k with
    | some (.call c next) => M.ok c o x.state ∧
      Config.CallsOk M o k n (x.called k c next (M.sem c o x.state))
    | _ => True

instance instDecidableCallsOk {M : System Ans Out W} {o : Out}
    [∀ c w, Decidable (M.ok c o w)] (k : Nat) :
    (n : Nat) → (x : Config Ans W α) → Decidable (x.CallsOk M o k n)
  | 0, _ => isTrue trivial
  | n + 1, x =>
    match h : x.procs k with
    | none => isTrue (by simp [Config.CallsOk, h])
    | some (.ret _) => isTrue (by simp [Config.CallsOk, h])
    | some (.call c next) =>
      have := instDecidableCallsOk (M := M) (o := o) k n (x.called k c next (M.sem c o x.state))
      decidable_of_iff (M.ok c o x.state ∧
        (x.called k c next (M.sem c o x.state)).CallsOk M o k n)
        (by simp [Config.CallsOk, h])

/-- The process `k` ends, if it has come to its end. -/
def Config.finish (k : Nat) (x : Config Ans W α) : Config Ans W α :=
  match x.procs k with
  | some (.ret a) => x.ended k a
  | _ => x

/-- A process with the program `p` starts and makes its first `n` calls. -/
def Config.launch (M : System Ans Out W) (o : Out) (p : Prog Ans α) (n : Nat)
    (x : Config Ans W α) : Config Ans W α :=
  (x.started p x.state).calls M o x.next n

theorem Config.callsOk_of_forall (h : ∀ c w, M.ok c o w) (k n : Nat)
    (x : Config Ans W α) : x.CallsOk M o k n := by
  induction n generalizing x with
  | zero => trivial
  | succ n ih =>
    rw [Config.CallsOk]
    split
    · exact ⟨h _ _, ih _⟩
    · trivial

theorem Reaches.calls {P : Pool M α} (h : P.Reaches w x)
    (hok : x.CallsOk M o k n) : P.Reaches w (x.calls M o k n) := by
  induction n generalizing x with
  | zero => exact h
  | succ n ih =>
    rw [Config.calls]
    rw [Config.CallsOk] at hok
    split
    · rename_i c next hk
      rw [hk] at hok
      exact ih (h.tail (.call x k c next o hk hok.1)) hok.2
    · exact h

theorem Reaches.finish {P : Pool M α} (h : P.Reaches w x) (k : Nat) : P.Reaches w (x.finish k) := by
  unfold Config.finish
  split
  · rename_i a hk
    exact h.tail (.done x k a hk)
  · exact h

theorem Reaches.launch {P : Pool M α} (h : P.Reaches w x)
    (hp : P.spawn x.state p x.state) {n : Nat}
    (hok : (x.started p x.state).CallsOk M o x.next n) :
    P.Reaches w (x.launch M o p n) :=
  Reaches.calls (h.tail (.start x p x.state hp)) hok

end Pool

namespace Prog

/-! ## Two kinds of calls -/

variable {Call₁ Call₂ : Type} {Ans₁ : Call₁ → Type} {Ans₂ : Call₂ → Type}

/-- A program over calls of the first kind. -/
def inl : Prog Ans₁ α → Prog (Sum.elim Ans₁ Ans₂) α
  | ret a => ret a
  | call c next => call (.inl c) fun a => inl (next a)

/-- The automaton for both kinds, as it sees the calls of the first kind. -/
theorem Follows.inl {A : σ → Call₁ ⊕ Call₂ → Prop} {s : σ} {p : Prog Ans₁ α}
    (h : Follows (fun s c a => δ s (Sum.inl c) a)
      (fun s c => A s (Sum.inl c)) Q s p) : Follows δ A Q s p.inl := by
  induction h with
  | ret s a h => exact .ret s a h
  | call s c next h _ ih => exact .call s (Sum.inl c) _ h ih

end Prog

end Proc
