import Mathlib

/-!
# Programs as trees of calls

A program is a tree.  Each inner node is one call to the outside world, and
the children of the node are indexed by the answer of that call.  The type
of the calls and the type of each answer are parameters, so nothing here
knows what the calls do.

* `Prog` is the tree, `Prog.bind` grafts one tree onto the leaves of another,
  and `ExceptT ε (Prog Ans)` is the same tree with exits.
* `Prog.Follows` bounds the calls that a tree can ever make, by an automaton
  that watches the answers.  It is closed under `bind`, so a bound for a long
  program is assembled from the bounds for its pieces.  `Prog.Makes` is the
  case without an automaton.
* `Prog.exec` runs a tree against a handler of the calls.  `Prog.execN` runs
  only its first calls and gives the tree that is left, which is what remains
  of a process that dies.
-/

namespace Proc

/-- A program that makes calls.  `Ans c` is the type of the answer to the
call `c`. -/
inductive Prog {Call : Type} (Ans : Call → Type) (α : Type) : Type where
  | ret (a : α) : Prog Ans α
  | call (c : Call) (next : Ans c → Prog Ans α) : Prog Ans α

namespace Prog

variable {Call : Type} {Ans : Call → Type} {α β γ ε : Type}

/-- Run `p`, then the program that `f` gives for its result. -/
def bind (p : Prog Ans α) (f : α → Prog Ans β) : Prog Ans β :=
  match p with
  | ret a => f a
  | call c next => call c (fun a => (next a).bind f)

instance : Monad (Prog Ans) where
  pure := ret
  bind := bind

/-- The program that makes the single call `c`. -/
def perform (c : Call) : Prog Ans (Ans c) :=
  call c ret

@[simp] theorem bind_ret (a : α) (f : α → Prog Ans β) : (ret a).bind f = f a := rfl

@[simp] theorem bind_call (c : Call) (next : Ans c → Prog Ans α) (f : α → Prog Ans β) :
    (call c next).bind f = call c (fun a => (next a).bind f) := rfl

theorem bind_bind (p : Prog Ans α) (f : α → Prog Ans β) (g : β → Prog Ans γ) :
    (p.bind f).bind g = p.bind (fun a => (f a).bind g) := by
  induction p with
  | ret a => rfl
  | call c next ih =>
    simp only [bind_call]
    congr 1
    funext a
    exact ih a

theorem bind_ret_right (p : Prog Ans α) : p.bind ret = p := by
  induction p with
  | ret a => rfl
  | call c next ih =>
    rw [bind_call]
    congr 1
    funext a
    exact ih a

instance : LawfulMonad (Prog Ans) :=
  LawfulMonad.mk' _ bind_ret_right bind_ret bind_bind

/-! ## The calls a program can make -/

/-- The calls and the results of a program, watched by an automaton that sees
the answers: in the state `s` the next call has to satisfy `P s`, a result
has to satisfy `Q s`, and an answer takes the automaton on by `δ`. -/
inductive Follows {σ : Type} (δ : σ → (c : Call) → Ans c → σ)
    (P : σ → Call → Prop) (Q : σ → α → Prop) : σ → Prog Ans α → Prop where
  | ret (s : σ) (a : α) (h : Q s a) : Follows δ P Q s (ret a)
  | call (s : σ) (c : Call) (next : Ans c → Prog Ans α) (h : P s c)
      (hnext : ∀ a, Follows δ P Q (δ s c a) (next a)) :
      Follows δ P Q s (call c next)

variable {p : Prog Ans α}

section Follows

variable {σ : Type}

theorem Follows.mono (h : Follows δ P Q s p) (hP : ∀ s c, P s c → P' s c)
    (hQ : ∀ s a, Q s a → Q' s a) : Follows δ P' Q' s p := by
  induction h with
  | ret s a h => exact .ret s a (hQ s a h)
  | call s c next h _ ih => exact .call s c next (hP s c h) ih

/-- A graft follows the automaton when the trunk does and each branch goes on
from the state that the trunk ends in. -/
theorem Follows.bind (h : Follows δ P Q s p) (hf : ∀ s a, Q s a → Follows δ P R s (f a)) :
    Follows δ P R s (p.bind f) := by
  induction h with
  | ret s a h => exact hf s a h
  | call s c next h _ ih => exact .call s c _ h ih

/-- `Follows.bind` for programs with exits. -/
theorem Follows.run_bind {s : σ} {x : ExceptT ε (Prog Ans) α}
    {f : α → ExceptT ε (Prog Ans) β} (h : Follows δ P Q s x.run)
    (hok : ∀ s a, Q s (.ok a) → Follows δ P R s (f a).run)
    (herr : ∀ s e, Q s (.error e) → R s (.error e)) :
    Follows δ P R s (x >>= f).run := by
  refine Follows.bind h ?_
  intro s r hr
  cases r with
  | ok a => exact hok s a hr
  | error e => exact .ret s _ (herr s e hr)

theorem Follows.lift (h : Follows δ P Q s p) :
    Follows δ P (fun s r => ∃ a, r = .ok a ∧ Q s a) s
      (ExceptT.lift p : ExceptT ε (Prog Ans) α).run :=
  Follows.bind h fun s a ha => .ret s _ ⟨a, rfl, ha⟩

/-- Every call that `p` can make, whatever the answers are, satisfies `P`. -/
def Makes (P : Call → Prop) (p : Prog Ans α) : Prop :=
  Follows (fun _ _ _ => ()) (fun _ c => P c) (fun _ _ => True) () p

theorem makes_ret (P : Call → Prop) (a : α) : Makes P (ret a : Prog Ans α) :=
  .ret () a trivial

theorem Makes.call {next : Ans c → Prog Ans α} (h : P c)
    (hnext : ∀ a, Makes P (next a)) : Makes P (call c next) :=
  Follows.call () c next h hnext

theorem Makes.mono (h : Makes P p) (hP : ∀ c, P c → P' c) : Makes P' p :=
  Follows.mono h (fun _ => hP) fun _ _ h => h

theorem Makes.bind (h : Makes P p) (hf : ∀ a, Makes P (f a)) : Makes P (p.bind f) :=
  Follows.bind h fun _ a _ => hf a

theorem Makes.run_bind {f : α → ExceptT ε (Prog Ans) β} (h : Makes P x.run)
    (hf : ∀ a, Makes P (f a).run) : Makes P (x >>= f).run :=
  Follows.run_bind h (fun _ a _ => hf a) fun _ _ _ => trivial

theorem Follows.makes {s : σ} {P' : Call → Prop} (h : Follows δ P Q s p)
    (hP : ∀ s c, P s c → P' c) : Makes P' p := by
  induction h with
  | ret s a _ => exact makes_ret P' a
  | call s c next h _ ih => exact Makes.call (hP s c h) ih

/-- A bound that does not look at the automaton's state holds under any other
automaton. -/
theorem Follows.retarget {P : Call → Prop} {Q : α → Prop}
    (h : Follows δ (fun _ c => P c) (fun _ a => Q a) s p) {τ : Type}
    (δ' : τ → (c : Call) → Ans c → τ) (t : τ) :
    Follows δ' (fun _ c => P c) (fun _ a => Q a) t p := by
  induction h generalizing t with
  | ret s a h => exact .ret t a h
  | call s c next h _ ih => exact .call t c next h fun a => ih a _

/-- A bound carries over to an automaton that simulates the first one. -/
theorem Follows.simulate (h : Follows δ P Q s p) (f : σ → τ)
    (hP : ∀ s c, P s c → P' (f s) c)
    (hδ : ∀ s c a, P s c → δ' (f s) c a = f (δ s c a))
    (hQ : ∀ s a, Q s a → Q' (f s) a) : Follows δ' P' Q' (f s) p := by
  induction h with
  | ret s a h => exact .ret _ a (hQ s a h)
  | call s c next h _ ih =>
    refine .call _ c next (hP s c h) ?_
    intro a
    rw [hδ s c a h]
    exact ih a

/-- What the automaton keeps along a program. -/
theorem Follows.keeping (h : Follows δ P Q s p) {I : σ → Prop}
    (hI : ∀ s c a, P s c → I s → I (δ s c a)) (hs : I s) :
    Follows δ P (fun s a => Q s a ∧ I s) s p := by
  induction h with
  | ret s a h => exact .ret s a ⟨h, hs⟩
  | call s c next h _ ih =>
    exact .call s c next h fun a => ih a (hI s c a h hs)

end Follows

/-! ## Running a program -/

section Exec

variable {W : Type} (handle : (c : Call) → W → Ans c × W)

/-- Run `p` from the state `w`, with every call answered by `handle`. -/
def exec : Prog Ans α → W → α × W
  | ret a, w => (a, w)
  | call c next, w => exec (next (handle c w).1) (handle c w).2

/-- Run the first `n` calls of `p`: the program that is left, and the state
that the calls made so far leave behind. -/
def execN : Nat → Prog Ans α → W → Prog Ans α × W
  | 0, p, w => (p, w)
  | _ + 1, ret a, w => (ret a, w)
  | n + 1, call c next, w =>
    execN n (next (handle c w).1) (handle c w).2

theorem execN_lift (c : Call) (f : Ans c → ExceptT ε (Prog Ans) β) (n : Nat) (w : W) :
    (ExceptT.lift (perform c) >>= f).run.execN handle (n + 1) w =
      (f (handle c w).1).run.execN handle n (handle c w).2 := rfl

/-- The result of a program that has come to its end. -/
def value? : Prog Ans α → Option α
  | ret a => some a
  | call _ _ => none

theorem eq_ret_of_value? (h : p.value? = some a) : p = ret a := by
  cases p with
  | ret b => rw [Option.some.inj h]
  | call c next => cases h

/-- The first `n` calls of `p` are made in states where `P` holds. -/
def AllN (P : Call → W → Prop) : Nat → Prog Ans α → W → Prop
  | 0, _, _ => True
  | _ + 1, ret _, _ => True
  | n + 1, call c next, w =>
    P c w ∧ AllN P n (next (handle c w).1) (handle c w).2

theorem allN_of_forall (h : ∀ c w, P c w) (n : Nat) (p : Prog Ans α) (w : W) :
    p.AllN handle P n w := by
  induction n generalizing p w with
  | zero => trivial
  | succ n ih =>
    cases p with
    | ret a => trivial
    | call c next => exact ⟨h c w, ih _ _⟩

instance instDecidableAllN {P : Call → W → Prop} [∀ c w, Decidable (P c w)] :
    (n : Nat) → (p : Prog Ans α) → (w : W) → Decidable (p.AllN handle P n w)
  | 0, _, _ => isTrue trivial
  | _ + 1, ret _, _ => isTrue trivial
  | n + 1, call c next, w =>
    have : Decidable (AllN handle P n (next (handle c w).1) (handle c w).2) :=
      instDecidableAllN n _ _
    inferInstanceAs (Decidable (P c w ∧ _))

end Exec

end Prog

end Proc
