import Akerdock.Lib.Wp

/-!
# Attempts that are made again after a crash

`Retry M` is something that a worker attempts, one attempt at a time, in the
system `M`.  An attempt can be cut short at any point: the state stays as its
calls left it, and what was left of the program is lost.  Later an attempt is
made from the beginning again.  Between two calls the other parties of `M`
act.

`Retry.mayDie` says in which states a worker may die, and `Retry.mayEnd` with
which result in which state an attempt may end, so that a property can be
stated for the runs in which every crash meets a condition.

`Retry.Sound.reaches_inv` is the rule for these runs.  Each attempt is judged
by `wp` from a precondition of its own, and every way an attempt can end, a
crash included, has to lead back to that precondition.
-/

namespace Proc

open Prog

variable {Call : Type} {Ans : Call → Type} {Out W α : Type}

/-- Something that is attempted again and again in the system `M`.  Any of
the programs `attempt` may be started. -/
structure Retry (M : System Ans Out W) (α : Type) where
  attempt : Prog Ans α → Prop
  mayDie : W → Prop
  mayEnd : α → W → Prop

namespace Retry

variable {M : System Ans Out W}

/-- What is left of the current attempt, if there is one, and the state. -/
structure Config (Ans : Call → Type) (W α : Type) where
  running : Option (Prog Ans α)
  state : W

/-- One step: an attempt starts, makes a call, ends or dies, or the
other parties act. -/
inductive Step (j : Retry M α) : Config Ans W α → Config Ans W α → Prop where
  | start (p : Prog Ans α) (w : W) (h : j.attempt p) : Step j ⟨none, w⟩ ⟨some p, w⟩
  | call (c : Call) (next : Ans c → Prog Ans α) (o : Out) (w : W) (ho : M.ok c o w) :
      Step j ⟨some (.call c next), w⟩ ⟨some (next (M.sem c o w).1), (M.sem c o w).2⟩
  | done (a : α) (w : W) (h : j.mayEnd a w) : Step j ⟨some (.ret a), w⟩ ⟨none, w⟩
  | die (p : Prog Ans α) (w : W) (h : j.mayDie w) : Step j ⟨some p, w⟩ ⟨none, w⟩
  | other (run : Option (Prog Ans α)) (w w' : W) (h : M.rely w w') : Step j ⟨run, w⟩ ⟨run, w'⟩

def Reaches (j : Retry M α) (w : W) : Config Ans W α → Prop :=
  Relation.ReflTransGen (Step j) ⟨none, w⟩

/-- What holds of a configuration when the attempts are judged from the
precondition `pre`. -/
def Judged (M : System Ans Out W) (inv pre : W → Prop) (Q : α → W → Prop) : Config Ans W α → Prop
  | ⟨none, w⟩ => pre w
  | ⟨some p, w⟩ => wp (M.keeping inv) p Q w

/-- What an invariant proof has to provide. -/
structure Sound (j : Retry M α) (inv pre : W → Prop) (Q : α → W → Prop) : Prop where
  refl : ∀ w, M.rely w w
  trans : ∀ {w₁ w₂ w₃}, M.rely w₁ w₂ → M.rely w₂ w₃ → M.rely w₁ w₃
  attempt : ∀ p w, j.attempt p → pre w → wp (M.keeping inv) p Q w
  pre_inv : ∀ w, pre w → inv w
  pre_stable : ∀ w w', pre w → M.rely w w' → pre w'
  post_inv : ∀ a w, Q a w → inv w
  post_stable : ∀ a w w', Q a w → M.rely w w' → Q a w'
  done : ∀ a w, Q a w → j.mayEnd a w → pre w
  die : ∀ w, inv w → j.mayDie w → pre w

namespace Sound

variable {j : Retry M α} {inv pre : W → Prop} {Q : α → W → Prop}

theorem judged_inv (h : Sound j inv pre Q) (hx : Judged M inv pre Q x) : inv x.state := by
  obtain ⟨_ | p, w⟩ := x
  · exact h.pre_inv w hx
  · cases p with
    | ret a => exact h.post_inv a w hx
    | call c next => exact (hx w (h.refl w)).1

theorem step (h : Sound j inv pre Q) (hstep : Step j x y)
    (hx : Judged M inv pre Q x) : Judged M inv pre Q y := by
  cases hstep with
  | start p w hp => exact h.attempt p w hp hx
  | call c next o w ho => exact (hx w (h.refl w)).2 o ho
  | done a w hend => exact h.done a w hx hend
  | die p w hdie => exact h.die w (h.judged_inv hx) hdie
  | other run w w' hrely =>
    cases run with
    | none => exact h.pre_stable w w' hx hrely
    | some p =>
      exact wp_stable h.trans (fun a ha => h.post_stable a w w' ha hrely) hrely hx

theorem reaches_inv (h : Sound j inv pre Q) (hw : pre w) (hx : Reaches j w x) : inv x.state := by
  refine h.judged_inv ?_
  induction hx with
  | refl => exact hw
  | tail _ hstep ih => exact h.step hstep ih

end Sound

/-! ## Building runs -/

/-- The state that the first `n` calls of an attempt leave, with the outcome
`o` for each of them, is reached, with the rest of the attempt running. -/
theorem Reaches.execN {j : Retry M α} {p : Prog Ans α}
    (h : Reaches j w₀ ⟨some p, w⟩) {n : Nat}
    (hok : p.AllN (fun c => M.sem c o) (fun c => M.ok c o) n w) :
    Reaches j w₀ ⟨some (p.execN (fun c => M.sem c o) n w).1,
      (p.execN (fun c => M.sem c o) n w).2⟩ := by
  induction n generalizing p w with
  | zero => exact h
  | succ n ih =>
    cases p with
    | ret a => exact h
    | call c next => exact ih (h.tail (.call c next o w hok.1)) hok.2

theorem Reaches.start (h : Reaches j w₀ ⟨none, w⟩) (hp : j.attempt p) : Reaches j w₀ ⟨some p, w⟩ :=
  h.tail (.start p w hp)

theorem Reaches.die (h : Reaches j w₀ ⟨some p, w⟩) (hdie : j.mayDie w) : Reaches j w₀ ⟨none, w⟩ :=
  h.tail (.die p w hdie)

end Retry

end Proc
