import Mathlib

/-!
# Machines that take one action at a time

A machine is a function `apply` from an action and a state to the next state,
or to `none` if the action is not possible there.  `Reaches` are the runs
whose actions all meet a condition on the action and the state before it, and
`Reaches.invariant` is the rule for what such runs preserve.

`run` takes a list of actions, so that a particular run can be computed;
`Reaches.of_run` is the way from there to `Reaches`.  `of_guard` is for actions
that are possible under a guard.
-/

namespace Machine

variable {S A : Type} {apply : A → S → Option S} {may : A → S → Prop}

/-- An action with a guard. -/
theorem of_guard [Decidable p] (h : (if p then some s else none) = some s') : p ∧ s = s' := by
  simpa using h

/-- An action on something that is looked up, with a guard. -/
theorem of_bind_guard {p : α → Prop} [DecidablePred p] {f : α → S} {s' : S}
    (h : (o.bind fun x => if p x then some (f x) else none) = some s') :
    ∃ x, o = some x ∧ p x ∧ f x = s' := by
  obtain ⟨x, hx, h⟩ := Option.bind_eq_some_iff.1 h
  exact ⟨x, hx, of_guard h⟩

/-- One action that meets the condition `may`. -/
def Step (apply : A → S → Option S) (may : A → S → Prop) (s s' : S) : Prop :=
  ∃ a, may a s ∧ apply a s = some s'

/-- The states that a run from `s` reaches, with actions that meet `may`. -/
def Reaches (apply : A → S → Option S) (may : A → S → Prop) : S → S → Prop :=
  Relation.ReflTransGen (Step apply may)

theorem Reaches.invariant {I : S → Prop} (h : Reaches apply may s s')
    (hstep : ∀ a s s', may a s → apply a s = some s' → I s → I s') (hs : I s) :
    I s' := by
  induction h with
  | refl => exact hs
  | tail _ hlast ih =>
    obtain ⟨a, hmay, happly⟩ := hlast
    exact hstep a _ _ hmay happly ih

/-- The state after the actions `l`, if all of them are possible. -/
def run (apply : A → S → Option S) : List A → S → Option S
  | [], s => some s
  | a :: l, s => (apply a s).bind (run apply l)

/-- The actions `l` meet `may` in the states in which they are taken. -/
def RunMay (apply : A → S → Option S) (may : A → S → Prop) : List A → S → Prop
  | [], _ => True
  | a :: l, s => may a s ∧ ∀ s' ∈ apply a s, RunMay apply may l s'

instance instDecidableRunMay [∀ a s, Decidable (may a s)] :
    (l : List A) → (s : S) → Decidable (RunMay apply may l s)
  | [], _ => isTrue trivial
  | a :: l, s =>
    match h : apply a s with
    | none => decidable_of_iff (may a s) (by simp [RunMay, h])
    | some s' =>
      have : Decidable (RunMay apply may l s') := instDecidableRunMay l s'
      decidable_of_iff (may a s ∧ RunMay apply may l s') (by simp [RunMay, h])

theorem runMay_true : RunMay apply (fun _ _ => True) l s := by
  induction l generalizing s with
  | nil => trivial
  | cons a l ih => exact ⟨trivial, fun _ _ => ih⟩

theorem Reaches.of_run (h : run apply l s = some t)
    (hmay : RunMay apply may l s) : Reaches apply may s t := by
  induction l generalizing s with
  | nil =>
    cases h
    exact .refl
  | cons a l ih =>
    obtain ⟨s₁, happly, hrest⟩ := Option.bind_eq_some_iff.1 h
    have hfirst : Step apply may s s₁ := ⟨a, hmay.1, happly⟩
    exact .head hfirst (ih hrest (hmay.2 s₁ happly))

end Machine
