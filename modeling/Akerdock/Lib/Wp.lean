import Akerdock.Lib.Program

/-!
# Weakest preconditions with an invariant at every call

A `System` fixes how calls act on a state, which outcomes of a call a run may
take, and what other parties may do to the state between two calls.  A
`Setting` adds the invariant that has to hold in every state in between.
`wp S p Q w` says that `p`, started in `w`, keeps the invariant at each of its
calls and ends in a state where `Q` holds.

The rules follow the tree: `wp_bind` and `wp_run_bind` for sequencing,
`wp_mono` for weakening, `wp_of_follows` for a stretch of calls that all
preserve one assertion.  `wp_stable` is what makes the judgement survive the
steps of the other parties.  `Runs` are the runs of a program to its end, and
`Runs.post` carries the judgement to them.
-/

namespace Proc

open Prog

/-- How programs are run.

* `sem c o w` is the answer and the new state of the call `c` with the
  outcome `o` in the state `w`.
* `ok c o w` are the outcomes a run may take.
* `rely` is what others do between two calls. -/
structure System {Call : Type} (Ans : Call → Type) (Out W : Type) where
  sem : (c : Call) → Out → W → Ans c × W
  ok : Call → Out → W → Prop
  rely : W → W → Prop

/-- How programs are run and what they have to keep: `inv` has to hold
whenever a call is about to be made. -/
structure Setting {Call : Type} (Ans : Call → Type) (Out W : Type) extends
    System Ans Out W where
  inv : W → Prop

/-- The system `M` with an invariant. -/
def System.keeping {Call : Type} {Ans : Call → Type} {Out W : Type}
    (M : System Ans Out W) (inv : W → Prop) : Setting Ans Out W where
  toSystem := M
  inv := inv

variable {Call : Type} {Ans : Call → Type} {Out W α β ε : Type}

/-- `p` keeps the invariant of `S` at each call and ends with `Q`. -/
def wp (S : Setting Ans Out W) : Prog Ans α → (α → W → Prop) → W → Prop
  | .ret a, Q, w => Q a w
  | .call c next, Q, w => ∀ w', S.rely w w' → S.inv w' ∧
      ∀ o, S.ok c o w' → wp S (next (S.sem c o w').1) Q (S.sem c o w').2

variable {S : Setting Ans Out W}

variable {w : W}

theorem wp_mono {Q' : α → W → Prop} (h : wp S p Q w)
    (hQ : ∀ a w, Q a w → Q' a w) : wp S p Q' w := by
  induction p generalizing w with
  | ret a => exact hQ a w h
  | call c next ih =>
    intro w' hw
    obtain ⟨hinv, hnext⟩ := h w' hw
    exact ⟨hinv, fun o ho => ih _ (hnext o ho)⟩

theorem wp_and (h : wp S p Q w) (h' : wp S p Q' w) : wp S p (fun a w => Q a w ∧ Q' a w) w := by
  induction p generalizing w with
  | ret a => exact ⟨h, h'⟩
  | call c next ih =>
    intro w₁ hw
    obtain ⟨hinv, hnext⟩ := h w₁ hw
    exact ⟨hinv, fun o ho => ih _ (hnext o ho) ((h' w₁ hw).2 o ho)⟩

/-- Sequencing: the first program has to establish what the second one
needs. -/
theorem wp_bind {Q : β → W → Prop} (h : wp S p (fun a w => wp S (f a) Q w) w) :
    wp S (p.bind f) Q w := by
  induction p generalizing w with
  | ret a => exact h
  | call c next ih =>
    intro w' hw
    obtain ⟨hinv, hnext⟩ := h w' hw
    exact ⟨hinv, fun o ho => ih _ (hnext o ho)⟩

/-- Sequencing of programs with exits: an exit goes straight to the
postcondition. -/
theorem wp_run_bind {f : α → ExceptT ε (Prog Ans) β} {Q : Except ε β → W → Prop}
    (h : wp S x.run (fun y w => match y with
      | .ok a => wp S (f a).run Q w
      | .error e => Q (.error e) w) w) : wp S (x >>= f).run Q w := by
  refine wp_bind (wp_mono h ?_)
  intro y w hy
  cases y with
  | ok a | error e => exact hy

/-- A judgement survives what others do between two calls. -/
theorem wp_stable (htrans : ∀ {a b c}, S.rely a b → S.rely b c → S.rely a c)
    (hQ : ∀ a, Q a w → Q a w') (hw : S.rely w w') (h : wp S p Q w) :
    wp S p Q w' := by
  cases p with
  | ret a => exact hQ a h
  | call c next => exact fun w'' hw' => h w'' (htrans hw hw')

/-- A program that follows an automaton keeps an assertion that may depend on
the automaton's state. -/
theorem wp_of_follows {δ : σ → (c : Call) → Ans c → σ} {Q : σ → α → Prop}
    {s : σ} {J : σ → W → Prop} (h : Follows δ P Q s p)
    (hinv : ∀ s w, J s w → S.inv w)
    (hrely : ∀ s w w', J s w → S.rely w w' → J s w')
    (hstep : ∀ s c o w, P s c → J s w → S.ok c o w →
      J (δ s c (S.sem c o w).1) (S.sem c o w).2) (hw : J s w) :
    wp S p (fun a w => ∃ s, Q s a ∧ J s w) w := by
  induction h generalizing w with
  | ret s a h => exact ⟨s, h, hw⟩
  | call s c next h _ ih =>
    intro w' hr
    have hJ := hrely s w w' hw hr
    exact ⟨hinv s w' hJ, fun o ho => ih _ (hstep s c o w' h hJ ho)⟩

/-- What is known of the results of a program from its shape alone. -/
theorem wp_result (h : wp S p Q w) (hp : Follows δ P R s p) :
    wp S p (fun a w => Q a w ∧ ∃ s, R s a) w := by
  induction hp generalizing w with
  | ret s a hR => exact ⟨h, s, hR⟩
  | call s c next _ _ ih =>
    intro w' hw
    obtain ⟨hinv, hnext⟩ := h w' hw
    exact ⟨hinv, fun o ho => ih _ (hnext o ho)⟩

/-- What every call preserves can be added to the invariant. -/
theorem wp_frame {M : System Ans Out W} {inv : W → Prop} {J : W → Prop}
    (h : wp (M.keeping inv) p Q w) (hrely : ∀ w w', J w → M.rely w w' → J w')
    (hstep : ∀ c o w, J w → J (M.sem c o w).2) (hw : J w) :
    wp (M.keeping fun w => inv w ∧ J w) p (fun a w => Q a w ∧ J w) w := by
  induction p generalizing w with
  | ret a => exact ⟨h, hw⟩
  | call c next ih =>
    intro w' hr
    obtain ⟨hinv, hnext⟩ := h w' hr
    have hJ := hrely w w' hw hr
    exact ⟨⟨hinv, hJ⟩, fun o ho => ih _ (hnext o ho) (hstep c o w' hJ)⟩

/-- A program whose calls all preserve `J` preserves `J`. -/
theorem wp_of_makes {J : W → Prop} (h : Makes P p) (hinv : ∀ w, J w → S.inv w)
    (hrely : ∀ w w', J w → S.rely w w' → J w')
    (hstep : ∀ c o w, P c → J w → S.ok c o w → J (S.sem c o w).2) (hw : J w) :
    wp S p (fun _ w => J w) w := by
  refine wp_mono (wp_of_follows h (fun _ => hinv) (fun _ => hrely) (fun _ => hstep) hw) ?_
  rintro _ w ⟨_, _, hJ⟩
  exact hJ

/-! ## Runs -/

/-- `Runs S p w a w'`: some run of `p` from `w` returns `a` in the state `w'`,
with outcomes that `S` allows and other parties at work between the calls. -/
inductive Runs (S : Setting Ans Out W) : Prog Ans α → W → α → W → Prop where
  | ret (a : α) (w : W) : Runs S (.ret a) w a w
  | call {c : Call} {next : Ans c → Prog Ans α} {o : Out} {w w₁ w' : W}
      {a : α} (hrely : S.rely w w₁) (ho : S.ok c o w₁)
      (hnext : Runs S (next (S.sem c o w₁).1) (S.sem c o w₁).2 a w') :
      Runs S (.call c next) w a w'

/-- What is judged of a program holds when it returns. -/
theorem Runs.post (h : Runs S p w a w') (hwp : wp S p Q w) : Q a w' := by
  induction h with
  | ret a w => exact hwp
  | call hrely ho _ ih => exact ih ((hwp _ hrely).2 _ ho)

/-- The run against a handler is a run, when every answer of the handler is
an outcome that the setting allows. -/
theorem runs_exec (hrefl : ∀ w, S.rely w w)
    (hh : ∀ c w, ∃ o, S.ok c o w ∧ S.sem c o w = handle c w) (p : Prog Ans α)
    (w : W) : Runs S p w (p.exec handle w).1 (p.exec handle w).2 := by
  induction p generalizing w with
  | ret a => exact .ret a w
  | call c next ih =>
    obtain ⟨o, ho, heq⟩ := hh c w
    refine .call (hrefl w) ho ?_
    rw [heq]
    exact ih _ _

end Proc
