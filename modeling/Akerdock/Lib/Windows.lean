import Akerdock.Lib.Pool

/-!
# Checks that are not overtaken

A process often reads the state, decides, and writes what it decided.  Between
its reads and its write the other processes go on.  `disturbed` says that one
of them wrote in that window, and `Undisturbed` that this did not happen to any
write that relies on what was read.

`Window` is a rule for the runs that are undisturbed.  `H s` is what a process
knows about the state at the stage `s` of its automaton; it has to survive the
process's own calls only, since a write of another process ends the window.
The rule gives an invariant of the state, `Window.reaches`.
-/

namespace Proc

namespace Pool

open Prog

variable {Call : Type} {Ans : Call → Type} {Out W α σ : Type}

section Trace

variable (reads writes guarded : Call → Bool)

/-- Another process made one of the calls `writes` since the last one of the
calls `reads` of the process `k`. -/
def disturbed (k : Nat) : List (Event Ans α) → Bool
  | [] => false
  | .called i c _ :: t =>
    if i = k then !reads c && disturbed k t else writes c || disturbed k t
  | .ended _ _ :: t => disturbed k t

/-- No process was disturbed when it made one of the calls `guarded`. -/
def Undisturbed : List (Event Ans α) → Prop
  | [] => True
  | .called k c _ :: t =>
    (guarded c = true → disturbed reads writes k t = false) ∧ Undisturbed t
  | .ended _ _ :: t => Undisturbed t

instance instDecidableUndisturbed : (t : List (Event Ans α)) →
    Decidable (Undisturbed reads writes guarded t)
  | [] => isTrue trivial
  | .called k c _ :: t =>
    have := instDecidableUndisturbed t
    inferInstanceAs (Decidable ((guarded c = true →
      disturbed reads writes k t = false) ∧ Undisturbed reads writes guarded t))
  | .ended _ _ :: t => instDecidableUndisturbed t

variable {reads writes guarded} {t : List (Event Ans α)} {k : Nat} {c : Call} {a : Ans c}

theorem disturbed_own (h : reads c = false) :
    disturbed reads writes k (.called k c a :: t) = disturbed reads writes k t := by
  simp [disturbed, h]

theorem disturbed_other (h : i ≠ k) :
    disturbed reads writes i (.called k c a :: t) =
      (writes c || disturbed reads writes i t) := by
  simp [disturbed, Ne.symm h]

end Trace

/-- What a proof about undisturbed runs has to provide.  `I` is the invariant
of the state, `H s` what a process knows at the stage `s`, and `V` are the
stages that a process comes to with the outcomes that calls may have. -/
structure Window {M : System Ans Out W} (P : Pool M α)
    (reads writes guarded : Call → Bool) (δ : σ → (c : Call) → Ans c → σ)
    (A : σ → Call → Prop) (Q : σ → α → Prop) (I : W → Prop) (V : σ → Prop)
    (H : σ → W → Prop) : Prop where
  start : ∀ {w p w'}, P.spawn w p w' →
    w = w' ∧ ∃ s, Follows δ A Q s p ∧ V s ∧ ∀ w, H s w
  frame : ∀ {c o w}, writes c = false → (M.sem c o w).2 = w
  stays : ∀ {s c o w}, V s → A s c → M.ok c o w → V (δ s c (M.sem c o w).1)
  /-- A call of a process that was not disturbed. -/
  step : ∀ {s c o w}, I w → V s → H s w → A s c → M.ok c o w →
    I (M.sem c o w).2 ∧ H (δ s c (M.sem c o w).1) (M.sem c o w).2
  /-- A call that relies on nothing. -/
  careless : ∀ {s c o w}, guarded c = false → I w → V s → A s c →
    M.ok c o w → I (M.sem c o w).2 ∧
      (reads c = true → H (δ s c (M.sem c o w).1) (M.sem c o w).2)
  other : ∀ {w w'}, M.rely w w' → w = w'

section Rule

variable {M : System Ans Out W} {P : Pool M α}
  {reads writes guarded : Call → Bool} {δ : σ → (c : Call) → Ans c → σ}
  {A : σ → Call → Prop} {Q : σ → α → Prop} {I : W → Prop} {V : σ → Prop}
  {H : σ → W → Prop}

/-- The invariant, and what each process knows unless it was disturbed. -/
def Informed (reads writes guarded : Call → Bool) (I : W → Prop)
    (V : σ → Prop) (H : σ → W → Prop) (m : Nat → Option σ) (w : W)
    (t : List (Event Ans α)) : Prop :=
  Undisturbed reads writes guarded t → I w ∧ ∀ k s, m k = some s →
    V s ∧ (H s w ∨ disturbed reads writes k t = true)

theorem Window.called (h : Window P reads writes guarded δ A Q I V H)
    (hm : Informed reads writes guarded I V H m w t) (hk : m k = some s)
    (hA : A s c) (hok : M.ok c o w) :
    Informed reads writes guarded I V H
      (Function.update m k (some (δ s c (M.sem c o w).1))) (M.sem c o w).2
      (.called k c (M.sem c o w).1 :: t) := by
  intro ht
  obtain ⟨hI, hall⟩ := hm ht.2
  have hV := (hall k s hk).1
  have hown : I (M.sem c o w).2 ∧ (H (δ s c (M.sem c o w).1) (M.sem c o w).2 ∨
      disturbed reads writes k (.called k c (M.sem c o w).1 :: t) = true) := by
    rcases (hall k s hk).2 with hH | hd
    · have hstep := h.step hI hV hH hA hok
      exact ⟨hstep.1, .inl hstep.2⟩
    · have hguard : guarded c = false := by
        cases hg : guarded c with
        | false => rfl
        | true => rw [ht.1 hg] at hd; cases hd
      have hstep := h.careless hguard hI hV hA hok
      refine ⟨hstep.1, ?_⟩
      cases hr : reads c with
      | true => exact .inl (hstep.2 hr)
      | false => exact .inr (by rw [disturbed_own hr, hd])
  refine ⟨hown.1, ?_⟩
  intro i s' hi
  by_cases hik : i = k
  · subst hik
    rw [Function.update_self] at hi
    cases hi
    exact ⟨h.stays hV hA hok, hown.2⟩
  · rw [Function.update_of_ne hik] at hi
    rw [disturbed_other hik]
    cases hw : writes c with
    | true => exact ⟨(hall i s' hi).1, .inr (by simp)⟩
    | false =>
      rw [h.frame hw, Bool.false_or]
      exact hall i s' hi

theorem Informed.forget (h : Informed reads writes guarded I V H m w t)
    (ht : Undisturbed reads writes guarded t' → Undisturbed reads writes guarded t)
    (hd : ∀ i, disturbed reads writes i t' = disturbed reads writes i t)
    (k : Nat) : Informed reads writes guarded I V H (Function.update m k none) w
      t' := by
  intro hu
  obtain ⟨hI, hall⟩ := h (ht hu)
  refine ⟨hI, ?_⟩
  intro i s hi
  rw [hd]
  exact hall i s (update_none hi)

theorem Window.watch (h : Window P reads writes guarded δ A Q I V H) :
    Watch P δ A Q (Informed reads writes guarded I V H) where
  start := by
    intro m w t k p w' hm _ _ hspawn
    obtain ⟨rfl, s, hfollows, hV, hH⟩ := h.start hspawn
    refine ⟨s, hfollows, ?_⟩
    intro ht
    obtain ⟨hI, hall⟩ := hm ht
    refine ⟨hI, ?_⟩
    intro i s' hi
    rcases update_some hi with ⟨-, rfl⟩ | hold
    · exact ⟨hV, .inl (hH w)⟩
    · exact hall i s' hold
  call hm hk hA hok := h.called hm hk hA hok
  done hm _ _ := hm.forget (fun hu => hu) (fun _ => rfl) _
  die hm := hm.forget (fun hu => hu) (fun _ => rfl) _
  other := by
    intro m w w' t hm hrely
    obtain rfl := h.other hrely
    exact hm

theorem Window.reaches (h : Window P reads writes guarded δ A Q I V H)
    (hw : I w) (hx : P.Reaches w x)
    (ht : Undisturbed reads writes guarded x.trace) : I x.state := by
  have hinit : Informed reads writes guarded I V H (fun _ => none) w
      ([] : List (Event Ans α)) := fun _ => ⟨hw, by simp⟩
  obtain ⟨m, hm⟩ := h.watch.reaches hinit hx
  exact (hm ht).1

end Rule

end Pool

end Proc
