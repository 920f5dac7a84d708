import Mathlib

/-!
# Closing a list under dependencies

`closure` visits a list and, depth first, everything that its entries depend
on, and `walk` is one visit with the list of what has been seen.

* `closure_induction` is the rule for what holds of every entry.
* `mem_closure_of_mem` and `mem_closure_of_dep` say that the closure contains
  the list and is closed, where the fuel covers a rank that falls along every
  dependency.
* `mem_closure_closure` follows from them: closing twice adds nothing.
-/

namespace Dependencies

open List

variable {α : Type} [DecidableEq α]

/-- The visit of `p`, where the entries of `seen` have been visited. -/
def walk (deps : α → List α) : Nat → List α → α → List α
  | 0, seen, _ => seen
  | n + 1, seen, p =>
    if p ∈ seen then seen else (deps p).foldl (walk deps n) (p :: seen)

/-- The entries of `l` and what they depend on. -/
def closure (deps : α → List α) (n : Nat) (l : List α) : List α :=
  l.foldl (walk deps n) []

variable {deps : α → List α}

/-! ## What a visit adds -/

theorem walk_induction {I : α → Prop} (hdeps : ∀ p, I p → ∀ q ∈ deps p, I q) (n : Nat) :
    ∀ (seen : List α) (p : α), (∀ q ∈ seen, I q) → I p → ∀ q ∈ walk deps n seen p, I q := by
  induction n with
  | zero => exact fun _ _ hseen _ => hseen
  | succ n ih =>
    intro seen p hseen hp
    unfold walk
    split
    · exact hseen
    · have hstart : ∀ q ∈ p :: seen, I q := forall_mem_cons.2 ⟨hp, hseen⟩
      exact foldlRecOn (deps p) (walk deps n) hstart
        fun seen' hseen' d hd => ih seen' d hseen' (hdeps p hp d hd)

/-- What holds of the list, and of the dependencies of whatever it holds of,
holds of the closure. -/
theorem closure_induction {I : α → Prop} (hl : ∀ p ∈ l, I p)
    (hdeps : ∀ p, I p → ∀ q ∈ deps p, I q) : ∀ q ∈ closure deps n l, I q := by
  have hstart : ∀ q ∈ ([] : List α), I q := by simp
  exact foldlRecOn l (walk deps n) hstart
    fun seen hseen d hd => walk_induction hdeps n seen d hseen (hl d hd)

/-! ## What a visit covers -/

theorem subset_walk (n : Nat) : ∀ (seen : List α) (p : α), seen ⊆ walk deps n seen p := by
  induction n with
  | zero => exact fun _ _ => List.Subset.refl _
  | succ n ih =>
    intro seen p
    unfold walk
    split
    · exact List.Subset.refl _
    · have hstart : seen ⊆ p :: seen := subset_cons_self p seen
      exact foldlRecOn (deps p) (walk deps n) hstart
        fun seen' hseen' d _ => List.Subset.trans hseen' (ih seen' d)

/-- What is seen is seen with its dependencies, except for the entries of
`stack`, whose visit is not over. -/
def Complete (deps : α → List α) (stack : α → Prop) (seen : List α) : Prop :=
  ∀ p ∈ seen, ¬stack p → ∀ q ∈ deps p, q ∈ seen

omit [DecidableEq α] in
/-- Visits that each keep a property and cover their own entry cover all
entries. -/
theorem foldl_covers {C : List α → Prop} (hsub : ∀ seen p, seen ⊆ f seen p) :
    ∀ (l seen : List α), (∀ p ∈ l, ∀ seen, C seen →
      C (f seen p) ∧ p ∈ f seen p) → C seen →
      C (l.foldl f seen) ∧ seen ⊆ l.foldl f seen ∧ l ⊆ l.foldl f seen := by
  intro l
  induction l with
  | nil => exact fun seen _ hC => ⟨hC, List.Subset.refl _, by simp⟩
  | cons p l ih =>
    intro seen hvisit hC
    have hp := hvisit p mem_cons_self seen hC
    have hrest := ih (f seen p) (fun q hq => hvisit q (mem_cons_of_mem p hq)) hp.1
    refine ⟨hrest.1, List.Subset.trans (hsub seen p) hrest.2.1, ?_⟩
    exact cons_subset.2 ⟨hrest.2.1 hp.2, hrest.2.2⟩

variable {rank : α → Nat}

/-- A visit that has the fuel for its entry completes it. -/
theorem walk_complete (hrank : ∀ p, ∀ q ∈ deps p, rank q < rank p) (n : Nat) :
    ∀ (stack : α → Prop) (seen : List α) (p : α), rank p < n →
      Complete deps stack seen →
      Complete deps stack (walk deps n seen p) ∧ p ∈ walk deps n seen p := by
  induction n with
  | zero => exact fun _ _ _ hn => absurd hn (Nat.not_lt_zero _)
  | succ n ih =>
    intro stack seen p hn hseen
    unfold walk
    split
    · rename_i hp
      exact ⟨hseen, hp⟩
    -- While its dependencies are visited, `p` itself is on the stack.
    · let stack' : α → Prop := fun x => x = p ∨ stack x
      have hstart : Complete deps stack' (p :: seen) := by
        intro x hx hstack q hq
        have hne : x ≠ p := fun heq => hstack (.inl heq)
        have hx' : x ∈ seen := (mem_cons.1 hx).resolve_left hne
        exact mem_cons_of_mem p (hseen x hx' (fun h => hstack (.inr h)) q hq)
      have hfold := foldl_covers (subset_walk n) (deps p) (p :: seen)
        (fun d hd seen' hseen' => ih stack' seen' d
          (by have := hrank p d hd; omega) hseen') hstart
      refine ⟨?_, hfold.2.1 mem_cons_self⟩
      intro x hx hstack q hq
      by_cases hxp : x = p
      · exact hfold.2.2 (hxp ▸ hq)
      · exact hfold.1 x hx (not_or.2 ⟨hxp, hstack⟩) q hq

section Fuel

variable {n : Nat} (hrank : ∀ p, ∀ q ∈ deps p, rank q < rank p) (hn : ∀ p, rank p < n)

include hrank hn

theorem closure_complete :
    Complete deps (fun _ => False) (closure deps n l) ∧ l ⊆ closure deps n l := by
  have hstart : Complete deps (fun _ => False) [] := by
    intro p hp
    cases hp
  have hfold := foldl_covers (subset_walk n) l []
    (fun p _ seen hseen => walk_complete hrank n _ seen p (hn p) hseen) hstart
  exact ⟨hfold.1, hfold.2.2⟩

theorem mem_closure_of_mem (h : p ∈ l) : p ∈ closure deps n l :=
  (closure_complete hrank hn).2 h

theorem mem_closure_of_dep (h : p ∈ closure deps n l) (hq : q ∈ deps p) : q ∈ closure deps n l :=
  (closure_complete hrank hn).1 p h id q hq

theorem mem_closure_closure : p ∈ closure deps n (closure deps n l) ↔ p ∈ closure deps n l := by
  constructor
  · intro h
    exact closure_induction (I := fun q => q ∈ closure deps n l)
      (fun _ hq => hq) (fun _ hr q hq => mem_closure_of_dep hrank hn hr hq) p h
  · exact mem_closure_of_mem hrank hn

end Fuel

end Dependencies
