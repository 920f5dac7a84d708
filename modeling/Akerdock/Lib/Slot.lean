import Akerdock.Lib.Table

/-!
# A slot that its latest owner holds

Owners with growing numbers take a slot one after the other.  To take the slot
overwrites who is in it, and to release it clears the slot only if the owner
is still the one in it.

`Latest` says that the slot names an owner that holds it, and that the owner
with the largest number among those that have taken the slot is in it as long
as it holds it.  Taking keeps this if no owner with a larger number has taken
the slot before; releasing keeps it in any case.
-/

namespace Slot

open Table

/-- How far an owner is with a slot. -/
inductive Mark where
  | never
  | held
  | released
  deriving DecidableEq

variable {α : Type} {key : α → Nat} {mark : α → Mark} {slot : Option Nat} {owners : List α}

/-- The slot names its latest owner. -/
structure Latest (key : α → Nat) (mark : α → Mark) (slot : Option Nat)
    (owners : List α) : Prop where
  held : ∀ v, slot = some v → ∃ b ∈ owners, key b = v ∧ mark b = .held
  latest : ∀ b ∈ owners, mark b = .held →
    (∀ b' ∈ owners, mark b' ≠ .never → key b' ≤ key b) → slot = some (key b)

theorem latest_nil : Latest key mark none [] :=
  ⟨nofun, nofun⟩

/-- A new owner that has not taken the slot. -/
theorem Latest.join (h : Latest key mark slot owners) (hb : mark b = .never) :
    Latest key mark slot (b :: owners) where
  held := by
    intro v hv
    obtain ⟨q, hq, hfacts⟩ := h.held v hv
    exact ⟨q, List.mem_cons_of_mem _ hq, hfacts⟩
  latest := by
    refine List.forall_mem_cons.2 ⟨fun hheld => ?_, fun q hq hheld hmax => ?_⟩
    · cases hb.symm.trans hheld
    · exact h.latest q hq hheld fun b' hb' => hmax b' (List.mem_cons_of_mem _ hb')

/-- An owner changes, and nothing of it has to do with the slot. -/
theorem Latest.keep (h : Latest key mark slot owners)
    (hkey : ∀ b, key (f b) = key b) (hmark : ∀ b, mark (f b) = mark b) :
    Latest key mark slot (updateWhere (fun b => key b = g) f owners) := by
  have hback : ∀ q ∈ updateWhere (fun b => key b = g) f owners, ∃ b ∈ owners,
      key q = key b ∧ mark q = mark b := by
    intro q hq
    obtain ⟨b, hb, rfl⟩ := mem_updateWhere.1 hq
    refine ⟨b, hb, ?_⟩
    split
    · exact ⟨hkey b, hmark b⟩
    · exact ⟨rfl, rfl⟩
  have hthere : ∀ b ∈ owners,
      ∃ q ∈ updateWhere (fun b => key b = g) f owners, key q = key b ∧ mark q = mark b := by
    intro b hb
    refine ⟨_, mem_updateWhere.2 ⟨b, hb, rfl⟩, ?_⟩
    split
    · exact ⟨hkey b, hmark b⟩
    · exact ⟨rfl, rfl⟩
  refine ⟨?_, ?_⟩
  · intro v hv
    obtain ⟨b, hb, hbkey, hbmark⟩ := h.held v hv
    obtain ⟨q, hq, hqkey, hqmark⟩ := hthere b hb
    exact ⟨q, hq, hqkey.trans hbkey, hqmark.trans hbmark⟩
  · intro q hq hheld hmax
    obtain ⟨b, hb, hqkey, hqmark⟩ := hback q hq
    rw [hqkey]
    refine h.latest b hb (hqmark.symm.trans hheld) ?_
    intro b' hb' hne
    obtain ⟨q', hq', hkey', hmark'⟩ := hthere b' hb'
    rw [← hkey', ← hqkey]
    exact hmax q' hq' (by rw [hmark']; exact hne)

/-- The owner `g` takes the slot, and no owner with a larger number has. -/
theorem Latest.take (hkey : ∀ b, key (f b) = key b)
    (hmark : ∀ b, mark (f b) = .held) (hthere : ∃ b ∈ owners, key b = g)
    (hfirst : ∀ b ∈ owners, g < key b → mark b = .never) :
    Latest key mark (some g) (updateWhere (fun b => key b = g) f owners) := by
  obtain ⟨b₀, hb₀, hg⟩ := hthere
  have hnew : f b₀ ∈ updateWhere (fun b => key b = g) f owners :=
    mem_updateWhere.2 ⟨b₀, hb₀, (if_pos (decide_eq_true hg)).symm⟩
  refine ⟨?_, ?_⟩
  · intro v hv
    cases hv
    exact ⟨f b₀, hnew, (hkey b₀).trans hg, hmark b₀⟩
  · intro q hq hheld hmax
    -- Nobody is above `g`, and `g` has taken the slot.
    have hle := hmax (f b₀) hnew (by rw [hmark]; nofun)
    rw [hkey, hg] at hle
    rcases of_mem_updateKey hq with ⟨b, -, hbg, rfl⟩ | ⟨hb, hbg⟩
    · rw [hkey, hbg]
    · cases (hfirst _ hb (by omega)).symm.trans hheld

/-- The owner `g` gives the slot back, if it is still in it. -/
theorem Latest.release (h : Latest key mark slot owners)
    (hkey : ∀ b, key (f b) = key b) (hmark : ∀ b, mark (f b) = .released) :
    Latest key mark (if slot = some g then none else slot)
      (updateWhere (fun b => key b = g) f owners) := by
  have hother : ∀ b ∈ owners, key b ≠ g → b ∈ updateWhere (fun b => key b = g) f owners := by
    intro b hb hne
    exact mem_updateWhere.2 ⟨b, hb, (if_neg (by simpa using hne)).symm⟩
  refine ⟨?_, ?_⟩
  · intro v hv
    split at hv
    · cases hv
    · rename_i hslot
      obtain ⟨b, hb, hbkey, hbmark⟩ := h.held v hv
      have hne : key b ≠ g := by
        intro heq
        rw [hv, ← hbkey, heq] at hslot
        exact hslot rfl
      exact ⟨b, hother b hb hne, hbkey, hbmark⟩
  · intro q hq hheld hmax
    obtain ⟨b, hb, rfl⟩ := mem_updateWhere.1 hq
    by_cases hbg : key b = g
    · rw [if_pos (decide_eq_true hbg), hmark] at hheld
      cases hheld
    · have hmiss : ¬ decide (key b = g) = true := by simpa using hbg
      simp only [if_neg hmiss] at hheld hmax ⊢
      have hslot : slot = some (key b) := by
        refine h.latest b hb hheld ?_
        intro b' hb' hne
        by_cases hg' : key b' = g
        · have hnew : f b' ∈ updateWhere (fun b => key b = g) f owners :=
            mem_updateWhere.2 ⟨b', hb', (if_pos (decide_eq_true hg')).symm⟩
          have hle := hmax (f b') hnew (by rw [hmark]; nofun)
          rw [hkey] at hle
          exact hle
        · exact hmax b' (hother b' hb' hg') hne
      rw [hslot, if_neg (by simpa using hbg)]

end Slot
