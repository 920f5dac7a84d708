import Mathlib

/-!
# Stretches of an ordered set

A list can hold, in increasing order, a stretch of the elements with a property
`P`.  `Between P l` says that nothing with `P` is missing between the first
and the last element of `l`, and `From P l` that nothing is missing from the
first element on.

The set grows at its upper end: `Between.grow` and `From.grow` are for
elements that are new and above everything else.  `Between.snoc` puts one more
element at the end of a stretch.
-/

namespace Stretch

open List

variable {α : Type} [LinearOrder α] {P : α → Prop} {l : List α} {x : α}

/-- The list holds everything with `P` between its first and last element. -/
structure Between (P : α → Prop) (l : List α) : Prop where
  sorted : l.Pairwise (· < ·)
  sound : ∀ x ∈ l, P x
  dense : ∀ x ∈ l, ∀ z ∈ l, ∀ y, P y → x ≤ y → y ≤ z → y ∈ l

/-- The list holds everything with `P` from its first element on. -/
structure From (P : α → Prop) (l : List α) : Prop where
  sorted : l.Pairwise (· < ·)
  sound : ∀ x ∈ l, P x
  complete : ∀ x ∈ l, ∀ y, P y → x ≤ y → y ∈ l

theorem between_nil : Between P [] :=
  ⟨.nil, nofun, nofun⟩

theorem from_nil : From P [] :=
  ⟨.nil, nofun, nofun⟩

theorem Between.left (h : Between P (l ++ m)) : Between P l where
  sorted := (pairwise_append.1 h.sorted).1
  sound := fun x hx => h.sound x (mem_append_left _ hx)
  dense := by
    intro x hx z hz y hy hxy hyz
    have hmem := h.dense x (mem_append_left _ hx) z (mem_append_left _ hz) y hy hxy hyz
    rcases mem_append.1 hmem with hl | hm
    · exact hl
    · have hlt := (pairwise_append.1 h.sorted).2.2 z hz y hm
      exact absurd hyz (not_le_of_gt hlt)

/-- Without its first element the list still holds everything from there on. -/
theorem From.tail (h : From P (x :: l)) : From P l where
  sorted := (pairwise_cons.1 h.sorted).2
  sound := fun y hy => h.sound y (mem_cons_of_mem _ hy)
  complete := by
    intro y hy z hz hyz
    have hlt := (pairwise_cons.1 h.sorted).1 y hy
    have hmem := h.complete y (mem_cons_of_mem _ hy) z hz hyz
    rcases mem_cons.1 hmem with rfl | hmem
    · exact absurd hyz (not_le_of_gt hlt)
    · exact hmem

/-- Everything after the first element is above it. -/
theorem From.head_le (h : From P (x :: l)) (hy : y ∈ x :: l) : x ≤ y := by
  rcases mem_cons.1 hy with rfl | hy
  · exact le_refl _
  · exact le_of_lt ((pairwise_cons.1 h.sorted).1 y hy)

/-- What is new lies above the stretch. -/
theorem Between.grow (h : Between P l) (hold : ∀ y, P y → Q y)
    (hnew : ∀ y, Q y → P y ∨ ∀ x, P x → x < y) : Between Q l where
  sorted := h.sorted
  sound := fun x hx => hold x (h.sound x hx)
  dense := by
    intro x hx z hz y hy hxy hyz
    rcases hnew y hy with hP | habove
    · exact h.dense x hx z hz y hP hxy hyz
    · exact absurd hyz (not_le_of_gt (habove z (h.sound z hz)))

/-- The elements that are new come at the end of the list. -/
theorem From.grow (h : From P l) (hm : m.Pairwise (· < ·))
    (habove : ∀ y ∈ m, ∀ x, P x → x < y)
    (hQ : ∀ y, Q y ↔ P y ∨ y ∈ m) : From Q (l ++ m) where
  sorted := by
    refine pairwise_append.2 ⟨h.sorted, hm, ?_⟩
    intro x hx y hy
    exact habove y hy x (h.sound x hx)
  sound := by
    intro x hx
    rcases mem_append.1 hx with hl | hm
    · exact (hQ x).2 (.inl (h.sound x hl))
    · exact (hQ x).2 (.inr hm)
  complete := by
    intro x hx y hy hxy
    rcases (hQ y).1 hy with hP | hy
    · rcases mem_append.1 hx with hl | hx
      · exact mem_append_left _ (h.complete x hl y hP hxy)
      · exact absurd hxy (not_le_of_gt (habove x hx y hP))
    · exact mem_append_right _ hy

/-- The next element with `P` comes at the end of the stretch. -/
theorem Between.snoc (h : Between P l) (hx : P x) (habove : ∀ y ∈ l, y < x)
    (hnext : l ≠ [] → ∀ y, P y → (∀ z ∈ l, z < y) → y ≤ x → y = x) :
    Between P (l ++ [x]) where
  sorted := by
    refine pairwise_append.2 ⟨h.sorted, pairwise_singleton _ _, ?_⟩
    intro y hy z hz
    rw [mem_singleton.1 hz]
    exact habove y hy
  sound := by
    intro y hy
    rcases mem_append.1 hy with hy | hy
    · exact h.sound y hy
    · rw [mem_singleton.1 hy]
      exact hx
  dense := by
    intro a ha b hb y hy hay hyb
    by_cases hbelow : ∃ z ∈ l, y ≤ z
    · -- Between two elements of the old stretch.
      obtain ⟨z, hz, hyz⟩ := hbelow
      have hal : a ∈ l := by
        rcases mem_append.1 ha with hal | hax
        · exact hal
        · rw [mem_singleton.1 hax] at hay
          exact absurd (le_trans hay hyz) (not_le_of_gt (habove z hz))
      exact mem_append_left _ (h.dense a hal z hz y hy hay hyz)
    · have hall : ∀ z ∈ l, z < y := by
        intro z hz
        exact lt_of_not_ge fun hyz => hbelow ⟨z, hz, hyz⟩
      have hyx : y ≤ x := by
        rcases mem_append.1 hb with hbl | hbx
        · exact absurd ⟨b, hbl, hyb⟩ hbelow
        · rw [← mem_singleton.1 hbx]
          exact hyb
      have hmem : y = x := by
        by_cases hl : l = []
        · subst hl
          rw [mem_singleton.1 ha] at hay
          exact le_antisymm hyx hay
        · exact hnext hl y hy hall hyx
      exact mem_append_right _ (mem_singleton.2 hmem)

end Stretch
