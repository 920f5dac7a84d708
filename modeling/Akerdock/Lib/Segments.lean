import Mathlib

/-!
# Segments of a text

Facts about `List.splitOn` and `List.intercalate`: a text is cut at every
occurrence of a separator, and what the first segments say about the start of
the text.
-/

namespace Segments

open List

variable {α : Type} {sep : α}

theorem intercalate_append (ha : a ≠ []) (hl : l ≠ []) :
    [sep].intercalate (a ++ l) = [sep].intercalate a ++ sep :: [sep].intercalate l := by
  induction a with
  | nil => exact absurd rfl ha
  | cons s a ih =>
    cases a with
    | nil =>
      cases l with
      | nil => exact absurd rfl hl
      | cons t l =>
        simp
    | cons t a =>
      have := ih (by simp)
      rw [cons_append, cons_append, intercalate_cons_cons,
        intercalate_cons_cons, ← cons_append, this]
      simp

/-- Every character of texts that are joined is of the separator or of one of
them. -/
theorem mem_intercalate {sep : List α} (h : c ∈ sep.intercalate l) : c ∈ sep ∨ ∃ s ∈ l, c ∈ s := by
  induction l with
  | nil => cases h
  | cons s l ih =>
    cases l with
    | nil => exact .inr ⟨s, mem_cons_self, by simpa using h⟩
    | cons t l =>
      rw [intercalate_cons_cons, append_assoc, mem_append, mem_append] at h
      rcases h with h | h | h
      · exact .inr ⟨s, mem_cons_self, h⟩
      · exact .inl h
      · rcases ih h with h | ⟨u, hu, h⟩
        · exact .inl h
        · exact .inr ⟨u, mem_cons_of_mem s hu, h⟩

/-- Texts that are put together from the same characters are the same only if
each character is written the same way. -/
theorem flatMap_eq_iff {β : Type} {f g : α → List β}
    (h : ∀ a, f a = g a ∨ ¬f a <+: g a ∧ ¬g a <+: f a) (l : List α) :
    l.flatMap f = l.flatMap g ↔ ∀ a ∈ l, f a = g a := by
  induction l with
  | nil => simp
  | cons a l ih =>
    rw [flatMap_cons, flatMap_cons, forall_mem_cons, ← ih]
    rcases h a with heq | ⟨hfg, hgf⟩
    · simp [heq]
    · refine ⟨fun heq => ?_, fun heq => ?_⟩
      · rcases prefix_or_prefix_of_prefix (prefix_append (f a) _) (heq ▸ prefix_append (g a) _)
          with hpre | hpre
        · exact absurd hpre hfg
        · exact absurd hpre hgf
      · rw [heq.1, heq.2]

variable [DecidableEq α]

theorem splitOn_cons_self (s : List α) : (sep :: s).splitOn sep = [] :: s.splitOn sep := by
  simp [splitOn_cons_eq_if_modifyHead]

/-- The segments of a text that does not begin with the separator. -/
theorem splitOn_cons_ne (hc : c ≠ sep) (s : List α) :
    ∃ a l, s.splitOn sep = a :: l ∧ (c :: s).splitOn sep = (c :: a) :: l := by
  cases hs : s.splitOn sep with
  | nil => exact absurd hs (splitOn_ne_nil _ _)
  | cons a l =>
    refine ⟨a, l, rfl, ?_⟩
    rw [splitOn_cons_eq_if_modifyHead, hs]
    simp [hc]

theorem mem_of_mem_splitOn {p s : List α} (hs : s ∈ p.splitOn sep) (hc : c ∈ s) : c ∈ p := by
  induction p generalizing s with
  | nil => simp_all
  | cons d p ih =>
    by_cases hd : d = sep
    · rw [hd, splitOn_cons_self] at hs
      rcases mem_cons.mp hs with rfl | hs
      · simp at hc
      · exact mem_cons_of_mem _ (ih hs hc)
    · obtain ⟨a, l, hp, hdp⟩ := splitOn_cons_ne hd p
      rw [hdp] at hs
      rcases mem_cons.mp hs with rfl | hs
      · rcases mem_cons.mp hc with rfl | hc
        · simp
        · exact mem_cons_of_mem _ (ih (by simp [hp]) hc)
      · exact mem_cons_of_mem _ (ih (by simp [hp, hs]) hc)

theorem notMem_of_mem_splitOn {p s : List α} (hs : s ∈ p.splitOn sep) : sep ∉ s := by
  induction p generalizing s with
  | nil => simp_all
  | cons d p ih =>
    by_cases hd : d = sep
    · rw [hd, splitOn_cons_self] at hs
      rcases mem_cons.mp hs with rfl | hs
      · simp
      · exact ih hs
    · obtain ⟨a, l, hp, hdp⟩ := splitOn_cons_ne hd p
      rw [hdp] at hs
      rcases mem_cons.mp hs with rfl | hs
      · have := ih (s := a) (by simp [hp])
        simp only [mem_cons, not_or]
        exact ⟨fun h => hd h.symm, this⟩
      · exact ih (by simp [hp, hs])

/-- Texts with the same segments are the same. -/
theorem splitOn_inj {x y : List α} (h : x.splitOn sep = y.splitOn sep) : x = y := by
  have := congrArg (intercalate [sep]) h
  rwa [intercalate_splitOn, intercalate_splitOn] at this

/-- The text begins with that of its first segments. -/
theorem prefix_of_splitOn (hl : l ≠ []) (h : x.splitOn sep = p.splitOn sep ++ l) :
    p ++ [sep] <+: x := by
  refine ⟨[sep].intercalate l, ?_⟩
  have := congrArg (intercalate [sep]) h
  rw [intercalate_splitOn,
    intercalate_append (splitOn_ne_nil _ _) hl,
    intercalate_splitOn] at this
  rw [this]
  simp

/-- Segments that are written one by one are the text written one by one. -/
theorem intercalate_flatMap {β : Type} (x : β) (f : α → List β)
    (s : List α) : [x].intercalate ((s.splitOn sep).map (·.flatMap f)) =
      s.flatMap fun c => if c = sep then [x] else f c := by
  induction s with
  | nil => simp
  | cons c s ih =>
    rw [flatMap_cons, ← ih]
    by_cases hc : c = sep
    · subst hc
      rw [splitOn_cons_self, map_cons, if_pos rfl]
      cases hs : s.splitOn c with
      | nil => exact absurd hs (splitOn_ne_nil _ _)
      | cons a l => simp
    · obtain ⟨a, l, ha, hcons⟩ := splitOn_cons_ne hc s
      rw [hcons, ha, if_neg hc]
      cases l <;> simp

end Segments
