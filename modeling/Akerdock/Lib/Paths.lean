import Akerdock.Lib.Segments

/-!
# Lexical paths

The cleaning of a path: segments that say nothing are dropped, and one that
goes up takes the segment before it away.  A path that starts with the
separator is rooted and cannot go above its root, and one that does not keeps
what it cannot take away at its start.

* `step` is what one segment does to the segments before it, and `resolve` all
  of them in turn.
* `Climbs` is a relative path that leaves where it starts.  `clean_climbs` reads
  it off the cleaned path.
* `foldl_rooted` runs a relative path below a rooted one: as long as it does
  not climb, it stays there.  `cut_climbs` is the path that is cut off inside
  of a segment, which may climb at its end.
* `clean_under` compares two rooted paths by their segments.
-/

namespace Paths

open List Segments

variable {α : Type} [DecidableEq α] (sep dot : α)

/-- One segment, after those of `stack`. -/
def step (rooted : Bool) (stack : List (List α)) (c : List α) : List (List α) :=
  if c = [] ∨ c = [dot] then stack
  else if c = [dot, dot] then
    if stack ≠ [] ∧ stack.getLast? ≠ some [dot, dot] then stack.dropLast
    else if rooted then stack
    else stack ++ [c]
  else stack ++ [c]

/-- The segments of a path, after those of `stack`. -/
def resolve (rooted : Bool) (stack : List (List α)) (p : List α) : List (List α) :=
  (p.splitOn sep).foldl (step dot rooted) stack

/-- The shortest path that says the same. -/
def clean (p : List α) : List α :=
  if p.head? = some sep then
    sep :: [sep].intercalate (resolve sep dot true [] p)
  else
    match resolve sep dot false [] p with
    | [] => [dot]
    | out => [sep].intercalate out

/-- The path leaves where it starts. -/
def Climbs (p : List α) : Prop :=
  (resolve sep dot false [] p).head? = some [dot, dot]

variable {sep dot}

theorem resolve_append (rooted : Bool) (stack : List (List α)) (p q : List α) :
    resolve sep dot rooted stack (p ++ sep :: q) =
      resolve sep dot rooted (resolve sep dot rooted stack p) q := by
  unfold resolve
  rw [splitOn_append_cons_self, foldl_append]

/-! ## One step -/

theorem step_cases (dot : α) (rooted : Bool) (stack : List (List α)) (c : List α) :
    step dot rooted stack c = stack ∨
      (c = [dot, dot] ∧ stack ≠ [] ∧ stack.getLast? ≠ some [dot, dot] ∧
        step dot rooted stack c = stack.dropLast) ∨
      (c = [dot, dot] ∧ rooted = false ∧
        (stack = [] ∨ stack.getLast? = some [dot, dot]) ∧
        step dot rooted stack c = stack ++ [c]) ∨
      (c ≠ [] ∧ c ≠ [dot, dot] ∧ step dot rooted stack c = stack ++ [c]) := by
  unfold step
  split_ifs with h₁ h₂ h₃ h₄
  · exact .inl rfl
  · exact .inr (.inl ⟨h₂, h₃.1, h₃.2, rfl⟩)
  · exact .inl rfl
  · right
    right
    left
    refine ⟨h₂, by simpa using h₄, ?_, rfl⟩
    by_cases h0 : stack = []
    · exact .inl h0
    · right
      by_contra hl
      exact h₃ ⟨h0, hl⟩
  · right
    right
    right
    exact ⟨fun h => h₁ (.inl h), h₂, rfl⟩

/-- A path that has climbed does not come back. -/
theorem foldl_climbed (t : List (List α)) (l : List (List α)) :
    (l.foldl (step dot false) ([dot, dot] :: t)).head? = some [dot, dot] := by
  induction l generalizing t with
  | nil => rfl
  | cons c l ih =>
    rw [foldl_cons]
    rcases step_cases dot false ([dot, dot] :: t) c with
      h | ⟨-, -, hlast, h⟩ | ⟨-, -, -, h⟩ | ⟨-, -, h⟩
    · rw [h]
      exact ih t
    · rw [h]
      cases t with
      | nil => exact absurd rfl hlast
      | cons x t => exact ih _
    · rw [h]
      exact ih _
    · rw [h]
      exact ih _

/-- A segment below `b` that does not climb does what it does alone. -/
theorem step_rooted (b : List (List α)) (hs : [dot, dot] ∉ s)
    (hc : ¬ (s = [] ∧ c = [dot, dot])) :
    step dot true (b ++ s) c = b ++ step dot false s c ∧ [dot, dot] ∉ step dot false s c := by
  unfold step
  by_cases h₁ : c = [] ∨ c = [dot]
  · rw [if_pos h₁, if_pos h₁]
    exact ⟨rfl, hs⟩
  · rw [if_neg h₁, if_neg h₁]
    by_cases h₂ : c = [dot, dot]
    · -- the segment before it is taken away, and it is one of `s`
      have hne : s ≠ [] := fun h => hc ⟨h, h₂⟩
      have hlast : s.getLast? ≠ some [dot, dot] := by
        intro hl
        exact hs (mem_of_getLast? hl)
      have hlast' : (b ++ s).getLast? ≠ some [dot, dot] := by
        rw [getLast?_append_of_ne_nil _ hne]
        exact hlast
      rw [if_pos h₂, if_pos h₂, if_pos ⟨by simp [hne], hlast'⟩,
        if_pos ⟨hne, hlast⟩, dropLast_append_of_ne_nil hne]
      exact ⟨rfl, fun h => hs (dropLast_subset _ h)⟩
    · rw [if_neg h₂, if_neg h₂, append_assoc]
      refine ⟨rfl, ?_⟩
      simp only [mem_append, mem_singleton, not_or]
      exact ⟨hs, fun h => h₂ h.symm⟩

/-- A relative path that has not climbed does below `b` what it does
alone. -/
theorem foldl_rooted (b : List (List α)) (hs : [dot, dot] ∉ s)
    (l : List (List α))
    (h : (l.foldl (step dot false) s).head? ≠ some [dot, dot]) :
    l.foldl (step dot true) (b ++ s) = b ++ l.foldl (step dot false) s ∧
      [dot, dot] ∉ l.foldl (step dot false) s := by
  induction l generalizing s with
  | nil => exact ⟨rfl, hs⟩
  | cons c l ih =>
    simp only [foldl_cons] at h ⊢
    by_cases hc : s = [] ∧ c = [dot, dot]
    · have hclimb : step dot false s c = [[dot, dot]] := by simp [step, hc.1, hc.2]
      rw [hclimb] at h
      exact absurd (foldl_climbed [] l) h
    · obtain ⟨hstep, hmem⟩ := step_rooted b hs hc
      rw [hstep]
      exact ih hmem h

/-- Rooted paths have no segment that goes up. -/
theorem foldl_true_notMem (hs : [dot, dot] ∉ s) (l : List (List α)) :
    [dot, dot] ∉ l.foldl (step dot true) s := by
  induction l generalizing s with
  | nil => exact hs
  | cons c l ih =>
    apply ih
    rcases step_cases dot true s c with
      h | ⟨-, -, -, h⟩ | ⟨-, hf, -, -⟩ | ⟨-, hc, h⟩
    · rwa [h]
    · rw [h]
      exact fun hm => hs (dropLast_subset _ hm)
    · cases hf
    · rw [h]
      simp only [mem_append, mem_singleton, not_or]
      exact ⟨hs, fun h => hc h.symm⟩

/-! ## Cutting a path off -/

/-- A text that goes on inside of a segment. -/
theorem splitOn_append (sep : α) (x y : List α) : ∃ pre c a l,
    x.splitOn sep = pre ++ [c] ∧ y.splitOn sep = a :: l ∧
      (x ++ y).splitOn sep = pre ++ (c ++ a) :: l := by
  induction x with
  | nil =>
    cases hy : y.splitOn sep with
    | nil => exact absurd hy (splitOn_ne_nil _ _)
    | cons a l => exact ⟨[], [], a, l, by simp, rfl, by simp [hy]⟩
  | cons d x ih =>
    obtain ⟨pre, c, a, l, hx, hy, hxy⟩ := ih
    by_cases hd : d = sep
    · refine ⟨[] :: pre, c, a, l, ?_, hy, ?_⟩
      · rw [hd, splitOn_cons_self, hx]
        rfl
      · rw [hd, cons_append, splitOn_cons_self, hxy]
        rfl
    · obtain ⟨e, m, he, hde⟩ := splitOn_cons_ne hd x
      obtain ⟨e', m', he', hde'⟩ := splitOn_cons_ne hd (x ++ y)
      rw [hx] at he
      rw [hxy] at he'
      cases pre with
      | nil =>
        obtain ⟨rfl, rfl⟩ := cons.inj he
        obtain ⟨rfl, rfl⟩ := cons.inj he'
        exact ⟨[], d :: c, a, l, hde, hy, hde'⟩
      | cons f pre =>
        obtain ⟨rfl, rfl⟩ := cons.inj he
        obtain ⟨rfl, rfl⟩ := cons.inj he'
        exact ⟨(d :: f) :: pre, c, a, l, hde, hy, hde'⟩

/-- A path that does not climb may do so when it is cut off inside of a
segment.  Below `b` it then ends in the directory above. -/
theorem cut_climbs (hb : b ≠ []) (hbd : [dot, dot] ∉ b)
    (hxy : ¬ Climbs sep dot (x ++ y)) (hx : Climbs sep dot x) :
    resolve sep dot true b x = b.dropLast := by
  obtain ⟨pre, c, a, l, hsx, -, hsxy⟩ := splitOn_append sep x y
  unfold Climbs resolve at hx hxy
  unfold resolve
  rw [hsx, foldl_append] at hx
  rw [hsxy, foldl_append] at hxy
  rw [hsx, foldl_append]
  -- before its last segment it has not climbed
  have hpre : (pre.foldl (step dot false) []).head? ≠ some [dot, dot] := by
    intro hclimbed
    apply hxy
    cases hs : pre.foldl (step dot false) [] with
    | nil =>
      rw [hs] at hclimbed
      cases hclimbed
    | cons e t =>
      rw [hs] at hclimbed
      cases hclimbed
      exact foldl_climbed t _
  obtain ⟨hrooted, hmem⟩ :=
    foldl_rooted b not_mem_nil pre hpre
  rw [append_nil] at hrooted
  rw [hrooted]
  -- so that is where it climbs, with nothing left to take away
  have hlast : pre.foldl (step dot false) [] = [] ∧ c = [dot, dot] := by
    by_contra hno
    have hnot := (step_rooted b hmem hno).2
    exact hnot (mem_of_head? hx)
  rw [hlast.1, hlast.2, append_nil]
  have hbl : b.getLast? ≠ some [dot, dot] := by
    intro hl
    exact hbd (mem_of_getLast? hl)
  simp [step, hb, hbl]

/-! ## Cleaned paths -/

/-- The segments that are left are some of the path, and not empty. -/
theorem mem_foldl {s l : List (List α)} (h : c ∈ l.foldl (step dot rooted) s) :
    c ∈ s ∨ (c ∈ l ∧ c ≠ []) := by
  induction l generalizing s with
  | nil => exact .inl h
  | cons d l ih =>
    rcases ih h with hc | ⟨hc, hne⟩
    · rcases step_cases dot rooted s d with heq | ⟨-, -, -, heq⟩ | ⟨hd, -, -, heq⟩ | ⟨hd, -, heq⟩
      · exact .inl (heq ▸ hc)
      · rw [heq] at hc
        exact .inl (dropLast_subset _ hc)
      · rw [heq] at hc
        rcases mem_append.mp hc with hc | hc
        · exact .inl hc
        · right
          rw [mem_singleton.mp hc, hd]
          simp
      · rw [heq] at hc
        rcases mem_append.mp hc with hc | hc
        · exact .inl hc
        · right
          rw [mem_singleton.mp hc]
          exact ⟨by simp, hd⟩
    · exact .inr ⟨mem_cons_of_mem _ hc, hne⟩

theorem mem_resolve {p c : List α} (h : c ∈ resolve sep dot rooted [] p) : sep ∉ c ∧ c ≠ [] := by
  rcases mem_foldl h with hc | ⟨hc, hne⟩
  · cases hc
  · exact ⟨notMem_of_mem_splitOn hc, hne⟩

/-- The segments can be read off the text again. -/
theorem splitOn_resolve (h : resolve sep dot rooted [] p ≠ []) :
    ([sep].intercalate (resolve sep dot rooted [] p)).splitOn sep =
      resolve sep dot rooted [] p :=
  splitOn_intercalate sep (fun _ hc => (mem_resolve hc).1) h

theorem clean_climbs (hne : dot ≠ sep) (hp : p.head? ≠ some sep) :
    (clean sep dot p = [dot, dot] ∨
      [dot, dot, sep] <+: clean sep dot p) ↔ Climbs sep dot p := by
  have hdots : [dot, dot].splitOn sep = [[dot, dot]] := by
    simp [splitOn_cons_eq_if_modifyHead, hne]
  unfold clean Climbs
  rw [if_neg hp]
  cases hout : resolve sep dot false [] p with
  | nil =>
    have hshort : ¬ [dot, dot, sep] <+: [dot] := by
      intro h
      have := h.length_le
      simp at this
    simp [hshort]
  | cons a t =>
    have hne : resolve sep dot false [] p ≠ [] := by
      rw [hout]
      exact cons_ne_nil _ _
    have hsplit := splitOn_resolve hne
    rw [hout] at hsplit
    dsimp only
    constructor
    · rintro (h | ⟨r, h⟩)
      · rw [h, hdots] at hsplit
        rw [← hsplit]
        rfl
      · have happ : [dot, dot, sep] ++ r = [dot, dot] ++ sep :: r := rfl
        rw [← h, happ, splitOn_append_cons_self, hdots] at hsplit
        rw [← hsplit]
        rfl
    · intro h
      cases h
      cases t with
      | nil =>
        left
        simp
      | cons d t =>
        right
        exact ⟨[sep].intercalate (d :: t), by simp⟩

/-- A rooted path is below another one if it has all of its segments. -/
theorem clean_under (hp : p.head? = some sep) (hr : r.head? = some sep)
    (hne : resolve sep dot true [] r ≠ []) :
    (clean sep dot p = clean sep dot r ∨ clean sep dot r ++ [sep] <+: clean sep dot p) ↔
    resolve sep dot true [] r <+: resolve sep dot true [] p := by
  have hR := splitOn_resolve hne
  unfold clean
  rw [if_pos hp, if_pos hr]
  constructor
  · intro h
    have hP : resolve sep dot true [] p ≠ [] := by
      intro h0
      rw [h0] at h
      rcases h with h | h
      · have := (cons.inj h).2
        rw [← this] at hR
        have hnil : [] ∈ resolve sep dot true [] r := by
          rw [← hR]
          exact mem_singleton_self _
        exact (mem_resolve hnil).2 rfl
      · have := h.length_le
        simp at this
    have hP' := splitOn_resolve hP
    rcases h with h | ⟨x, h⟩
    · have heq := (cons.inj h).2
      refine ⟨[], ?_⟩
      rw [append_nil, ← hP', heq, hR]
    · rw [cons_append, cons_append, append_assoc] at h
      have heq := (cons.inj h).2
      rw [← heq, singleton_append, splitOn_append_cons_self, hR] at hP'
      exact ⟨x.splitOn sep, hP'⟩
  · rintro ⟨x, hx⟩
    cases x with
    | nil =>
      left
      rw [← hx, append_nil]
    | cons c x =>
      right
      rw [← hx, intercalate_append hne (by simp)]
      exact ⟨[sep].intercalate (c :: x), by simp⟩

end Paths
