import Akerdock.Lib.Yaml.Reader

/-!
# Characters and lines of a text that is put together

A text is written piece by piece; here is what `readable` and `lines` make of
the pieces.

* `readable_append` and `readable_append_cons`: the check of the characters can
  be done piece by piece, where a piece starts with a character of ASCII.
* `lines_eq_iff`: a text is one line exactly if it has none of the five breaks.
* `lines_append_lf` gives the lines of lines that are written one after
  another, and `lines_append` the pieces of one that starts with ASCII.
* `linesFrom_length`: where there are several lines, they have fewer bytes than
  the text.
-/

namespace Yaml

open List

/-! ## Characters -/

variable {c : UInt8} {s : List UInt8}

/-- A byte of ASCII is none of the others. -/
theorem ne_of_ascii (h : c < 0x80) (d : UInt8) (hd : 0x80 ≤ d) : c ≠ d := by
  rintro rfl
  exact absurd (UInt8.lt_of_lt_of_le h hd) (UInt8.lt_irrefl _)

theorem next_of_ascii {st : Utf8} (h : c < 0x80) (hst : st ≠ .start) : st.next c = .bad := by
  have hlow : ∀ (lo hi : UInt8) (s : Utf8), 0x80 ≤ lo → within lo hi c s = .bad := by
    intro lo hi s hlo
    refine if_neg fun hin => ?_
    exact ne_of_ascii h c (UInt8.le_trans hlo hin.1) rfl
  have hne := ne_of_ascii h
  cases st with
  | start => exact absurd rfl hst
  | bad => rfl
  | c2 | efbb =>
    rw [Utf8.next, if_neg (hne _ (by decide))]
    exact hlow _ _ _ (by decide)
  | ef =>
    rw [Utf8.next, if_neg (hne _ (by decide)), if_neg (hne _ (by decide))]
    exact hlow _ _ _ (by decide)
  | _ => exact hlow _ _ _ (by decide)

theorem foldl_next_bad (s : List UInt8) : s.foldl Utf8.next .bad = .bad := by
  induction s with
  | nil => rfl
  | cons c s ih => exact ih

/-- A text can be cut before a byte that is a character of its own. -/
theorem readable_append_cons (h : c < 0x80) (a b : List UInt8) :
    readable (a ++ c :: b) = (readable a && readable (c :: b)) := by
  unfold readable
  rw [foldl_append, foldl_cons]
  by_cases ha : a.foldl Utf8.next .start = .start
  · rw [ha]
    rfl
  · rw [next_of_ascii h ha, foldl_next_bad]
    simp [ha]

/-- A printable character of ASCII. -/
def isPrintable (c : UInt8) : Bool :=
  32 ≤ c && c ≤ 126

theorem lt_of_isPrintable (h : isPrintable c = true) : c < 0x80 := by
  have hle : c ≤ 126 := by
    simp only [isPrintable, Bool.and_eq_true, decide_eq_true_eq] at h
    exact h.2
  exact UInt8.lt_of_le_of_lt hle (by decide)

theorem readable_cons (h : isPrintable c = true) (s : List UInt8) :
    readable (c :: s) = readable s := by
  have hnext : Utf8.next .start c = .start := by
    rw [Utf8.next, if_pos (lt_of_isPrintable h)]
    simp only [isPrintable, Bool.and_eq_true, decide_eq_true_eq] at h
    exact if_pos (.inr (.inr (.inr h)))
  simp only [readable, foldl_cons, hnext]

theorem readable_append (h : a.all isPrintable = true) (s : List UInt8) :
    readable (a ++ s) = readable s := by
  induction a with
  | nil => rfl
  | cons c a ih =>
    rw [all_cons, Bool.and_eq_true] at h
    rw [cons_append, readable_cons h.1, ih h.2]

theorem readable_of_printable (h : s.all isPrintable = true) : readable s = true := by
  have := readable_append h []
  rwa [append_nil] at this

theorem readable_append_of_readable (h : readable a = true) (s : List UInt8) :
    readable (a ++ s) = readable s := by
  unfold readable at h ⊢
  rw [foldl_append, of_decide_eq_true h]

/-! ## Lines -/

/-- The five line breaks. -/
def breaks : List (List UInt8) :=
  [[10], [13], [0xC2, 0x85], [0xE2, 0x80, 0xA8], [0xE2, 0x80, 0xA9]]

/-- None of the words stands in the text. -/
def Lacks (words : List (List UInt8)) (s : List UInt8) : Prop :=
  ∀ w ∈ words, ¬w <:+: s

instance (words : List (List UInt8)) (s : List UInt8) : Decidable (Lacks words s) :=
  inferInstanceAs (Decidable (∀ w ∈ words, _))

/-- A word without `c` that starts a text ends before the first `c`. -/
theorem prefix_append_cons (hc : c ∉ w) (a b : List UInt8) : w <+: a ++ c :: b ↔ w <+: a := by
  induction a generalizing w with
  | nil =>
    cases w with
    | nil => simp
    | cons d w =>
      have hne : d ≠ c := fun heq => hc (heq ▸ mem_cons_self)
      simp [cons_prefix_cons, hne]
  | cons d a ih =>
    cases w with
    | nil => simp
    | cons e w =>
      have hw : c ∉ w := fun h => hc (mem_cons_of_mem e h)
      rw [cons_append, cons_prefix_cons, cons_prefix_cons, ih hw]

/-- Words without `c` stand on one side of it. -/
theorem infix_append_cons (hc : c ∉ w) (a b : List UInt8) :
    w <:+: a ++ c :: b ↔ w <:+: a ∨ w <:+: b := by
  induction a with
  | nil =>
    have hstart := prefix_append_cons hc [] b
    rw [nil_append] at hstart
    rw [nil_append, infix_cons_iff, hstart, prefix_nil, infix_nil]
  | cons d a ih =>
    rw [cons_append, infix_cons_iff, infix_cons_iff, ih,
      ← cons_append, prefix_append_cons hc, or_assoc]

theorem lacks_append_cons (hc : ∀ w ∈ words, c ∉ w) (a b : List UInt8) :
    Lacks words (a ++ c :: b) ↔ Lacks words a ∧ Lacks words b := by
  simp only [Lacks, ← forall_and]
  refine forall₂_congr fun w hw => ?_
  rw [infix_append_cons (hc w hw), not_or]

theorem breakEnd_eq_none : breakEnd racc c = none ↔ ∀ w ∈ breaks, ¬w.reverse <+: c :: racc := by
  have htake : ∀ w : List UInt8, w <+: racc ↔ racc.take w.length = w := by
    intro w
    rw [prefix_iff_eq_take, eq_comm]
  have h₁ := htake [0xC2]
  have h₂ := htake [0x80, 0xE2]
  simp only [breaks, forall_mem_cons, reverse_cons, reverse_nil,
    nil_append, cons_append, cons_prefix_cons, h₁, h₂,
    nil_prefix, and_true, breakEnd, eq_comm (a := c)]
  split_ifs <;> simp_all <;> grind

theorem linesFrom_ne_nil (racc s : List UInt8) : linesFrom racc s ≠ [] := by
  induction s generalizing racc with
  | nil => simp [linesFrom]
  | cons c s ih =>
    unfold linesFrom
    split
    · simp
    · exact ih _

theorem linesFrom_eq_iff (h : Lacks breaks racc.reverse) :
    linesFrom racc s = [racc.reverse ++ s] ↔ Lacks breaks (racc.reverse ++ s) := by
  induction s generalizing racc with
  | nil => simp [linesFrom, h]
  | cons c s ih =>
    have hsnoc : racc.reverse ++ c :: s = (c :: racc).reverse ++ s := by simp
    unfold linesFrom
    split
    · rename_i line hline
      have hsome : ¬∀ w ∈ breaks, ¬w.reverse <+: c :: racc := by
        rw [← breakEnd_eq_none, hline]
        simp
      constructor
      · intro heq
        exact absurd (cons.inj heq).2 (linesFrom_ne_nil [] s)
      · intro hlacks
        refine absurd (fun w hw hpre => hlacks w hw ?_) hsome
        have hsuffix : w <:+ (c :: racc).reverse := by
          rwa [← reverse_prefix, reverse_reverse]
        rw [hsnoc]
        exact hsuffix.isInfix.trans (prefix_append _ _).isInfix
    · rename_i hnone
      rw [hsnoc]
      apply ih
      intro w hw
      rw [reverse_cons, infix_concat_iff]
      rintro (hsuffix | hfound)
      · refine breakEnd_eq_none.1 hnone w hw ?_
        rwa [← reverse_suffix, reverse_reverse, reverse_cons]
      · exact h w hw hfound

theorem lines_eq_iff : lines s = [s] ↔ Lacks breaks s := by
  have hnil : Lacks breaks ([] : List UInt8).reverse := by decide
  exact linesFrom_eq_iff hnil

theorem linesFrom_append_lf (racc a b : List UInt8) :
    linesFrom racc (a ++ 10 :: b) = linesFrom racc a ++ lines b := by
  induction a generalizing racc with
  | nil => rfl
  | cons c a ih =>
    rw [cons_append, linesFrom, linesFrom]
    cases breakEnd racc c with
    | some line => simp [ih]
    | none => exact ih _

/-- The lines of texts that line feeds separate. -/
theorem lines_append_lf (a b : List UInt8) : lines (a ++ 10 :: b) = lines a ++ lines b :=
  linesFrom_append_lf [] a b

theorem breakEnd_length (h : breakEnd racc c = some line) : line.length ≤ racc.length := by
  unfold breakEnd at h
  split_ifs at h
  · cases h
    exact Nat.le_refl _
  all_goals
    cases h
    exact (drop_suffix _ _).length_le

/-- A break takes up at least one byte. -/
theorem linesFrom_length (racc s : List UInt8) :
    ((linesFrom racc s).map fun l => l.length + 1).sum ≤ racc.length + s.length + 1 := by
  induction s generalizing racc with
  | nil => simp [linesFrom]
  | cons c s ih =>
    unfold linesFrom
    split
    · rename_i line hline
      have h₁ := breakEnd_length hline
      have h₂ := ih []
      simp only [map_cons, sum_cons, length_reverse, length_cons, length_nil] at h₂ ⊢
      omega
    · have := ih (c :: racc)
      simp only [length_cons] at this ⊢
      omega

theorem breakEnd_append (h : ∀ c ∈ base.head?, c < 0x80) (racc : List UInt8) (c : UInt8) :
    breakEnd (racc ++ base) c = (breakEnd racc c).map (· ++ base) := by
  have hhead : ∀ d : UInt8, 0x80 ≤ d → base.head? ≠ some d := by
    intro d hd heq
    exact ne_of_ascii (h d heq) d hd rfl
  have hc2 := hhead 0xC2 (by decide)
  have h80 := hhead 0x80 (by decide)
  have he2 := hhead 0xE2 (by decide)
  -- A break is not cut in two, since its bytes after the first are not ASCII.
  match racc with
  | [] =>
    cases base with
    | nil => simp [breakEnd]
    | cons b base =>
      simp only [head?_cons, ne_eq, Option.some.injEq] at hc2 h80
      simp [breakEnd, hc2, h80]
  | [r] =>
    cases base with
    | nil => simp [breakEnd]
    | cons b base =>
      simp [breakEnd]
      split_ifs <;> simp_all
  | r :: r' :: racc =>
    simp [breakEnd]
    split_ifs <;> simp_all

/-- What stands before a line, ending with a character of ASCII, stays before
its first piece. -/
theorem linesFrom_append (h : ∀ c ∈ base.head?, c < 0x80) (racc s : List UInt8) :
    ∃ l ls, linesFrom racc s = l :: ls ∧
      linesFrom (racc ++ base) s = (base.reverse ++ l) :: ls := by
  induction s generalizing racc with
  | nil => exact ⟨racc.reverse, [], rfl, by simp [linesFrom]⟩
  | cons c s ih =>
    unfold linesFrom
    rw [breakEnd_append h]
    cases breakEnd racc c with
    | some line => exact ⟨line.reverse, lines s, rfl, by simp [lines]⟩
    | none => exact ih (c :: racc)

/-- The bytes of a line break that are ASCII. -/
def isFeed (c : UInt8) : Bool :=
  c = 10 || c = 13

theorem linesFrom_ascii (h : ∀ c ∈ pre, c < 0x80 ∧ isFeed c = false) (racc s : List UInt8) :
    linesFrom racc (pre ++ s) = linesFrom (pre.reverse ++ racc) s := by
  induction pre generalizing racc with
  | nil => rfl
  | cons c pre ih =>
    have hc := h c mem_cons_self
    have hnone : breakEnd racc c = none := by
      have hne := ne_of_ascii hc.1
      have hfeed : ¬(c = 10 ∨ c = 13) := by simpa [isFeed] using hc.2
      have h85 := hne 0x85 (by decide)
      have ha8 := hne 0xA8 (by decide)
      have ha9 := hne 0xA9 (by decide)
      simp [breakEnd, hfeed, h85, ha8, ha9]
    rw [cons_append, linesFrom, hnone]
    show linesFrom (c :: racc) (pre ++ s) = _
    rw [ih (fun d hd => h d (mem_cons_of_mem c hd))]
    simp

/-- The pieces of a line that starts with characters of ASCII. -/
theorem lines_append (h : ∀ c ∈ pre, c < 0x80 ∧ isFeed c = false) (s : List UInt8) :
    ∃ l ls, lines s = l :: ls ∧ lines (pre ++ s) = (pre ++ l) :: ls := by
  have hbase : ∀ c ∈ pre.reverse.head?, c < 0x80 := by
    intro c hc
    exact (h c (mem_reverse.1 (mem_of_mem_head? hc))).1
  obtain ⟨l, ls, hlines, happend⟩ := linesFrom_append hbase [] s
  refine ⟨l, ls, hlines, ?_⟩
  rw [lines, linesFrom_ascii h, append_nil]
  simpa using happend

theorem printable_spec (h : s.all isPrintable = true) : ∀ c ∈ s, c < 0x80 ∧ isFeed c = false := by
  intro c hc
  have hc := all_eq_true.1 h c hc
  refine ⟨lt_of_isPrintable hc, ?_⟩
  rw [isFeed, Bool.or_eq_false_iff, decide_eq_false_iff_not, decide_eq_false_iff_not]
  constructor <;> (rintro rfl; revert hc; decide)

theorem lines_of_printable (h : s.all isPrintable = true) : lines s = [s] := by
  obtain ⟨l, ls, hl, happend⟩ := lines_append (printable_spec h) []
  obtain ⟨rfl, rfl⟩ := cons.inj hl
  simpa using happend

theorem lacks_breaks_of_printable (h : s.all isPrintable = true) : Lacks breaks s :=
  lines_eq_iff.1 (lines_of_printable h)

end Yaml
