import Akerdock.Lib.Yaml.Layout

/-!
# What is written and what is read

* `Layout.entriesOf_lines`: where all plain scalars are clean, the lines are
  read as the entries of the layout.
* `Layout.weight_entriesOf`: where they are read at all, what is read weighs no
  more than what is meant, and less if a plain scalar is not clean.  Its pieces
  may be read as anything; they are too short to make up for it.
* `parse_text_iff`: the text is read as what is meant exactly if every plain
  scalar is clean.
-/

namespace Yaml

open List Option

/-! ## Texts -/

/-- Lines, each with its line feed. -/
def textOf (ls : List (List UInt8)) : List UInt8 :=
  ls.flatMap (· ++ [10])

theorem textOf_cons (s : List UInt8) (ls : List (List UInt8)) :
    textOf (s :: ls) = s ++ 10 :: textOf ls := by
  simp [textOf]

theorem lines_textOf (ls : List (List UInt8)) : lines (textOf ls) = ls.flatMap lines ++ [[]] := by
  induction ls with
  | nil => rfl
  | cons s ls ih =>
    rw [textOf_cons, lines_append_lf, ih, flatMap_cons, append_assoc]

theorem readable_textOf (ls : List (List UInt8)) : readable (textOf ls) = ls.all readable := by
  induction ls with
  | nil => rfl
  | cons s ls ih =>
    rw [textOf_cons, readable_append_cons (by decide), all_cons, ← ih]
    rfl

variable {s k : List UInt8} {es : List Entry} {l : Layout}

theorem entriesOf_printable (h : s.all isPrintable = true)
    (hs : parseLine s = some es) : entriesOf (lines s) = some es := by
  rw [lines_of_printable h, entriesOf_cons, hs]
  simp [entriesOf]

/-! ### What is printable -/

theorem indent_printable (n : Nat) : (indent n).all isPrintable = true := by
  apply all_eq_true.2
  intro c hc
  rw [(mem_replicate.1 hc).2]
  decide

theorem Word.printable (h : Word k) : k.all isPrintable = true :=
  printable_of_word h.2

theorem Quotable.printable (h : Quotable s) : (between s).all isPrintable = true := by
  have hs : s.all isPrintable = true := by
    apply all_eq_true.2
    intro c hc
    have hc := all_eq_true.1 h c hc
    simp only [isQuotable, Bool.and_eq_true] at hc
    exact hc.1.1
  have hquote : isPrintable quote = true := by decide
  simp [between, hs, hquote]

theorem FlowOk.printable (h : FlowOk v) : v.text.all isPrintable = true := by
  cases v with
  | plain s => exact Word.printable h
  | quoted s => exact (quotable_of_both h).printable

theorem flowText_printable (h : ∀ v ∈ items, FlowOk v) :
    (flowText items).all isPrintable = true := by
  apply all_eq_true.2
  intro c hc
  simp only [flowText, cons_append, mem_cons, mem_append, not_mem_nil, or_false] at hc
  rcases hc with rfl | hc | rfl
  · decide
  · rcases Segments.mem_intercalate hc with hc | ⟨t, ht, hc⟩
    · simp only [mem_cons, not_mem_nil, or_false] at hc
      rcases hc with rfl | rfl <;> decide
    · obtain ⟨v, hv, rfl⟩ := mem_map.1 ht
      exact all_eq_true.1 (h v hv).printable c hc
  · decide

theorem fieldLine_printable (n : Nat) (hk : Word k) (hv : v.all isPrintable = true) :
    (indent n ++ (k ++ colon :: space :: v)).all isPrintable = true := by
  have hcolon : isPrintable colon = true := by decide
  have hspace : isPrintable space = true := by decide
  simp [indent_printable, hk.printable, hv, hcolon, hspace]

theorem underLine_printable (n : Nat) (hk : Word k) :
    (indent n ++ (k ++ [colon])).all isPrintable = true := by
  have hcolon : isPrintable colon = true := by decide
  simp [indent_printable, hk.printable, hcolon]

theorem dashLine_printable (n : Nat) (hs : s.all isPrintable = true) :
    (indent n ++ dash :: space :: s).all isPrintable = true := by
  have hdash : isPrintable dash = true := by decide
  have hspace : isPrintable space = true := by decide
  simp [indent_printable, hs, hdash, hspace]

/-! ## Line by line -/

/-- A line with a plain scalar, cut after the blank before it. -/
theorem plainLine_eq (n : Nat) (k s : List UInt8) :
    indent n ++ (k ++ colon :: space :: s) =
      (indent n ++ (k ++ colon :: space :: [])) ++ s := by
  simp

/-- The lines without a plain scalar are printable and are read as their
entries.  What holds of those, of the lines with a plain scalar, and of lines
after lines holds of a layout. -/
theorem Layout.of_lines
    {P : List (List UInt8) → List Entry → List (List UInt8) → Prop}
    (hnil : P [] [] [])
    (happend : ∀ {a b ea eb pa pb}, P a ea pa → P b eb pb → P (a ++ b) (ea ++ eb) (pa ++ pb))
    (hplain : ∀ {n k s}, Word k → Framed s →
      P [indent n ++ (k ++ colon :: space :: s)] [⟨n, .key k, .scalar s⟩] [s])
    (hline : ∀ {s es}, s.all isPrintable = true → parseLine s = some es → P [s] es [])
    (h : l.Ok) (n : Nat) : P (l.lines n) (l.entries n) l.plains := by
  induction l generalizing n with
  | nil => exact hnil
  | field k v rest ih =>
    cases v with
    | plain s =>
      obtain ⟨hk, hs, hrest⟩ := h
      exact happend (hplain hk hs) (ih hrest n)
    | quoted s =>
      obtain ⟨hk, hs, hrest⟩ := h
      have hparse := parseLine_field hk n (v := space :: between s) rfl
      rw [value_space, value_between hs] at hparse
      exact happend (hline (fieldLine_printable n hk hs.printable) hparse) (ih hrest n)
  | flow k items rest ih =>
    obtain ⟨hk, hne, hitems, hrest⟩ := h
    have hprint := fieldLine_printable n hk (flowText_printable hitems)
    have hparse := parseLine_field hk n (v := space :: flowText items) rfl
    rw [value_space, value_flowText hne hitems] at hparse
    exact happend (hline hprint hparse) (ih hrest n)
  | under k child rest ihc ih =>
    obtain ⟨hk, hchild, hrest⟩ := h
    have hparse := parseLine_field hk n (v := []) rfl
    exact happend (hline (underLine_printable n hk) hparse)
      (happend (ihc hchild (n + 2)) (ih hrest n))
  | item s rest ih =>
    obtain ⟨hs, hrest⟩ := h
    have hprint := dashLine_printable n hs.printable
    exact happend (hline hprint (parseLine_item hs)) (ih hrest n)
  | entry k s more rest ihm ih =>
    obtain ⟨hk, hs, hmore, hrest⟩ := h
    have hprint := dashLine_printable n (fieldLine_printable 0 hk hs.printable)
    exact happend (hline hprint (parseLine_entry hk hs))
      (happend (ihm hmore (n + 2)) (ih hrest n))

/-! ## Clean layouts are read as they are meant -/

theorem entriesOf_plainLine (n : Nat) (hk : Word k) (hs : Framed s)
    (hunbroken : Lacks breaks s) (hunseparated : Lacks separators s) :
    entriesOf (lines (indent n ++ (k ++ colon :: space :: s))) =
      some [⟨n, .key k, .scalar s⟩] := by
  have hpre := printable_spec (fieldLine_printable (v := []) n hk rfl)
  obtain ⟨l, ls, hl, happend⟩ := lines_append hpre s
  rw [lines_eq_iff.2 hunbroken] at hl
  obtain ⟨rfl, rfl⟩ := cons.inj hl
  rw [← plainLine_eq] at happend
  rw [happend, entriesOf_cons, parseLine_field hk n rfl, value_space,
    value_plain hs.1, plain_of_clean hs hunseparated]
  rfl

/-- Where all plain scalars are clean, the lines are read as the entries that
are meant. -/
theorem Layout.entriesOf_lines (h : l.Ok)
    (hclean : ∀ s ∈ l.plains, Lacks breaks s ∧ Lacks separators s) (n : Nat) :
    entriesOf ((l.lines n).flatMap Yaml.lines) = some (l.entries n) := by
  revert hclean
  refine Layout.of_lines (P := fun ls es ps =>
    (∀ s ∈ ps, Lacks breaks s ∧ Lacks separators s) →
      entriesOf (ls.flatMap Yaml.lines) = some es)
    (fun _ => rfl) ?_ ?_ ?_ h n
  · intro a b ea eb pa pb ha hb hclean
    rw [flatMap_append, entriesOf_append,
      ha fun s hs => hclean s (mem_append_left _ hs),
      hb fun s hs => hclean s (mem_append_right _ hs)]
    rfl
  · intro n k s hk hs hclean
    have hs' := hclean s mem_cons_self
    rw [flatMap_singleton]
    exact entriesOf_plainLine n hk hs hs'.1 hs'.2
  · intro s es hprint hparse _
    rw [flatMap_singleton]
    exact entriesOf_printable hprint hparse

/-! ## Other layouts are read as less -/

theorem entriesOf_append_inv (h : entriesOf (a ++ b) = some es) :
    ∃ ea eb, entriesOf a = some ea ∧ entriesOf b = some eb ∧
      weight es = weight ea + weight eb := by
  rw [entriesOf_append] at h
  obtain ⟨ea, ha, h⟩ := bind_eq_some_iff.1 h
  obtain ⟨eb, hb, rfl⟩ := map_eq_some_iff.1 h
  exact ⟨ea, eb, ha, hb, weight_append ea eb⟩

theorem weight_entriesOf_le (h : entriesOf ls = some es) :
    weight es ≤ (ls.map List.length).sum := by
  induction ls generalizing es with
  | nil =>
    cases h
    exact Nat.le_refl 0
  | cons s ls ih =>
    rw [entriesOf_cons] at h
    obtain ⟨ea, ha, h⟩ := bind_eq_some_iff.1 h
    obtain ⟨eb, hb, rfl⟩ := map_eq_some_iff.1 h
    have h₁ := weight_parseLine ha
    have h₂ := ih hb
    rw [weight_append, map_cons, sum_cons]
    omega

theorem eq_of_lines_singleton {l : List UInt8} (h : lines s = [l]) : l = s := by
  have hfrom : ∀ (racc s l : List UInt8), linesFrom racc s = [l] → l = racc.reverse ++ s := by
    intro racc s
    induction s generalizing racc with
    | nil =>
      intro l h
      obtain rfl := (cons.inj h).1
      simp
    | cons c s ih =>
      intro l h
      unfold linesFrom at h
      split at h
      · exact absurd (cons.inj h).2 (linesFrom_ne_nil [] s)
      · have := ih (c :: racc) l h
        simpa using this
  exact hfrom [] s l h

/-- A plain scalar that is read weighs what it should, or it is not clean. -/
theorem weight_plainLine (hk : Word k) (hs : Framed s)
    (h : entriesOf (lines (indent n ++ (k ++ colon :: space :: s))) = some es) :
    weight es ≤ k.length + s.length ∧
      (k.length + s.length ≤ weight es → Lacks breaks s ∧ Lacks separators s) := by
  have hpre := printable_spec (fieldLine_printable (v := []) n hk rfl)
  obtain ⟨l, ls, hl, happend⟩ := lines_append hpre s
  rw [plainLine_eq, happend, ← plainLine_eq, entriesOf_cons,
    parseLine_field hk n rfl, value_space] at h
  obtain ⟨ea, ha, h⟩ := bind_eq_some_iff.1 h
  obtain ⟨eb, hb, rfl⟩ := map_eq_some_iff.1 h
  obtain ⟨v, hv, rfl⟩ := map_eq_some_iff.1 ha
  -- The first piece follows the key; the others are lines of their own.
  have hfirst := weight_value hv
  have hothers := weight_entriesOf_le hb
  have hlength := linesFrom_length [] s
  rw [← lines, hl] at hlength
  have hones : (ls.map fun l => l.length + 1).sum = (ls.map length).sum + ls.length := by
    clear * -
    induction ls with
    | nil => rfl
    | cons x ls ih =>
      simp only [map_cons, sum_cons, length_cons, ih]
      omega
  simp only [map_cons, sum_cons, length_nil, hones] at hlength
  have hweight : weight ([⟨n, .key k, v⟩] ++ eb) = k.length + v.weight + weight eb := by
    rfl
  refine ⟨by omega, fun hle => ?_⟩
  have hnone : ls = [] := eq_nil_of_length_eq_zero (by omega)
  rw [hnone] at hl hothers
  obtain rfl := eq_of_lines_singleton hl
  refine ⟨lines_eq_iff.1 hl, ?_⟩
  rw [value_plain hs.1] at hv
  obtain ⟨t, ht, rfl⟩ := map_eq_some_iff.1 hv
  have hzero : ((([] : List (List UInt8)).map length).sum) = 0 := rfl
  have hweight' : (Value.scalar t).weight = t.length := rfl
  exact plain_length hs ht (by omega)

/-- What is read from a layout weighs no more than what is meant, and less if a
plain scalar is not clean. -/
theorem Layout.weight_entriesOf (h : l.Ok) {n : Nat}
    (hes : entriesOf ((l.lines n).flatMap Yaml.lines) = some es) :
    weight es ≤ l.block.weight ∧ (l.block.weight ≤ weight es →
      ∀ s ∈ l.plains, Lacks breaks s ∧ Lacks separators s) := by
  rw [weight_build (l.build_entries n _ le_rfl)]
  revert es
  refine Layout.of_lines (P := fun ls es ps => ∀ {es'},
    entriesOf (ls.flatMap Yaml.lines) = some es' →
      weight es' ≤ weight es ∧ (weight es ≤ weight es' →
        ∀ s ∈ ps, Lacks breaks s ∧ Lacks separators s)) ?_ ?_ ?_ ?_ h n
  · intro es' hes
    cases hes
    exact ⟨Nat.le_refl 0, fun _ s hs => by cases hs⟩
  · intro a b ea eb pa pb ha hb es' hes
    rw [flatMap_append] at hes
    obtain ⟨ea', eb', ha', hb', hweight⟩ := entriesOf_append_inv hes
    have hea := ha ha'
    have heb := hb hb'
    rw [hweight, weight_append]
    refine ⟨by omega, fun hle => ?_⟩
    exact forall_mem_append.2 ⟨hea.2 (by omega), heb.2 (by omega)⟩
  · intro n k s hk hs es' hes
    rw [flatMap_singleton] at hes
    rw [forall_mem_singleton]
    exact weight_plainLine hk hs hes
  · intro s es hprint hparse es' hes
    rw [flatMap_singleton, entriesOf_printable hprint hparse] at hes
    cases hes
    exact ⟨Nat.le_refl _, fun _ s hs => by cases hs⟩

/-! ## The text -/

/-- The characters of a layout are readable exactly if those of its plain
scalars are. -/
theorem Layout.readable_lines (h : l.Ok) (n : Nat) :
    (l.lines n).all readable = true ↔ ∀ s ∈ l.plains, readable s = true := by
  refine Layout.of_lines (P := fun ls _ ps =>
    ls.all readable = true ↔ ∀ s ∈ ps, readable s = true)
    (by simp) ?_ ?_ ?_ h n
  · intro a b ea eb pa pb ha hb
    rw [all_append, Bool.and_eq_true, ha, hb, forall_mem_append]
  · intro n k s hk hs
    have hline := readable_append (fieldLine_printable (v := []) n hk rfl) s
    rw [← plainLine_eq] at hline
    simp [hline]
  · intro s es hprint _
    simp [readable_of_printable hprint]

/-- A line that is a comment. -/
structure Comment (s : List UInt8) : Prop where
  hash : s.head? = some hash
  readable : readable s = true
  unbroken : Lacks breaks s

theorem Comment.entriesOf_lines (h : Comment s) : entriesOf (lines s) = some [] := by
  have hparse : parseLine s = some [] := by
    obtain ⟨t, rfl⟩ := head?_eq_some_iff.1 h.hash
    rfl
  rw [lines_eq_iff.2 h.unbroken, entriesOf_cons, hparse]
  rfl

/-- A layout under a comment is read as what is meant exactly if every plain
scalar is clean. -/
theorem parse_text_iff (hcomment : Comment comment) (h : l.Ok) (hblock : l.block.ok = true) :
    parse (textOf (comment :: l.lines 0)) = some l.block ↔ ∀ s ∈ l.plains, Clean s := by
  have hreadable : readable (textOf (comment :: l.lines 0)) = true ↔
      ∀ s ∈ l.plains, readable s = true := by
    rw [readable_textOf, all_cons, hcomment.readable, Bool.true_and, Layout.readable_lines h]
  -- Neither the comment nor the end of the text has entries.
  have hentries : entriesOf (lines (textOf (comment :: l.lines 0))) =
      entriesOf ((l.lines 0).flatMap lines) := by
    have hend : entriesOf [[]] = some [] := rfl
    rw [lines_textOf, flatMap_cons, append_assoc, entriesOf_append,
      hcomment.entriesOf_lines, entriesOf_append, hend]
    cases entriesOf ((l.lines 0).flatMap lines) with
    | none => rfl
    | some es => simp
  have hparse : ∀ b, parse (textOf (comment :: l.lines 0)) = some b ↔
      readable (textOf (comment :: l.lines 0)) = true ∧
      ∃ es, entriesOf ((l.lines 0).flatMap lines) = some es ∧
        build es.length es = some b ∧ b.ok = true := by
    intro b
    rw [← hentries]
    unfold parse entriesOf
    split
    · rename_i hr
      cases (lines (textOf (comment :: l.lines 0))).mapM parseLine with
      | none => simp
      | some ess => simp [hr, filter_eq_some_iff]
    · rename_i hr
      simp [hr]
  rw [hparse, hreadable]
  constructor
  · rintro ⟨hchars, es, hes, hbuild, _⟩ s hs
    have hweight := (weight_build hbuild).le
    have hclean := (Layout.weight_entriesOf h hes).2 hweight s hs
    exact ⟨hchars s hs, hclean.1, hclean.2⟩
  · intro hclean
    refine ⟨fun s hs => (hclean s hs).readable, l.entries 0, ?_, ?_, hblock⟩
    · exact Layout.entriesOf_lines h
        (fun s hs => ⟨(hclean s hs).unbroken, (hclean s hs).unseparated⟩) 0
    · exact l.build_entries 0 _ le_rfl

end Yaml
