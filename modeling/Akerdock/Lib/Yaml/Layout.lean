import Akerdock.Lib.Segments
import Akerdock.Lib.Yaml.Lines

/-!
# Writing YAML

A `Layout` is a document together with how it is written: which scalars are
between quotes, and which sequences are on one line.  Scalars that are written
plain are copied into the text, with nothing to protect them.

* `Layout.lines` writes a layout, two blanks further in for each level, and
  `Layout.block` is the document that is meant.
* `Clean` says what a plain scalar may not contain: line breaks, a colon before
  a blank, a number sign after a blank, and unreadable characters.
* `parseLine_field`, `parseLine_item` and `parseLine_entry` say how each kind of
  line is read, and `plain_of_clean` and `plain_length` that a plain scalar
  comes back as it was, or shorter.
* `Layout.build_entries`: the entries make up the document that is meant.
-/

namespace Yaml

open List (dropWhile_cons_of_neg all_cons cons_append mem_cons not_mem_nil
  mem_cons_of_mem mem_cons_self map_cons mapM_cons length_cons)
open Bool (and_eq_true)

inductive Scalar where
  | plain (s : List UInt8)
  | quoted (s : List UInt8)

def Scalar.content : Scalar → List UInt8
  | .plain s => s
  | .quoted s => s

def between (s : List UInt8) : List UInt8 :=
  quote :: s ++ [quote]

def Scalar.text : Scalar → List UInt8
  | .plain s => s
  | .quoted s => between s

/-- The entries of a level, and how they are written. -/
inductive Layout where
  | nil
  /-- `k: v` -/
  | field (k : List UInt8) (v : Scalar) (rest : Layout)
  /-- `k: [v, v]` -/
  | flow (k : List UInt8) (items : List Scalar) (rest : Layout)
  /-- `k:` and further in the entries below it. -/
  | under (k : List UInt8) (child rest : Layout)
  /-- `- "s"` -/
  | item (s : List UInt8) (rest : Layout)
  /-- `- k: "s"` and further in the other fields. -/
  | entry (k s : List UInt8) (more rest : Layout)

def indent (n : Nat) : List UInt8 :=
  List.replicate n space

def flowText (items : List Scalar) : List UInt8 :=
  opening :: [comma, space].intercalate (items.map Scalar.text) ++ [closing]

namespace Layout

def lines : Nat → Layout → List (List UInt8)
  | _, .nil => []
  | n, .field k v rest =>
    (indent n ++ (k ++ colon :: space :: v.text)) :: rest.lines n
  | n, .flow k items rest =>
    (indent n ++ (k ++ colon :: space :: flowText items)) :: rest.lines n
  | n, .under k child rest =>
    (indent n ++ (k ++ [colon])) :: (child.lines (n + 2) ++ rest.lines n)
  | n, .item s rest =>
    (indent n ++ (dash :: space :: between s)) :: rest.lines n
  | n, .entry k s more rest =>
    (indent n ++ (dash :: space :: (k ++ colon :: space :: between s))) ::
      (more.lines (n + 2) ++ rest.lines n)

def entries : Nat → Layout → List Entry
  | _, .nil => []
  | n, .field k v rest =>
    ⟨n, .key k, .scalar v.content⟩ :: rest.entries n
  | n, .flow k items rest =>
    ⟨n, .key k, .flow (items.map Scalar.content)⟩ :: rest.entries n
  | n, .under k child rest =>
    ⟨n, .key k, .empty⟩ :: (child.entries (n + 2) ++ rest.entries n)
  | n, .item s rest => ⟨n, .item, .scalar s⟩ :: rest.entries n
  | n, .entry k s more rest =>
    ⟨n, .item, .empty⟩ :: ⟨n + 2, .key k, .scalar s⟩ :: (more.entries (n + 2) ++ rest.entries n)

def block : Layout → Block
  | .nil => .nil
  | .field k v rest => .leaf (.key k) v.content rest.block
  | .flow k items rest =>
    .node (.key k) (.ofItems (items.map Scalar.content)) rest.block
  | .under k child rest => .node (.key k) child.block rest.block
  | .item s rest => .leaf .item s rest.block
  | .entry k s more rest =>
    .node .item (.leaf (.key k) s more.block) rest.block

/-- The scalars of fields that are written plain. -/
def plains : Layout → List (List UInt8)
  | .nil => []
  | .field _ (.plain s) rest => s :: rest.plains
  | .field _ (.quoted _) rest => rest.plains
  | .flow _ _ rest => rest.plains
  | .under _ child rest => child.plains ++ rest.plains
  | .item _ rest => rest.plains
  | .entry _ _ more rest => more.plains ++ rest.plains

end Layout

/-! ## What can be written -/

/-- A character of a key, or of a plain entry of a flow sequence. -/
def isWordByte (c : UInt8) : Bool :=
  isPrintable c && !isBlank c &&
    !(([colon, comma, opening, closing, 123, 125, hash] : List UInt8).contains c)

def Word (k : List UInt8) : Prop :=
  k.head?.any isPlainStart = true ∧ k.all isWordByte = true

instance (k : List UInt8) : Decidable (Word k) :=
  inferInstanceAs (Decidable (_ ∧ _))

/-- A character that needs no escape between quotes. -/
def isQuotable (c : UInt8) : Bool :=
  isPrintable c && c ≠ quote && c ≠ backslash

def Quotable (s : List UInt8) : Prop :=
  s.all isQuotable = true

instance (s : List UInt8) : Decidable (Quotable s) :=
  inferInstanceAs (Decidable (_ = true))

def FlowOk : Scalar → Prop
  | .plain s => Word s
  | .quoted s => s.all (fun c => isQuotable c && isWordByte c) = true

/-- A plain scalar that starts and ends where it is meant to. -/
def Framed (s : List UInt8) : Prop :=
  s.head?.any isPlainStart = true ∧ ∀ c ∈ s.getLast?, isBlank c = false ∧ c ≠ colon

/-- Everything but the inside of plain scalars can be written. -/
def Layout.Ok : Layout → Prop
  | .nil => True
  | .field k (.plain s) rest => Word k ∧ Framed s ∧ rest.Ok
  | .field k (.quoted s) rest => Word k ∧ Quotable s ∧ rest.Ok
  | .flow k items rest =>
    Word k ∧ items ≠ [] ∧ (∀ v ∈ items, FlowOk v) ∧ rest.Ok
  | .under k child rest => Word k ∧ child.Ok ∧ rest.Ok
  | .item s rest => Quotable s ∧ rest.Ok
  | .entry k s more rest => Word k ∧ Quotable s ∧ more.Ok ∧ rest.Ok

/-- What ends a plain scalar on its line. -/
def separators : List (List UInt8) :=
  [[colon, space], [colon, tab], [space, hash], [tab, hash]]

/-- A plain scalar that is read as it is written. -/
structure Clean (s : List UInt8) : Prop where
  readable : readable s = true
  unbroken : Lacks breaks s
  unseparated : Lacks separators s

variable {s : List UInt8} {n : Nat}

theorem clean_iff : Clean s ↔ readable s = true ∧ Lacks breaks s ∧ Lacks separators s :=
  ⟨fun h => ⟨h.1, h.2, h.3⟩, fun h => ⟨h.1, h.2.1, h.2.2⟩⟩

instance (s : List UInt8) : Decidable (Clean s) :=
  decidable_of_iff _ clean_iff.symm

/-! ## Plain scalars -/

theorem lacks_cons : Lacks words (c :: s) ↔ (∀ w ∈ words, ¬w <+: c :: s) ∧ Lacks words s := by
  simp only [Lacks, List.infix_cons_iff, not_or, ← forall_and]

/-- Where a separator starts. -/
theorem separators_prefix :
    (∀ w ∈ separators, ¬w <+: c :: d :: s) ↔
      ¬(c = colon ∧ isBlank d = true) ∧ ¬(isBlank c = true ∧ d = hash) := by
  simp only [separators, List.forall_mem_cons, List.cons_prefix_cons,
    List.nil_prefix, and_true, isBlank, Bool.or_eq_true, decide_eq_true_eq,
    eq_comm (b := c), eq_comm (b := d)]
  constructor
  · intro ⟨h₁, h₂, h₃, h₄, _⟩
    refine ⟨fun h => ?_, fun h => ?_⟩
    · exact h.2.elim (fun hd => h₁ ⟨h.1, hd⟩) fun hd => h₂ ⟨h.1, hd⟩
    · exact h.1.elim (fun hc => h₃ ⟨hc, h.2⟩) fun hc => h₄ ⟨hc, h.2⟩
  · intro ⟨h₁, h₂⟩
    exact ⟨fun h => h₁ ⟨h.1, .inl h.2⟩, fun h => h₁ ⟨h.1, .inr h.2⟩,
      fun h => h₂ ⟨.inl h.1, h.2⟩, fun h => h₂ ⟨.inr h.1, h.2⟩, by simp⟩

theorem plainBody_eq_iff : plainBody s = some s ↔ Lacks separators s ∧ s.getLast? ≠ some colon := by
  induction s with
  | nil => simp [plainBody, Lacks, separators]
  | cons c s ih =>
    cases s with
    | nil =>
      by_cases hc : c = colon
      · simp [plainBody, atBlank, hc]
      · have hlacks : Lacks separators [c] := by simp [Lacks, separators, List.infix_cons_iff]
        simp [plainBody, atBlank, hc, hlacks]
    | cons d s =>
      rw [lacks_cons, separators_prefix, List.getLast?_cons_cons]
      unfold plainBody
      by_cases hcolon : c = colon ∧ isBlank d = true
      · simp [atBlank, hcolon]
      · by_cases hhash : isBlank c = true ∧ d = hash
        · simp [atBlank, hhash]
        · simp only [atBlank, and_eq_true, decide_eq_true_eq, hcolon,
            List.head?_cons, Option.some.injEq, hhash, if_false, not_false_iff,
            true_and]
          rw [← ih]
          simp

theorem trimEnd_eq_self (h : ∀ c ∈ s.getLast?, isBlank c = false) : trimEnd s = s := by
  unfold trimEnd
  rw [List.rdropWhile_eq_self_iff]
  intro hne
  rw [h _ (List.getLast?_eq_some_getLast hne)]
  decide

theorem plain_of_framed (h : Framed s) : plain s = (plainBody s).map trimEnd := by
  unfold plain
  rw [if_pos h.1]

/-- A framed scalar comes back whole, or shorter. -/
theorem plain_length (h : Framed s) (hv : plain s = some v)
    (hlen : s.length ≤ v.length) : Lacks separators s := by
  rw [plain_of_framed h] at hv
  obtain ⟨t, ht, rfl⟩ := Option.map_eq_some_iff.1 hv
  have hpre := plainBody_isPrefix ht
  have htrim : (trimEnd t).length ≤ t.length :=
    (List.rdropWhile_prefix isBlank t).length_le
  have heq : t = s := hpre.eq_of_length_le (by omega)
  rw [heq] at ht
  exact (plainBody_eq_iff.1 ht).1

theorem plain_of_clean (h : Framed s) (hs : Lacks separators s) : plain s = some s := by
  have hcolon : s.getLast? ≠ some colon := fun hlast =>
    (h.2 colon hlast).2 rfl
  rw [plain_of_framed h, plainBody_eq_iff.2 ⟨hs, hcolon⟩]
  exact congrArg some (trimEnd_eq_self fun c hc => (h.2 c hc).1)

/-! ## Values -/

theorem isPlainStart_spec (h : isPlainStart c = true) :
    isBlank c = false ∧ c ≠ hash ∧ c ≠ quote ∧ c ≠ opening ∧ c ≠ dash ∧ c ≠ space := by
  unfold isPlainStart at h
  refine ⟨by simp_all, ?_, ?_, ?_, ?_, ?_⟩ <;> (rintro rfl; revert h; decide)

theorem value_space (s : List UInt8) : value (space :: s) = value s := by
  unfold value
  rw [List.dropWhile_cons_of_pos (by decide)]

theorem value_plain (h : s.head?.any isPlainStart = true) : value s = (plain s).map .scalar := by
  cases s with
  | nil => cases h
  | cons c s =>
    obtain ⟨hblank, hhash, hquote, hopening, _⟩ :=
      isPlainStart_spec (by simpa using h)
    unfold value
    rw [dropWhile_cons_of_neg (by simp [hblank])]
    simp [hhash, hquote, hopening]

theorem quoted_between (h : Quotable s) : quoted (s ++ [quote]) = some s := by
  have hbody : quotedBody (s ++ [quote]) = some (s, []) := by
    induction s with
    | nil => rfl
    | cons c s ih =>
      simp only [Quotable, all_cons, and_eq_true] at h
      have hc : c ≠ quote ∧ c ≠ backslash := by
        have hc := h.1
        simp only [isQuotable, and_eq_true, decide_eq_true_eq] at hc
        exact ⟨hc.1.2, hc.2⟩
      rw [cons_append, quotedBody, if_neg hc.1, if_neg hc.2, ih h.2]
      rfl
  unfold quoted
  rw [hbody]
  rfl

theorem value_between (h : Quotable s) : value (between s) = some (.scalar s) := by
  unfold value between
  show ((quoted (s ++ [quote])).map Value.scalar) = _
  rw [quoted_between h]
  rfl

theorem isWordByte_spec (h : isWordByte c = true) :
    isBlank c = false ∧ c ≠ colon ∧ c ≠ comma ∧ c ≠ opening ∧ c ≠ closing ∧
      c ≠ 123 ∧ c ≠ 125 ∧ c ≠ hash := by
  simp only [isWordByte, and_eq_true, Bool.not_eq_true',
    List.contains_eq_mem, decide_eq_false_iff_not, mem_cons, not_or,
    not_mem_nil, not_false_iff, and_true] at h
  exact ⟨h.1.2, h.2⟩

theorem Word.framed (h : Word s) : Framed s := by
  refine ⟨h.1, ?_⟩
  intro c hc
  have hc := isWordByte_spec (List.all_eq_true.1 h.2 c (List.mem_of_getLast? hc))
  exact ⟨hc.1, hc.2.1⟩

theorem lacks_separators_of_word (h : s.all isWordByte = true) : Lacks separators s := by
  have hblank : ∀ c : UInt8, isBlank c = true → c ∉ s := by
    intro c hc hcs
    cases ((isWordByte_spec (List.all_eq_true.1 h c hcs)).1).symm.trans hc
  have hspace := hblank space (by decide)
  have htab := hblank tab (by decide)
  intro w hw hfound
  simp only [separators, mem_cons, not_mem_nil, or_false] at hw
  rcases hw with rfl | rfl | rfl | rfl
  · exact hspace (hfound.subset (by simp))
  · exact htab (hfound.subset (by simp))
  · exact hspace (hfound.subset (by simp))
  · exact htab (hfound.subset (by simp))

theorem Word.plain (h : Word s) : plain s = some s :=
  plain_of_clean h.framed (lacks_separators_of_word h.2)

theorem printable_of_word (h : s.all isWordByte = true) : s.all isPrintable = true := by
  apply List.all_eq_true.2
  intro c hc
  have hc := List.all_eq_true.1 h c hc
  simp only [isWordByte, and_eq_true] at hc
  exact hc.1.1

theorem clean_of_word (h : s.all isWordByte = true) : Clean s :=
  ⟨readable_of_printable (printable_of_word h),
    lacks_breaks_of_printable (printable_of_word h),
    lacks_separators_of_word h⟩

/-- A scalar is clean if what is before a character and what is after it are,
for a character that is no part of what is forbidden. -/
theorem clean_append_cons (hprint : isPrintable c = true)
    (hsep : ∀ w ∈ separators, c ∉ w) (a b : List UInt8) :
    Clean (a ++ c :: b) ↔ Clean a ∧ Clean b := by
  have hbreaks : ∀ w ∈ breaks, c ∉ w := by
    have hwords : ∀ w ∈ breaks, ∀ d ∈ w, isPrintable d = false := by
      decide +kernel
    intro w hw hc
    cases (hwords w hw c hc).symm.trans hprint
  have hread : readable (a ++ c :: b) = (readable a && readable b) := by
    rw [readable_append_cons (lt_of_isPrintable hprint), readable_cons hprint]
  have hb := lacks_append_cons hbreaks a b
  have hs := lacks_append_cons hsep a b
  constructor
  · intro h
    have hr := h.readable
    rw [hread, and_eq_true] at hr
    exact ⟨⟨hr.1, (hb.1 h.unbroken).1, (hs.1 h.unseparated).1⟩,
      ⟨hr.2, (hb.1 h.unbroken).2, (hs.1 h.unseparated).2⟩⟩
  · intro h
    refine ⟨?_, hb.2 ⟨h.1.unbroken, h.2.unbroken⟩, hs.2 ⟨h.1.unseparated, h.2.unseparated⟩⟩
    rw [hread, h.1.readable, h.2.readable]
    rfl

/-- An entry of a flow sequence has no character of the sequence. -/
theorem FlowOk.text_spec {v : Scalar} (h : FlowOk v) :
    ∀ c ∈ v.text, c ≠ comma ∧ c ≠ opening ∧ c ≠ closing ∧ c ≠ 123 ∧ c ≠ 125 := by
  intro c hc
  have hword : ∀ c : UInt8, isWordByte c = true →
      c ≠ comma ∧ c ≠ opening ∧ c ≠ closing ∧ c ≠ 123 ∧ c ≠ 125 := by
    intro c hc
    have := isWordByte_spec hc
    exact ⟨this.2.2.1, this.2.2.2.1, this.2.2.2.2.1, this.2.2.2.2.2.1, this.2.2.2.2.2.2.1⟩
  cases v with
  | plain s => exact hword c (List.all_eq_true.1 h.2 c hc)
  | quoted s =>
    simp only [Scalar.text, between, cons_append, mem_cons,
      List.mem_append, not_mem_nil, or_false] at hc
    rcases hc with rfl | hc | rfl
    · decide
    · have := List.all_eq_true.1 h c hc
      rw [and_eq_true] at this
      exact hword c this.2
    · decide

theorem quotable_of_both (h : s.all (fun c => isQuotable c && isWordByte c) = true) :
    Quotable s := by
  apply List.all_eq_true.2
  intro c hc
  exact (Bool.and_eq_true_iff.1 (List.all_eq_true.1 h c hc)).1

theorem flowItem_cons (h : isBlank c = false) (s : List UInt8) :
    flowItem (c :: s) =
      if c = quote then quoted s
      else if s.contains hash then none
      else plain (c :: s) := by
  unfold flowItem
  rw [dropWhile_cons_of_neg (by simp [h])]

theorem FlowOk.flowItem {v : Scalar} (h : FlowOk v) : flowItem v.text = some v.content := by
  cases v with
  | plain s =>
    cases s with
    | nil => cases h.1
    | cons c s =>
      obtain ⟨hblank, _, hquote, _⟩ := isPlainStart_spec (by simpa using h.1)
      have hhash : hash ∉ s := by
        intro hs
        have := List.all_eq_true.1 h.2 hash (mem_cons_of_mem c hs)
        revert this
        decide
      show Yaml.flowItem (c :: s) = some (c :: s)
      rw [flowItem_cons hblank, if_neg hquote, if_neg (by simpa using hhash)]
      exact Word.plain h
  | quoted s =>
    exact quoted_between (quotable_of_both h)

theorem flowItem_space (s : List UInt8) : flowItem (space :: s) = flowItem s := by
  unfold flowItem
  rw [List.dropWhile_cons_of_pos (by decide)]

theorem flowBody_append (h : ∀ c ∈ s, c ≠ opening ∧ c ≠ closing ∧ c ≠ 123 ∧ c ≠ 125) :
    flowBody (s ++ [closing]) = some (s, []) := by
  induction s with
  | nil => rfl
  | cons c s ih =>
    have hc := h c mem_cons_self
    rw [cons_append, flowBody, if_neg hc.2.1,
      if_neg (by simp [hc.1, hc.2.2.1, hc.2.2.2]),
      ih fun d hd => h d (mem_cons_of_mem c hd)]
    rfl

/-- Entries with a blank after each comma. -/
theorem intercalate_comma_space (v : List UInt8) (l : List (List UInt8)) :
    [comma, space].intercalate (v :: l) = [comma].intercalate (v :: l.map (space :: ·)) := by
  induction l generalizing v with
  | nil => simp
  | cons w l ih =>
    rw [List.intercalate_cons_cons, ih, map_cons, List.intercalate_cons_cons]
    cases l with
    | nil => simp
    | cons x l => simp [List.intercalate_cons_cons]

theorem mapM_flowItem {items : List Scalar} (h : ∀ v ∈ items, FlowOk v) :
    (items.map Scalar.text).mapM flowItem = some (items.map Scalar.content) := by
  induction items with
  | nil => rfl
  | cons v items ih =>
    rw [map_cons, mapM_cons,
      (h v mem_cons_self).flowItem,
      ih fun w hw => h w (mem_cons_of_mem v hw)]
    rfl

theorem mapM_flowItem_space (l : List (List UInt8)) :
    (l.map (space :: ·)).mapM flowItem = l.mapM flowItem := by
  induction l with
  | nil => rfl
  | cons s l ih => rw [map_cons, mapM_cons, mapM_cons, ih, flowItem_space]

theorem flow_flowText (hne : items ≠ []) (h : ∀ v ∈ items, FlowOk v) :
    flow ([comma, space].intercalate (items.map Scalar.text) ++ [closing]) =
      some (items.map Scalar.content) := by
  have hbody : ∀ c ∈ [comma, space].intercalate (items.map Scalar.text),
      c ≠ opening ∧ c ≠ closing ∧ c ≠ 123 ∧ c ≠ 125 := by
    intro c hc
    rcases Segments.mem_intercalate hc with hc | ⟨t, ht, hc⟩
    · simp only [mem_cons, not_mem_nil, or_false] at hc
      rcases hc with rfl | rfl <;> decide
    · obtain ⟨v, hv, rfl⟩ := List.mem_map.1 ht
      exact ((h v hv).text_spec c hc).2
  unfold flow
  rw [flowBody_append hbody]
  show ((List.splitOn comma _).mapM flowItem) = _
  cases items with
  | nil => exact absurd rfl hne
  | cons v items =>
    have hv := h v mem_cons_self
    have hitems : ∀ w ∈ items, FlowOk w :=
      fun w hw => h w (mem_cons_of_mem v hw)
    have hcomma : ∀ t ∈ v.text :: (items.map Scalar.text).map (space :: ·), comma ∉ t := by
      intro t ht
      rcases mem_cons.1 ht with rfl | ht
      · exact fun hc => (hv.text_spec comma hc).1 rfl
      · obtain ⟨u, hu, rfl⟩ := List.mem_map.1 ht
        obtain ⟨w, hw, rfl⟩ := List.mem_map.1 hu
        intro hc
        rcases mem_cons.1 hc with hc | hc
        · exact absurd hc (by decide)
        · exact ((hitems w hw).text_spec comma hc).1 rfl
    rw [map_cons, intercalate_comma_space,
      List.splitOn_intercalate comma hcomma (by simp), mapM_cons,
      hv.flowItem, mapM_flowItem_space, mapM_flowItem hitems]
    rfl

theorem value_flowText (hne : items ≠ []) (h : ∀ v ∈ items, FlowOk v) :
    value (flowText items) = some (.flow (items.map Scalar.content)) := by
  unfold value flowText
  rw [cons_append, dropWhile_cons_of_neg (by decide)]
  show ((flow _).map Value.flow) = _
  rw [flow_flowText hne h]
  rfl

/-! ## Lines -/

theorem dropWhile_indent (n : Nat) (h : s.head? ≠ some space) :
    (indent n ++ s).dropWhile (· = space) = s := by
  have hs : s.dropWhile (· = space) = s := by
    cases s with
    | nil => rfl
    | cons c s =>
      simpa using h
  rw [List.dropWhile_append_of_pos, hs]
  intro c hc
  simpa using (List.mem_replicate.1 hc).2

theorem splitKey_append (h : k.all isWordByte = true) (hv : atBlank v = true) :
    splitKey (k ++ colon :: v) = some (k, v) := by
  induction k with
  | nil => simp [splitKey, hv]
  | cons c k ih =>
    rw [all_cons, and_eq_true] at h
    have hc := isWordByte_spec h.1
    rw [cons_append, splitKey, if_neg (by simp [hc.2.1]), if_neg (by simp [hc.1]), ih h.2]
    rfl

theorem field_append (h : Word k) (n : Nat) (hv : atBlank v = true) :
    field n (k ++ colon :: v) = (value v).map fun v => ⟨n, .key k, v⟩ := by
  unfold field
  rw [splitKey_append h.2 hv]
  exact if_pos h.1

theorem Word.head_spec (h : Word k) :
    ∃ c s, k = c :: s ∧ c ≠ hash ∧ c ≠ quote ∧ c ≠ dash ∧ c ≠ space := by
  cases k with
  | nil => cases h.1
  | cons c k =>
    obtain ⟨_, hhash, hquote, _, hdash, hspace⟩ :=
      isPlainStart_spec (by simpa using h.1)
    exact ⟨c, k, rfl, hhash, hquote, hdash, hspace⟩

theorem parseLine_field (h : Word k) (n : Nat) (hv : atBlank v = true) :
    parseLine (indent n ++ (k ++ colon :: v)) = (value v).map fun v => [⟨n, .key k, v⟩] := by
  have hfield := field_append h n hv
  obtain ⟨c, t, rfl, hhash, _, hdash, hspace⟩ := h.head_spec
  have hdrop := dropWhile_indent n (s := (c :: t) ++ colon :: v) (by simpa using hspace)
  have hlen : (indent n ++ ((c :: t) ++ colon :: v)).length -
      ((c :: t) ++ colon :: v).length = n := by
    simp [indent]
  unfold parseLine
  simp only [hdrop, hlen]
  rw [hfield]
  simp [hhash, hdash]
  rfl

theorem parseLine_dash (h : s.head? ≠ some space) :
    parseLine (indent n ++ dash :: space :: s) = dashed n (n + 2) s := by
  have hdrop := dropWhile_indent n (s := dash :: space :: s) (by rw [List.head?_cons]; decide)
  have hinner : (space :: s).dropWhile (· = space) = s := by
    have := dropWhile_indent 1 h
    simpa [indent] using this
  have hlen : (indent n ++ dash :: space :: s).length - (dash :: space :: s).length = n := by
    simp [indent]
  have hlen' : (indent n ++ dash :: space :: s).length - s.length = n + 2 := by
    simp [indent]
    omega
  unfold parseLine
  simp only [hdrop, hlen, hinner, hlen']
  rfl

theorem parseLine_item (h : Quotable s) :
    parseLine (indent n ++ dash :: space :: between s) = some [⟨n, .item, .scalar s⟩] := by
  rw [parseLine_dash (by unfold between; simp; decide)]
  unfold dashed
  rw [if_pos (.inl rfl), value_between h]

theorem parseLine_entry (hk : Word k) (hs : Quotable s) :
    parseLine (indent n ++ dash :: space :: (k ++ colon :: space :: between s)) =
      some [⟨n, .item, .empty⟩, ⟨n + 2, .key k, .scalar s⟩] := by
  have hfield := field_append hk (n + 2) (v := space :: between s) rfl
  have hsplit := splitKey_append hk.2 (v := space :: between s) rfl
  obtain ⟨c, t, rfl, _, hquote, _, hspace⟩ := hk.head_spec
  rw [parseLine_dash (by simpa using hspace)]
  unfold dashed
  rw [if_neg (by rw [hsplit]; simpa using hquote), hfield, value_space, value_between hs]
  rfl

def entriesOf (ls : List (List UInt8)) : Option (List Entry) :=
  (ls.mapM parseLine).map List.flatten

theorem entriesOf_cons (s : List UInt8) (ls : List (List UInt8)) :
    entriesOf (s :: ls) = (parseLine s).bind fun es =>
      (entriesOf ls).map (es ++ ·) := by
  unfold entriesOf
  rw [mapM_cons]
  cases parseLine s with
  | none => rfl
  | some es =>
    cases hls : ls.mapM parseLine with
    | none | some ess => simp

theorem entriesOf_append (a b : List (List UInt8)) :
    entriesOf (a ++ b) = (entriesOf a).bind fun es =>
      (entriesOf b).map (es ++ ·) := by
  induction a with
  | nil =>
    rw [List.nil_append]
    cases hb : entriesOf b with
    | none | some es => rfl
  | cons s a ih =>
    rw [cons_append, entriesOf_cons, entriesOf_cons, ih]
    cases parseLine s with
    | none => rfl
    | some es =>
      cases entriesOf a with
      | none => rfl
      | some ea =>
        cases entriesOf b with
        | none => rfl
        | some eb => simp

/-! ## Trees -/

theorem build_nil (fuel : Nat) : build fuel [] = some .nil := by
  unfold build
  rfl

/-- Entries that are all further in than `n`. -/
def Deeper (n : Nat) (es : List Entry) : Prop :=
  ∀ e ∈ es, n < e.indent

/-- The next entry, if there is one, is on the level `n`. -/
def Level (n : Nat) (es : List Entry) : Prop :=
  ∀ e ∈ es.head?, e.indent = n

theorem split_deeper (hinner : Deeper n ins) (hafter : Level n after) :
    (ins ++ after).takeWhile (fun x => n < x.indent) = ins ∧
      (ins ++ after).dropWhile (fun x => n < x.indent) = after := by
  have hpos : ∀ e ∈ ins, decide (n < e.indent) = true := by
    intro e he
    simpa using hinner e he
  have hstop : after.takeWhile (fun x => n < x.indent) = [] ∧
      after.dropWhile (fun x => n < x.indent) = after := by
    cases after with
    | nil => exact ⟨rfl, rfl⟩
    | cons e after =>
      have he : ¬n < e.indent := by
        have := hafter e rfl
        omega
      simp [he]
  rw [List.takeWhile_append_of_pos hpos, List.dropWhile_append_of_pos hpos,
    hstop.1, hstop.2, List.append_nil]
  exact ⟨rfl, rfl⟩

/-- One entry with what is below it. -/
theorem build_cons {v : Value} {inner after : List Entry} {child b t : Block}
    (hinner : Deeper n inner) (hafter : Level n after)
    (hchild : build fuel inner = some child) (hb : build fuel after = some b)
    (ht : Block.attach head v child b = some t) :
    build (fuel + 1) (⟨n, head, v⟩ :: (inner ++ after)) = some t := by
  have hsplit := split_deeper hinner hafter
  have hlevel : after.head?.all (fun x => x.indent = n) = true := by
    cases after with
    | nil => rfl
    | cons e after => simpa using hafter e rfl
  rw [build]
  simp only [hsplit.1, hsplit.2, hlevel, if_true, hchild, hb, Option.bind_some, ht]

theorem Layout.deeper_entries {l : Layout} : ∀ e ∈ l.entries n, n ≤ e.indent := by
  induction l generalizing n with
  | nil => simp [Layout.entries]
  | field k v rest ih | flow k items rest ih | item s rest ih =>
    simpa [Layout.entries] using ih
  | under k child rest ihc ih =>
    have hchild : ∀ e ∈ child.entries (n + 2), n ≤ e.indent :=
      fun e he => Nat.le_of_add_right_le (ihc e he)
    exact List.forall_mem_cons.2 ⟨Nat.le_refl _, List.forall_mem_append.2 ⟨hchild, ih⟩⟩
  | entry k s more rest ihm ih =>
    have hmore : ∀ e ∈ more.entries (n + 2), n ≤ e.indent :=
      fun e he => Nat.le_of_add_right_le (ihm e he)
    exact List.forall_mem_cons.2 ⟨Nat.le_refl _, List.forall_mem_cons.2
      ⟨Nat.le_add_right _ _, List.forall_mem_append.2 ⟨hmore, ih⟩⟩⟩

theorem Layout.level_entries (l : Layout) (n : Nat) : Level n (l.entries n) := by
  intro e he
  cases l with
  | nil => cases he
  | _ =>
    cases he
    rfl

theorem Layout.deeper_child (l : Layout) (n : Nat) : Deeper n (l.entries (n + 2)) := by
  intro e he
  have := Layout.deeper_entries e he
  omega

theorem deeper_nil (n : Nat) : Deeper n [] := by
  intro e he
  cases he

/-- The entries of a layout make up the document that is meant. -/
theorem Layout.build_entries (l : Layout) :
    ∀ (n fuel : Nat), (l.entries n).length ≤ fuel →
      build fuel (l.entries n) = some l.block := by
  induction l with
  | nil => exact fun _ fuel _ => build_nil fuel
  | field k v rest ih | flow k items rest ih | item s rest ih =>
    intro n fuel h
    simp only [Layout.entries, length_cons] at h
    obtain ⟨m, rfl⟩ := Nat.exists_eq_add_of_le' (Nat.le_of_add_left_le h)
    exact build_cons (deeper_nil n) (rest.level_entries n) (build_nil m) (ih n m (by omega)) rfl
  | under k child rest ihc ih =>
    intro n fuel h
    simp only [Layout.entries, length_cons, List.length_append] at h
    obtain ⟨m, rfl⟩ := Nat.exists_eq_add_of_le' (Nat.le_of_add_left_le h)
    exact build_cons (child.deeper_child n) (rest.level_entries n)
      (ihc (n + 2) m (by omega)) (ih n m (by omega)) rfl
  | entry k s more rest ihm ih =>
    intro n fuel h
    simp only [Layout.entries, length_cons, List.length_append] at h
    obtain ⟨m, rfl⟩ := Nat.exists_eq_add_of_le' (Nat.le_of_add_left_le h)
    -- Below the item there is a mapping, with the field `k` first.
    have hinner : build m (⟨n + 2, .key k, .scalar s⟩ ::
        more.entries (n + 2)) = some (.leaf (.key k) s more.block) := by
      obtain ⟨m', rfl⟩ : ∃ m', m = m' + 1 := ⟨m - 1, by omega⟩
      exact build_cons (deeper_nil (n + 2)) (more.level_entries (n + 2))
        (build_nil m') (ihm (n + 2) m' (by omega)) rfl
    have hdeeper : Deeper n (⟨n + 2, .key k, .scalar s⟩ :: more.entries (n + 2)) := by
      refine List.forall_mem_cons.2 ⟨?_, more.deeper_child n⟩
      show n < n + 2
      omega
    exact build_cons hdeeper (rest.level_entries n) hinner (ih n m (by omega)) rfl

end Yaml
