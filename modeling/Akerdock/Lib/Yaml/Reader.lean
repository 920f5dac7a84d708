import Mathlib

/-!
# Reading YAML

A fragment of YAML: block mappings and block sequences whose scalars each stay
on one line, plain or between double quotes, and flow sequences of such scalars.
A scalar that goes on in the next line is not in the fragment, nor are escapes,
block scalars, anchors, tags and directives; `parse` refuses them all.

* `readable` is the check of the characters, on the bytes of UTF-8, and `lines`
  cuts a text at the five line breaks.
* `parseLine` reads the entries of one line, `build` makes a tree of the entries
  by their indentation, and `parse` is all of it.
* A document is a `Block`: the entries of a mapping or a sequence, each with a
  scalar or a block below it.
* The weight of an entry or a block is the number of bytes in its keys and
  scalars.  `weight_build` says that a tree weighs what its entries weigh, and
  `weight_parseLine` that these weigh no more than the line is long.
-/

namespace Yaml

open Option
open List (length map_cons sum_cons length_cons)

/-! ## Characters -/

def space : UInt8 := 32
def tab : UInt8 := 9
def hash : UInt8 := 35
def colon : UInt8 := 58
def dash : UInt8 := 45
def comma : UInt8 := 44
def quote : UInt8 := 34
def backslash : UInt8 := 92
def opening : UInt8 := 91
def closing : UInt8 := 93

/-- What the bytes so far leave open: nothing, a number of further bytes of the
same character, or that number with a condition on the next byte. -/
inductive Utf8 where
  | start
  | more1
  | more2
  | more3
  | c2
  | e0
  | ed
  | ef
  | efbb
  | efbf
  | f0
  | f4
  | bad
  deriving DecidableEq

/-- The state `s` after a byte between `lo` and `hi`. -/
def within (lo hi c : UInt8) (s : Utf8) : Utf8 :=
  if lo ≤ c ∧ c ≤ hi then s else .bad

/-- One byte more.  Control characters, surrogates, the byte order mark and what
is no character of Unicode are refused. -/
def Utf8.next : Utf8 → UInt8 → Utf8
  | .start, c =>
    if c < 0x80 then
      if c = 9 ∨ c = 10 ∨ c = 13 ∨ (32 ≤ c ∧ c ≤ 126) then .start else .bad
    else if c = 0xC2 then .c2
    else if c = 0xE0 then .e0
    else if c = 0xED then .ed
    else if c = 0xEF then .ef
    else if c = 0xF0 then .f0
    else if c = 0xF4 then .f4
    else if 0xC3 ≤ c ∧ c ≤ 0xDF then .more1
    else if 0xE1 ≤ c ∧ c ≤ 0xEE then .more2
    else if 0xF1 ≤ c ∧ c ≤ 0xF3 then .more3
    else .bad
  | .more1, c => within 0x80 0xBF c .start
  | .more2, c => within 0x80 0xBF c .more1
  | .more3, c => within 0x80 0xBF c .more2
  | .c2, c => if c = 0x85 then .start else within 0xA0 0xBF c .start
  | .e0, c => within 0xA0 0xBF c .more1
  | .ed, c => within 0x80 0x9F c .more1
  | .ef, c =>
    if c = 0xBB then .efbb else if c = 0xBF then .efbf
    else within 0x80 0xBF c .more1
  | .efbb, c => if c = 0xBF then .bad else within 0x80 0xBF c .start
  | .efbf, c => within 0x80 0xBD c .start
  | .f0, c => within 0x90 0xBF c .more2
  | .f4, c => within 0x80 0x8F c .more2
  | .bad, _ => .bad

/-- The bytes are UTF-8, and the characters are ones that may be in a text. -/
def readable (s : List UInt8) : Bool :=
  s.foldl Utf8.next .start = .start

/-! ## Lines -/

/-- The line that ends if `c` is the last byte of a line break: line feed,
carriage return, next line, line separator or paragraph separator.  The bytes of
the line before `c` are in reverse. -/
def breakEnd (racc : List UInt8) (c : UInt8) : Option (List UInt8) :=
  if c = 10 ∨ c = 13 then some racc
  else if c = 0x85 ∧ racc.take 1 = [0xC2] then some (racc.drop 1)
  else if (c = 0xA8 ∨ c = 0xA9) ∧ racc.take 2 = [0x80, 0xE2] then
    some (racc.drop 2)
  else none

/-- The lines, where the bytes `racc` of the first one have been read. -/
def linesFrom (racc : List UInt8) : List UInt8 → List (List UInt8)
  | [] => [racc.reverse]
  | c :: s =>
    match breakEnd racc c with
    | some line => line.reverse :: linesFrom [] s
    | none => linesFrom (c :: racc) s

def lines (s : List UInt8) : List (List UInt8) :=
  linesFrom [] s

/-! ## Scalars -/

def isBlank (c : UInt8) : Bool :=
  c = space || c = tab

/-- The end of the line, or a blank. -/
def atBlank : List UInt8 → Bool
  | [] => true
  | c :: _ => isBlank c

/-- A plain scalar does not start with an indicator. -/
def isPlainStart (c : UInt8) : Bool :=
  !isBlank c && !(([45, 63, 58, 44, 91, 93, 123, 125, 35, 38, 42, 33, 124, 62,
    39, 34, 37, 64, 96] : List UInt8).contains c)

/-- The text before a comment.  A colon before a blank would start a mapping
inside the scalar, which is not allowed. -/
def plainBody : List UInt8 → Option (List UInt8)
  | [] => some []
  | c :: s =>
    if c = colon && atBlank s then none
    else if isBlank c && s.head? = some hash then some []
    else (plainBody s).map (c :: ·)

def trimEnd (s : List UInt8) : List UInt8 :=
  s.rdropWhile isBlank

def plain (s : List UInt8) : Option (List UInt8) :=
  if s.head?.any isPlainStart then (plainBody s).map trimEnd else none

/-- What follows a value on its line: blanks, or blanks and a comment. -/
def isTail (s : List UInt8) : Bool :=
  atBlank s && (s.dropWhile isBlank).head?.all (· = hash)

/-- The text up to the closing quote, and what follows. -/
def quotedBody : List UInt8 → Option (List UInt8 × List UInt8)
  | [] => none
  | c :: s =>
    if c = quote then some ([], s)
    else if c = backslash then none
    else (quotedBody s).map fun (v, rest) => (c :: v, rest)

/-- The rest of a scalar between quotes. -/
def quoted (s : List UInt8) : Option (List UInt8) :=
  match quotedBody s with
  | some (v, rest) => if isTail rest then some v else none
  | none => none

def flowItem (s : List UInt8) : Option (List UInt8) :=
  match s.dropWhile isBlank with
  | [] => none
  | c :: rest =>
    if c = quote then quoted rest
    else if rest.contains hash then none
    else plain (c :: rest)

/-- The text up to the closing bracket, and what follows. -/
def flowBody : List UInt8 → Option (List UInt8 × List UInt8)
  | [] => none
  | c :: s =>
    if c = closing then some ([], s)
    else if c = opening || c = 123 || c = 125 then none
    else (flowBody s).map fun (v, rest) => (c :: v, rest)

def flow (s : List UInt8) : Option (List (List UInt8)) :=
  match flowBody s with
  | some (v, rest) =>
    if isTail rest then (v.splitOn comma).mapM flowItem else none
  | none => none

/-! ## Entries -/

/-- What stands on the line of an entry. -/
inductive Value where
  | empty
  | scalar (s : List UInt8)
  | flow (items : List (List UInt8))

/-- An entry of a mapping or of a sequence. -/
inductive Head where
  | key (k : List UInt8)
  | item
  deriving DecidableEq

structure Entry where
  indent : Nat
  head : Head
  value : Value

def value (s : List UInt8) : Option Value :=
  match s.dropWhile isBlank with
  | [] => some .empty
  | c :: rest =>
    if c = hash then some .empty
    else if c = quote then (quoted rest).map .scalar
    else if c = opening then (flow rest).map .flow
    else (plain (c :: rest)).map .scalar

/-- The key of a line and what follows its colon.  Keys have no blanks in the
fragment. -/
def splitKey : List UInt8 → Option (List UInt8 × List UInt8)
  | [] => none
  | c :: s =>
    if c = colon && atBlank s then some ([], s)
    else if isBlank c then none
    else (splitKey s).map fun (k, v) => (c :: k, v)

def field (n : Nat) (s : List UInt8) : Option Entry :=
  match splitKey s with
  | some (k, v) =>
    if k.head?.any isPlainStart then (value v).map fun v => ⟨n, .key k, v⟩
    else none
  | none => none

/-- The entries after a dash: a scalar, or the first field of a mapping. -/
def dashed (n m : Nat) (s : List UInt8) : Option (List Entry) :=
  if s.head? = some quote ∨ splitKey s = none then
    match value s with
    | some (.scalar v) => some [⟨n, .item, .scalar v⟩]
    | _ => none
  else (field m s).map fun e => [⟨n, .item, .empty⟩, e]

/-- The entries of a line; none for a comment. -/
def parseLine (s : List UInt8) : Option (List Entry) :=
  let body := s.dropWhile (· = space)
  let n := s.length - body.length
  match body with
  | [] => some []
  | c :: rest =>
    if c = hash then some []
    else if c = dash ∧ rest.head? = some space then
      let inner := rest.dropWhile (· = space)
      dashed n (s.length - inner.length) inner
    else (field n body).map fun e => [e]

/-! ## Documents -/

/-- The entries of a mapping or a sequence, and what is below each. -/
inductive Block where
  | nil
  | leaf (head : Head) (s : List UInt8) (rest : Block)
  | node (head : Head) (child rest : Block)

/-- A sequence of scalars. -/
def Block.ofItems (items : List (List UInt8)) : Block :=
  items.foldr (fun s b => .leaf .item s b) .nil

/-- An entry with the block below it, before the entries `b`.  Below an entry
with a value there is nothing. -/
def Block.attach (head : Head) : Value → Block → Block → Option Block
  | .empty, child, b => some (.node head child b)
  | .scalar s, .nil, b => some (.leaf head s b)
  | .flow items, .nil, b => some (.node head (.ofItems items) b)
  | _, _, _ => none

/-- The tree of a list of entries.  The entries further in than the first one,
up to the next that is not, are below it. -/
def build : Nat → List Entry → Option Block
  | _, [] => some .nil
  | 0, _ :: _ => none
  | fuel + 1, e :: rest =>
    let after := rest.dropWhile fun x => e.indent < x.indent
    if after.head?.all (fun x => x.indent = e.indent) then
      (build fuel (rest.takeWhile fun x => e.indent < x.indent)).bind
        fun child => (build fuel after).bind fun b =>
          Block.attach e.head e.value child b
    else none

/-- The entries on the level of a block. -/
def Block.heads : Block → List Head
  | .nil => []
  | .leaf head _ rest => head :: rest.heads
  | .node head _ rest => head :: rest.heads

/-- A level is a sequence, or a mapping with different keys. -/
def levelOk (heads : List Head) : Bool :=
  heads.all (· = .item) || (!heads.contains .item && heads.Nodup)

/-- All levels below a block are sequences or mappings. -/
def Block.inner : Block → Bool
  | .nil => true
  | .leaf _ _ rest => rest.inner
  | .node _ child rest => levelOk child.heads && child.inner && rest.inner

def Block.ok (b : Block) : Bool :=
  levelOk b.heads && b.inner

theorem levelOk_ofItems (items : List (List UInt8)) :
    levelOk (Block.ofItems items).heads = true := by
  have hall : (Block.ofItems items).heads.all (· = .item) = true := by
    induction items with
    | nil => rfl
    | cons s items ih => exact ih
  rw [levelOk, hall, Bool.true_or]

theorem inner_ofItems (items : List (List UInt8)) : (Block.ofItems items).inner = true := by
  induction items with
  | nil => rfl
  | cons s items ih => exact ih

theorem levelOk_keys {keys : List (List UInt8)} (h : keys.Nodup) :
    levelOk (keys.map .key) = true := by
  have hkey : Function.Injective Head.key := fun _ _ => Head.key.inj
  have hitem : Head.item ∉ keys.map Head.key := by simp
  have hnodup : (keys.map Head.key).Nodup := h.map hkey
  simp [levelOk, hitem, hnodup]

def parse (s : List UInt8) : Option Block :=
  if readable s then
    match (lines s).mapM parseLine with
    | some entries =>
      (build entries.flatten.length entries.flatten).filter Block.ok
    | none => none
  else none

/-! ## Weights -/

def Value.weight : Value → Nat
  | .empty => 0
  | .scalar s => s.length
  | .flow items => (items.map length).sum

def Head.weight : Head → Nat
  | .key k => k.length
  | .item => 0

def Entry.weight (e : Entry) : Nat :=
  e.head.weight + e.value.weight

def weight (entries : List Entry) : Nat :=
  (entries.map Entry.weight).sum

def Block.weight : Block → Nat
  | .nil => 0
  | .leaf head s rest => head.weight + s.length + rest.weight
  | .node head child rest => head.weight + child.weight + rest.weight

theorem weight_cons (e : Entry) (entries : List Entry) :
    weight (e :: entries) = e.weight + weight entries := by
  simp [weight]

theorem weight_append (l l' : List Entry) : weight (l ++ l') = weight l + weight l' := by
  simp [weight]

theorem weight_ofItems (items : List (List UInt8)) :
    (Block.ofItems items).weight = (items.map length).sum := by
  induction items with
  | nil => rfl
  | cons s items ih =>
    show 0 + s.length + (Block.ofItems items).weight = _
    rw [ih, map_cons, sum_cons]
    omega

theorem weight_attach (h : Block.attach head v child b = some t) :
    t.weight = head.weight + v.weight + child.weight + b.weight := by
  unfold Block.attach at h
  split at h
  · cases h
    rfl
  · cases h
    rfl
  · rename_i items
    cases h
    show head.weight + (Block.ofItems items).weight + b.weight =
      head.weight + (items.map length).sum + 0 + b.weight
    rw [weight_ofItems]
    rfl
  · cases h

theorem weight_build (h : build fuel entries = some b) : b.weight = weight entries := by
  induction fuel generalizing entries b with
  | zero =>
    cases entries with
    | nil =>
      cases h
      rfl
    | cons e rest => cases h
  | succ fuel ih =>
    cases entries with
    | nil =>
      cases h
      rfl
    | cons e rest =>
      have hsplit : weight rest =
          weight (rest.takeWhile fun x => e.indent < x.indent) +
            weight (rest.dropWhile fun x => e.indent < x.indent) := by
        rw [← weight_append, List.takeWhile_append_dropWhile]
      unfold build at h
      dsimp only at h
      split at h
      · obtain ⟨child, hchild, h⟩ := bind_eq_some_iff.1 h
        obtain ⟨after, hafter, h⟩ := bind_eq_some_iff.1 h
        have ht := weight_attach h
        have hc := ih hchild
        have ha := ih hafter
        rw [weight_cons, Entry.weight]
        omega
      · cases h

/-! ### Scalars are no longer than their text -/

theorem plainBody_isPrefix (h : plainBody s = some t) : t <+: s := by
  induction s generalizing t with
  | nil =>
    cases h
    exact List.prefix_refl _
  | cons c s ih =>
    unfold plainBody at h
    split at h
    · cases h
    · split at h
      · cases h
        exact List.nil_prefix
      · obtain ⟨u, hu, rfl⟩ := map_eq_some_iff.1 h
        exact (List.prefix_cons_inj c).2 (ih hu)

theorem plain_isPrefix (h : plain s = some t) : t <+: s := by
  unfold plain at h
  split at h
  · obtain ⟨u, hu, rfl⟩ := map_eq_some_iff.1 h
    exact (List.rdropWhile_prefix isBlank u).trans (plainBody_isPrefix hu)
  · cases h

/-- A scan that ends at a byte, and fails at others, takes that byte away. -/
theorem scan_length {f : List UInt8 → Option (List UInt8 × List UInt8)}
    {ends fails : UInt8 → List UInt8 → Prop} [∀ c s, Decidable (ends c s)]
    [∀ c s, Decidable (fails c s)] (hnil : f [] = none)
    (hcons : ∀ c s, f (c :: s) = if ends c s then
      some ([], s) else if fails c s then none else
        (f s).map fun p => (c :: p.1, p.2)) (h : f s = some (v, rest)) :
    v.length + 1 + rest.length = s.length := by
  induction s generalizing v with
  | nil => simp [hnil] at h
  | cons c s ih =>
    rw [hcons] at h
    split at h
    · cases some.inj h
      simp
      omega
    · split at h
      · cases h
      · obtain ⟨⟨u, r⟩, hu, heq⟩ := map_eq_some_iff.1 h
        cases heq
        have hu : u.length + 1 + r.length = s.length := ih hu
        show u.length + 1 + 1 + r.length = s.length + 1
        omega

theorem quotedBody_length {s v rest : List UInt8} (h : quotedBody s = some (v, rest)) :
    v.length + 1 + rest.length = s.length :=
  scan_length rfl (fun _ _ => rfl) h

theorem quoted_length (h : quoted s = some v) : v.length ≤ s.length := by
  unfold quoted at h
  split at h
  · rename_i u rest hbody
    have := quotedBody_length hbody
    split at h
    · cases h
      omega
    · cases h
  · cases h

theorem dropWhile_length (p : UInt8 → Bool) (s : List UInt8) : (s.dropWhile p).length ≤ s.length :=
  (List.dropWhile_suffix p).length_le

theorem flowItem_length (h : flowItem s = some v) : v.length ≤ s.length := by
  have hdrop := dropWhile_length isBlank s
  unfold flowItem at h
  split at h
  · cases h
  · rename_i c rest hbody
    rw [hbody, length_cons] at hdrop
    split at h
    · have := quoted_length h
      omega
    · split at h
      · cases h
      · have := (plain_isPrefix h).length_le
        rw [length_cons] at this
        omega

theorem flowBody_length {s v rest : List UInt8} (h : flowBody s = some (v, rest)) :
    v.length + 1 + rest.length = s.length :=
  scan_length rfl (fun _ _ => rfl) h

theorem mapM_flowItem_length {l : List (List UInt8)} (h : l.mapM flowItem = some items) :
    (items.map length).sum ≤ (l.map length).sum := by
  induction l generalizing items with
  | nil =>
    cases h
    simp
  | cons s l ih =>
    rw [List.mapM_cons] at h
    obtain ⟨v, hv, h⟩ := bind_eq_some_iff.1 h
    obtain ⟨vs, hvs, h⟩ := bind_eq_some_iff.1 h
    cases h
    have h₁ := flowItem_length hv
    have h₂ := ih hvs
    simp only [map_cons, sum_cons]
    omega

theorem splitOn_length (s : List UInt8) : ((s.splitOn comma).map length).sum ≤ s.length := by
  have hsum : ∀ l : List (List UInt8),
      (l.map length).sum ≤ ([comma].intercalate l).length := by
    intro l
    induction l with
    | nil => simp
    | cons x l ih =>
      cases l with
      | nil => simp
      | cons y l =>
        rw [List.intercalate_cons_cons]
        simp only [map_cons, sum_cons, List.length_append] at ih ⊢
        omega
  have hback := hsum (s.splitOn comma)
  rwa [List.intercalate_splitOn] at hback

theorem flow_length {s : List UInt8} (h : flow s = some items) :
    (items.map length).sum ≤ s.length := by
  unfold flow at h
  split at h
  · rename_i v rest hbody
    have hlen := flowBody_length hbody
    split at h
    · have h₁ := mapM_flowItem_length h
      have h₂ := splitOn_length v
      omega
    · cases h
  · cases h

theorem weight_value (h : value s = some v) : v.weight ≤ s.length := by
  have hdrop := dropWhile_length isBlank s
  unfold value at h
  split at h
  · cases h
    exact Nat.zero_le _
  · rename_i c rest hbody
    rw [hbody, length_cons] at hdrop
    split at h
    · cases h
      exact Nat.zero_le _
    · split at h
      · obtain ⟨u, hu, rfl⟩ := map_eq_some_iff.1 h
        have := quoted_length hu
        show u.length ≤ s.length
        omega
      · split at h
        · obtain ⟨items, hitems, rfl⟩ := map_eq_some_iff.1 h
          have := flow_length hitems
          show (items.map length).sum ≤ s.length
          omega
        · obtain ⟨u, hu, rfl⟩ := map_eq_some_iff.1 h
          have := (plain_isPrefix hu).length_le
          rw [length_cons] at this
          show u.length ≤ s.length
          omega

theorem splitKey_length {s k v : List UInt8} (h : splitKey s = some (k, v)) :
    k.length + 1 + v.length = s.length :=
  scan_length rfl (fun _ _ => rfl) h

theorem weight_field (h : field n s = some e) : e.weight ≤ s.length := by
  unfold field at h
  split at h
  · rename_i k v hkey
    have hlen := splitKey_length hkey
    split at h
    · obtain ⟨u, hu, rfl⟩ := map_eq_some_iff.1 h
      have := weight_value hu
      show k.length + u.weight ≤ s.length
      omega
    · cases h
  · cases h

theorem weight_dashed (h : dashed n m s = some entries) : weight entries ≤ s.length := by
  unfold dashed at h
  split at h
  · split at h
    · rename_i v hv
      cases h
      have : v.length ≤ s.length := weight_value hv
      simpa [weight, Entry.weight, Head.weight, Value.weight] using this
    · cases h
  · obtain ⟨e, he, rfl⟩ := map_eq_some_iff.1 h
    have := weight_field he
    simpa [weight, Entry.weight, Head.weight, Value.weight] using this

/-- The entries of a line weigh no more than the line is long. -/
theorem weight_parseLine (h : parseLine s = some entries) : weight entries ≤ s.length := by
  have hdrop := dropWhile_length (· = space) s
  unfold parseLine at h
  dsimp only at h
  split at h
  · cases h
    exact Nat.zero_le _
  · rename_i c rest hbody
    have hinner := dropWhile_length (· = space) rest
    rw [hbody] at hdrop
    rw [length_cons] at hdrop
    split at h
    · cases h
      exact Nat.zero_le _
    · split at h
      · have := weight_dashed h
        omega
      · obtain ⟨e, he, rfl⟩ := map_eq_some_iff.1 h
        have hfield := weight_field he
        rw [hbody, length_cons] at hfield
        show e.weight + 0 ≤ s.length
        omega

end Yaml
