import Mathlib

/-!
# Expressions of matchers

The small language in which reverse proxies are told which requests a router
takes: matchers such as Path(..) with literals between backticks, combined with
`&&`, `||`, `!` and parentheses.  A literal has no escapes, so it ends at the
next backtick.

* `lex` cuts a text into tokens, `parse` reads an expression.
* `Expr.text` writes an expression, with parentheses where precedence needs
  them.  `parse_text` is the round trip, for expressions whose literals have no
  backtick.
* `not_mem_of_parse` says that no other expression is ever read: a literal of
  what `parse` gives has no backtick.
-/

namespace Rules

open List

/-- The byte that delimits literals. -/
def tick : UInt8 := 96

/-! ## Tokens -/

/-- A token.  The name of a matcher and the parenthesis after it are one. -/
inductive Token where
  | call (name : List UInt8)
  | lit (s : List UInt8)
  | opening
  | closing
  | comma
  | and
  | or
  | not

/-- What the lexer is inside of. -/
inductive Mode where
  | idle
  | name (acc : List UInt8)
  | named (acc : List UInt8)
  | lit (acc : List UInt8)
  | ampersand
  | bar

/-- A letter or `_`. -/
def isAlpha (c : UInt8) : Bool :=
  (65 ≤ c && c ≤ 90) || (97 ≤ c && c ≤ 122) || c = 95

/-- A character of a name after the first. -/
def isAlnum (c : UInt8) : Bool :=
  isAlpha c || (48 ≤ c && c ≤ 57)

/-- Blanks between tokens. -/
def isBlank (c : UInt8) : Bool :=
  c = 32 || c = 9 || c = 10 || c = 13

/-- The lexer. -/
def scan : Mode → List UInt8 → Option (List Token)
  | .idle, [] => some []
  | .idle, c :: s =>
    if isBlank c then scan .idle s
    else if isAlpha c then scan (.name [c]) s
    else if c = tick then scan (.lit []) s
    else if c = 40 then (scan .idle s).map (.opening :: ·)
    else if c = 41 then (scan .idle s).map (.closing :: ·)
    else if c = 44 then (scan .idle s).map (.comma :: ·)
    else if c = 33 then (scan .idle s).map (.not :: ·)
    else if c = 38 then scan .ampersand s
    else if c = 124 then scan .bar s
    else none
  | .name acc, c :: s =>
    if isAlnum c then scan (.name (acc ++ [c])) s
    else if isBlank c then scan (.named acc) s
    else if c = 40 then (scan .idle s).map (.call acc :: ·)
    else none
  | .named acc, c :: s =>
    if isBlank c then scan (.named acc) s
    else if c = 40 then (scan .idle s).map (.call acc :: ·)
    else none
  | .lit acc, c :: s =>
    if c = tick then (scan .idle s).map (.lit acc :: ·)
    else scan (.lit (acc ++ [c])) s
  | .ampersand, c :: s =>
    if c = 38 then (scan .idle s).map (.and :: ·) else none
  | .bar, c :: s => if c = 124 then (scan .idle s).map (.or :: ·) else none
  | _, [] => none

def lex (s : List UInt8) : Option (List Token) :=
  scan .idle s

def Token.text : Token → List UInt8
  | .call name => name ++ [40]
  | .lit s => tick :: s ++ [tick]
  | .opening => [40]
  | .closing => [41]
  | .comma => [44, 32]
  | .and => [32, 38, 38, 32]
  | .or => [32, 124, 124, 32]
  | .not => [33]

def IsName : List UInt8 → Prop
  | [] => False
  | c :: s => isAlpha c = true ∧ s.all isAlnum = true

instance : DecidablePred IsName
  | [] => inferInstanceAs (Decidable False)
  | c :: s =>
    inferInstanceAs (Decidable (isAlpha c = true ∧ s.all isAlnum = true))

/-- A token whose text is read back as itself. -/
def Token.Ok : Token → Prop
  | .call name => IsName name
  | .lit s => tick ∉ s
  | _ => True

variable {s l : List UInt8} {ts : List Token} {e : Expr} {args : List (List UInt8)}

theorem scan_name (hs : s.all isAlnum = true) (acc rest : List UInt8) :
    scan (.name acc) (s ++ 40 :: rest) = (scan .idle rest).map (.call (acc ++ s) :: ·) := by
  induction s generalizing acc with
  | nil => simp [scan, isAlnum, isAlpha, isBlank]
  | cons c s ih =>
    rw [all_cons, Bool.and_eq_true] at hs
    rw [cons_append, scan, if_pos hs.1, ih hs.2, append_assoc, singleton_append]

theorem scan_lit (hs : tick ∉ s) (acc rest : List UInt8) :
    scan (.lit acc) (s ++ tick :: rest) = (scan .idle rest).map (.lit (acc ++ s) :: ·) := by
  induction s generalizing acc with
  | nil => simp [scan]
  | cons c s ih =>
    have hc : ¬c = tick := fun h => hs (by simp [h])
    have hs' : tick ∉ s := fun h => hs (mem_cons_of_mem _ h)
    rw [cons_append, scan, if_neg hc, ih hs', append_assoc, singleton_append]

/-- A letter is none of the characters that mean something else. -/
theorem not_isBlank_of_isAlpha (h : isAlpha c = true) : isBlank c = false := by
  by_contra hb
  simp only [isBlank, Bool.not_eq_false, Bool.or_eq_true,
    decide_eq_true_eq] at hb
  rcases hb with ((rfl | rfl) | rfl) | rfl <;> exact absurd h (by decide)

/-- The lexer reads one token that was written. -/
theorem scan_text (ht : t.Ok) (rest : List UInt8) :
    scan .idle (t.text ++ rest) = (scan .idle rest).map (t :: ·) := by
  cases t with
  | call name =>
    cases name with
    | nil => exact absurd ht id
    | cons c s =>
      have hb := not_isBlank_of_isAlpha ht.1
      have hn := scan_name ht.2 [c] rest
      simp only [Token.text, cons_append, append_assoc, nil_append]
      rw [scan, if_neg (by simp [hb]), if_pos ht.1, hn, singleton_append]
  | lit s =>
    have hl := scan_lit ht [] rest
    simp only [Token.text, cons_append, append_assoc, nil_append] at hl ⊢
    rw [← hl]
    simp [scan, isBlank, isAlpha, tick]
  | _ => simp [Token.text, scan, isBlank, isAlpha, tick]

theorem lex_text (h : ∀ t ∈ ts, t.Ok) : lex (ts.flatMap Token.text) = some ts := by
  induction ts with
  | nil => rfl
  | cons t ts ih =>
    have := ih fun t ht => h t (mem_cons_of_mem _ ht)
    rw [lex] at this ⊢
    rw [flatMap_cons, scan_text (h t mem_cons_self), this]
    rfl

/-- A literal that comes out of the lexer, through a token in front. -/
theorem mem_tail_of_map (h : o.map (t :: ·) = some ts) (hl : .lit l ∈ ts) :
    t = .lit l ∨ ∃ ts', o = some ts' ∧ .lit l ∈ ts' := by
  obtain ⟨ts', ho, rfl⟩ := Option.map_eq_some_iff.1 h
  rcases mem_cons.1 hl with hl | hl
  · exact .inl hl.symm
  · exact .inr ⟨ts', ho, hl⟩

/-- The lexer never puts a backtick into a literal. -/
theorem not_mem_of_scan (h : scan m s = some ts)
    (hm : ∀ acc, m = .lit acc → tick ∉ acc) (hl : .lit l ∈ ts) : tick ∉ l := by
  fun_induction scan m s generalizing ts with
  | case1 => simp_all
  | case19 acc s ih =>
    -- The literal ends here.
    rcases mem_tail_of_map h hl with h' | ⟨ts', h', hl'⟩
    · rw [← Token.lit.inj h']
      exact hm acc rfl
    · exact ih h' (by simp) hl'
  | case20 acc c s hc ih =>
    refine ih h ?_ hl
    intro acc' hacc
    rw [← Mode.lit.inj hacc, mem_append, mem_singleton]
    exact not_or.2 ⟨hm acc rfl, fun h => hc h.symm⟩
  | _ => first
    | cases h
    | (rename_i ih; exact ih h (by simp) hl)
    | (rename_i ih
       rcases mem_tail_of_map h hl with h' | ⟨ts', h', hl'⟩
       · cases h'
       · exact ih h' (by simp) hl')

/-! ## Expressions -/

/-- An expression. -/
inductive Expr where
  | matcher (name : List UInt8) (args : List (List UInt8))
  | not (e : Expr)
  | and (e₁ e₂ : Expr)
  | or (e₁ e₂ : Expr)
  deriving DecidableEq

def Expr.literals : Expr → List (List UInt8)
  | .matcher _ args => args
  | .not e => e.literals
  | .and e₁ e₂ => e₁.literals ++ e₂.literals
  | .or e₁ e₂ => e₁.literals ++ e₂.literals

/-- What was read since a parenthesis was opened: the negations that wait for
their operand, the alternatives before the last `||`, and the conjunction
after it. -/
structure Frame where
  negations : Nat
  ors : Option Expr
  ands : Option Expr

def Frame.empty : Frame :=
  ⟨0, none, none⟩

/-- Negate `n` times. -/
def negate : Nat → Expr → Expr
  | 0, e => e
  | n + 1, e => negate n (.not e)

def Frame.push (fr : Frame) (e : Expr) : Frame :=
  let e := negate fr.negations e
  ⟨0, fr.ors, some (match fr.ands with
    | none => e
    | some a => .and a e)⟩

def Frame.value (fr : Frame) : Option Expr :=
  match fr.ors, fr.ands with
  | none, a => a
  | some o, some a => some (.or o a)
  | some _, none => none

/-- What the parser waits for. -/
inductive Place where
  | operand
  | operator
  | arg (name : List UInt8) (args : List (List UInt8))
  | argEnd (name : List UInt8) (args : List (List UInt8))
  deriving DecidableEq

/-- The parser.  `stack` are the frames outside of the open parentheses. -/
def run : (stack : List Frame) → Frame → Place → List Token → Option Expr
  | stack, fr, .operand, .call n :: ts => run stack fr (.arg n []) ts
  | stack, fr, .operand, .opening :: ts =>
    run (fr :: stack) .empty .operand ts
  | stack, fr, .operand, .not :: ts =>
    run stack ⟨fr.negations + 1, fr.ors, fr.ands⟩ .operand ts
  | stack, fr, .arg n args, .lit s :: ts =>
    run stack fr (.argEnd n (args ++ [s])) ts
  | stack, fr, .argEnd n args, .comma :: ts => run stack fr (.arg n args) ts
  | stack, fr, .argEnd n args, .closing :: ts =>
    run stack (fr.push (.matcher n args)) .operator ts
  | stack, fr, .operator, .and :: ts => run stack fr .operand ts
  | stack, fr, .operator, .or :: ts => run stack ⟨0, fr.value, none⟩ .operand ts
  | outer :: stack, fr, .operator, .closing :: ts =>
    fr.value.bind fun e => run stack (outer.push e) .operator ts
  | [], fr, .operator, [] => fr.value
  | _, _, _, _ => none

def parse (s : List UInt8) : Option Expr :=
  (lex s).bind fun ts => run [] .empty .operand ts

/-! ## Literals of what is read -/

def Frame.literals (fr : Frame) : List (List UInt8) :=
  (fr.ors.elim [] Expr.literals) ++ fr.ands.elim [] Expr.literals

def Place.literals : Place → List (List UInt8)
  | .arg _ args | .argEnd _ args => args
  | _ => []

theorem literals_negate (n : Nat) (e : Expr) : (negate n e).literals = e.literals := by
  induction n generalizing e with
  | zero => rfl
  | succ n ih => rw [negate, ih, Expr.literals]

theorem mem_literals_push {fr : Frame} (h : l ∈ (fr.push e).literals) :
    l ∈ fr.literals ∨ l ∈ e.literals := by
  cases ha : fr.ands <;>
    simp_all [Frame.push, Frame.literals, Expr.literals, literals_negate, or_assoc]

theorem mem_literals_value {fr : Frame} (he : fr.value = some e)
    (h : l ∈ e.literals) : l ∈ fr.literals := by
  rcases fr with ⟨n, _ | o, _ | a⟩
  · cases he
  · cases he
    simpa [Frame.literals] using h
  · cases he
  · cases he
    simpa [Frame.literals, Expr.literals] using h

/-- The literals of an expression that was read are those of the tokens, and of
what was read before them. -/
theorem mem_literals_run (h : run stack fr pl ts = some e) (hl : l ∈ e.literals) :
    .lit l ∈ ts ∨ l ∈ pl.literals ∨ l ∈ fr.literals ∨ ∃ fr' ∈ stack, l ∈ fr'.literals := by
  fun_induction run stack fr pl ts with
  | case1 stack fr n ts ih | case5 stack fr n args ts ih
  | case7 stack fr ts ih =>
    simp_all [Place.literals]
  | case2 stack fr ts ih =>
    simp_all [Place.literals, Frame.empty, Frame.literals]
  | case3 stack fr ts ih =>
    simp_all [Place.literals, Frame.literals]
  | case4 stack fr n args s ts ih =>
    have := ih h
    simp only [Place.literals, mem_append, mem_cons, Token.lit.injEq] at this ⊢
    tauto
  | case6 stack fr n args ts ih =>
    rcases ih h with h' | h' | h' | h'
    · simp [h']
    · simp [Place.literals] at h'
    · rcases mem_literals_push h' with h' | h'
      · simp [h']
      · exact .inr (.inl h')
    · simp [h']
  | case8 stack fr ts ih =>
    rcases ih h with h' | h' | h' | h'
    · simp [h']
    · simp [Place.literals] at h'
    · simp only [Frame.literals, Option.elim_none, append_nil] at h'
      cases hv : fr.value with
      | none => simp [hv] at h'
      | some v =>
        rw [hv, Option.elim_some] at h'
        simp [mem_literals_value hv h']
    · simp [h']
  | case9 outer stack fr ts ih =>
    obtain ⟨v, hv, h⟩ := Option.bind_eq_some_iff.1 h
    rcases ih v h with h' | h' | h' | ⟨fr', hfr, h'⟩
    · simp [h']
    · simp [Place.literals] at h'
    · rcases mem_literals_push h' with h' | h'
      · exact .inr (.inr (.inr ⟨outer, by simp, h'⟩))
      · simp [mem_literals_value hv h']
    · exact .inr (.inr (.inr ⟨fr', by simp [hfr], h'⟩))
  | case10 fr => simp [mem_literals_value h hl]
  | case11 => cases h

/-- No literal that is read has a backtick. -/
theorem not_mem_of_parse (h : parse s = some e) (hl : l ∈ e.literals) : tick ∉ l := by
  obtain ⟨ts, hts, h⟩ := Option.bind_eq_some_iff.1 h
  rcases mem_literals_run h hl with h' | h' | h' | ⟨fr, hfr, -⟩
  · exact not_mem_of_scan hts (by simp) h'
  · simp [Place.literals] at h'
  · simp [Frame.empty, Frame.literals] at h'
  · cases hfr

/-! ## Writing an expression -/

/-- The arguments of a matcher. -/
def argTokens : List (List UInt8) → List Token
  | [] => []
  | [s] => [.lit s]
  | s :: t :: args => .lit s :: .comma :: argTokens (t :: args)

/-- Parentheses, where they are needed. -/
def wrap (needed : Bool) (ts : List Token) : List Token :=
  if needed then .opening :: (ts ++ [.closing]) else ts

/-- The tokens of an expression.  In level 0 everything stands as it is, in
level 1 alternatives are in parentheses, in level 2 conjunctions as well. -/
def Expr.tokens : Expr → (level : Nat) → List Token
  | .matcher n args, _ => .call n :: (argTokens args ++ [.closing])
  | .not e, _ => .not :: e.tokens 2
  | .and e₁ e₂, level =>
    wrap (1 < level) (e₁.tokens 1 ++ .and :: e₂.tokens 2)
  | .or e₁ e₂, level =>
    wrap (0 < level) (e₁.tokens 0 ++ .or :: e₂.tokens 1)

def Expr.text (e : Expr) (level : Nat) : List UInt8 :=
  (e.tokens level).flatMap Token.text

/-- The names are names, every matcher has an argument and no literal has a
backtick. -/
def Expr.Ok : Expr → Prop
  | .matcher n args => IsName n ∧ args ≠ [] ∧ ∀ s ∈ args, tick ∉ s
  | .not e => e.Ok
  | .and e₁ e₂ => e₁.Ok ∧ e₂.Ok
  | .or e₁ e₂ => e₁.Ok ∧ e₂.Ok

theorem ok_wrap (h : ∀ t ∈ ts, t.Ok) : ∀ t ∈ wrap b ts, t.Ok := by
  intro t ht
  unfold wrap at ht
  split at ht
  · simp only [mem_cons, mem_append, not_mem_nil, or_false] at ht
    rcases ht with rfl | ht | rfl
    · trivial
    · exact h t ht
    · trivial
  · exact h t ht

theorem ok_argTokens (h : ∀ s ∈ args, tick ∉ s) : ∀ t ∈ argTokens args, t.Ok := by
  fun_induction argTokens args with
  | case1 => simp
  | case2 s => simpa [Token.Ok] using h
  | case3 s t args ih =>
    have hrest := ih fun s hs => h s (mem_cons_of_mem _ hs)
    exact forall_mem_cons.2 ⟨h s (by simp), forall_mem_cons.2 ⟨trivial, hrest⟩⟩

theorem ok_tokens (h : e.Ok) (level : Nat) : ∀ t ∈ e.tokens level, t.Ok := by
  induction e generalizing level with
  | matcher n args =>
    intro t ht
    simp only [Expr.tokens, mem_cons, mem_append, not_mem_nil, or_false] at ht
    rcases ht with rfl | ht | rfl
    · exact h.1
    · exact ok_argTokens h.2.2 t ht
    · trivial
  | not e ih =>
    exact forall_mem_cons.2 ⟨trivial, ih h 2⟩
  | and e₁ e₂ ih₁ ih₂ =>
    apply ok_wrap
    exact forall_mem_append.2 ⟨ih₁ h.1 1, forall_mem_cons.2 ⟨trivial, ih₂ h.2 2⟩⟩
  | or e₁ e₂ ih₁ ih₂ =>
    apply ok_wrap
    exact forall_mem_append.2 ⟨ih₁ h.1 0, forall_mem_cons.2 ⟨trivial, ih₂ h.2 1⟩⟩

/-! ## Reading back -/

theorem run_args (hargs : args ≠ []) (stack : List Frame) (fr : Frame)
    (n : List UInt8) (acc : List (List UInt8)) (rest : List Token) :
    run stack fr (.arg n acc) (argTokens args ++ .closing :: rest) =
      run stack (fr.push (.matcher n (acc ++ args))) .operator rest := by
  fun_induction argTokens args generalizing acc with
  | case1 => exact absurd rfl hargs
  | case2 s => simp [run]
  | case3 s t args ih =>
    have := ih (by simp) (acc ++ [s])
    simp only [cons_append, run]
    rw [this, append_assoc, singleton_append]

/-- What the parser makes of the tokens of `e` in each level.  As an operand
`e` is pushed; in level 1 the frame must be at the start of a conjunction, in
level 0 it must be empty. -/
structure Reads (e : Expr) : Prop where
  operand : ∀ stack fr rest,
    run stack fr .operand (e.tokens 2 ++ rest) = run stack (fr.push e) .operator rest
  conjunct : ∀ stack ors rest,
    run stack ⟨0, ors, none⟩ .operand (e.tokens 1 ++ rest) =
      run stack ⟨0, ors, some e⟩ .operator rest
  whole : ∀ stack rest, ∃ fr : Frame, fr.value = some e ∧
    run stack .empty .operand (e.tokens 0 ++ rest) = run stack fr .operator rest

/-- An expression that is written the same in every level. -/
theorem Reads.of_operand (h : ∀ level, e.tokens level = e.tokens 2)
    (ho : ∀ stack fr rest, run stack fr .operand (e.tokens 2 ++ rest) =
      run stack (fr.push e) .operator rest) : Reads e where
  operand := ho
  conjunct := by
    intro stack ors rest
    rw [h 1, ho]
    rfl
  whole := by
    intro stack rest
    refine ⟨Frame.empty.push e, rfl, ?_⟩
    rw [h 0, ho]

theorem Reads.parenthesised (h : ∀ stack rest, ∃ fr : Frame, fr.value = some e ∧
      run stack .empty .operand (ts ++ rest) = run stack fr .operator rest)
    (stack : List Frame) (fr : Frame) (rest : List Token) :
    run stack fr .operand (wrap true ts ++ rest) = run stack (fr.push e) .operator rest := by
  obtain ⟨fr', hv, hrun⟩ := h (fr :: stack) (.closing :: rest)
  simp only [wrap, if_true, cons_append, append_assoc, nil_append, run]
  rw [hrun]
  simp [run, hv]

theorem Reads.matcher (hargs : args ≠ []) : Reads (.matcher n args) := by
  refine .of_operand (fun _ => rfl) ?_
  intro stack fr rest
  simp only [Expr.tokens, cons_append, append_assoc, run]
  exact run_args hargs stack fr n [] rest

theorem Reads.not (h : Reads e) : Reads (.not e) := by
  refine .of_operand (fun _ => rfl) ?_
  intro stack fr rest
  exact h.operand stack _ rest

theorem Reads.and (h₁ : Reads e₁) (h₂ : Reads e₂) : Reads (.and e₁ e₂) := by
  have conjunct : ∀ stack ors rest,
      run stack ⟨0, ors, none⟩ .operand ((e₁.tokens 1 ++ .and :: e₂.tokens 2) ++ rest) =
        run stack ⟨0, ors, some (.and e₁ e₂)⟩ .operator rest := by
    intro stack ors rest
    rw [append_assoc, h₁.conjunct]
    simp only [cons_append, run]
    rw [h₂.operand]
    rfl
  have whole : ∀ stack rest, ∃ fr : Frame, fr.value = some (.and e₁ e₂) ∧
      run stack .empty .operand ((e₁.tokens 1 ++ .and :: e₂.tokens 2) ++ rest) =
        run stack fr .operator rest := fun stack rest =>
    ⟨⟨0, none, some (.and e₁ e₂)⟩, rfl, conjunct stack none rest⟩
  exact ⟨parenthesised whole, conjunct, whole⟩

theorem Reads.or (h₁ : Reads e₁) (h₂ : Reads e₂) : Reads (.or e₁ e₂) := by
  have whole : ∀ stack rest, ∃ fr : Frame, fr.value = some (.or e₁ e₂) ∧
      run stack .empty .operand ((e₁.tokens 0 ++ .or :: e₂.tokens 1) ++ rest) =
        run stack fr .operator rest := by
    intro stack rest
    obtain ⟨fr, hv, hrun⟩ :=
      h₁.whole stack (.or :: (e₂.tokens 1 ++ rest))
    refine ⟨⟨0, some e₁, some e₂⟩, rfl, ?_⟩
    rw [append_assoc, cons_append, hrun]
    simp only [run, hv]
    exact h₂.conjunct stack (some e₁) rest
  refine ⟨parenthesised whole, ?_, whole⟩
  intro stack ors rest
  exact parenthesised whole stack ⟨0, ors, none⟩ rest

theorem reads_of_ok (h : e.Ok) : Reads e := by
  induction e with
  | matcher n args => exact .matcher h.2.1
  | not e ih => exact (ih h).not
  | and e₁ e₂ ih₁ ih₂ => exact (ih₁ h.1).and (ih₂ h.2)
  | or e₁ e₂ ih₁ ih₂ => exact (ih₁ h.1).or (ih₂ h.2)

/-- An expression is read back, also when it is written as a part of a larger
one. -/
theorem parse_text (h : e.Ok) (hlevel : level ≤ 2) : parse (e.text level) = some e := by
  have hr := reads_of_ok h
  rw [parse, Expr.text, lex_text (ok_tokens h level), Option.bind_some,
    ← append_nil (e.tokens level)]
  match level, hlevel with
  | 0, _ =>
    obtain ⟨fr, hv, hrun⟩ := hr.whole [] []
    rw [hrun, run, hv]
  | 1, _ => exact hr.conjunct [] none []
  | 2, _ => exact hr.operand [] .empty []

end Rules
