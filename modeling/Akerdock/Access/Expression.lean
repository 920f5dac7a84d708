import Akerdock.Access.Coverage
import Akerdock.Lib.Rules

/-!
# The rules that public routes are written as

`PathExpression` and `MethodExpression` of `internal/accessroute/accessroute.go`
as the text that they are, and the router rule that `GenerateDynamic` of
`internal/proxy/proxy.go` makes of them.

* `pathExpression_eq_text` and its neighbours: each text is an expression,
  written out.
* `parse_pathExpression`: what is read from the text of a validated route is its
  matcher, since `validatePath` refuses the backtick.
* `methodToken` does not refuse it.  `mem_method_iff` follows a backtick from
  what a caller wrote to the methods of the route.
-/

namespace Akerdock.Access

open List Except
open Crypto (Bytes)
open Secrets (ascii)
open Rules (tick parse Expr argTokens wrap parse_text)

/-! ## The texts -/

def quoteMeta (s : Bytes) : Bytes :=
  s.flatMap fun c =>
    if (ascii "\\.+*?()|[]\x7b\x7d^$").contains c then [92, c] else [c]

/-- The regular expression of one segment of a template. -/
def templateSegment (parameters : List (Bytes × List Bytes)) (segment : Bytes) : Bytes :=
  if !hasPrefix segment [colon] then quoteMeta segment
  else
    let values := (parameters.lookup (segment.drop 1)).getD []
    if values = [] then ascii "[A-Za-z0-9._~-]+"
    else ascii "(" ++ (ascii "|").intercalate (values.map quoteMeta) ++ ascii ")"

def pathExpression (route : Route) : Bytes :=
  match route.mode with
  | .matchPrefix =>
    if route.path = [slash] ∨ route.path.getLast? = some slash then
      ascii "PathPrefix(`" ++ route.path ++ ascii "`)"
    else ascii "(Path(`" ++ route.path ++ ascii "`) || PathPrefix(`" ++
      route.path ++ ascii "/`))"
  | .matchTemplate =>
    let expression := ascii "^" ++ (ascii "/").intercalate
      ((route.path.splitOn slash).map (templateSegment route.parameters)) ++
      ascii "$"
    ascii "PathRegexp(`" ++ expression ++ ascii "`)"
  | .matchExact => ascii "Path(`" ++ route.path ++ ascii "`)"

def methodExpression (methods : List Bytes) : Bytes :=
  let part := fun method => ascii "Method(`" ++ method ++ ascii "`)"
  match methods with
  | [method] => part method
  | _ => ascii "(" ++ (ascii " || ").intercalate (methods.map part) ++ ascii ")"

def publicRule (fqdn : Bytes) (route : Route) : Bytes :=
  ascii "Host(`" ++ fqdn ++ ascii "`) && " ++ pathExpression route ++
    ascii " && " ++ methodExpression route.methods

/-! ## What they are meant to say -/

/-- A matcher with one literal. -/
def matcher (name : String) (s : Bytes) : Expr :=
  .matcher (ascii name) [s]

/-- The regular expression for a segment. -/
def SegmentPattern.regexp : SegmentPattern → Bytes
  | .literal s => quoteMeta s
  | .unreserved => ascii "[A-Za-z0-9._~-]+"
  | .oneOf values =>
    ascii "(" ++ (ascii "|").intercalate (values.map quoteMeta) ++ ascii ")"

/-- The expression for a matcher. -/
def PathMatcher.expr : PathMatcher → Expr
  | .path p => matcher "Path" p
  | .pathPrefix p => matcher "PathPrefix" p
  | .pathRegexp segments => matcher "PathRegexp"
      (ascii "^" ++ (ascii "/").intercalate (segments.map SegmentPattern.regexp) ++ ascii "$")
  | .or m₁ m₂ => .or m₁.expr m₂.expr

/-- The disjunction over the methods. -/
def methodsExpr : List Bytes → Option Expr
  | [] => none
  | method :: methods => some (methods.foldl
      (fun e method => .or e (matcher "Method" method))
      (matcher "Method" method))

def publicExpr (fqdn : Bytes) (route : Route) : Option Expr :=
  (methodsExpr route.methods).map fun e =>
    .and (.and (matcher "Host" fqdn) (PathExpression route).expr) e

/-! ## The texts are expressions, written out -/

theorem text_matcher (name : String) (s : Bytes) (level : Nat) :
    (matcher name s).text level = ascii name ++ [40, tick] ++ s ++ [tick, 41] := by
  simp [matcher, Expr.text, Expr.tokens, argTokens, Rules.Token.text]

theorem text_or_operand (e₁ e₂ : Expr) :
    (Expr.or e₁ e₂).text 2 =
      [40] ++ (e₁.text 0 ++ [32, 124, 124, 32] ++ e₂.text 1) ++ [41] := by
  simp [Expr.text, Expr.tokens, wrap, Rules.Token.text]

theorem regexp_segmentPattern (parameters : List (Bytes × List Bytes))
    (segment : Bytes) : (segmentPattern parameters segment).regexp =
      templateSegment parameters segment := by
  unfold segmentPattern templateSegment
  split
  · rfl
  · cases parameters.lookup (segment.drop 1) with
    | none => rfl
    | some values =>
      by_cases hv : values = [] <;> simp [hv, SegmentPattern.regexp]

theorem pathExpression_eq_text (route : Route) :
    pathExpression route = (PathExpression route).expr.text 2 := by
  unfold pathExpression PathExpression
  cases route.mode with
  | matchExact =>
    simp [PathMatcher.expr, text_matcher]
    rfl
  | matchTemplate =>
    simp [PathMatcher.expr, text_matcher, regexp_segmentPattern, Function.comp_def]
    rfl
  | matchPrefix =>
    dsimp only
    split
    · simp [PathMatcher.expr, text_matcher]
      rfl
    · simp [PathMatcher.expr, text_matcher, text_or_operand]
      rfl

/-- The disjunction of a matcher and those for the methods `methods`. -/
def orMethods (e : Expr) (methods : List Bytes) : Expr :=
  methods.foldl (fun e method => .or e (matcher "Method" method)) e

theorem text_orMethods (e : Expr) (methods : List Bytes) :
    (orMethods e methods).text 0 = e.text 0 ++ methods.flatMap fun method =>
      ascii " || Method(`" ++ method ++ ascii "`)" := by
  induction methods generalizing e with
  | nil => simp [orMethods]
  | cons method methods ih =>
    have hor : (Expr.or e (matcher "Method" method)).text 0 =
        e.text 0 ++ (ascii " || Method(`" ++ method ++ ascii "`)") := by
      simp [Expr.text, Expr.tokens, wrap, Rules.Token.text, matcher, argTokens]
      rfl
    have := ih (.or e (matcher "Method" method))
    rw [orMethods, foldl_cons, ← orMethods, this, hor, flatMap_cons, append_assoc]

variable {methods : List Bytes} {e : Expr} {route : Route} {raw : RawRoute}

/-- An expression that ends with a disjunction gets parentheses. -/
theorem text_orMethods_operand (e : Expr) (h : methods ≠ []) :
    (orMethods e methods).text 2 = [40] ++ (orMethods e methods).text 0 ++ [41] := by
  obtain ⟨init, last, rfl⟩ := eq_nil_or_concat methods |>.resolve_left h
  simp [orMethods, Expr.text, Expr.tokens, wrap, Rules.Token.text]

theorem intercalate_cons (sep s : Bytes) (l : List Bytes) :
    sep.intercalate (s :: l) = s ++ l.flatMap (sep ++ ·) := by
  induction l generalizing s with
  | nil => simp
  | cons t l ih =>
    rw [intercalate_cons_cons, ih, flatMap_cons]
    simp only [append_assoc]

theorem methodExpression_eq_text (h : methodsExpr methods = some e) :
    methodExpression methods = e.text 2 := by
  cases methods with
  | nil => cases h
  | cons method methods =>
    obtain rfl : orMethods (matcher "Method" method) methods = e :=
      Option.some.inj h
    cases methods with
    | nil =>
      simp only [orMethods, foldl_nil, methodExpression, text_matcher]
      simp
      rfl
    | cons method' methods =>
      show ascii "(" ++ (ascii " || ").intercalate _ ++ ascii ")" = _
      rw [text_orMethods_operand _ (by simp), text_orMethods, text_matcher,
        map_cons, intercalate_cons, flatMap_map]
      simp
      rfl

/-- The rule is the conjunction, written out. -/
theorem publicRule_eq_text (h : publicExpr fqdn route = some e) :
    publicRule fqdn route = e.text 0 := by
  obtain ⟨m, hm, rfl⟩ := Option.map_eq_some_iff.1 h
  have htext : ∀ e₁ e₂ : Expr, (Expr.and (.and (matcher "Host" fqdn) e₁)
      e₂).text 0 = (matcher "Host" fqdn).text 2 ++ [32, 38, 38, 32] ++
        e₁.text 2 ++ [32, 38, 38, 32] ++ e₂.text 2 := by
    intro e₁ e₂
    simp [Expr.text, Expr.tokens, wrap, Rules.Token.text, matcher]
  rw [htext, publicRule, pathExpression_eq_text, methodExpression_eq_text hm, text_matcher]
  simp
  rfl

/-! ## Reading the texts -/

theorem matcher_ok (hname : Rules.IsName (ascii name)) (hs : tick ∉ s) : (matcher name s).Ok :=
  ⟨hname, by simp, by simpa using hs⟩

theorem mem_quoteMeta (h : tick ∈ quoteMeta s) : tick ∈ s := by
  obtain ⟨c, hc, h⟩ := mem_flatMap.1 h
  split at h
  · rcases mem_cons.1 h with h | h
    · exact absurd h (by decide)
    · rwa [mem_singleton.1 h]
  · rwa [mem_singleton.1 h]

/-- The values of parameters have no backtick. -/
def PlainParameters (parameters : List (Bytes × List Bytes)) : Prop :=
  ∀ p ∈ parameters, ∀ v ∈ p.2, tick ∉ v

theorem not_mem_templateSegment (hp : PlainParameters parameters)
    (hs : tick ∉ seg) : tick ∉ templateSegment parameters seg := by
  intro h
  unfold templateSegment at h
  split at h
  · exact hs (mem_quoteMeta h)
  · dsimp only at h
    split at h
    · exact absurd h (by decide)
    · simp only [mem_append] at h
      rcases h with (h | h) | h
      · exact absurd h (by decide)
      · rcases Segments.mem_intercalate h with h | ⟨t, ht, h⟩
        · exact absurd h (by decide)
        · obtain ⟨v, hv, rfl⟩ := mem_map.1 ht
          cases hl : parameters.lookup (seg.drop 1) with
          | none =>
            rw [hl] at hv
            cases hv
          | some values =>
            rw [hl, Option.getD_some] at hv
            obtain ⟨l₁, l₂, hsplit, -⟩ := lookup_eq_some_iff.1 hl
            exact hp (seg.drop 1, values) (by simp [hsplit]) v hv (mem_quoteMeta h)
      · exact absurd h (by decide)

theorem expr_ok (hpath : tick ∉ route.path) (hp : PlainParameters route.parameters) :
    (PathExpression route).expr.Ok := by
  unfold PathExpression
  cases route.mode with
  | matchExact => exact matcher_ok (by decide) hpath
  | matchTemplate =>
    refine matcher_ok (by decide) ?_
    intro h
    simp only [mem_append] at h
    rcases h with (h | h) | h
    · exact absurd h (by decide)
    · rcases Segments.mem_intercalate h with h | ⟨t, ht, h⟩
      · exact absurd h (by decide)
      · rw [map_map] at ht
        obtain ⟨segment, hseg, rfl⟩ := mem_map.1 ht
        rw [Function.comp_apply, regexp_segmentPattern] at h
        refine not_mem_templateSegment hp ?_ h
        exact fun h' => hpath (Segments.mem_of_mem_splitOn hseg h')
    · exact absurd h (by decide)
  | matchPrefix =>
    dsimp only
    split
    · exact matcher_ok (by decide) hpath
    · refine ⟨matcher_ok (by decide) hpath, matcher_ok (by decide) ?_⟩
      simp only [mem_append, mem_singleton, not_or]
      exact ⟨hpath, by decide⟩

theorem orMethods_ok (he : e.Ok) (h : ∀ m ∈ methods, tick ∉ m) : (orMethods e methods).Ok := by
  induction methods generalizing e with
  | nil => exact he
  | cons m methods ih =>
    refine ih ?_ fun m' hm' => h m' (mem_cons_of_mem _ hm')
    exact ⟨he, matcher_ok (by decide) (h m mem_cons_self)⟩

theorem literals_orMethods (e : Expr) (methods : List Bytes) :
    (orMethods e methods).literals = e.literals ++ methods := by
  induction methods generalizing e with
  | nil => simp [orMethods]
  | cons m methods ih =>
    have := ih (.or e (matcher "Method" m))
    rw [orMethods, foldl_cons, ← orMethods, this]
    simp [Expr.literals, matcher]

theorem literals_methodsExpr (h : methodsExpr methods = some e) : e.literals = methods := by
  cases methods with
  | nil => cases h
  | cons m methods =>
    obtain rfl : orMethods (matcher "Method" m) methods = e :=
      Option.some.inj h
    rw [literals_orMethods]
    rfl

theorem methodsExpr_ok (h : methodsExpr methods = some e)
    (hm : ∀ m ∈ methods, tick ∉ m) : e.Ok := by
  cases methods with
  | nil => cases h
  | cons m methods =>
    obtain rfl : orMethods (matcher "Method" m) methods = e :=
      Option.some.inj h
    exact orMethods_ok (matcher_ok (by decide) (hm m mem_cons_self))
      fun m' hm' => hm m' (mem_cons_of_mem _ hm')

/-! ## What `Validate` says about backticks -/

theorem mem_trimLeft_iff (hcut : ∀ w ∈ cut, tick ∉ w) (n : Nat) (s : Bytes) :
    tick ∈ trimLeft cut n s ↔ tick ∈ s := by
  induction n generalizing s with
  | zero => rfl
  | succ n ih =>
    unfold trimLeft
    split
    · rfl
    · rename_i w hw
      have hmem := mem_of_find?_eq_some hw
      have hpre := find?_some hw
      obtain ⟨t, ht⟩ := isPrefixOf_iff_prefix.1 hpre
      rw [ih, ← ht, drop_left, mem_append]
      simp [hcut w hmem]

theorem mem_trimSpace_iff (s : Bytes) : tick ∈ trimSpace s ↔ tick ∈ s := by
  have hspaces : ∀ w ∈ spaces, tick ∉ w := by decide
  have hreversed : ∀ w ∈ spaces.map reverse, tick ∉ w := by decide
  simp only [trimSpace, mem_reverse]
  rw [mem_trimLeft_iff hreversed, mem_reverse, mem_trimLeft_iff hspaces]

theorem upper_eq_tick_iff (c : UInt8) :
    tick = (if 97 ≤ c && c ≤ 122 then c - 32 else c) ↔ tick = c := by
  split
  · rename_i hc
    simp only [Bool.and_eq_true, decide_eq_true_eq, UInt8.le_iff_toNat_le] at hc
    simp only [tick, ← UInt8.toNat_inj]
    have hsub : (c - 32).toNat = c.toNat - 32 :=
      UInt8.toNat_sub_of_le c 32 (UInt8.le_iff_toNat_le.2 (by
        have : (32 : UInt8).toNat = 32 := rfl
        have : (97 : UInt8).toNat = 97 := rfl
        omega))
    have h97 : (97 : UInt8).toNat = 97 := rfl
    have h122 : (122 : UInt8).toNat = 122 := rfl
    have h96 : (96 : UInt8).toNat = 96 := rfl
    omega
  · rfl

theorem mem_toUpper_iff (s : Bytes) : tick ∈ toUpper s ↔ tick ∈ s := by
  fun_induction toUpper s with
  | case1 s ih | case2 s ih =>
    simp only [mem_cons, ih]
    simp [tick]
  | case3 c s _ _ ih =>
    rw [mem_cons, mem_cons, ih, upper_eq_tick_iff]
  | case4 => rfl

theorem validateMethods_eq (h : validateMethods raws = .ok methods) :
    methods = raws.map fun raw => toUpper (trimSpace raw) := by
  induction raws generalizing methods with
  | nil => exact (ok.inj h).symm
  | cons raw raws ih =>
    unfold validateMethods at h
    dsimp only at h
    split at h
    · cases h
    · cases hrest : validateMethods raws with
      | error e => simp [hrest, Except.map] at h
      | ok rest =>
        rw [hrest] at h
        rw [← ok.inj h, map_cons, ← ih hrest]

theorem validateParameters_plain {raw parameters : List (Bytes × List Bytes)}
    (h : validateParameters placeholders raw = .ok parameters) :
    PlainParameters parameters := by
  induction raw generalizing parameters with
  | nil =>
    rw [← ok.inj h]
    intro p hp
    cases hp
  | cons p raw ih =>
    obtain ⟨name, values⟩ := p
    unfold validateParameters at h
    split at h
    · cases h
    · split at h
      · cases h
      · split at h
        · cases h
        · rename_i hnone
          cases hrest : validateParameters placeholders raw with
          | error e => simp [hrest, Except.map] at h
          | ok rest =>
            rw [hrest] at h
            rw [← ok.inj h]
            intro p hp
            rcases mem_cons.1 hp with rfl | hp
            · intro v hv
              have hv' : v ∈ values := by
                rw [sortedSet, mem_insertionSort, mem_dedup] at hv
                exact hv
              have hseg := find?_eq_none.1 hnone v hv'
              simp only [segmentValue, Bool.or_eq_true, decide_eq_true_eq,
                Bool.not_eq_true', not_or, Bool.not_eq_false,
                Bool.and_eq_true, all_eq_true] at hseg
              intro ht
              exact absurd (hseg.2.2 tick ht) (by decide)
            · exact ih hrest p hp

/-- What `Validate` establishes, as far as the texts depend on it. -/
structure Route.Plain (raw : RawRoute) (route : Route) : Prop where
  path : tick ∉ route.path
  parameters : PlainParameters route.parameters
  methods : ∀ m, m ∈ route.methods ↔
    ∃ r ∈ raw.methods, m = toUpper (trimSpace r)
  some_method : raw.methods ≠ []

theorem plain_of_Validate (h : Validate raw = .ok route) : route.Plain raw := by
  have hvalid := valid_of_Validate h
  obtain ⟨mode, -, h⟩ := bind_ok h
  obtain ⟨_, -, h⟩ := bind_ok h
  obtain ⟨_, hsome, h⟩ := bind_ok h
  obtain ⟨methods, hmethods, h⟩ := bind_ok h
  obtain ⟨placeholders, -, h⟩ := bind_ok h
  obtain ⟨_, -, h⟩ := bind_ok h
  obtain ⟨parameters, hparameters, h⟩ := bind_ok h
  obtain rfl := ok.inj h
  refine ⟨?_, validateParameters_plain hparameters, ?_, ?_⟩
  · intro ht
    exact (validatePath_iff.1 hvalid.path).2.2.2.1 tick ht (by decide)
  · intro m
    rw [validateMethods_eq hmethods, sortedSet, mem_insertionSort, mem_dedup, mem_map]
    simp only [eq_comm]
  · intro hnil
    rw [hnil] at hsome
    cases hsome

theorem exists_methodsExpr (h : route.Plain raw) : ∃ e, methodsExpr route.methods = some e := by
  cases hm : route.methods with
  | cons m methods => exact ⟨_, rfl⟩
  | nil =>
    obtain ⟨r, rest, hr⟩ := exists_cons_of_ne_nil h.some_method
    have := (h.methods (toUpper (trimSpace r))).2 ⟨r, by simp [hr], rfl⟩
    rw [hm] at this
    cases this

/-- The methods of the route have a backtick if what the caller wrote has
one. -/
theorem mem_method_iff (h : route.Plain raw) : (∀ m ∈ route.methods, tick ∉ m) ↔
      ∀ m ∈ raw.methods, tick ∉ m := by
  constructor
  · intro hm r hr ht
    have hmem := (h.methods _).2 ⟨r, hr, rfl⟩
    exact hm _ hmem ((mem_toUpper_iff _).2 ((mem_trimSpace_iff r).2 ht))
  · intro hr m hm ht
    obtain ⟨r, hmem, rfl⟩ := (h.methods m).1 hm
    exact hr r hmem ((mem_trimSpace_iff r).1 ((mem_toUpper_iff _).1 ht))

/-- The path of a validated route is read as its matcher. -/
theorem parse_pathExpression (h : route.Plain raw) :
    parse (pathExpression route) = some (PathExpression route).expr := by
  rw [pathExpression_eq_text]
  exact parse_text (expr_ok h.path h.parameters) (le_refl 2)

/-- The texts of a route are read as what they are meant to say, alone and in
the rule of a router. -/
structure Route.ReadAsMeant (route : Route) : Prop where
  path : parse (pathExpression route) = some (PathExpression route).expr
  methods : ∃ e, methodsExpr route.methods = some e ∧
    parse (methodExpression route.methods) = some e
  rule : ∀ fqdn, tick ∉ fqdn → ∃ e, publicExpr fqdn route = some e ∧
    parse (publicRule fqdn route) = some e

/-- The texts of a validated route are read as what they are meant to say, if
and only if no method has a backtick. -/
theorem readAsMeant_iff {raw : RawRoute} {route : Route} (h : Validate raw = .ok route) :
    route.ReadAsMeant ↔ ∀ m ∈ raw.methods, tick ∉ m := by
  have hplain := plain_of_Validate h
  obtain ⟨e, he⟩ := exists_methodsExpr hplain
  rw [← mem_method_iff hplain]
  constructor
  · intro hread m hm
    obtain ⟨e', he', hparse⟩ := hread.methods
    rw [← literals_methodsExpr he'] at hm
    exact Rules.not_mem_of_parse hparse hm
  · intro hm
    have hok := methodsExpr_ok he hm
    refine ⟨parse_pathExpression hplain, ⟨e, he, ?_⟩, ?_⟩
    · rw [methodExpression_eq_text he]
      exact parse_text hok (le_refl 2)
    · intro fqdn hfqdn
      have hrule : publicExpr fqdn route = some (.and (.and
          (matcher "Host" fqdn) (PathExpression route).expr) e) := by
        rw [publicExpr, he, Option.map_some]
      refine ⟨_, hrule, ?_⟩
      rw [publicRule_eq_text hrule]
      refine parse_text ?_ (Nat.zero_le 2)
      exact ⟨⟨matcher_ok (by decide) hfqdn, expr_ok hplain.path hplain.parameters⟩, hok⟩

/-- A route with two methods. -/
def hooksRoute : RawRoute :=
  ⟨ascii "/hooks", ascii "prefix", [ascii " post", ascii "GET"], []⟩

theorem readAsMeant_hooksRoute :
    (∃ route, Validate hooksRoute = .ok route ∧ route.ReadAsMeant) ∧
      ∀ m ∈ hooksRoute.methods, tick ∉ m := by
  have hm : ∀ m ∈ hooksRoute.methods, tick ∉ m := by decide
  refine ⟨⟨⟨ascii "/hooks", .matchPrefix, [ascii "GET", ascii "POST"], []⟩,
    by decide +kernel, ?_⟩, hm⟩
  exact (readAsMeant_iff (by decide +kernel)).2 hm

/-- A method that ends its literal.  It is a token of HTTP and is accepted, but
the expression that it is written into cannot be read. -/
theorem backtick_method_unreadable :
    ∃ route, Validate ⟨ascii "/hooks", [], [ascii "GET`"], []⟩ = .ok route ∧
      methodExpression route.methods = ascii "Method(`GET``)" ∧
      parse (methodExpression route.methods) = none ∧
      ¬route.ReadAsMeant := by
  refine ⟨⟨ascii "/hooks", .matchExact, [ascii "GET`"], []⟩, by decide +kernel,
    by decide +kernel, by decide +kernel, ?_⟩
  intro h
  obtain ⟨e, -, he⟩ := h.methods
  exact absurd (he.symm.trans (by decide +kernel : _ = none)) (by simp)

end Akerdock.Access
