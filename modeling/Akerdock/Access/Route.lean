import Akerdock.Secrets.Envelope

/-!
# Public routes of a protected resource

`internal/accessroute/accessroute.go`: the small language that publishes single
paths of a resource behind an access wall.

* `Validate` turns what a caller wrote into a `Route`, or says what is wrong
  with it.
* `PathExpression` and `MethodExpression` are the matchers that the proxy is
  given.  They are kept as trees here, with `PathMatcher.accepts` for what the
  matchers of the proxy mean.
* `Covers` tells whether a route of the resource can serve a public route at
  all.
-/

namespace Akerdock.Access

open Crypto (Bytes)
open Secrets (ascii)

/-! ## Strings -/

/-- `/`. -/
def slash : UInt8 := 47

/-- `:`. -/
def colon : UInt8 := 58

/-- `.`. -/
def dot : UInt8 := 46

def hasPrefix (s p : Bytes) : Bool :=
  p.isPrefixOf s

theorem hasPrefix_iff : hasPrefix s p = true ↔ p <+: s := by
  simp [hasPrefix, List.isPrefixOf_iff_prefix]

/-- `strings.TrimSuffix(s, "/")`. -/
def trimSlash (s : Bytes) : Bytes :=
  if s.getLast? = some slash then s.dropLast else s

/-- The runes that `strings.TrimSpace` takes away. -/
def spaces : List Bytes :=
  [[9], [10], [11], [12], [13], [32], [0xC2, 0x85], [0xC2, 0xA0],
    [0xE1, 0x9A, 0x80], [0xE2, 0x80, 0x80], [0xE2, 0x80, 0x81],
    [0xE2, 0x80, 0x82], [0xE2, 0x80, 0x83], [0xE2, 0x80, 0x84],
    [0xE2, 0x80, 0x85], [0xE2, 0x80, 0x86], [0xE2, 0x80, 0x87],
    [0xE2, 0x80, 0x88], [0xE2, 0x80, 0x89], [0xE2, 0x80, 0x8A],
    [0xE2, 0x80, 0xA8], [0xE2, 0x80, 0xA9], [0xE2, 0x80, 0xAF],
    [0xE2, 0x81, 0x9F], [0xE3, 0x80, 0x80]]

/-- The text without the words of `cut` that it begins with.  Each round takes
a byte at least, so the length of the text is enough for `n`. -/
def trimLeft (cut : List Bytes) : (n : Nat) → Bytes → Bytes
  | 0, s => s
  | n + 1, s =>
    match cut.find? fun w => w.isPrefixOf s with
    | none => s
    | some w => trimLeft cut n (s.drop w.length)

def trimSpace (s : Bytes) : Bytes :=
  let s := trimLeft spaces s.length s
  (trimLeft (spaces.map List.reverse) s.length s.reverse).reverse

/-- `strings.ToUpper`, as far as the result can be ASCII: two letters outside
of ASCII have their capital in it. -/
def toUpper : Bytes → Bytes
  | 0xC4 :: 0xB1 :: s => 73 :: toUpper s
  | 0xC5 :: 0xBF :: s => 83 :: toUpper s
  | c :: s => (if 97 ≤ c && c ≤ 122 then c - 32 else c) :: toUpper s
  | [] => []

/-- `sort.Strings` of the distinct strings of a list. -/
def sortedSet (l : List Bytes) : List Bytes :=
  l.dedup.insertionSort fun s t => s ≤ t

/-- `fmt.Errorf`: the format and its arguments. -/
structure Errorf where
  format : String
  args : List Bytes
  deriving DecidableEq

/-! ## Routes -/

inductive Match where
  | matchExact
  | matchTemplate
  | matchPrefix
  deriving DecidableEq

/-- A route as a caller writes it.  The matching mode is any text. -/
structure RawRoute where
  path : Bytes
  mode : Bytes
  methods : List Bytes
  parameters : List (Bytes × List Bytes)

/-- `Route`, after `Validate`. -/
structure Route where
  path : Bytes
  mode : Match
  methods : List Bytes
  parameters : List (Bytes × List Bytes)
  deriving DecidableEq

/-- `[A-Z]`. -/
def isUpper (c : UInt8) : Bool :=
  65 ≤ c && c ≤ 90

/-- `[A-Za-z]`. -/
def isLetter (c : UInt8) : Bool :=
  isUpper c || (97 ≤ c && c ≤ 122)

/-- `[0-9]`. -/
def isDigit (c : UInt8) : Bool :=
  48 ≤ c && c ≤ 57

def parameterName : Bytes → Bool
  | [] => false
  | c :: s => (isLetter c || c = 95) && s.all fun c => isLetter c || isDigit c || c = 95

def methodToken : Bytes → Bool
  | [] => false
  | c :: s => isUpper c && s.all fun c =>
      isUpper c || isDigit c || (ascii "!#$%&'*+.^_`|~-").contains c

/-- The unreserved characters `[A-Za-z0-9._~-]`. -/
def isUnreserved (c : UInt8) : Bool :=
  isLetter c || isDigit c || (ascii "._~-").contains c

def segmentValue (s : Bytes) : Bool :=
  !s.isEmpty && s.all isUnreserved

def maxPathBytes : Nat := 2048

/-- `strings.Contains(s, "//")`. -/
def doubleSlash : Bytes → Bool
  | c :: d :: s => (c = slash && d = slash) || doubleSlash (d :: s)
  | _ => false

/-- A condition that ends the validation with an error. -/
def refuse (c : Bool) (format : String) : Except Errorf Unit :=
  if c then .error ⟨format, []⟩ else .ok ()

def validatePath (value : Bytes) : Except Errorf Unit :=
  if value = [] then .error ⟨"path is required", []⟩
  else if value.length > maxPathBytes then
    .error ⟨"path exceeds %d bytes", [ascii "2048"]⟩
  else if !hasPrefix value [slash] then
    .error ⟨"path must start with /", []⟩
  else if value.any fun c => (ascii "?#%`*\\").contains c then
    .error ⟨("path must not contain a query, fragment, percent escape, " ++
             "wildcard, backslash or backtick"), []⟩
  else if value.any fun c => c ≤ 0x20 || c = 0x7f then
    .error ⟨"path must not contain whitespace or control characters", []⟩
  else if doubleSlash value then
    .error ⟨"path must not contain an empty segment", []⟩
  else if (value.splitOn slash).any fun s => s = [dot] || s = [dot, dot] then
    .error ⟨"path must not contain . or .. segments", []⟩
  else .ok ()

/-- The loop of `validateMatchPath`.  It gives the names of the
placeholders. -/
def placeholdersOf (mode : Match) : List Bytes → Except Errorf (List Bytes)
  | [] => .ok []
  | segment :: rest =>
    if !hasPrefix segment [colon] then
      if segment.contains colon then
        .error ⟨"a template placeholder must occupy its whole segment", []⟩
      else placeholdersOf mode rest
    else if mode ≠ .matchTemplate then
      .error ⟨":name placeholders require template matching", []⟩
    else if !parameterName (segment.drop 1) then
      .error ⟨"invalid template parameter %q", [segment.drop 1]⟩
    else (placeholdersOf mode rest).map fun names => segment.drop 1 :: names

def validateMatchPath (value : Bytes) (mode : Match) :
    Except Errorf (List Bytes) := do
  let trimmed := if hasPrefix value [slash] then value.drop 1 else value
  let placeholders ← placeholdersOf mode (trimmed.splitOn slash)
  refuse (mode = .matchTemplate && placeholders.isEmpty)
    "template matching requires at least one :name segment"
  return placeholders

/-- The loop over the methods.  Methods that are there already are left
out. -/
def validateMethods : List Bytes → Except Errorf (List Bytes)
  | [] => .ok []
  | raw :: rest =>
    let method := toUpper (trimSpace raw)
    if method = [] || !methodToken method then
      .error ⟨"invalid HTTP method %q", [raw]⟩
    else (validateMethods rest).map fun methods => method :: methods

def validateParameters (placeholders : List Bytes) :
    List (Bytes × List Bytes) → Except Errorf (List (Bytes × List Bytes))
  | [] => .ok []
  | (name, values) :: rest =>
    if name ∉ placeholders then
      .error ⟨"parameter %q has no matching :%s segment", [name, name]⟩
    else if values = [] then
      .error ⟨"parameter %q must allow at least one value", [name]⟩
    else
      match values.find? fun v =>
          v = [dot] || v = [dot, dot] || !segmentValue v with
      | some v =>
        .error ⟨"parameter %q has invalid URL-segment value %q", [name, v]⟩
      | none =>
        (validateParameters placeholders rest).map fun ps =>
          (name, sortedSet values) :: ps

/-- The switch over the matching mode. -/
def parseMatch (mode : Bytes) : Except Errorf Match :=
  if mode = [] ∨ mode = ascii "exact" then .ok .matchExact
  else if mode = ascii "template" then .ok .matchTemplate
  else if mode = ascii "prefix" then .ok .matchPrefix
  else .error ⟨"match must be exact, template or prefix", []⟩

def Validate (raw : RawRoute) : Except Errorf Route := do
  let mode ← parseMatch raw.mode
  validatePath raw.path
  refuse raw.methods.isEmpty "methods must contain at least one HTTP method"
  let methods ← validateMethods raw.methods
  let placeholders ← validateMatchPath raw.path mode
  refuse (!raw.parameters.isEmpty && mode ≠ .matchTemplate)
    "parameters are only valid with template matching"
  let parameters ← validateParameters placeholders raw.parameters
  return ⟨raw.path, mode, sortedSet methods, parameters⟩

/-! ## Matchers -/

/-- What one segment of a path may be. -/
inductive SegmentPattern where
  | literal (s : Bytes)
  | unreserved
  | oneOf (values : List Bytes)
  deriving DecidableEq

/-- The regular expressions that are built for a segment. -/
def SegmentPattern.accepts : SegmentPattern → Bytes → Bool
  | .literal s, x => x = s
  | .unreserved, x => segmentValue x
  | .oneOf values, x => values.contains x

/-- The matchers of the proxy for paths.  A regular expression is the list of
what its segments may be. -/
inductive PathMatcher where
  | path (p : Bytes)
  | pathPrefix (p : Bytes)
  | pathRegexp (segments : List SegmentPattern)
  | or (m₁ m₂ : PathMatcher)
  deriving DecidableEq

/-- The segments of a path, one by one. -/
def acceptsSegments : List SegmentPattern → List Bytes → Bool
  | [], [] => true
  | p :: ps, s :: ss => p.accepts s && acceptsSegments ps ss
  | _, _ => false

/-- What the matchers mean. -/
def PathMatcher.accepts : PathMatcher → Bytes → Bool
  | .path p, x => x = p
  | .pathPrefix p, x => hasPrefix x p
  | .pathRegexp segments, x => acceptsSegments segments (x.splitOn slash)
  | .or m₁ m₂, x => m₁.accepts x || m₂.accepts x

def segmentPattern (parameters : List (Bytes × List Bytes)) (segment : Bytes) : SegmentPattern :=
  if !hasPrefix segment [colon] then .literal segment
  else
    match parameters.lookup (segment.drop 1) with
    | none => .unreserved
    | some values => if values = [] then .unreserved else .oneOf values

def PathExpression (route : Route) : PathMatcher :=
  match route.mode with
  | .matchPrefix =>
    if route.path = [slash] ∨ route.path.getLast? = some slash then
      .pathPrefix route.path
    else .or (.path route.path) (.pathPrefix (route.path ++ [slash]))
  | .matchTemplate =>
    .pathRegexp ((route.path.splitOn slash).map (segmentPattern route.parameters))
  | .matchExact => .path route.path

/-- The request passes `PathExpression` and `MethodExpression`. -/
def Route.accepts (route : Route) (path method : Bytes) : Bool :=
  (PathExpression route).accepts path && route.methods.contains method

/-- `path[:strings.Index(path, "/:")]`, or all of it. -/
def beforePlaceholder : Bytes → Bytes
  | c :: d :: s =>
    if c = slash && d = colon then [] else c :: beforePlaceholder (d :: s)
  | s => s

def Covers (base : Bytes) (route : Route) : Bool :=
  if base = [] || base = [slash] then true
  else
    let base := trimSlash base
    let path := beforePlaceholder route.path
    path = base || hasPrefix path (base ++ [slash])

theorem bind_ok {f : α → Except ε β} {b : β} (h : x >>= f = .ok b) :
    ∃ a, x = .ok a ∧ f a = .ok b := by
  cases x with
  | error e => cases h
  | ok a => exact ⟨a, rfl, h⟩

end Akerdock.Access
