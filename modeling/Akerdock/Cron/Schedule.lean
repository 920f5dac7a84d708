import Akerdock.Lib.Calendar
import Akerdock.Proxy.Domains

/-!
# Cron expressions

`internal/cronexpr` reads the expressions of backup plans and scheduled tasks,
and finds their next occurrence.

* `Parse` reads the five fields.
* `Location` is a time zone as the tables have it: the offset in force at an
  instant, and since when and until when it is.  `Location.date` is
  `time.Date`, which has to guess the offset from the clock on the wall.
* `Schedule.Next` is the search.  Its loop leaves out the rest of a month, of a
  day or of an hour that cannot match, and does so on the clock on the wall.
-/

namespace Akerdock.Cron

open Crypto (Bytes)
open Secrets (ascii)
open Access (spaces trimSpace)
open Proxy (Cut Atoi)
open Calendar (dayNumber year month day weekday)

/-! ## Reading an expression -/

inductive FieldError where
  | emptyValue (field : Bytes)
  | invalidStep (part : Bytes)
  | invertedRange (part : Bytes)
  | notANumber (s : Bytes)
  | outOfRange (v minVal maxVal : Int)
  | noValue (field : Bytes)
  | unfinished
  deriving DecidableEq

/-- The number of fields, or the name of the field that is wrong. -/
inductive ParseError where
  | fields (n : Nat)
  | field (name : String) (e : FieldError)
  deriving DecidableEq

/-- `strconv.Atoi`, for an int of 64 bits. -/
def atoi (s : Bytes) : Option Int :=
  (Atoi s).filter fun v => -2 ^ 63 ≤ v && v < 2 ^ 63

def boundedValue (s : Bytes) (minVal maxVal : Int) : Except FieldError Int :=
  match atoi (trimSpace s) with
  | none => .error (.notANumber s)
  | some v =>
    if v < minVal || v > maxVal then .error (.outOfRange v minVal maxVal)
    else .ok v

/-- The values from `v` to `hi` by `step`, in so many rounds.  The sum wraps
around. -/
def expand (hi step : Int) : Nat → Int → Option (List Int)
  | 0, _ => none
  | rounds + 1, v =>
    if v ≤ hi then
      (expand hi step rounds ((v + step).bmod (2 ^ 64))).map (v :: ·)
    else some []

def parseStep (part : Bytes) : Except FieldError (Int × Bytes) :=
  match Cut part 47 with
  | none => .ok (1, part)
  | some (base, stepStr) =>
    match atoi stepStr with
    | none => .error (.invalidStep part)
    | some n => if n < 1 then .error (.invalidStep part) else .ok (n, base)

/-- The range of a part.  A bare value with a step goes on to the end. -/
def parseRange (step : Int) (part : Bytes) (minVal maxVal : Int) : Except FieldError (Int × Int) :=
  if part = ascii "*" then .ok (minVal, maxVal)
  else match Cut part 45 with
  | some (loStr, hiStr) => do
    let lo ← boundedValue loStr minVal maxVal
    let hi ← boundedValue hiStr minVal maxVal
    if lo > hi then throw (.invertedRange part) else return (lo, hi)
  | none => do
    let v ← boundedValue part minVal maxVal
    return (v, if step > 1 then maxVal else v)

def parsePart (field part : Bytes) (minVal maxVal : Int) : Except FieldError (List Int) :=
  if part = [] then .error (.emptyValue field)
  else do
    let (step, base) ← parseStep part
    let (lo, hi) ← parseRange step base minVal maxVal
    match expand hi step 256 lo with
    | none => throw .unfinished
    | some values => return values

def parseField (field : Bytes) (minVal maxVal : Int) :
    Except FieldError (List Int) := do
  let values ← (field.splitOn 44).mapM fun part => parsePart field part minVal maxVal
  if values.flatten = [] then throw (.noValue field) else return values.flatten

/-- A parsed expression. -/
structure Schedule where
  minutes : List Int
  hours : List Int
  days : List Int
  months : List Int
  weekdays : List Int
  dayRestricted : Bool
  weekdayRestricted : Bool
  deriving DecidableEq

/-- `strings.Fields`: `field` is what was read of the field at hand. -/
def fields : (n : Nat) → (field s : Bytes) → List Bytes
  | 0, field, _ => [field].filter (· ≠ [])
  | _ + 1, field, [] => [field].filter (· ≠ [])
  | n + 1, field, c :: s =>
    match spaces.find? fun w => w.isPrefixOf (c :: s) with
    | some w => [field].filter (· ≠ []) ++ fields n [] ((c :: s).drop w.length)
    | none => fields n (field ++ [c]) s

/-- A field of the expression, under its name. -/
def namedField (name : String) (field : Bytes) (minVal maxVal : Int) :
    Except ParseError (List Int) :=
  (parseField field minVal maxVal).mapError (.field name)

def Parse (expr : Bytes) : Except ParseError Schedule :=
  match fields expr.length [] expr with
  | [minute, hour, day, month, weekday] => do
    return {
      minutes := ← namedField "minute" minute 0 59
      hours := ← namedField "hour" hour 0 23
      days := ← namedField "day of month" day 1 31
      months := ← namedField "month" month 1 12
      weekdays := ← namedField "day of week" weekday 0 6
      dayRestricted := day ≠ ascii "*"
      weekdayRestricted := weekday ≠ ascii "*" }
  | fields => .error (.fields fields.length)

/-! ## Time zones -/

/-- An offset in seconds, from the instant `start` on and before the instant
`stop`. -/
structure Zone where
  offset : Int
  start : Option Int
  stop : Option Int

/-- The offset is in force. -/
def Zone.Has (z : Zone) (t : Int) : Prop :=
  (∀ a ∈ z.start, a ≤ t) ∧ ∀ b ∈ z.stop, t < b

instance (z : Zone) (t : Int) : Decidable (z.Has t) :=
  inferInstanceAs (Decidable (_ ∧ _))

/-- `time.Location`: the zones follow each other, any number of them. -/
structure Location where
  lookup : Int → Zone
  has : ∀ t, (lookup t).Has t
  same : ∀ t u, (lookup t).Has u → lookup u = lookup t

namespace Location

variable (loc : Location)

/-- The clock on the wall, read as if it were UTC. -/
def wall (t : Int) : Int :=
  t + (loc.lookup t).offset

/-- The zone that `time.Date` takes for a time on the wall: the one that would
be in force at that time of UTC, or else the one that is in force then. -/
def dateZone (wall : Int) : Zone :=
  let zone := loc.lookup wall
  if zone.Has (wall - zone.offset) then zone
  else loc.lookup (wall - zone.offset)

def date (wall : Int) : Int :=
  wall - (loc.dateZone wall).offset

/-- A time on the wall, so many months and days later. -/
def later (months days wall : Int) : Int :=
  let n := wall / 86400
  86400 * dayNumber (year n) (month n + months)
    (day n + days) + wall % 86400

def addDate (months days t : Int) : Int :=
  loc.date (later months days (loc.wall t))

/-- One offset for ever. -/
def fixed (offset : Int) : Location where
  lookup _ := ⟨offset, none, none⟩
  has t := by simp [Zone.Has]
  same _ _ _ := rfl

/-- The offset changes once. -/
def change (before at' after : Int) : Location where
  lookup t := if t < at' then ⟨before, none, some at'⟩
    else ⟨after, some at', none⟩
  has t := by
    split <;> simp [Zone.Has] <;> omega
  same t u h := by
    by_cases ht : t < at'
    · rw [if_pos ht] at h ⊢
      exact if_pos (by simpa [Zone.Has] using h)
    · rw [if_neg ht] at h ⊢
      exact if_neg (by simpa [Zone.Has] using h)

end Location

/-! ## The search -/

namespace Schedule

variable (s : Schedule) (loc : Location)

/-- The rule for days, at a time on the wall. -/
def matchesDay (wall : Int) : Bool :=
  let day := s.days.contains (day (wall / 86400))
  let weekday := s.weekdays.contains (weekday (wall / 86400))
  if s.dayRestricted && s.weekdayRestricted then day || weekday
  else day && weekday

/-- Midnight at the start of the month and of the day, and the start of the
hour. -/
def monthStart (wall : Int) : Int :=
  86400 * dayNumber (year (wall / 86400)) (month (wall / 86400)) 1

def dayStart (wall : Int) : Int :=
  86400 * dayNumber (year (wall / 86400))
    (month (wall / 86400)) (day (wall / 86400))

def hourStart (wall : Int) : Int :=
  dayStart wall + 3600 * (wall % 86400 / 3600)

/-- The body of the loop: the time that it ends with, or none if it returns. -/
def visit (t : Int) : Option Int :=
  let wall := loc.wall t
  if !s.months.contains (month (wall / 86400)) then
    some (loc.addDate 1 0 (loc.date (monthStart wall)) - 60)
  else if !s.matchesDay wall then
    some (loc.addDate 0 1 (loc.date (dayStart wall)) - 60)
  else if !s.hours.contains (wall % 86400 / 3600) then
    some (loc.date (hourStart wall) + (3600 - 60))
  else if s.minutes.contains (wall % 3600 / 60) then none
  else some t

/-- The loop, in so many rounds: none if they are not enough, and then the zero
time as the inner none. -/
def search (deadline : Int) : Nat → Int → Option (Option Int)
  | 0, _ => none
  | rounds + 1, t =>
    if t < deadline then
      match s.visit loc t with
      | none => some (some t)
      | some u => search deadline rounds (u + 60)
    else some none

/-- The first whole minute after an instant, which is in nanoseconds. -/
def start (after : Int) : Int :=
  after / 60000000000 * 60 + 60

def deadline (after : Int) : Int :=
  start after + 5 * 366 * 24 * 60 * 60

def Next (rounds : Nat) (after : Int) : Option (Option Int) :=
  s.search loc (deadline after) rounds (start after)

end Schedule

end Akerdock.Cron
