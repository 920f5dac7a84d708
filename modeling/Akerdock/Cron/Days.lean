import Akerdock.Cron.Earliest
import Akerdock.Cron.Fields

/-!
# The days of a schedule

When both the days of the month and the days of the week are restricted, either
one is enough, and `Parse` takes a field to be restricted unless its text is `*`.

* `next_extensional_iff` says when two expressions whose fields stand for the same
  sets have the same occurrences.
* `next_found_iff` says when the search finds an occurrence if there is one: the
  days of a schedule come back every year, unless they are the 29th of February.
  Those are four years apart, and eight where a century is skipped.
-/

namespace Akerdock.Cron.Schedule

open Calendar

open Crypto (Bytes)
open Secrets (ascii)
open Access (bind_ok)

variable {s s' : Schedule} {expr : Bytes}

/-! ## Parsed schedules -/

/-- The fields of an expression, with their bounds. -/
def boundedFields (expr : Bytes) : List (Bytes × Int × Int) :=
  (fields expr.length [] expr).zip [(0, 59), (0, 23), (1, 31), (1, 12), (0, 6)]

theorem namedField_ok (h : namedField name field lo hi = .ok values) :
    parseField field lo hi = .ok values := by
  unfold namedField at h
  cases hfield : parseField field lo hi with
  | error e => simp [hfield, Except.mapError] at h
  | ok values' => simpa [hfield, Except.mapError] using h

theorem parse_ok (h : Parse expr = .ok s) : ∃ minute hour day month weekday,
    boundedFields expr = [(minute, 0, 59), (hour, 0, 23), (day, 1, 31), (month, 1, 12),
      (weekday, 0, 6)] ∧
    parseField minute 0 59 = .ok s.minutes ∧ parseField hour 0 23 = .ok s.hours ∧
    parseField day 1 31 = .ok s.days ∧ parseField month 1 12 = .ok s.months ∧
    parseField weekday 0 6 = .ok s.weekdays ∧
    s.dayRestricted = decide (day ≠ ascii "*") ∧
    s.weekdayRestricted = decide (weekday ≠ ascii "*") := by
  unfold Parse at h
  split at h
  · next minute hour day month weekday hfields =>
    obtain ⟨minutes, hminutes, h⟩ := bind_ok h
    obtain ⟨hours, hhours, h⟩ := bind_ok h
    obtain ⟨days, hdays, h⟩ := bind_ok h
    obtain ⟨months, hmonths, h⟩ := bind_ok h
    obtain ⟨weekdays, hweekdays, h⟩ := bind_ok h
    cases h
    exact ⟨minute, hour, day, month, weekday, by rw [boundedFields, hfields]; rfl,
      namedField_ok hminutes, namedField_ok hhours, namedField_ok hdays, namedField_ok hmonths,
      namedField_ok hweekdays, rfl, rfl⟩
  · cases h

/-- What the fields of a parsed expression have. -/
structure Parsed (s : Schedule) : Prop where
  minute : ∃ v ∈ s.minutes, 0 ≤ v ∧ v ≤ 59
  hour : ∃ v ∈ s.hours, 0 ≤ v ∧ v ≤ 23
  someWeekday : ∃ v ∈ s.weekdays, 0 ≤ v ∧ v ≤ 6
  day : s.dayRestricted = false → ∀ v, 1 ≤ v → v ≤ 31 → v ∈ s.days
  weekday : s.weekdayRestricted = false → ∀ v, 0 ≤ v → v ≤ 6 → v ∈ s.weekdays

theorem parsed_of_parse (h : Parse expr = .ok s) : s.Parsed := by
  obtain ⟨minute, hour, day, month, weekday, -, hminutes, hhours, hdays, -, hweekdays, hday,
    hweekday⟩ := parse_ok h
  refine ⟨parseField_mem le_rfl (by decide) le_rfl hminutes,
    parseField_mem le_rfl (by decide) (by decide) hhours,
    parseField_mem le_rfl (by decide) (by decide) hweekdays, ?_, ?_⟩
  · intro hstar v hlo hhi
    have hall : parseField (ascii "*") 1 31 =
        .ok ((List.range 31).map fun n : Nat => 1 + (n : Int)) := by
      decide +kernel
    rw [hday] at hstar
    rw [Decidable.not_not.1 (of_decide_eq_false hstar), hall] at hdays
    rw [← Except.ok.inj hdays]
    exact List.mem_map.2 ⟨(v - 1).toNat, List.mem_range.2 (by omega), by omega⟩
  · intro hstar v hlo hhi
    have hall : parseField (ascii "*") 0 6 = .ok ((List.range 7).map fun n : Nat => (n : Int)) := by
      decide +kernel
    rw [hweekday] at hstar
    rw [Decidable.not_not.1 (of_decide_eq_false hstar), hall] at hweekdays
    rw [← Except.ok.inj hweekdays]
    exact List.mem_map.2 ⟨v.toNat, List.mem_range.2 (by omega), Int.toNat_of_nonneg hlo⟩

/-! ## Expressions with the same sets -/

/-- Corresponding fields stand for the same values. -/
def SameSets (expr expr' : Bytes) : Prop :=
  List.Forall₂ (fun f f' => ∀ v, Denoted f.1 f.2.1 f.2.2 v ↔ Denoted f'.1 f'.2.1 f'.2.2 v)
    (boundedFields expr) (boundedFields expr')

/-- No sum leaves the 64 bits in any field. -/
abbrev AllFit (expr : Bytes) : Prop :=
  ∀ f ∈ boundedFields expr, Fits f.1 f.2.1 f.2.2

/-- The fields let the same values through. -/
structure SameValues (s s' : Schedule) : Prop where
  minutes : ∀ v, v ∈ s.minutes ↔ v ∈ s'.minutes
  hours : ∀ v, v ∈ s.hours ↔ v ∈ s'.hours
  days : ∀ v, v ∈ s.days ↔ v ∈ s'.days
  months : ∀ v, v ∈ s.months ↔ v ∈ s'.months
  weekdays : ∀ v, v ∈ s.weekdays ↔ v ∈ s'.weekdays

theorem SameValues.symm (h : SameValues s s') : SameValues s' s :=
  ⟨fun v => (h.minutes v).symm, fun v => (h.hours v).symm,
    fun v => (h.days v).symm, fun v => (h.months v).symm,
    fun v => (h.weekdays v).symm⟩

/-- What is let through is what the fields stand for. -/
theorem sameValues_iff {expr' : Bytes} (hs : Parse expr = .ok s) (hs' : Parse expr' = .ok s')
    (hfits : AllFit expr) (hfits' : AllFit expr') : SameValues s s' ↔ SameSets expr expr' := by
  obtain ⟨f₁, f₂, f₃, f₄, f₅, hfields, h₁, h₂, h₃, h₄, h₅, -⟩ := parse_ok hs
  obtain ⟨f₁', f₂', f₃', f₄', f₅', hfields', h₁', h₂', h₃', h₄', h₅', -⟩ := parse_ok hs'
  unfold AllFit SameSets at *
  rw [hfields] at hfits ⊢
  rw [hfields'] at hfits' ⊢
  simp only [List.forall_mem_cons] at hfits hfits'
  obtain ⟨hf₁, hf₂, hf₃, hf₄, hf₅, -⟩ := hfits
  obtain ⟨hf₁', hf₂', hf₃', hf₄', hf₅', -⟩ := hfits'
  have e₁ := (exact_of_fits le_rfl (by decide) (by decide) h₁ hf₁).union
  have e₂ := (exact_of_fits le_rfl (by decide) (by decide) h₂ hf₂).union
  have e₃ := (exact_of_fits (by decide) (by decide) (by decide) h₃ hf₃).union
  have e₄ := (exact_of_fits (by decide) (by decide) (by decide) h₄ hf₄).union
  have e₅ := (exact_of_fits le_rfl (by decide) (by decide) h₅ hf₅).union
  have e₁' := (exact_of_fits le_rfl (by decide) (by decide) h₁' hf₁').union
  have e₂' := (exact_of_fits le_rfl (by decide) (by decide) h₂' hf₂').union
  have e₃' := (exact_of_fits (by decide) (by decide) (by decide) h₃' hf₃').union
  have e₄' := (exact_of_fits (by decide) (by decide) (by decide) h₄' hf₄').union
  have e₅' := (exact_of_fits le_rfl (by decide) (by decide) h₅' hf₅').union
  simp only [List.forall₂_cons, List.forall₂_nil_left_iff, and_true, ← e₁, ← e₂, ← e₃, ← e₄, ← e₅,
    ← e₁', ← e₂', ← e₃', ← e₄', ← e₅']
  exact ⟨fun h => ⟨h.minutes, h.hours, h.days, h.months, h.weekdays⟩,
    fun h => ⟨h.1, h.2.1, h.2.2.1, h.2.2.2.1, h.2.2.2.2⟩⟩

/-- Either one of the fields for days is enough. -/
def either (s : Schedule) : Bool :=
  s.dayRestricted && s.weekdayRestricted

/-- Both fields for days let every day of the months through. -/
def EveryDay (s : Schedule) : Prop :=
  ∀ n, month n ∈ s.months → day n ∈ s.days ∧ weekday n ∈ s.weekdays

/-- The results of a search, with as many rounds as it takes. -/
def Returns (s : Schedule) (loc : Location) (after : Int) (r : Option Int) : Prop :=
  ∃ rounds, s.Next loc rounds after = some r

theorem contains_congr {l l' : List Int} (h : ∀ v, v ∈ l ↔ v ∈ l') (v : Int) :
    l.contains v = l'.contains v := by
  rw [Bool.eq_iff_iff, List.contains_iff_mem, List.contains_iff_mem, h]

theorem visit_congr (h : SameValues s s') (hday : s.either = s'.either ∨ s.EveryDay)
    (loc : Location) (t : Int) : s.visit loc t = s'.visit loc t := by
  unfold visit
  dsimp only
  rw [contains_congr h.months, contains_congr h.hours, contains_congr h.minutes]
  split
  · rfl
  · next hmonth =>
    have hmatches : s.matchesDay (loc.wall t) = s'.matchesDay (loc.wall t) := by
      unfold matchesDay
      rw [contains_congr h.days, contains_congr h.weekdays]
      rcases hday with hflags | hevery
      · unfold either at hflags
        rw [hflags]
      · have hin := hevery (loc.wall t / 86400) (by simpa [h.months] using hmonth)
        rw [h.days, h.weekdays] at hin
        simp [hin]
    rw [hmatches]

theorem returns_found (h : s.Returns loc after (some r)) : s.Matches loc r := by
  obtain ⟨rounds, h⟩ := h
  unfold Next at h
  generalize start after = t at h
  induction rounds generalizing t with
  | zero => cases h
  | succ rounds ih =>
    rw [search] at h
    split at h
    · split at h
      · next hvisit =>
        cases Option.some.inj h
        exact matches_of_found hvisit
      · exact ih _ h
    · cases h

/-- A minute that matches is found by a search that starts there. -/
theorem returns_of_matches (ht : 60 ∣ t) (h : s.Matches loc t) :
    s.Returns loc ((t - 60) * 1000000000) (some t) := by
  have hstart : start ((t - 60) * 1000000000) = t := by
    unfold start
    omega
  have hvisit : s.visit loc t = none := by
    unfold Matches at h
    unfold visit
    simp_all
  refine ⟨1, ?_⟩
  unfold Next deadline
  rw [hstart, search, if_pos (by omega), hvisit]

/-- The days that a schedule lets through. -/
def OnDay (s : Schedule) (n : Int) : Prop :=
  month n ∈ s.months ∧ s.matchesDay (86400 * n) = true

theorem matchesDay_eq (n : Int) : s.matchesDay (86400 * n) =
    if s.either then s.days.contains (day n) || s.weekdays.contains (weekday n)
    else s.days.contains (day n) && s.weekdays.contains (weekday n) := by
  rw [matchesDay, Int.mul_ediv_cancel_left n (by decide)]
  rfl

/-- The schedule has this time of the day, in seconds. -/
def Moment (s : Schedule) (time : Int) : Prop :=
  ∃ hour ∈ s.hours, ∃ minute ∈ s.minutes, 0 ≤ hour ∧ hour ≤ 23 ∧ 0 ≤ minute ∧ minute ≤ 59 ∧
    time = 3600 * hour + 60 * minute

theorem matches_iff (ht : 60 ∣ t) :
    s.Matches (.fixed 0) t ↔ s.OnDay (t / 86400) ∧ s.Moment (t % 86400) := by
  unfold Matches OnDay
  dsimp only
  rw [wall_fixed, Int.add_zero, matchesDay_congr (w := 86400 * (t / 86400)) (by omega)]
  constructor
  · rintro ⟨hmonth, hday, hhour, hminute⟩
    exact ⟨⟨hmonth, hday⟩, _, hhour, _, hminute, by omega⟩
  · rintro ⟨hday, hour, hhour, minute, hminute, hbounds⟩
    rw [show t % 86400 / 3600 = hour by omega, show t % 3600 / 60 = minute by omega]
    exact ⟨hday.1, hday.2, hhour, hminute⟩

theorem Parsed.moment (hs : s.Parsed) : ∃ time, s.Moment time := by
  obtain ⟨hour, hhour, hhour0, hhour23⟩ := hs.hour
  obtain ⟨minute, hminute, hminute0, hminute59⟩ := hs.minute
  exact ⟨_, hour, hhour, minute, hminute, hhour0, hhour23, hminute0, hminute59, rfl⟩

theorem Moment.bounds (h : s.Moment time) : 60 ∣ time ∧ 0 ≤ time ∧ time < 86400 := by
  obtain ⟨hour, -, minute, -, h⟩ := h
  omega

/-- A day that is let through has a minute that matches. -/
theorem matches_onDay (h : s.OnDay n) (htime : s.Moment time) :
    60 ∣ 86400 * n + time ∧ s.Matches (.fixed 0) (86400 * n + time) := by
  have hbounds := htime.bounds
  have ht : 60 ∣ 86400 * n + time := by omega
  refine ⟨ht, (matches_iff ht).2 ?_⟩
  rw [show (86400 * n + time) / 86400 = n by omega,
    show (86400 * n + time) % 86400 = time by omega]
  exact ⟨h, htime⟩

/-- If one expression asks for either field and the other one for both, and not
every day is let through by both, then some minute is an occurrence of the first
one only. -/
theorem returns_ne (hs : s.Parsed) (hs' : s'.Parsed) (h : SameValues s s')
    (heither : s.either = true) (hboth : s'.either = false)
    (hday : ¬s.EveryDay) : ∃ after r, s.Returns (.fixed 0) after (some r) ∧
      ¬s'.Returns (.fixed 0) after (some r) := by
  unfold EveryDay at hday
  push Not at hday
  obtain ⟨n, hmonth, hday⟩ := hday
  have hone : day n ∈ s.days ∨ weekday n ∈ s.weekdays := by
    have hbounds := day_bounds n
    rcases Bool.and_eq_false_iff.1 hboth with hstar | hstar
    · exact .inl ((h.days _).2 (hs'.day hstar _ hbounds.1 hbounds.2))
    · refine .inr ((h.weekdays _).2 (hs'.weekday hstar _ ?_ ?_)) <;> unfold weekday <;> omega
  have hn : s.OnDay n := ⟨hmonth, by simpa [matchesDay_eq, heither] using hone⟩
  obtain ⟨time, htime⟩ := hs.moment
  have hbounds := htime.bounds
  obtain ⟨ht, hmatch⟩ := matches_onDay hn htime
  refine ⟨_, _, returns_of_matches ht hmatch, ?_⟩
  intro hreturns
  have hmatches := (returns_found hreturns).2.1
  rw [wall_fixed, Int.add_zero, matchesDay_congr (w := 86400 * n) (by omega),
    matchesDay_eq, hboth] at hmatches
  simp [← h.days, ← h.weekdays] at hmatches
  exact hday hmatches.1 hmatches.2

/-- Two expressions whose fields stand for the same sets, without a step that
wraps around, have the same occurrences exactly if both of them or neither asks
for either field for days, or every day of the months is let through by both
fields. -/
theorem next_extensional_iff {expr' : Bytes} (hs : Parse expr = .ok s)
    (hs' : Parse expr' = .ok s') (hfits : AllFit expr) (hfits' : AllFit expr')
    (hsets : SameSets expr expr') :
    (∀ loc after r, s.Returns loc after r ↔ s'.Returns loc after r) ↔
      s.either = s'.either ∨ s.EveryDay := by
  have h := (sameValues_iff hs hs' hfits hfits').2 hsets
  constructor
  · intro hsame
    by_contra hdiffers
    push Not at hdiffers
    have hs := parsed_of_parse hs
    have hs' := parsed_of_parse hs'
    cases heither : s.either with
    | true =>
      obtain ⟨after, r, hr, hr'⟩ := returns_ne hs hs' h heither
        (by simpa [heither] using hdiffers.1) hdiffers.2
      exact hr' ((hsame _ _ _).1 hr)
    | false =>
      have hday : ¬s'.EveryDay := by
        simpa only [EveryDay, h.months, h.days, h.weekdays] using hdiffers.2
      obtain ⟨after, r, hr, hr'⟩ := returns_ne hs' hs h.symm
        (by simpa [heither] using hdiffers.1) heither hday
      exact hr' ((hsame _ _ _).2 hr)
  · intro hday loc after r
    have hsearch : ∀ deadline rounds t, s.search loc deadline rounds t =
        s'.search loc deadline rounds t := by
      intro deadline rounds
      induction rounds with
      | zero => exact fun _ => rfl
      | succ rounds ih =>
        intro t
        simp only [search, visit_congr h hday, ih]
    exact exists_congr fun rounds => by rw [Next, Next, hsearch]

/-- Every day of every month, or the ones on these weekdays. -/
def midnight (minutes weekdays : List Int) (dayRestricted weekdayRestricted : Bool) : Schedule where
  minutes := minutes
  hours := [0]
  days := (List.range 31).map fun n => n + 1
  months := (List.range 12).map fun n => n + 1
  weekdays := weekdays
  dayRestricted := dayRestricted
  weekdayRestricted := weekdayRestricted

/-- The first two half hours of a day, written in two ways. -/
theorem next_extensional_iff_halves : ∃ s s', Parse (ascii "0,30 0 * * *") = .ok s ∧
    Parse (ascii "30,0 0 */1 * *") = .ok s' ∧ s ≠ s' ∧
    ∀ loc after r, s.Returns loc after r ↔ s'.Returns loc after r := by
  have hs : Parse (ascii "0,30 0 * * *") =
      .ok (midnight [0, 30] [0, 1, 2, 3, 4, 5, 6] false false) := by
    decide +kernel
  have hs' : Parse (ascii "30,0 0 */1 * *") =
      .ok (midnight [30, 0] [0, 1, 2, 3, 4, 5, 6] true false) := by
    decide +kernel
  have hfits : AllFit (ascii "0,30 0 * * *") ∧ AllFit (ascii "30,0 0 */1 * *") := by
    decide +kernel
  refine ⟨_, _, hs, hs', by decide, (next_extensional_iff hs hs' hfits.1 hfits.2 ?_).2 (.inl rfl)⟩
  refine (sameValues_iff hs hs' hfits.1 hfits.2).1
    ⟨fun v => ?_, fun _ => .rfl, fun _ => .rfl, fun _ => .rfl, fun _ => .rfl⟩
  simp [midnight, or_comm]

/-- Mondays at midnight, with the days of the month written as `*` or as `*/1`.
The second of January 1970 was no Monday. -/
theorem step_of_one_restricts : ∃ s s',
    Parse (ascii "0 0 * * 1") = .ok s ∧ Parse (ascii "0 0 */1 * 1") = .ok s' ∧
      SameSets (ascii "0 0 * * 1") (ascii "0 0 */1 * 1") ∧
      s'.Returns (.fixed 0) 86340000000000 (some 86400) ∧
      ¬s.Returns (.fixed 0) 86340000000000 (some 86400) := by
  have hs : Parse (ascii "0 0 * * 1") = .ok (midnight [0] [1] false true) ∧
      Parse (ascii "0 0 */1 * 1") = .ok (midnight [0] [1] true true) := by
    decide +kernel
  have hfits : AllFit (ascii "0 0 * * 1") ∧ AllFit (ascii "0 0 */1 * 1") := by
    decide +kernel
  refine ⟨_, _, hs.1, hs.2, (sameValues_iff hs.1 hs.2 hfits.1 hfits.2).1
    ⟨fun _ => .rfl, fun _ => .rfl, fun _ => .rfl, fun _ => .rfl, fun _ => .rfl⟩,
    ⟨1, by decide +kernel⟩, ?_⟩
  intro h
  have hmatches := (returns_found h).2.1
  revert hmatches
  decide +kernel

/-! ## Days that come back -/

/-- The 29th of February is the only date of the schedule. -/
def OnlyLeapDays (s : Schedule) : Prop :=
  (∃ n, s.OnDay n) ∧ ∀ n, s.OnDay n → month n = 2 ∧ day n = 29

/-- The five years lie between two 29ths of February that are eight years apart,
around a year that is a multiple of four and no leap year. -/
def CenturyGap (s : Schedule) (after : Int) : Prop :=
  ∃ century, century % 100 = 0 ∧ century % 400 ≠ 0 ∧ ∀ time, s.Moment time →
    86400 * dayNumber (century - 4) 2 29 + time < start after ∧
      deadline after ≤ 86400 * dayNumber (century + 4) 2 29 + time

/-- Some whole minute after an instant matches. -/
def Occurs (s : Schedule) (after : Int) : Prop :=
  ∃ t, 60 ∣ t ∧ after < t * 1000000000 ∧ s.Matches (.fixed 0) t

/-- A date that is not the 29th of February comes back in every year. -/
theorem onDay_year (hs : s.Parsed) (h : s.OnDay n)
    (hleap : ¬(month n = 2 ∧ day n = 29)) (y : Int) :
    ∃ n', s.OnDay n' ∧ year n' = y := by
  obtain ⟨hmonth, hday⟩ := h
  rw [matchesDay_eq] at hday
  -- The same date, and the same day of the week in the first week.
  obtain ⟨n₁, hyear₁, hmonth₁, hday₁⟩ := exists_date n hleap y
  obtain ⟨n₂, hyear₂, hmonth₂, hweekday₂⟩ := exists_weekday (w := weekday n) (month_bounds n).1
    (month_bounds n).2 (by unfold weekday; omega) (by unfold weekday; omega) y
  have hbounds₂ := day_bounds n₂
  have hon₁ : s.weekdayRestricted = false ∨ s.either = true → day n ∈ s.days → s.OnDay n₁ := by
    intro hrule hin
    refine ⟨hmonth₁ ▸ hmonth, ?_⟩
    rw [matchesDay_eq, hday₁]
    rcases hrule with hstar | heither
    · have hweekday := hs.weekday hstar (weekday n₁)
        (by unfold weekday; omega) (by unfold weekday; omega)
      simp [hin, hweekday]
    · simp [hin, heither]
  have hon₂ : s.dayRestricted = false ∨ s.either = true →
      weekday n ∈ s.weekdays → s.OnDay n₂ := by
    intro hrule hin
    refine ⟨hmonth₂ ▸ hmonth, ?_⟩
    rw [matchesDay_eq, hweekday₂]
    rcases hrule with hstar | heither
    · have hday := hs.day hstar _ hbounds₂.1 hbounds₂.2
      simp [hin, hday]
    · simp [hin, heither]
  cases heither : s.either with
  | true =>
    simp [heither] at hday
    rcases hday with hin | hin
    · exact ⟨n₁, hon₁ (.inr heither) hin, hyear₁⟩
    · exact ⟨n₂, hon₂ (.inr heither) hin, hyear₂⟩
  | false =>
    simp [heither] at hday
    rcases Bool.and_eq_false_iff.1 heither with hstar | hstar
    · exact ⟨n₂, hon₂ (.inl hstar) hday.2, hyear₂⟩
    · exact ⟨n₁, hon₁ (.inl hstar) hday.1, hyear₁⟩

/-- An occurrence in a year after the one of the start, and not too late. -/
theorem occurrences_of_year (hn : s.OnDay n) (htime : s.Moment time)
    (hlo : year (start after / 86400) < year n) (hhi : n < start after / 86400 + 1829) :
    (s.occurrences (.fixed 0) after).Nonempty := by
  have hbounds := htime.bounds
  obtain ⟨ht, hmatch⟩ := matches_onDay hn htime
  have hle := yearStart_strictMono.monotone (show year (start after / 86400) + 1 ≤ year n by omega)
  have hstart := year_bounds (start after / 86400)
  have hyear := year_bounds n
  rw [occurrences_eq]
  refine ⟨_, ht, by omega, ?_, hmatch⟩
  unfold deadline
  omega

theorem occurrences_nonempty (hs : s.Parsed) (hn : s.OnDay n)
    (hleap : ¬(month n = 2 ∧ day n = 29)) (after : Int) :
    (s.occurrences (.fixed 0) after).Nonempty := by
  obtain ⟨time, htime⟩ := hs.moment
  obtain ⟨n', hn', hyear⟩ := onDay_year hs hn hleap (year (start after / 86400) + 1)
  refine occurrences_of_year hn' htime (by omega) ?_
  have hstart := year_bounds (start after / 86400)
  have hbounds := year_bounds n'
  rw [hyear] at hbounds
  generalize year (start after / 86400) = y at *
  have hleap₁ := leapDay_bounds y
  have hleap₂ := leapDay_bounds (y + 1)
  have hnext₁ := yearStart_succ y
  have hnext₂ := yearStart_succ (y + 1)
  omega

/-- With the 29th of February as its only date, a schedule has all of them. -/
theorem OnlyLeapDays.onDay (hs : s.Parsed) (h : s.OnlyLeapDays) (hy : leapDay y = 1) :
    s.OnDay (dayNumber y 2 29) := by
  obtain ⟨⟨n, hmonth, hday⟩, honly⟩ := h
  obtain ⟨hfeb, h29⟩ := honly n ⟨hmonth, hday⟩
  rw [hfeb] at hmonth
  -- In 1970 the schedule has no date, so no day of the week is enough.
  have hnone : ∀ w, 0 ≤ w → w ≤ 6 → w ∈ s.weekdays →
      s.dayRestricted = false ∨ s.either = true → False := by
    intro w hw hw' hin hrule
    obtain ⟨n', hyear', hmonth', hweekday'⟩ :=
      exists_weekday (m := 2) (by decide) (by decide) hw hw' 1970
    have hon : s.OnDay n' := by
      refine ⟨hmonth' ▸ hmonth, ?_⟩
      rw [matchesDay_eq, hweekday']
      rcases hrule with hstar | heither
      · have hall := hs.day hstar _ (day_bounds n').1 (day_bounds n').2
        simp [hin, hall]
      · simp [hin, heither]
    have hleap := (eq_leap_date (honly n' hon).1 (honly n' hon).2).1
    rw [hyear'] at hleap
    revert hleap
    decide
  have hstar : s.weekdayRestricted = false := by
    by_contra hrestricted
    obtain ⟨w, hin, hw, hw'⟩ := hs.someWeekday
    cases hdays : s.dayRestricted with
    | false => exact hnone w hw hw' hin (.inl hdays)
    | true => exact hnone w hw hw' hin (.inr (by simpa [either, hdays] using hrestricted))
  have hall : ∀ n', weekday n' ∈ s.weekdays := fun n' =>
    hs.weekday hstar _ (by unfold weekday; omega) (by unfold weekday; omega)
  obtain ⟨-, hmonth', hday'⟩ := leap_date hy
  refine ⟨by rwa [hmonth'], ?_⟩
  rw [matchesDay_eq, h29] at hday
  rw [matchesDay_eq, hday']
  simpa [hall, either, hstar] using hday

/-- A multiple of four that is no leap year is a century. -/
theorem century_of_leapDay (h : y % 4 = 0) (hleap : leapDay y ≠ 1) :
    y % 100 = 0 ∧ y % 400 ≠ 0 := by
  unfold leapDay at hleap
  split at hleap
  · exact absurd rfl hleap
  · omega

theorem leapDay_around (h : c % 100 = 0) (h' : c % 400 ≠ 0) :
    leapDay (c - 4) = 1 ∧ leapDay c = 0 ∧ leapDay (c + 4) = 1 := by
  unfold leapDay
  refine ⟨if_pos (by omega), if_neg (by omega), if_pos (by omega)⟩

/-- The 29ths of February that are searched for: there is one, unless the
search lies around a century without one. -/
theorem occurrences_leapDays (hs : s.Parsed) (h : s.OnlyLeapDays) (after : Int) :
    (s.occurrences (.fixed 0) after).Nonempty ↔ ¬s.CenturyGap after := by
  constructor
  · rintro ⟨t, ht⟩ ⟨c, hc, hc', hgap⟩
    rw [occurrences_eq] at ht
    obtain ⟨ht60, hstart, hdeadline, hmatch⟩ := ht
    obtain ⟨hday, htime⟩ := (matches_iff ht60).1 hmatch
    obtain ⟨hleap, hdate⟩ := eq_leap_date (h.2 _ hday).1 (h.2 _ hday).2
    have hgap := hgap _ htime
    rw [dayNumber_leap] at hdate hgap
    rw [dayNumber_leap] at hgap
    have hlo := yearStart_strictMono.lt_iff_lt.1
      (show yearStart (c - 4) < yearStart (year (t / 86400)) by omega)
    have hhi := yearStart_strictMono.lt_iff_lt.1
      (show yearStart (year (t / 86400)) < yearStart (c + 4) by omega)
    have hmod : year (t / 86400) % 4 = 0 := by
      by_contra hne
      unfold leapDay at hleap
      rw [if_neg fun h => hne h.1] at hleap
      cases hleap
    rw [show year (t / 86400) = c by omega, (leapDay_around hc hc').2.1] at hleap
    cases hleap
  · intro hgap
    by_contra hnone
    refine hgap ?_
    -- The multiple of four after the year of the start is not a leap year.
    have hstart := year_bounds (start after / 86400)
    obtain ⟨y, hy⟩ : ∃ y, year (start after / 86400) = y := ⟨_, rfl⟩
    rw [hy] at hstart
    have hsucc : ∀ k, yearStart k + 365 ≤ yearStart (k + 1) ∧
        yearStart (k + 1) ≤ yearStart k + 366 := by
      intro k
      have hleap := leapDay_bounds k
      rw [yearStart_succ]
      omega
    have h₁ := hsucc y
    have h₂ := hsucc (y + 1)
    have h₃ := hsucc (y + 1 + 1)
    have h₄ := hsucc (y + 1 + 1 + 1)
    obtain ⟨c, hc⟩ : ∃ c, c = y + 4 - y % 4 := ⟨_, rfl⟩
    have hcentury : c % 100 = 0 ∧ c % 400 ≠ 0 := by
      refine century_of_leapDay (by omega) fun hleap => hnone ?_
      obtain ⟨time, htime⟩ := hs.moment
      refine occurrences_of_year (h.onDay hs hleap) htime ?_ ?_
      · rw [(leap_date hleap).1, hy]
        omega
      · have hle := yearStart_strictMono.monotone (show c ≤ y + 1 + 1 + 1 + 1 by omega)
        rw [dayNumber_leap]
        omega
    obtain ⟨hbefore, -, hlater⟩ := leapDay_around hcentury.1 hcentury.2
    refine ⟨c, hcentury.1, hcentury.2, fun time htime => ?_⟩
    have hbounds := htime.bounds
    have hmiss : ∀ n, s.OnDay n → ¬(start after ≤ 86400 * n + time ∧
        86400 * n + time < deadline after) := by
      intro n hn hin
      obtain ⟨ht, hmatch⟩ := matches_onDay hn htime
      refine hnone ?_
      rw [occurrences_eq]
      exact ⟨_, ht, hin.1, hin.2, hmatch⟩
    have hmiss₁ := hmiss _ (h.onDay hs hbefore)
    have hmiss₂ := hmiss _ (h.onDay hs hlater)
    have hle₁ := yearStart_strictMono.monotone (show c - 4 ≤ y by omega)
    have hle₂ := yearStart_strictMono.monotone (show y + 1 ≤ c + 4 by omega)
    simp only [dayNumber_leap] at hmiss₁ hmiss₂ ⊢
    unfold deadline at *
    omega

theorem OnlyLeapDays.occurs (hs : s.Parsed) (h : s.OnlyLeapDays) (after : Int) :
    s.Occurs after := by
  let y := 400 * (year (start after / 86400) / 400 + 1)
  have hleap : leapDay y = 1 := if_pos (by omega)
  obtain ⟨time, htime⟩ := hs.moment
  obtain ⟨ht, hmatch⟩ := matches_onDay (h.onDay hs hleap) htime
  have hbounds := htime.bounds
  have hstart := year_bounds (start after / 86400)
  have hle := yearStart_strictMono.monotone
    (show year (start after / 86400) + 1 ≤ y by omega)
  refine ⟨_, ht, ?_, hmatch⟩
  rw [dayNumber_leap]
  unfold start at *
  omega

/-- The search finds an occurrence if there is one, except for a schedule of the
29th of February only, where the search lies around a century without one. -/
theorem next_found_iff (h : Parse expr = .ok s) (after : Int) {rounds : Nat}
    (hrounds : 158112000 < rounds) :
    (s.Occurs after → ∃ t, s.Next (.fixed 0) rounds after = some (some t)) ↔
      ¬(s.OnlyLeapDays ∧ s.CenturyGap after) := by
  have hs := parsed_of_parse h
  obtain ⟨rounds, rfl⟩ : ∃ n, rounds = n + 1 := ⟨rounds - 1, by omega⟩
  have hdeadline : deadline after ≤ start after + rounds := by
    unfold deadline
    omega
  obtain ⟨r, hr, hearliest⟩ :=
    search_earliest (s := s) (dvd_zero 60) rounds (start_dvd after) hdeadline
  rw [← occurrences_eq] at hearliest
  have hfound : (∃ t, s.Next (.fixed 0) (rounds + 1) after = some (some t)) ↔
      (s.occurrences (.fixed 0) after).Nonempty := by
    rw [Next, hr]
    cases r with
    | none => simp [show s.occurrences (.fixed 0) after = ∅ from hearliest]
    | some t => exact iff_of_true ⟨t, rfl⟩ ⟨t, hearliest.1⟩
  rw [hfound]
  by_cases hleap : s.OnlyLeapDays
  · rw [occurrences_leapDays hs hleap]
    simp [hleap, hleap.occurs hs after]
  · refine iff_of_true ?_ fun h => hleap h.1
    rintro ⟨t, ht, -, hmatch⟩
    have hday := ((matches_iff ht).1 hmatch).1
    by_contra hnone
    refine hleap ⟨⟨_, hday⟩, fun n hn => ?_⟩
    by_contra hother
    exact hnone (occurrences_nonempty hs hn hother after)

/-- Midnight of the 29th of February. -/
def leapDays : Schedule :=
  ⟨[0], [0], [29], [2], [0, 1, 2, 3, 4, 5, 6], true, false⟩

theorem parse_leapDays : Parse (ascii "0 0 29 2 *") = .ok leapDays := by
  decide +kernel

/-- In 1970 there is no century near. -/
theorem next_found_iff_leapDays :
    ∃ t, leapDays.Next (.fixed 0) 158112001 0 = some (some t) := by
  refine (next_found_iff parse_leapDays 0 (by decide)).2 ?_ ?_
  · rintro ⟨-, c, hc, -, hgap⟩
    have hgap := hgap 0 ⟨0, by decide, 0, by decide, by decide⟩
    rw [dayNumber_leap, dayNumber_leap] at hgap
    unfold yearStart deadline start at hgap
    omega
  · refine ⟨68169600, by decide, by decide, ?_⟩
    unfold Matches
    decide +kernel

/-- The year 2100 has no 29th of February, so after that of 2096 the next one is
eight years away. -/
theorem century_missed : ∃ s, Parse (ascii "0 0 29 2 *") = .ok s ∧
    s.Occurs 3981398400000000000 ∧ s.Returns (.fixed 0) 3981398400000000000 none := by
  refine ⟨leapDays, parse_leapDays, ⟨4233686400, by decide, by decide, ?_⟩,
    1000, by decide +kernel⟩
  unfold Matches
  decide +kernel

end Akerdock.Cron.Schedule
