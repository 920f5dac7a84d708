import Akerdock.Cron.Schedule

/-!
# The earliest occurrence

With one offset for ever, of whole minutes, a skip of `Next` leads to the first
minute of the next month, day or hour, and what it leaves out cannot match.  So
the search finds what the search minute by minute finds.

* `Matches` is the test of one minute.
* `visit_skips` is about one round, `next_earliest` about the search.
-/

namespace Akerdock.Cron.Schedule

open Calendar (monthOf dayNumber month year_month day)

/-- All fields match at an instant. -/
def Matches (s : Schedule) (loc : Location) (t : Int) : Prop :=
  let wall := loc.wall t
  month (wall / 86400) ∈ s.months ∧ s.matchesDay wall = true ∧
    wall % 86400 / 3600 ∈ s.hours ∧ wall % 3600 / 60 ∈ s.minutes

/-- The whole minutes after an instant and before the deadline that match. -/
def occurrences (s : Schedule) (loc : Location) (after : Int) : Set Int :=
  { t | 60 ∣ t ∧ after < t * 1000000000 ∧ t < deadline after ∧ s.Matches loc t }

/-- The least of the instants, or none if there is none. -/
def Earliest (S : Set Int) : Option Int → Prop
  | some t => IsLeast S t
  | none => S = ∅

theorem matches_of_found {s : Schedule} (h : s.visit loc t = none) : s.Matches loc t := by
  unfold visit at h
  unfold Matches
  dsimp only at h ⊢
  split_ifs at h
  simp_all

section Fixed

variable {s : Schedule} {offset t : Int}

@[simp] theorem wall_fixed (t : Int) : (Location.fixed offset).wall t = t + offset := rfl

@[simp] theorem date_fixed (wall : Int) : (Location.fixed offset).date wall = wall - offset := by
  unfold Location.date Location.dateZone
  dsimp only
  split <;> rfl

theorem dayStart_eq (wall : Int) : dayStart wall = 86400 * (wall / 86400) := by
  unfold dayStart
  rw [Calendar.dayNumber_day]

theorem later_dayStart (wall : Int) :
    Location.later 0 1 (dayStart wall) = 86400 * (wall / 86400 + 1) := by
  have hday := Calendar.dayNumber_day (wall / 86400)
  unfold Location.later
  rw [dayStart_eq, Int.mul_ediv_cancel_left _ (by decide)]
  unfold dayNumber at hday ⊢
  dsimp only
  rw [Int.add_zero]
  omega

theorem monthStart_eq (wall : Int) : monthStart wall =
    86400 * Calendar.monthStart (monthOf (wall / 86400)) := by
  unfold monthStart dayNumber
  rw [year_month]
  omega

theorem later_monthStart (wall : Int) : Location.later 1 0 (monthStart wall) =
    86400 * Calendar.monthStart (monthOf (wall / 86400) + 1) := by
  have hmonth : monthOf
      (Calendar.monthStart (monthOf (wall / 86400))) =
        monthOf (wall / 86400) :=
    Calendar.monthOf_eq_iff.2 ⟨le_rfl, Calendar.monthStart_succ _⟩
  have hfirst := year_month (Calendar.monthStart (monthOf (wall / 86400)))
  rw [hmonth] at hfirst
  unfold Location.later
  rw [monthStart_eq, Int.mul_ediv_cancel_left _ (by decide)]
  unfold dayNumber day
  dsimp only
  rw [hmonth, show ∀ y m : Int, 12 * y + (m + 1 - 1) = 12 * y + (m - 1) + 1 by
    intros; omega, hfirst]
  omega

theorem matchesDay_congr (h : wall / 86400 = w / 86400) : s.matchesDay wall = s.matchesDay w := by
  unfold matchesDay
  rw [h]

/-- A round that goes on leads to a later whole minute, and no minute before
that one matches. -/
theorem visit_skips (hoffset : 60 ∣ offset) (ht : 60 ∣ t)
    (h : s.visit (.fixed offset) t = some u) :
    60 ∣ u + 60 ∧ t < u + 60 ∧ ∀ t', 60 ∣ t' → t ≤ t' → t' < u + 60 →
      ¬s.Matches (.fixed offset) t' := by
  unfold visit at h
  unfold Matches
  dsimp only at h ⊢
  split_ifs at h with hmonth hday hhour hminute <;>
    simp only [Location.addDate, wall_fixed, date_fixed, sub_add_cancel] at *
  · have hbounds := Calendar.monthOf_bounds ((t + offset) / 86400)
    rw [later_monthStart] at h
    have h := Option.some.inj h
    refine ⟨by omega, by omega, ?_⟩
    intro t' _ hle hlt hmatch
    have hsame : monthOf ((t' + offset) / 86400) = monthOf ((t + offset) / 86400) :=
      Calendar.monthOf_eq_iff.2 (by omega)
    have hmem := hmatch.1
    unfold month at hmem hmonth
    rw [hsame] at hmem
    simp [hmem] at hmonth
  · rw [later_dayStart] at h
    have h := Option.some.inj h
    refine ⟨by omega, by omega, ?_⟩
    intro t' _ hle hlt hmatch
    have hsame : (t' + offset) / 86400 = (t + offset) / 86400 := by omega
    rw [matchesDay_congr hsame] at hmatch
    simp [hmatch] at hday
  · unfold hourStart at h
    rw [dayStart_eq] at h
    have h := Option.some.inj h
    refine ⟨by omega, by omega, ?_⟩
    intro t' _ hle hlt hmatch
    have hsame : (t' + offset) % 86400 / 3600 = (t + offset) % 86400 / 3600 := by
      omega
    have hmem := hmatch.2.2.1
    rw [hsame] at hmem
    simp [hmem] at hhour
  · have h := Option.some.inj h
    refine ⟨by omega, by omega, ?_⟩
    intro t' ht' hle hlt hmatch
    have hsame : t' = t := by omega
    have hmem := hmatch.2.2.2
    rw [hsame] at hmem
    exact hminute (by simpa using hmem)

/-- The search from a whole minute on, with as many rounds as there are seconds
left. -/
theorem search_earliest (hoffset : 60 ∣ offset) {deadline : Int} (rounds : Nat)
    (ht : 60 ∣ t) (hrounds : deadline ≤ t + rounds) :
    ∃ r, s.search (.fixed offset) deadline (rounds + 1) t = some r ∧
      Earliest { t' | 60 ∣ t' ∧ t ≤ t' ∧ t' < deadline ∧ s.Matches (.fixed offset) t' } r := by
  induction rounds generalizing t with
  | zero =>
    rw [search, if_neg (by omega)]
    refine ⟨none, rfl, Set.eq_empty_of_forall_notMem ?_⟩
    intro t' h
    have := h.2
    omega
  | succ rounds ih =>
    rw [search]
    split
    · next hlt =>
      split
      · next hfound =>
        refine ⟨some t, rfl, ⟨ht, le_rfl, hlt, matches_of_found hfound⟩, ?_⟩
        exact fun t' h => h.2.1
      · next u hu =>
        obtain ⟨hu60, htu, hskip⟩ := visit_skips hoffset ht hu
        obtain ⟨r, hr, hearliest⟩ := ih hu60 (by push_cast at hrounds; omega)
        refine ⟨r, hr, ?_⟩
        have hset : { t' | 60 ∣ t' ∧ t ≤ t' ∧ t' < deadline ∧
            s.Matches (.fixed offset) t' } = { t' | 60 ∣ t' ∧ u + 60 ≤ t' ∧
              t' < deadline ∧ s.Matches (.fixed offset) t' } := by
          ext t'
          constructor
          · intro h
            refine ⟨h.1, ?_, h.2.2⟩
            by_contra hlt'
            exact hskip t' h.1 h.2.1 (by omega) h.2.2.2
          · intro h
            exact ⟨h.1, htu.le.trans h.2.1, h.2.2⟩
        rw [hset]
        exact hearliest
    · next hend =>
      refine ⟨none, rfl, Set.eq_empty_of_forall_notMem ?_⟩
      intro t' h
      have := h.2
      omega

end Fixed

theorem start_dvd (after : Int) : 60 ∣ start after := by
  unfold start
  omega

theorem occurrences_eq (s : Schedule) (loc : Location) (after : Int) : s.occurrences loc after =
    { t | 60 ∣ t ∧ start after ≤ t ∧ t < deadline after ∧ s.Matches loc t } := by
  ext t
  have hafter : 60 ∣ t → (after < t * 1000000000 ↔ start after ≤ t) := by
    unfold start
    omega
  exact and_congr_right fun ht => and_congr_left' (hafter ht)

/-- In a zone of one offset, of whole minutes, the search ends and finds the
earliest whole minute that matches, or that there is none. -/
theorem next_earliest (s : Schedule) {offset : Int} (h : 60 ∣ offset)
    (after : Int) {rounds : Nat} (hrounds : 158112000 < rounds) :
    ∃ r, s.Next (.fixed offset) rounds after = some r ∧
      Earliest (s.occurrences (.fixed offset) after) r := by
  obtain ⟨rounds, rfl⟩ : ∃ n, rounds = n + 1 := ⟨rounds - 1, by omega⟩
  rw [occurrences_eq]
  refine search_earliest h rounds (start_dvd after) ?_
  unfold deadline
  omega

/-- Half past two on the 29th of February, an hour east. -/
theorem next_earliest_leapDay : ∃ s r,
    Parse (Secrets.ascii "30 2 29 2 *") = .ok s ∧
      s.Next (.fixed 3600) 158112001 1704067200000000000 = some r ∧
      Earliest (s.occurrences (.fixed 3600) 1704067200000000000) r := by
  have hs : Parse (Secrets.ascii "30 2 29 2 *") = .ok ⟨[30], [2], [29], [2],
      [0, 1, 2, 3, 4, 5, 6], true, false⟩ := by
    decide +kernel
  obtain ⟨r, hr⟩ := next_earliest ⟨[30], [2], [29], [2],
    [0, 1, 2, 3, 4, 5, 6], true, false⟩ (by decide : (60 : Int) ∣ 3600)
    1704067200000000000 (by decide : 158112000 < 158112001)
  exact ⟨_, r, hs, hr⟩

end Akerdock.Cron.Schedule
