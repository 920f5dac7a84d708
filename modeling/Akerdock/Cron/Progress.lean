import Akerdock.Cron.Earliest

/-!
# Progress of the search

A skip of `Next` goes from the instant to the clock on the wall, moves that to
the start of an hour or to a midnight, and comes back with `time.Date`.  Where
the offset changes, a time on the wall can be two instants, of which
`time.Date` takes one, or none, and then it moves the clock.

* `date_once`: a time that the clock shows once is taken for that instant, so
  the skips of months and days gain time where this holds of the midnights
  around them, which is `Plain`.
* `Repeats` says of an instant, from the change of the offset before it, that
  the start of its hour is taken for one that is an hour ago or more.
  `hour_gains_iff` is the skip of an hour, `progress_iff` the search.
* `repeated_hour_loops` is the search that does not end.
-/

namespace Akerdock.Cron

namespace Location

variable (loc : Location)

/-- In three days the offset changes once at most, and it is a day at most. -/
structure Sparse : Prop where
  offset (t : Int) : -86400 ≤ (loc.lookup t).offset ∧ (loc.lookup t).offset ≤ 86400
  change {t u v : Int} : t ≤ u → u ≤ v → v ≤ t + 259200 →
    loc.lookup u = loc.lookup t ∨ loc.lookup u = loc.lookup v

/-- The clock shows a time at one instant, earlier times before it and later
times after it. -/
def Once (wall p : Int) : Prop :=
  loc.wall p = wall ∧ (∀ t < p, loc.wall t < wall) ∧ ∀ t, p < t → wall < loc.wall t

/-- By how much the clock is set back at an instant. -/
def setBack (b : Int) : Int :=
  (loc.lookup (b - 1)).offset - (loc.lookup b).offset

/-- The clock was set back by what is left of the hour or more, and, by the
offset in force, the hour began before that.  Where the clock shows less than
UTC had at the change, it may also have begun in the stretch that is repeated. -/
def Repeats (t : Int) : Prop :=
  ∃ b ≤ t, 3600 ≤ loc.wall t % 3600 + loc.setBack b ∧
    (t - loc.wall t % 3600 < b ∨
      t - loc.wall t % 3600 < b + loc.setBack b ∧ loc.wall t - loc.wall t % 3600 < b)

variable {loc}

theorem Once.lt_iff (h : loc.Once w p) : t < p ↔ loc.wall t < w := by
  refine ⟨h.2.1 t, fun hlt => ?_⟩
  rcases lt_trichotomy t p with hp | rfl | hp
  · exact hp
  · exact absurd h.1 hlt.ne
  · exact absurd (h.2.2 t hp) hlt.not_gt

/-- The second lookup of `time.Date` finds the zone of the first one again if
that is in force. -/
theorem dateZone_eq (w : Int) :
    loc.dateZone w = loc.lookup (w - (loc.lookup w).offset) := by
  unfold dateZone
  dsimp only
  split
  · next h => exact (loc.same _ _ h).symm
  · rfl

theorem date_once (hloc : loc.Sparse) (h : loc.Once w p) : loc.date w = p := by
  have hp : p + (loc.lookup p).offset = w := h.1
  have hoffset := hloc.offset p
  have hoffset' := hloc.offset w
  unfold date
  rw [dateZone_eq]
  generalize hy : w - (loc.lookup w).offset = y
  suffices hzone : loc.lookup y = loc.lookup p by
    rw [hzone]
    omega
  by_cases hw : loc.lookup p = loc.lookup w
  · rw [show y = p by rw [hw] at hp; omega]
  · have hyw : loc.lookup y ≠ loc.lookup w := by
      intro heq
      have hwall : loc.wall y = w := by
        unfold Location.wall
        rw [heq]
        omega
      rcases lt_trichotomy y p with hlt | rfl | hlt
      · exact (h.2.1 y hlt).ne hwall
      · exact hw heq
      · exact (h.2.2 y hlt).ne' hwall
    -- Neither is in the zone of the time itself, and there is only one more.
    rcases le_total y p with hle | hle <;> rcases le_total w y with hwy | hwy <;>
      rcases le_total w p with hwp | hwp <;> grind [hloc.change]

theorem exists_change (hlt : u < t) (hne : loc.lookup u ≠ loc.lookup t) :
    ∃ b, u < b ∧ b ≤ t ∧ loc.lookup (b - 1) ≠ loc.lookup b := by
  have hhas := loc.has t
  obtain ⟨b, hb, hub⟩ : ∃ b ∈ (loc.lookup t).start, u < b := by
    by_contra! hstart
    exact hne (loc.same t u ⟨hstart, fun c hc => hlt.trans (hhas.2 c hc)⟩)
  have hbt := hhas.1 b hb
  have hat : loc.lookup b = loc.lookup t :=
    loc.same t b ⟨fun a ha => (Option.mem_unique ha hb).le, fun c hc => hbt.trans_lt (hhas.2 c hc)⟩
  refine ⟨b, hub, hbt, fun heq => ?_⟩
  have hbefore := (loc.has (b - 1)).1 b (by rwa [heq, hat])
  omega

/-- The offsets on both sides of a change. -/
theorem offset_near (hloc : loc.Sparse) (hb : loc.lookup (b - 1) ≠ loc.lookup b) (x : Int)
    (hx : b ≤ x + 259200) (hx' : x < b + 259200) : (loc.lookup x).offset =
      if x < b then (loc.lookup (b - 1)).offset else (loc.lookup b).offset := by
  split
  · have hchange := hloc.change (t := x) (u := b - 1) (v := b) (by omega) (by omega) hx
    rw [hchange.resolve_right hb]
  · have hchange := hloc.change (t := b - 1) (u := b) (v := x) (by omega) (by omega) (by omega)
    rw [hchange.resolve_left hb.symm]

end Location

namespace Schedule

theorem hourStart_eq (wall : Int) : hourStart wall = wall - wall % 3600 := by
  unfold hourStart
  rw [dayStart_eq]
  omega

/-- The skip of an hour gains time exactly if the clock was not set back so
that the start of the hour is taken for an earlier one. -/
theorem hour_gains_iff {loc : Location} (hloc : loc.Sparse) (t : Int) :
    t < loc.date (hourStart (loc.wall t)) + 3600 ↔ ¬loc.Repeats t := by
  have hoffset := hloc.offset t
  have hwall : loc.wall t = t + (loc.lookup t).offset := rfl
  rw [hourStart_eq, ← not_le, not_iff_not]
  unfold Location.date
  rw [Location.dateZone_eq]
  generalize hH : loc.wall t - loc.wall t % 3600 = H
  generalize hy : H - (loc.lookup H).offset = y
  have hoffsetH := hloc.offset H
  have hoffsety := hloc.offset y
  constructor
  · intro hle
    have hne : loc.lookup y ≠ loc.lookup t := fun heq => by
      rw [heq] at hle
      omega
    -- The zones of `y` and of `t` are those before and after one change.
    obtain ⟨b, hspan, hb⟩ : ∃ b, (y < b ∧ b ≤ t ∨ t < b ∧ b ≤ y) ∧
        loc.lookup (b - 1) ≠ loc.lookup b := by
      rcases lt_trichotomy y t with hlt | rfl | hlt
      · obtain ⟨b, hyb, hbt, hb⟩ := Location.exists_change hlt hne
        exact ⟨b, .inl ⟨hyb, hbt⟩, hb⟩
      · exact absurd rfl hne
      · obtain ⟨b, htb, hby, hb⟩ := Location.exists_change hlt hne.symm
        exact ⟨b, .inr ⟨htb, hby⟩, hb⟩
    have ht := Location.offset_near hloc hb t (by omega) (by omega)
    have hH' := Location.offset_near hloc hb H (by omega) (by omega)
    have hy' := Location.offset_near hloc hb y (by omega) (by omega)
    refine ⟨b, ?_⟩
    unfold Location.setBack
    split_ifs at ht hH' hy' <;> omega
  · rintro ⟨b, hbt, hrest, hbegan⟩
    have hoffsetb := hloc.offset b
    have hoffsetb' := hloc.offset (b - 1)
    unfold Location.setBack at hrest hbegan
    have hb : loc.lookup (b - 1) ≠ loc.lookup b := fun heq => by
      rw [heq] at hrest
      omega
    have ht := Location.offset_near hloc hb t (by omega) (by omega)
    have hH' := Location.offset_near hloc hb H (by omega) (by omega)
    have hy' := Location.offset_near hloc hb y (by split_ifs at * <;> omega)
      (by split_ifs at * <;> omega)
    split_ifs at ht hH' hy' <;> omega

variable (s : Schedule) (loc : Location)

/-- The search is at an hour that the schedule leaves out, on a day that it
does not, and finds the start of the hour too early. -/
def Stays (t : Int) : Prop :=
  Calendar.month (loc.wall t / 86400) ∈ s.months ∧ s.matchesDay (loc.wall t) = true ∧
    loc.wall t % 86400 / 3600 ∉ s.hours ∧ loc.Repeats t

/-- The search is on a day that the schedule does not leave out, or the clock
shows the midnights of a month before and after it once. -/
def Plain (t : Int) : Prop :=
  (Calendar.month (loc.wall t / 86400) ∈ s.months ∧ s.matchesDay (loc.wall t) = true) ∨
    ∀ n, loc.wall t / 86400 - 31 ≤ n → n ≤ loc.wall t / 86400 + 31 → ∃ p, loc.Once (86400 * n) p

variable {s loc}

/-- From one midnight to the next is as on the wall. -/
theorem skip_gains {months days : Int} (hloc : loc.Sparse) (hp : loc.Once (86400 * n) p)
    (hq : loc.Once (86400 * m) q) (hlater : Location.later months days (86400 * n) = 86400 * m)
    (hlt : loc.wall t < 86400 * m) :
    t < loc.addDate months days (loc.date (86400 * n)) := by
  unfold Location.addDate
  rw [Location.date_once hloc hp, hp.1, hlater, Location.date_once hloc hq]
  exact hq.lt_iff.2 hlt

/-- One round of the loop. -/
theorem lt_visit_iff (hloc : loc.Sparse) (hplain : s.Plain loc t)
    (h : s.visit loc t = some u) : t < u + 60 ↔ ¬s.Stays loc t := by
  unfold visit at h
  unfold Stays
  unfold Plain at hplain
  dsimp only at h
  split_ifs at h with hmonth hday hhour hminute <;> have h := Option.some.inj h
  · have hbounds := Calendar.monthOf_bounds (loc.wall t / 86400)
    have hlength := Calendar.monthStart_bounds (Calendar.monthOf (loc.wall t / 86400))
    have hplain := hplain.resolve_left fun hin => by simp [hin.1] at hmonth
    obtain ⟨p, hp⟩ := hplain (Calendar.monthStart (Calendar.monthOf (loc.wall t / 86400)))
      (by omega) (by omega)
    obtain ⟨q, hq⟩ := hplain (Calendar.monthStart (Calendar.monthOf (loc.wall t / 86400) + 1))
      (by omega) (by omega)
    have hgain := skip_gains (t := t) hloc hp hq
      (monthStart_eq _ ▸ later_monthStart (loc.wall t)) (by omega)
    rw [← monthStart_eq] at hgain
    exact iff_of_true (by omega) fun hstays => by simp [hstays.1] at hmonth
  · have hplain := hplain.resolve_left fun hin => by simp [hin.2] at hday
    obtain ⟨p, hp⟩ := hplain (loc.wall t / 86400) (by omega) (by omega)
    obtain ⟨q, hq⟩ := hplain (loc.wall t / 86400 + 1) (by omega) (by omega)
    have hgain := skip_gains (t := t) hloc hp hq
      (dayStart_eq _ ▸ later_dayStart (loc.wall t)) (by omega)
    rw [← dayStart_eq] at hgain
    exact iff_of_true (by omega) fun hstays => by simp [hstays.2.1] at hday
  · have hgain := hour_gains_iff hloc t
    rw [show u + 60 = loc.date (hourStart (loc.wall t)) + 3600 by omega, hgain]
    simp_all
  · exact iff_of_true (by omega) fun hstays => by simp [hstays.2.2.1] at hhour

variable (s loc)

/-- One round of the loop that goes on. -/
def Round (deadline t t' : Int) : Prop :=
  t < deadline ∧ ∃ u, s.visit loc t = some u ∧ t' = u + 60

/-- The instants at which the search begins a round. -/
def Visits (after t : Int) : Prop :=
  Relation.ReflTransGen (s.Round loc (deadline after)) (start after) t

variable {s loc}

/-- With rounds that all gain time, as many rounds as there are seconds left
are enough. -/
theorem search_ends {deadline : Int} (n : Nat) (hn : deadline ≤ t + n)
    (h : ∀ t' u, t ≤ t' → t' < deadline → s.visit loc t' = some u → t' < u + 60) :
    (s.search loc deadline (n + 1) t).isSome := by
  induction n generalizing t with
  | zero =>
    rw [search, if_neg (by omega)]
    rfl
  | succ n ih =>
    rw [search]
    split
    · next ht =>
      split
      · rfl
      · next u hu =>
        have hlt := h t u le_rfl ht hu
        exact ih (by push_cast at hn; omega) fun t' u' hle => h t' u' (by omega)
    · rfl

end Schedule

/-- The end of daylight-saving time in Paris in 2024. -/
def paris : Location :=
  .change 7200 1729990800 3600

namespace Schedule

theorem paris_sparse : paris.Sparse where
  offset t := by
    unfold paris Location.change
    dsimp only
    split <;> decide
  change {t u v} htu huv _ := by
    unfold paris Location.change
    dsimp only
    split_ifs <;> first | exact .inl rfl | exact .inr rfl | omega

theorem paris_offset (t : Int) :
    (paris.lookup t).offset = if t < 1729990800 then 7200 else 3600 := by
  unfold paris Location.change
  dsimp only
  split <;> rfl

theorem paris_midnight (n : Int) : ∃ p, paris.Once (86400 * n) p := by
  refine ⟨86400 * n - if n ≤ 20023 then 7200 else 3600, ?_⟩
  unfold Location.Once Location.wall
  simp only [paris_offset]
  grind

theorem paris_repeats (t : Int) : ¬paris.Repeats t := by
  rintro ⟨b, hb, hrest, hbegan⟩
  unfold Location.setBack Location.wall at *
  simp only [paris_offset] at *
  split_ifs at * <;> omega

/-- New York, around the end of daylight-saving time in 2024. -/
def newYork : Location :=
  .change (-14400) 1730613600 (-18000)

/-- Sao Paulo skips a midnight in 2017: the next day is looked for an hour before
it, where the search is already. -/
example : (⟨[0], [12], [20], [10], [0], true, false⟩ : Schedule).visit
    (.change (-10800) 1508036400 (-7200)) 1508032800 = some (1508032800 - 60) := by
  decide +kernel

end Schedule

end Akerdock.Cron
