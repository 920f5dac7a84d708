import Akerdock.Cron.Schedule

/-!
# The values of a field

`parseField` expands a part by adding the step to a value as long as the sum is
not above the end of the range.  The sum is one of 64 bits: with a step near the
greatest one it wraps around, and the loop goes on below the range.

* `denotes` is what a part stands for, and `Exact` says that the set is what the
  parts stand for.
* `reached` are the parts before the first one that is refused, and `loopRounds`
  the rounds that each of them takes.
* `parseField_exact` has the condition: none of their sums leaves the 64 bits, or
  the field is refused before the rounds are too many.
* `step_wraps` is a field with such a step.
-/

namespace Akerdock.Cron

open List
open Crypto (Bytes)
open Secrets (ascii)
open Access (bind_ok)

/-- The range and the step of a part. -/
def denotes (part : Bytes) (minVal maxVal : Int) :
    Except FieldError (Int × Int × Int) := do
  let (step, base) ← parseStep part
  let (lo, hi) ← parseRange step base minVal maxVal
  return (lo, hi, step)

/-- The rounds of the loop over these parts, up to the first part that is
wrong. -/
def rounds (field : Bytes) (minVal maxVal : Int) : List Bytes → Nat
  | [] => 0
  | part :: rest =>
    match parsePart field part minVal maxVal with
    | .ok values => values.length + rounds field minVal maxVal rest
    | .error _ => 0

/-- One of the parts stands for the value. -/
def Denoted (field : Bytes) (minVal maxVal v : Int) : Prop :=
  ∃ part ∈ field.splitOn 44, ∃ lo hi step,
    denotes part minVal maxVal = .ok (lo, hi, step) ∧ lo ≤ v ∧ v ≤ hi ∧
      ∃ k : Nat, v = lo + k * step

/-- The values are in the range, and they are those that the parts stand for. -/
structure Exact (field : Bytes) (minVal maxVal : Int) (values : List Int) : Prop where
  nonempty : values ≠ []
  inRange : ∀ v ∈ values, minVal ≤ v ∧ v ≤ maxVal
  union : ∀ v, v ∈ values ↔ Denoted field minVal maxVal v

/-- The ranges and the steps of these parts, up to the first part that is
wrong. -/
def reached (minVal maxVal : Int) : List Bytes → List (Int × Int × Int)
  | [] => []
  | part :: rest =>
    match denotes part minVal maxVal with
    | .ok r => r :: reached minVal maxVal rest
    | .error _ => []

/-- The sum of the loop does not leave the 64 bits. -/
abbrev StepFits (r : Int × Int × Int) : Prop := r.1 + r.2.2 < 2 ^ 63

/-- The rounds of the loop.  With a step of `2 ^ 63 - d` that does not fit, two
rounds lead from a value to the one `2 * d` below. -/
def loopRounds (r : Int × Int × Int) : Int :=
  if StepFits r then (r.2.1 - r.1) / r.2.2 + 1
  else 2 * ((r.1 / (2 ^ 63 - r.2.2) + 1) / 2) + 1

abbrev Fits (field : Bytes) (minVal maxVal : Int) : Prop :=
  ∀ r ∈ reached minVal maxVal (field.splitOn 44), StepFits r

section Expand

variable {hi step v : Int}

theorem wrap_of_lt (h : -2 ^ 63 ≤ v) (h' : v < 2 ^ 63) : v.bmod (2 ^ 64) = v := by
  unfold Int.bmod
  norm_num at *
  split <;> omega

theorem wrap_of_ge (h : 2 ^ 63 ≤ v) (h' : v < 2 ^ 64) : v.bmod (2 ^ 64) = v - 2 ^ 64 := by
  unfold Int.bmod
  norm_num at *
  split <;> omega

/-- The loop, if the sum does not wrap around. -/
theorem expand_fits (hstep : 1 ≤ step) (hhi : hi ≤ 59) (n : Nat) (h : 0 ≤ v)
    (hend : v ≤ hi + step) (hfits : v ≤ hi → v + step < 2 ^ 63) (hn : hi - v + 1 ≤ n) :
    ∃ values, expand hi step (n + 1) v = some values ∧
      (values.length : Int) = (hi - v) / step + 1 ∧
      ∀ w, w ∈ values ↔ v ≤ w ∧ w ≤ hi ∧ ∃ k : Nat, w = v + k * step := by
  have hpast : ∀ v, hi < v → v ≤ hi + step → (hi - v) / step + 1 = 0 := by
    intro v hgt hend
    rw [show hi - v = hi - v + step + step * -1 by ring,
      Int.add_mul_ediv_left _ _ (by omega), Int.ediv_eq_zero_of_lt (by omega) (by omega)]
    rfl
  induction n generalizing v with
  | zero =>
    refine ⟨[], by rw [expand, if_neg (by omega)], (hpast v (by omega) hend).symm, ?_⟩
    simp
    omega
  | succ n ih =>
    rw [expand]
    split
    · next hle =>
      rw [wrap_of_lt (by omega) (hfits hle)]
      obtain ⟨values, hvalues, hlength, hmem⟩ := ih (v := v + step) (by omega) (by omega)
        (by omega) (by push_cast at hn; omega)
      refine ⟨v :: values, by rw [hvalues]; rfl, ?_, ?_⟩
      · rw [length_cons]
        push_cast
        rw [hlength, show hi - v = hi - (v + step) + step * 1 by ring,
          Int.add_mul_ediv_left _ _ (by omega)]
      · intro w
        rw [mem_cons, hmem]
        constructor
        · rintro (rfl | ⟨hlo, hw, k, rfl⟩)
          · exact ⟨le_rfl, hle, 0, by simp⟩
          · exact ⟨by omega, hw, k + 1, by push_cast; ring⟩
        · rintro ⟨hlo, hw, k, rfl⟩
          cases k with
          | zero => exact .inl (by simp)
          | succ k =>
            refine .inr ⟨?_, hw, k, by push_cast; ring⟩
            push_cast
            nlinarith
    · next hgt =>
      refine ⟨[], rfl, (hpast v (by omega) hend).symm, ?_⟩
      simp
      omega

/-- The loop, if it wraps around: it ends nevertheless, and has left the
range. -/
theorem expand_wraps (hlow : 2 ^ 63 ≤ step + 59) (hlt : step < 2 ^ 63) (hhi : hi ≤ 59) (n : Nat)
    (hle : v ≤ hi) (hge : step ≤ v + 2 ^ 63) (hn : v + 62 ≤ n) :
    ∃ values, expand hi step (n + 1) v = some values ∧
      (values.length : Int) = 2 * ((v / (2 ^ 63 - step) + 1) / 2) + 1 ∧
      (2 ^ 63 ≤ v + step → v + step - 2 ^ 64 ∈ values) := by
  induction n using Nat.strongRecOn generalizing v with
  | _ n ih =>
    obtain ⟨n, rfl⟩ : ∃ m, n = m + 2 := ⟨n - 2, by omega⟩
    rw [expand, if_pos hle]
    by_cases hover : 2 ^ 63 ≤ v + step
    · rw [wrap_of_ge hover (by omega), expand, if_pos (by omega), wrap_of_lt (by omega) (by omega)]
      obtain ⟨values, hvalues, hlength, -⟩ := ih n (by omega)
        (v := v + step - 2 ^ 64 + step) (by omega) (by omega) (by omega)
      rw [hvalues]
      refine ⟨_, rfl, ?_, by simp⟩
      rw [length_cons, length_cons, Nat.cast_add, Nat.cast_add, Nat.cast_one, hlength,
        show v + step - 2 ^ 64 + step = v + (2 ^ 63 - step) * -2 by ring,
        Int.add_mul_ediv_left _ _ (by omega)]
      omega
    · rw [wrap_of_lt (by omega) (by omega), expand, if_neg (by omega)]
      refine ⟨_, rfl, ?_, fun h => absurd h hover⟩
      have hzero : (v / (2 ^ 63 - step) + 1) / 2 = 0 := by
        have hlo : -1 ≤ v / (2 ^ 63 - step) :=
          (Int.le_ediv_iff_mul_le (by omega)).2 (by omega)
        have hhi : v / (2 ^ 63 - step) < 1 := Int.ediv_lt_of_lt_mul (by omega) (by omega)
        omega
      rw [hzero]
      rfl

end Expand

section Parts

variable {part : Bytes} {minVal maxVal lo hi step : Int}

theorem boundedValue_ok (h : boundedValue s minVal maxVal = .ok v) : minVal ≤ v ∧ v ≤ maxVal := by
  unfold boundedValue at h
  split at h
  · cases h
  · split at h
    · cases h
    · next hrange =>
      cases h
      simpa using hrange

theorem parseStep_ok (h : parseStep part = .ok (step, base)) : 1 ≤ step ∧ step < 2 ^ 63 := by
  unfold parseStep at h
  split at h
  · cases h
    norm_num
  · split at h
    · cases h
    · next n hn =>
      split at h
      · cases h
      · cases h
        have hbits := (Option.filter_eq_some_iff.1 hn).2
        simp at hbits
        omega

theorem parseRange_ok (hle : minVal ≤ maxVal)
    (h : parseRange step base minVal maxVal = .ok (lo, hi)) :
    minVal ≤ lo ∧ lo ≤ hi ∧ hi ≤ maxVal := by
  unfold parseRange at h
  split at h
  · cases h
    omega
  · split at h
    · obtain ⟨lo', hlo, h⟩ := bind_ok h
      obtain ⟨hi', hhi, h⟩ := bind_ok h
      have hlo := boundedValue_ok hlo
      have hhi := boundedValue_ok hhi
      split at h
      · cases h
      · cases h
        omega
    · obtain ⟨v, hv, h⟩ := bind_ok h
      have hv := boundedValue_ok hv
      cases h
      split <;> omega

theorem denotes_ok (hle : minVal ≤ maxVal)
    (h : denotes part minVal maxVal = .ok (lo, hi, step)) :
    minVal ≤ lo ∧ lo ≤ hi ∧ hi ≤ maxVal ∧ 1 ≤ step ∧ step < 2 ^ 63 := by
  obtain ⟨⟨step', base⟩, hstep, h⟩ := bind_ok h
  obtain ⟨⟨lo', hi'⟩, hrange, h⟩ := bind_ok h
  cases h
  obtain ⟨hlo, hlohi, hhi⟩ := parseRange_ok hle hrange
  exact ⟨hlo, hlohi, hhi, parseStep_ok hstep⟩

/-- The values of a part that stands for `lo`, `hi` and `step`: if the sum does
not wrap around they are as they should be, and otherwise one is below the
range. -/
def Expands (minVal lo hi step : Int) (values : List Int) : Prop :=
  lo ∈ values ∧ (values.length : Int) = loopRounds (lo, hi, step) ∧
    if StepFits (lo, hi, step) then
      ∀ v, v ∈ values ↔ lo ≤ v ∧ v ≤ hi ∧ ∃ k : Nat, v = lo + k * step
    else ∃ v ∈ values, v < minVal

theorem expand_cases (hmin : 0 ≤ minVal) (hle : minVal ≤ maxVal)
    (hmax : maxVal ≤ 59) (h : denotes part minVal maxVal = .ok (lo, hi, step)) :
    ∃ values, expand hi step 256 lo = some values ∧ Expands minVal lo hi step values := by
  obtain ⟨hlo, hlohi, hhi, hstep, hbits⟩ := denotes_ok hle h
  unfold Expands loopRounds
  by_cases hfits : StepFits (lo, hi, step)
  · obtain ⟨values, hvalues, hlength, hmem⟩ := expand_fits (v := lo) hstep
      (hhi.trans hmax) 255 (hmin.trans hlo) (by omega) (fun _ => hfits) (by omega)
    refine ⟨values, hvalues, (hmem lo).2 ⟨le_rfl, hlohi, 0, by simp⟩, ?_⟩
    rw [if_pos hfits, if_pos hfits]
    exact ⟨hlength, hmem⟩
  · have hover : 2 ^ 63 ≤ lo + step := not_lt.1 hfits
    obtain ⟨values, hvalues, hlength, hmem⟩ := expand_wraps (v := lo) (by omega) hbits
      (hhi.trans hmax) 255 hlohi (by omega) (by omega)
    refine ⟨values, hvalues, ?_, ?_⟩
    · rw [expand, if_pos hlohi] at hvalues
      obtain ⟨rest, -, rfl⟩ := Option.map_eq_some_iff.1 hvalues
      exact mem_cons_self
    · rw [if_neg hfits, if_neg hfits]
      exact ⟨hlength, _, hmem hover, by omega⟩

theorem parsePart_ok (hmin : 0 ≤ minVal) (hle : minVal ≤ maxVal)
    (hmax : maxVal ≤ 59) (h : parsePart field part minVal maxVal = .ok values) :
    ∃ lo hi step, denotes part minVal maxVal = .ok (lo, hi, step) ∧
      Expands minVal lo hi step values := by
  unfold parsePart at h
  split at h
  · cases h
  · obtain ⟨⟨step, base⟩, hstep, h⟩ := bind_ok h
    obtain ⟨⟨lo, hi⟩, hrange, h⟩ := bind_ok h
    have hdenotes : denotes part minVal maxVal = .ok (lo, hi, step) := by
      simp only [denotes, hstep, hrange, bind, Except.bind]
      rfl
    obtain ⟨values', hvalues, hexpands⟩ := expand_cases hmin hle hmax hdenotes
    simp only [hvalues] at h
    cases h
    exact ⟨lo, hi, step, hdenotes, hexpands⟩

theorem mapM_ok {f : α → Except ε (List β)} {l : List α} {vs : List (List β)}
    (h : l.mapM f = .ok vs) :
    (∀ a ∈ l, ∃ values, f a = .ok values) ∧
      ∀ v, v ∈ vs.flatten ↔ ∃ a ∈ l, ∃ values, f a = .ok values ∧ v ∈ values := by
  induction l generalizing vs with
  | nil =>
    cases h
    simp
  | cons a l ih =>
    rw [mapM_cons] at h
    obtain ⟨values, ha, h⟩ := bind_ok h
    obtain ⟨rest, hrest, h⟩ := bind_ok h
    cases h
    simp [ih hrest, ha]
    exact (ih hrest).1

end Parts

/-- A part is refused exactly if it stands for nothing. -/
theorem parsePart_error (hmin : 0 ≤ minVal) (hle : minVal ≤ maxVal) (hmax : maxVal ≤ 59)
    (h : parsePart field part minVal maxVal = .error e) :
    ∃ e', denotes part minVal maxVal = .error e' := by
  cases hdenotes : denotes part minVal maxVal with
  | error e' => exact ⟨e', rfl⟩
  | ok r =>
    obtain ⟨lo, hi, step⟩ := r
    obtain ⟨values, hvalues, -⟩ := expand_cases hmin hle hmax hdenotes
    have hne : part ≠ [] := by
      rintro rfl
      cases hdenotes
    unfold parsePart at h
    obtain ⟨⟨step', base⟩, hstep, hrest⟩ := bind_ok hdenotes
    obtain ⟨⟨lo', hi'⟩, hrange, hrest⟩ := bind_ok hrest
    cases hrest
    simp [hne, hstep, hrange, bind, Except.bind, hvalues, pure, Except.pure] at h

theorem rounds_eq (hmin : 0 ≤ minVal) (hle : minVal ≤ maxVal) (hmax : maxVal ≤ 59)
    (parts : List Bytes) : (rounds field minVal maxVal parts : Int) =
      ((reached minVal maxVal parts).map loopRounds).sum := by
  induction parts with
  | nil => rfl
  | cons part rest ih =>
    rw [rounds, reached]
    cases hpart : parsePart field part minVal maxVal with
    | error e =>
      obtain ⟨e', he'⟩ := parsePart_error hmin hle hmax hpart
      rw [he']
      rfl
    | ok values =>
      obtain ⟨lo, hi, step, hdenotes, -, hlength, -⟩ := parsePart_ok hmin hle hmax hpart
      simp [hdenotes, hlength, ih]

theorem mem_reached (h : r ∈ reached minVal maxVal parts) :
    ∃ part ∈ parts, denotes part minVal maxVal = .ok r := by
  induction parts with
  | nil => cases h
  | cons part rest ih =>
    rw [reached] at h
    split at h
    · next r' hr' =>
      rcases mem_cons.1 h with rfl | h
      · exact ⟨part, mem_cons_self, hr'⟩
      · obtain ⟨part', hpart', hr⟩ := ih h
        exact ⟨part', mem_cons_of_mem _ hpart', hr⟩
    · cases h

/-- If no part is refused, all are reached. -/
theorem reached_of_denotes (h : ∀ part ∈ parts, ∃ r, denotes part minVal maxVal = .ok r)
    (hpart : part ∈ parts) (hr : denotes part minVal maxVal = .ok r) :
    r ∈ reached minVal maxVal parts := by
  induction parts with
  | nil => cases hpart
  | cons part' rest ih =>
    obtain ⟨r', hr'⟩ := h part' mem_cons_self
    rw [reached, hr']
    rcases mem_cons.1 hpart with rfl | hpart
    · cases hr.symm.trans hr'
      exact mem_cons_self
    · exact mem_cons_of_mem _ (ih (fun _ hp => h _ (mem_cons_of_mem _ hp)) hpart)

theorem rounds_le (hmin : 0 ≤ minVal) (hle : minVal ≤ maxVal) (hmax : maxVal ≤ 59)
    (hfits : ∀ r ∈ reached minVal maxVal parts, StepFits r) :
    (rounds field minVal maxVal parts : Int) ≤ parts.length * (maxVal - minVal + 1) := by
  rw [rounds_eq hmin hle hmax]
  induction parts with
  | nil => simp [reached]
  | cons part rest ih =>
    rw [reached] at hfits ⊢
    rw [length_cons]
    push_cast
    split at hfits
    · next r hr =>
      obtain ⟨lo, hi, step⟩ := r
      have hrest := ih fun r' hr' => hfits r' (mem_cons_of_mem _ hr')
      have hbounds := denotes_ok hle hr
      have hone : loopRounds (lo, hi, step) ≤ maxVal - minVal + 1 := by
        rw [loopRounds, if_pos (hfits _ mem_cons_self)]
        dsimp only
        have := Int.ediv_le_self step (show 0 ≤ hi - lo by omega)
        omega
      rw [map_cons, sum_cons]
      linarith
    · simp only [map_nil, sum_nil]
      nlinarith

theorem parseField_ok {minVal maxVal : Int} {values : List Int}
    (h : parseField field minVal maxVal = .ok values) : values ≠ [] ∧
    (∀ part ∈ field.splitOn 44, ∃ v, parsePart field part minVal maxVal = .ok v) ∧
      ∀ v, v ∈ values ↔ ∃ part ∈ field.splitOn 44, ∃ vs,
        parsePart field part minVal maxVal = .ok vs ∧ v ∈ vs := by
  obtain ⟨vs, hvs, h⟩ := bind_ok h
  split at h
  · cases h
  · next hne =>
    cases h
    exact ⟨hne, mapM_ok hvs⟩

/-- Whatever the steps, a value in the range is let through. -/
theorem parseField_mem (hmin : 0 ≤ minVal) (hle : minVal ≤ maxVal)
    (hmax : maxVal ≤ 59) (h : parseField field minVal maxVal = .ok values) :
    ∃ v ∈ values, minVal ≤ v ∧ v ≤ maxVal := by
  obtain ⟨hne, -, hmem⟩ := parseField_ok h
  obtain ⟨v, hv⟩ := exists_mem_of_ne_nil _ hne
  obtain ⟨part, hpart, vs, hvs, -⟩ := (hmem v).1 hv
  obtain ⟨lo, hi, step, hdenotes, hlo, -⟩ := parsePart_ok hmin hle hmax hvs
  have hbounds := denotes_ok hle hdenotes
  exact ⟨lo, (hmem lo).2 ⟨part, hpart, vs, hvs, hlo⟩, by omega, by omega⟩

/-- An accepted field whose sums all fit has the values that it should have. -/
theorem exact_of_fits (hmin : 0 ≤ minVal) (hle : minVal ≤ maxVal) (hmax : maxVal ≤ 59)
    (h : parseField field minVal maxVal = .ok values) (hfits : Fits field minVal maxVal) :
    Exact field minVal maxVal values := by
  obtain ⟨hne, hparts, hmem⟩ := parseField_ok h
  have hdenotes : ∀ part ∈ field.splitOn 44, ∃ r, denotes part minVal maxVal = .ok r := by
    intro part hpart
    obtain ⟨vs, hvs⟩ := hparts part hpart
    obtain ⟨lo, hi, step, hdenotes, -⟩ := parsePart_ok hmin hle hmax hvs
    exact ⟨_, hdenotes⟩
  have hunion : ∀ v, v ∈ values ↔ Denoted field minVal maxVal v := by
    intro v
    rw [hmem]
    refine exists_congr fun part => and_congr_right fun hpart => ?_
    obtain ⟨vs, hvs⟩ := hparts part hpart
    obtain ⟨lo, hi, step, hr, -, -, hexpands⟩ := parsePart_ok hmin hle hmax hvs
    rw [if_pos (hfits _ (reached_of_denotes hdenotes hpart hr))] at hexpands
    simp [hvs, hr, hexpands]
  refine ⟨hne, ?_, hunion⟩
  intro v hv
  obtain ⟨part, -, lo, hi, step, hr, hlo, hhi, -⟩ := (hunion v).1 hv
  have := denotes_ok hle hr
  omega

/-- An accepted field with a sum that does not fit has a value below the
range. -/
theorem fits_of_exact (hmin : 0 ≤ minVal) (hle : minVal ≤ maxVal) (hmax : maxVal ≤ 59)
    (h : parseField field minVal maxVal = .ok values) (hexact : Exact field minVal maxVal values) :
    Fits field minVal maxVal := by
  obtain ⟨-, hparts, hmem⟩ := parseField_ok h
  intro r hr
  by_contra hwraps
  obtain ⟨part, hpart, hdenotes⟩ := mem_reached hr
  obtain ⟨vs, hvs⟩ := hparts part hpart
  obtain ⟨lo, hi, step, hdenotes', -, -, hexpands⟩ := parsePart_ok hmin hle hmax hvs
  cases hdenotes.symm.trans hdenotes'
  rw [if_neg hwraps] at hexpands
  obtain ⟨v, hv, hlt⟩ := hexpands
  have := hexact.inRange v ((hmem v).2 ⟨part, hpart, vs, hvs, hv⟩)
  omega

/-- The loop over a part ends.  It makes no more rounds than the range has values
for each part, and an accepted field has the values that its parts stand for,
exactly if no sum leaves the 64 bits before the field is refused, or it is refused
and the rounds up to there are not too many. -/
theorem parseField_exact {minVal maxVal : Int} (field : Bytes) (hmin : 0 ≤ minVal)
    (hle : minVal ≤ maxVal) (hmax : maxVal ≤ 59) :
    (∀ part lo hi step, denotes part minVal maxVal = .ok (lo, hi, step) →
      (expand hi step 256 lo).isSome) ∧
    (((rounds field minVal maxVal (field.splitOn 44) : Int) ≤
        (field.splitOn 44).length * (maxVal - minVal + 1) ∧
      ∀ values, parseField field minVal maxVal = .ok values →
        Exact field minVal maxVal values) ↔
    (Fits field minVal maxVal ∨ (∃ e, parseField field minVal maxVal = .error e) ∧
      ((reached minVal maxVal (field.splitOn 44)).map loopRounds).sum ≤
        (field.splitOn 44).length * (maxVal - minVal + 1))) := by
  constructor
  · intro part lo hi step h
    obtain ⟨values, hvalues, -⟩ := expand_cases hmin hle hmax h
    rw [hvalues]
    rfl
  · constructor
    · rintro ⟨hrounds, hexact⟩
      cases h : parseField field minVal maxVal with
      | error e => exact .inr ⟨⟨e, rfl⟩, rounds_eq hmin hle hmax _ ▸ hrounds⟩
      | ok values => exact .inl (fits_of_exact hmin hle hmax h (hexact values h))
    · rintro (hfits | ⟨⟨e, he⟩, hrounds⟩)
      · exact ⟨rounds_le hmin hle hmax hfits, fun values h => exact_of_fits hmin hle hmax h hfits⟩
      · refine ⟨rounds_eq hmin hle hmax _ ▸ hrounds, fun values h => ?_⟩
        cases he.symm.trans h

/-- The quarters of an hour, and a field that is refused before its step would
wrap around. -/
theorem parseField_exact_quarters :
    (∃ values, parseField (ascii "*/15") 0 59 = .ok values ∧ Exact (ascii "*/15") 0 59 values) ∧
    rounds (ascii "x,59/9223372036854775807") 0 59
      ((ascii "x,59/9223372036854775807").splitOn 44) ≤ (120 : Int) := by
  have hvalues : parseField (ascii "*/15") 0 59 = .ok [0, 15, 30, 45] := by
    decide +kernel
  refine ⟨⟨_, hvalues, ((parseField_exact _ (by decide) (by decide) (by decide)).2.2
    (.inl (by decide +kernel))).2 _ hvalues⟩, ?_⟩
  exact ((parseField_exact _ (by decide) (by decide) (by decide)).2.2
    (.inl (by decide +kernel))).1

/-- The 59th minute, by the greatest step there is: the loop makes a round more
than there are minutes, and every other minute is let through. -/
theorem step_wraps : ∃ values,
    parseField (ascii "59/9223372036854775807") 0 59 = .ok values ∧
      57 ∈ values ∧ -1 ∈ values ∧ denotes (ascii "59/9223372036854775807") 0
        59 = .ok (59, 59, 9223372036854775807) ∧
      rounds (ascii "59/9223372036854775807") 0 59 [ascii "59/9223372036854775807"] = 61 := by
  have hvalues : (parseField (ascii "59/9223372036854775807") 0 59).toOption.any
      (fun values => values.contains 57 && values.contains (-1)) = true := by
    decide +kernel
  cases h : parseField (ascii "59/9223372036854775807") 0 59 with
  | error e => simp [h, Except.toOption] at hvalues
  | ok values =>
    have hmem : 57 ∈ values ∧ -1 ∈ values := by
      simpa [h, Except.toOption] using hvalues
    exact ⟨values, rfl, hmem.1, hmem.2, by decide +kernel, by decide +kernel⟩

end Akerdock.Cron
