import Mathlib

/-!
# Tables and the statements that change them

A table is the list of its rows, in the order of insertion.  `updateWhere` is
an `UPDATE … WHERE`, `deleteWhere` a `DELETE … WHERE`, `row?` the lookup by a
key, and `latest` an `ORDER BY … DESC LIMIT 1`.

* `row?_updateWhere` and `row?_append_of_some` give the effect of a statement
  on the one row that a reader looks at, `forall_updateWhere` is the rule for
  a property of every row.
* `latest_forall_iff` says what a selection by `latest` guarantees: every
  row without the property is older than some row with it.
-/

namespace Table

open List

variable {α κ : Type}

/-- `UPDATE t SET f WHERE p`. -/
def updateWhere (p : α → Bool) (f : α → α) (t : List α) : List α :=
  t.map fun r => if p r then f r else r

/-- `DELETE FROM t WHERE p`. -/
def deleteWhere (p : α → Bool) (t : List α) : List α :=
  t.filter fun r => !p r

/-- `SELECT * FROM t WHERE key = k`, at most one row. -/
def row? [DecidableEq κ] (key : α → κ) (k : κ) (t : List α) : Option α :=
  t.find? fun r => key r = k

variable {t : List α} {r : α}

theorem mem_updateWhere : r ∈ updateWhere p f t ↔ ∃ q ∈ t, r = if p q then f q else q := by
  simp only [updateWhere, mem_map, eq_comm]

/-- A row after an update was changed, or was there and is not among those that
are. -/
theorem of_mem_updateWhere (h : r ∈ updateWhere p f t) :
    (∃ q ∈ t, p q = true ∧ r = f q) ∨ r ∈ t ∧ p r = false := by
  obtain ⟨q, hq, rfl⟩ := mem_updateWhere.1 h
  split
  · next hp => exact .inl ⟨q, hq, hp, rfl⟩
  · next hp => exact .inr ⟨hq, Bool.eq_false_iff.2 hp⟩

/-- An update of the row with a key. -/
theorem of_mem_updateKey [DecidableEq κ] {key : α → κ}
    (h : r ∈ updateWhere (fun q => key q = k) f t) :
    (∃ q ∈ t, key q = k ∧ r = f q) ∨ r ∈ t ∧ key r ≠ k := by
  simpa using of_mem_updateWhere h

theorem updateWhere_eq_self (h : ∀ r ∈ t, p r = false) : updateWhere p f t = t := by
  have hrow : ∀ r ∈ t, (if p r then f r else r) = id r := by
    intro r hr
    rw [h r hr]
    rfl
  rw [updateWhere, map_congr_left hrow, map_id]

/-- An update that keeps a column keeps the list of its values. -/
theorem map_updateWhere (hf : ∀ r, g (f r) = g r) (p : α → Bool) (t : List α) :
    (updateWhere p f t).map g = t.map g := by
  rw [updateWhere, map_map]
  refine map_congr_left ?_
  intro r _
  show g (if p r = true then f r else r) = g r
  split
  · exact hf r
  · rfl

/-- A property of every row survives an update that keeps it on the rows it
changes. -/
theorem forall_updateWhere {P : α → Prop} (h : ∀ r ∈ t, P r)
    (hf : ∀ r ∈ t, p r → P r → P (f r)) : ∀ r ∈ updateWhere p f t, P r := by
  intro r hr
  rcases of_mem_updateWhere hr with ⟨q, hq, hp, rfl⟩ | ⟨hq, -⟩
  · exact hf q hq hp (h q hq)
  · exact h r hq

/-- A property of every row survives an insert that has it. -/
theorem forall_concat {P : α → Prop} (h : ∀ q ∈ t, P q) (hr : P r) : ∀ q ∈ t ++ [r], P q := by
  intro q hq
  rcases mem_append.1 hq with hq | hq
  · exact h q hq
  · rw [mem_singleton.1 hq]
    exact hr

/-- A column without duplicates, after an insert of a new value. -/
theorem nodup_concat (h : (t.map key).Nodup) (hr : ∀ q ∈ t, key q ≠ key r) :
    ((t ++ [r]).map key).Nodup := by
  rw [map_append, nodup_append]
  refine ⟨h, by simp, ?_⟩
  intro k hk k' hk' heq
  obtain ⟨q, hq, rfl⟩ := mem_map.1 hk
  exact hr q hq (heq.trans (mem_singleton.1 hk'))

theorem nodup_insert (h : (t.map key).Nodup) (hr : ∀ q ∈ t, key q ≠ key r) :
    ((r :: t).map key).Nodup := by
  refine nodup_cons.2 ⟨fun hmem => ?_, h⟩
  obtain ⟨q, hq, heq⟩ := mem_map.1 hmem
  exact hr q hq heq

theorem unique_concat {key : α → κ} (h : ∀ p ∈ t, ∀ q ∈ t, key p = key q → p = q)
    (hr : ∀ q ∈ t, key q ≠ key r) :
    ∀ p ∈ t ++ [r], ∀ q ∈ t ++ [r], key p = key q → p = q := by
  refine forall_concat (fun p hp => ?_) ?_
  · exact forall_concat (h p hp) fun heq => absurd heq (hr p hp)
  · exact forall_concat (fun q hq heq => absurd heq.symm (hr q hq)) fun _ => rfl

/-! ## Places -/

theorem of_getElem?_set (h : (t.set k r)[j]? = some q) :
    j = k ∧ q = r ∨ j ≠ k ∧ t[j]? = some q := by
  rw [getElem?_set] at h
  split at h
  · next hkj =>
    split at h
    · exact .inl ⟨hkj.symm, (Option.some.inj h).symm⟩
    · cases h
  · next hkj => exact .inr ⟨Ne.symm hkj, h⟩

theorem of_getElem?_concat (h : (t ++ [r])[j]? = some q) :
    t[j]? = some q ∨ j = t.length ∧ q = r := by
  rw [getElem?_append] at h
  split at h
  · exact .inl h
  · rw [getElem?_singleton] at h
    obtain ⟨hzero, hq⟩ := Option.ite_none_right_eq_some.1 h
    exact .inr ⟨by omega, (Option.some.inj hq).symm⟩

section Key

variable [DecidableEq κ] {key : α → κ}

theorem row?_key (h : row? key k t = some r) : key r = k := by
  simpa using find?_some h

theorem row?_mem (h : row? key k t = some r) : r ∈ t :=
  mem_of_find?_eq_some h

/-- What a reader of the row `k` sees after an update that does not change
keys. -/
theorem row?_updateWhere (p : α → Bool) (hf : ∀ r, key (f r) = key r) (k : κ) (t : List α) :
    row? key k (updateWhere p f t) = (row? key k t).map fun r => if p r then f r else r := by
  induction t with
  | nil => rfl
  | cons r t ih =>
    have hk : key (if p r then f r else r) = key r := by
      split
      · exact hf r
      · rfl
    simp only [updateWhere, row?, map_cons, find?_cons, hk] at ih ⊢
    split
    · rfl
    · exact ih

/-- A row that is already there is not hidden by a row appended after it. -/
theorem row?_append_of_some (h : row? key k t = some r) : row? key k (t ++ u) = some r := by
  unfold row? at h ⊢
  rw [find?_append, h]
  rfl

end Key

/-! ## The latest row -/

section Latest

variable {key : α → Nat}

/-- `SELECT * FROM t ORDER BY key DESC LIMIT 1`. -/
def latest (key : α → Nat) : List α → Option α
  | [] => none
  | r :: t =>
    match latest key t with
    | none => some r
    | some q => some (if key q < key r then r else q)

/-- The next value of a serial column. -/
def nextId (key : α → Nat) : List α → Nat
  | [] => 1
  | r :: t => max (key r + 1) (nextId key t)

theorem lt_nextId (h : r ∈ t) : key r < nextId key t := by
  induction t with
  | nil => cases h
  | cons q t ih =>
    rw [nextId]
    rcases mem_cons.1 h with rfl | h
    · omega
    · have := ih h
      omega

/-- The latest row is a row, and no row is later. -/
theorem latest_spec (h : latest key t = some r) : r ∈ t ∧ ∀ q ∈ t, key q ≤ key r := by
  induction t generalizing r with
  | nil => cases h
  | cons p t ih =>
    rw [latest] at h
    cases ht : latest key t with
    | none =>
      rw [ht] at h
      cases h
      have hnil : t = [] := by
        cases t with
        | nil => rfl
        | cons q t =>
          rw [latest] at ht
          split at ht <;> cases ht
      simp [hnil]
    | some q =>
      rw [ht] at h
      obtain ⟨hq, hmax⟩ := ih ht
      cases h
      simp only [forall_mem_cons]
      split
      · refine ⟨mem_cons_self, Nat.le_refl _, fun x hx => ?_⟩
        have := hmax x hx
        omega
      · exact ⟨mem_cons_of_mem _ hq, by omega, hmax⟩

theorem latest_isSome (h : r ∈ t) : ∃ q, latest key t = some q := by
  cases t with
  | nil => cases h
  | cons p t =>
    rw [latest]
    split
    · exact ⟨p, rfl⟩
    · exact ⟨_, rfl⟩

/-- With distinct keys, the latest row has the property `P` exactly if every
row without it is older than some row with it. -/
theorem latest_forall_iff {P : α → Prop} (hkey : ∀ p ∈ t, ∀ q ∈ t, key p = key q → p = q) :
    (∀ r, latest key t = some r → P r) ↔ ∀ p ∈ t, ¬ P p → ∃ q ∈ t, P q ∧ key p < key q := by
  constructor
  · intro h p hp hbad
    obtain ⟨r, hr⟩ : ∃ r, latest key t = some r := latest_isSome hp
    obtain ⟨hmem, hmax⟩ := latest_spec hr
    refine ⟨r, hmem, h r hr, Nat.lt_of_le_of_ne (hmax p hp) ?_⟩
    intro heq
    exact hbad (hkey p hp r hmem heq ▸ h r hr)
  · intro h r hr
    obtain ⟨hmem, hmax⟩ := latest_spec hr
    by_contra hbad
    obtain ⟨q, hq, _, hlt⟩ := h r hmem hbad
    exact absurd (hmax q hq) (by omega)

end Latest

end Table
