import Mathlib

/-!
# Ordered selections with a limit

`selectFirst` is the statement `SELECT … WHERE p ORDER BY key LIMIT n` on a
table whose key is unique.  The rows come in increasing order of the key, and
a row that the limit cuts off lies behind everything that was selected.
-/

namespace Table

open List

variable {α : Type} {key : α → Nat} {p : α → Bool} {n : Nat} {t : List α}

instance instTotalKey (key : α → Nat) : Std.Total fun a b : α => key a ≤ key b :=
  ⟨fun a b => Nat.le_total (key a) (key b)⟩

instance instTransKey (key : α → Nat) : IsTrans α fun a b => key a ≤ key b :=
  ⟨fun _ _ _ h h' => Nat.le_trans h h'⟩

/-- `SELECT … WHERE p ORDER BY key LIMIT n`. -/
def selectFirst (key : α → Nat) (p : α → Bool) (n : Nat) (t : List α) : List α :=
  ((t.filter p).insertionSort fun a b => key a ≤ key b).take n

theorem mem_selectFirst (h : r ∈ selectFirst key p n t) : r ∈ t ∧ p r = true := by
  have hsorted := mem_of_mem_take h
  exact mem_filter.1 ((mem_insertionSort _).1 hsorted)

/-- The sorted rows have increasing keys. -/
theorem pairwise_orderBy (hd : (t.map key).Nodup) :
    ((t.filter p).insertionSort fun a b => key a ≤ key b).Pairwise
      fun a b => key a < key b := by
  have hle := pairwise_insertionSort (fun a b : α => key a ≤ key b) (t.filter p)
  have hperm := perm_insertionSort (fun a b : α => key a ≤ key b) (t.filter p)
  have hne : ((t.filter p).insertionSort fun a b => key a ≤ key b).Pairwise
      fun a b => key a ≠ key b := by
    rw [← pairwise_map (f := key) (R := (· ≠ ·))]
    exact (hperm.map _).nodup_iff.2 (hd.sublist (filter_sublist.map _))
  refine (hle.and hne).imp ?_
  intro a b h
  omega

theorem pairwise_selectFirst (hd : (t.map key).Nodup) :
    (selectFirst key p n t).Pairwise fun a b => key a < key b :=
  (pairwise_orderBy hd).sublist (take_sublist _ _)

/-- A row that is not selected lies behind everything that is. -/
theorem selectFirst_complete (hd : (t.map key).Nodup) (hr : r ∈ t) (hp : p r = true) :
    r ∈ selectFirst key p n t ∨ ∀ x ∈ selectFirst key p n t, key x < key r := by
  have hmem : r ∈ (t.filter p).insertionSort fun a b => key a ≤ key b :=
    (mem_insertionSort _).2 (mem_filter.2 ⟨hr, hp⟩)
  have hpair := @pairwise_orderBy α key p t hd
  rw [← take_append_drop n ((t.filter p).insertionSort fun a b => key a ≤ key b)] at hmem hpair
  rcases mem_append.1 hmem with htake | hdrop
  · exact .inl htake
  · exact .inr fun x hx => (pairwise_append.1 hpair).2.2 x hx r hdrop

/-- Below the limit nothing is cut off. -/
theorem mem_selectFirst_of_length (hn : (t.filter p).length ≤ n) (hr : r ∈ t)
    (hp : p r = true) : r ∈ selectFirst key p n t := by
  have hlen : ((t.filter p).insertionSort fun a b => key a ≤ key b).length ≤ n := by
    rw [length_insertionSort]
    exact hn
  rw [selectFirst, take_of_length_le hlen]
  exact (mem_insertionSort _).2 (mem_filter.2 ⟨hr, hp⟩)

end Table
