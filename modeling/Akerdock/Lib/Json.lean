import Mathlib

/-!
# Decoding JSON into a record

A decoder in the manner of Go's `encoding/json`.  It decodes into a value that
exists already: `null` leaves that value alone, and an object changes the fields
that its members name and ignores the others.  Decoding starts from the zero
value of the record, so a field that is absent, or `null`, is zero.

`Lax` are the decoders as they are when nobody looks at the error: they go on
after a value of the wrong type, with that value left alone.

The names of members are those that the decoder compares, which is without
regard to case.
-/

namespace Wire

/-- A JSON document.  A number is given if it is an integer. -/
inductive Json where
  | null
  | bool (b : Bool)
  | num (n : Option Int)
  | str (s : String)
  | arr (elems : List Json)
  | obj (members : List (String × Json))

/-- Decoding that goes on after a value of the wrong type.  It gives what was
decoded, and whether there was no such value. -/
abbrev Lax (α : Type) := Json → α → α × Bool

namespace Lax

variable {α β : Type}

/-- `int` on a machine of 64 bits. -/
def int64 : Lax Int64
  | .null, n => (n, true)
  | .num (some m), n =>
    if -2 ^ 63 ≤ m ∧ m < 2 ^ 63 then (Int64.ofInt m, true) else (n, false)
  | _, n => (n, false)

def string : Lax String
  | .null, s => (s, true)
  | .str s, _ => (s, true)
  | _, s => (s, false)

/-- A slice: each element is decoded into a zero value. -/
def slice (dec : Lax α) (zero : α) : Lax (List α)
  | .null, _ => ([], true)
  | .arr elems, _ => (elems.map fun j => (dec j zero).1, elems.all fun j => (dec j zero).2)
  | _, l => (l, false)

/-- The members of an object, one after the other. -/
def members (field : String → Lax α) : List (String × Json) → α → α × Bool
  | [], a => (a, true)
  | m :: ms, a =>
    let r := field m.1 m.2 a
    let r' := members field ms r.1
    (r'.1, r.2 && r'.2)

def struct (field : String → Lax α) : Lax α
  | .null, a => (a, true)
  | .obj ms, a => members field ms a
  | _, a => (a, false)

/-- A component of a record, seen through `get` and `set`. -/
def within (get : α → β) (set : α → β → α) (dec : Lax β) : Lax α :=
  fun j a => ((set a (dec j (get a)).1), (dec j (get a)).2)

/-- A member that the record does not have. -/
def ignore : Lax α :=
  fun _ a => (a, true)

/-- `j` is decoded into `b`, whatever was there before. -/
def Writes (dec : Lax α) (j : Json) (b : α) : Prop :=
  ∀ a, dec j a = (b, true)

theorem writes_string (s : String) : Writes string (.str s) s :=
  fun _ => rfl

theorem writes_int64 (n : Int64) : Writes int64 (.num (some n.toInt)) n := by
  intro m
  have h : -2 ^ 63 ≤ n.toInt ∧ n.toInt < 2 ^ 63 :=
    ⟨n.le_toInt, n.toInt_lt⟩
  rw [int64, if_pos h, Int64.ofInt_toInt]

/-- A slice is written as an array, or as `null` if there is nothing in it. -/
def arrOf (enc : α → Json) (l : List α) : Json :=
  if l.isEmpty then .null else .arr (l.map enc)

theorem writes_slice (h : ∀ a ∈ l, dec (enc a) zero = (a, true)) :
    Writes (slice dec zero) (arrOf enc l) l := by
  intro l'
  cases l with
  | nil => rfl
  | cons a l =>
    have hmap : (a :: l).map (fun x => (dec (enc x) zero).1) = a :: l := by
      conv_rhs => rw [← List.map_id (a :: l)]
      exact List.map_congr_left fun x hx => by rw [h x hx]; rfl
    have hall : (a :: l).all (fun x => (dec (enc x) zero).2) = true := by
      rw [List.all_eq_true]
      intro x hx
      rw [h x hx]
    show slice dec zero (.arr ((a :: l).map enc)) l' = _
    rw [slice, List.map_map, List.all_map]
    exact Prod.ext hmap hall

end Lax

end Wire
