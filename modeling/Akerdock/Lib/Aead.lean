import Mathlib

/-!
# Ideal authenticated encryption

An `IdealAead` opens a ciphertext exactly if it was sealed under the same key,
nonce and additional data, and no ciphertext was sealed in two ways.  The
second fact is what an attacker without the key cannot get around, and it is
what makes the additional data bind.

`clear` is such a scheme: the ciphertext is the tuple that was sealed, with
every part framed so that it can be told where the part ends.  It hides
nothing and is there to run examples.
-/

namespace Crypto

/-- A string of bytes. -/
abbrev Bytes := List UInt8

theorem forall_byte {P : UInt8 → Prop} (h : ∀ n < 256, P (UInt8.ofNat n)) (b : UInt8) : P b := by
  have hb := h b.toNat b.toNat_lt
  rwa [UInt8.ofNat_toNat] at hb

/-- Authenticated encryption with additional data, as an ideal. -/
structure IdealAead where
  Seal : (key nonce plaintext ad : Bytes) → Bytes
  Open : (key nonce ciphertext ad : Bytes) → Option Bytes
  Open_eq_some : ∀ {key nonce ciphertext ad plaintext},
    Open key nonce ciphertext ad = some plaintext ↔ ciphertext = Seal key nonce plaintext ad
  Seal_inj : ∀ {key nonce plaintext ad key' nonce' plaintext' ad'},
    Seal key nonce plaintext ad = Seal key' nonce' plaintext' ad' →
      key = key' ∧ nonce = nonce' ∧ plaintext = plaintext' ∧ ad = ad'

/-- What is sealed under one key and nonce opens under the additional data it
was sealed with, and under no other. -/
theorem IdealAead.Open_Seal (A : IdealAead) (key nonce p ad ad' q : Bytes) :
    A.Open key nonce (A.Seal key nonce p ad) ad' = some q ↔ ad' = ad ∧ q = p := by
  rw [A.Open_eq_some]
  constructor
  · intro h
    obtain ⟨_, _, hp, had⟩ := A.Seal_inj h
    exact ⟨had.symm, hp.symm⟩
  · rintro ⟨rfl, rfl⟩
    rfl

/-! ## A scheme that hides nothing -/

/-- A part of a tuple: each byte is announced by a one, a zero ends it. -/
def frame : Bytes → Bytes
  | [] => [0]
  | b :: bs => 1 :: b :: frame bs

/-- The first part, and what follows it. -/
def unframe : Bytes → Option (Bytes × Bytes)
  | [] => none
  | 0 :: rest => some ([], rest)
  | 1 :: b :: rest => (unframe rest).map fun r => (b :: r.1, r.2)
  | _ :: _ => none

theorem unframe_frame (bs rest : Bytes) : unframe (frame bs ++ rest) = some (bs, rest) := by
  induction bs with
  | nil => rfl
  | cons b bs ih =>
    change (unframe (frame bs ++ rest)).map _ = _
    rw [ih]
    rfl

def frames (parts : List Bytes) : Bytes :=
  parts.flatMap frame

theorem frames_inj (hlen : parts.length = parts'.length)
    (h : frames parts = frames parts') : parts = parts' := by
  induction parts generalizing parts' with
  | nil => exact (List.length_eq_zero_iff.1 hlen.symm).symm
  | cons p ps ih =>
    cases parts' with
    | nil => cases hlen
    | cons p' ps' =>
      have hu := congrArg unframe h
      simp only [frames, List.flatMap_cons, unframe_frame,
        Option.some.injEq, Prod.mk.injEq] at hu
      obtain ⟨rfl, hrest⟩ := hu
      rw [ih (by simpa using hlen) hrest]

def clearOpen (key nonce c ad : Bytes) : Option Bytes :=
  (unframe c).bind fun x => (unframe x.2).bind fun y =>
    (unframe y.2).bind fun z =>
      if c = frames [key, nonce, z.1, ad] then some z.1 else none

/-- The ciphertext is the tuple itself. -/
def clear : IdealAead where
  Seal key nonce p ad := frames [key, nonce, p, ad]
  Open := clearOpen
  Open_eq_some := by
    intro key nonce c ad p
    constructor
    · intro h
      simp only [clearOpen, Option.bind_eq_some_iff] at h
      obtain ⟨x, _, y, _, z, _, h⟩ := h
      split at h
      · rename_i hc
        rw [hc, Option.some.inj h]
      · cases h
    · rintro rfl
      simp [clearOpen, frames, unframe_frame]
  Seal_inj := by
    intro key nonce p ad key' nonce' p' ad' h
    have hparts := frames_inj (by rfl) h
    simp only [List.cons.injEq, and_true] at hparts
    exact hparts

end Crypto
