import Akerdock.Access.Route
import Akerdock.Lib.Segments

/-!
# The domains of a resource

`parseDomain` of `internal/handlers/domains.go`: what a declared domain is taken
to be.  The host has to match `fqdnFormat`; nothing is asked of the path.

* `toLower` is the function of Go's `strings`, on bytes.  What it does to a text
  that is not ASCII is left to a parameter.
* `mem_fqdn` gives the characters of a host.
-/

namespace Akerdock.Proxy

open Crypto (Bytes)
open Secrets (ascii)
open Access (hasPrefix slash isDigit trimSpace trimSlash dot colon)

/-! ## Strings -/

/-- `strings.ToLower`; `lower` is for texts with other characters than
ASCII. -/
def toLower (lower : Bytes → Bytes) (s : Bytes) : Bytes :=
  if s.all (· < 128) then
    s.map fun c => if 65 ≤ c ∧ c ≤ 90 then c + 32 else c
  else lower s

def TrimPrefix (s p : Bytes) : Bytes :=
  if hasPrefix s p then s.drop p.length else s

/-- `strings.Cut`, at one byte. -/
def Cut (s : Bytes) (c : UInt8) : Option (Bytes × Bytes) :=
  if c ∈ s then some (s.takeWhile (· ≠ c), (s.dropWhile (· ≠ c)).drop 1)
  else none

/-- The digits of a number, at least one. -/
def digits (s : Bytes) : Option Nat :=
  if s ≠ [] ∧ s.all isDigit then
    some (s.foldl (fun n c => n * 10 + (c.toNat - 48)) 0)
  else none

/-- `strconv.Atoi`, without the bound of the type. -/
def Atoi : Bytes → Option Int
  | [] => none
  | c :: s =>
    if c = 43 then (digits s).map Int.ofNat
    else if c = 45 then (digits s).map fun n => -Int.ofNat n
    else (digits (c :: s)).map Int.ofNat

/-! ## Domains -/

/-- A letter or a digit, as far as `fqdnFormat` allows them. -/
def isHostByte (c : UInt8) : Bool :=
  (97 ≤ c && c ≤ 122) || isDigit c

/-- One label of a host: at most 63 letters, digits and hyphens, with no hyphen
at either end. -/
def isLabel (s : Bytes) : Bool :=
  s.length ≤ 63 && s.all (fun c => isHostByte c || c = 45) &&
    s.head?.any isHostByte && s.getLast?.any isHostByte

def fqdnFormat (s : Bytes) : Bool :=
  let labels := s.splitOn dot
  2 ≤ labels.length && labels.all isLabel

structure DomainSpec where
  fqdn : Bytes
  path : Bytes
  targetPort : Option Nat
  deriving DecidableEq

inductive DomainError where
  | invalidPort (raw : Bytes)
  | invalidDomain (raw : Bytes)
  deriving DecidableEq

/-- The last part of `parseDomain`. -/
def checkHost (raw s path : Bytes) (targetPort : Option Nat) : Except DomainError DomainSpec :=
  if fqdnFormat s then .ok ⟨s, path, targetPort⟩
  else .error (.invalidDomain raw)

def parseDomain (lower : Bytes → Bytes) (raw : Bytes) : Except DomainError DomainSpec :=
  let s := trimSpace (toLower lower raw)
  let s := TrimPrefix (TrimPrefix s (ascii "https://")) (ascii "http://")
  let (s, path) := match Cut s slash with
    | some (host, path) => (host, slash :: trimSlash path)
    | none => (s, [slash])
  match Cut s colon with
  | some (host, port) =>
    match Atoi port with
    | some n =>
      if n < 1 ∨ 65535 < n then .error (.invalidPort raw)
      else checkHost raw host path (some n.toNat)
    | none => .error (.invalidPort raw)
  | none => checkHost raw s path none

theorem fqdnFormat_of_checkHost (h : checkHost raw s path targetPort = .ok spec) :
    fqdnFormat spec.fqdn = true := by
  unfold checkHost at h
  split at h
  · rename_i hs
    cases h
    exact hs
  · cases h

theorem fqdnFormat_of_parseDomain (h : parseDomain lower raw = .ok spec) :
    fqdnFormat spec.fqdn = true := by
  unfold parseDomain at h
  dsimp only at h
  split at h
  · split at h
    · split at h
      · cases h
      · exact fqdnFormat_of_checkHost h
    · cases h
  · exact fqdnFormat_of_checkHost h

theorem mem_fqdn (h : fqdnFormat s = true) : ∀ c ∈ s, isHostByte c = true ∨ c = 45 ∨ c = dot := by
  unfold fqdnFormat at h
  simp only [Bool.and_eq_true, decide_eq_true_eq, List.all_eq_true] at h
  intro c hc
  by_cases hdot : c = dot
  · exact .inr (.inr hdot)
  · have hjoin : [dot].intercalate (s.splitOn dot) = s := List.intercalate_splitOn dot
    rw [← hjoin] at hc
    rcases Segments.mem_intercalate hc with hc | ⟨label, hlabel, hc⟩
    · exact absurd (List.mem_singleton.1 hc) hdot
    · have hall := h.2 label hlabel
      simp only [isLabel, Bool.and_eq_true, List.all_eq_true] at hall
      have := hall.1.1.2 c hc
      simp only [Bool.or_eq_true, decide_eq_true_eq] at this
      rcases this with hbyte | hdash
      · exact .inl hbyte
      · exact .inr (.inl hdash)

end Akerdock.Proxy
