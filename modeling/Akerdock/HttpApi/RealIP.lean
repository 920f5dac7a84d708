import Akerdock.Proxy.Domains

/-!
# The address of a client

`RealIP` of `internal/httpapi/realip.go` replaces the address of a trusted proxy
by that of the client behind it.  What a client writes itself should not count:
the hops of `X-Forwarded-For` are walked from the right, and those on the left
of the first one that is not a trusted address are the client's own claims.

The walk skips a hop that is not an address at all, and a header without a
client gives way to `X-Real-IP`.  `unforgeable_iff` says when neither happens.
-/

namespace Akerdock.HttpApi

open List
open Crypto (Bytes)
open Secrets (ascii)
open Access (trimSpace)
open Proxy (digits)

/-- `netip.Addr`, of 32 or 128 bits. -/
structure Addr where
  bitLen : Nat
  bits : Nat
  zone : Bytes
  deriving DecidableEq

def Addr.Unmap (a : Addr) : Addr :=
  if a.bitLen = 128 ∧ a.bits / 2 ^ 32 = 0xFFFF then ⟨32, a.bits % 2 ^ 32, []⟩ else a

structure Prefix where
  addr : Addr
  bits : Nat
  valid : bits ≤ addr.bitLen := by decide

def Prefix.Contains (p : Prefix) (a : Addr) : Bool :=
  a.zone = [] && a.bitLen = p.addr.bitLen &&
    a.bits / 2 ^ (a.bitLen - p.bits) = p.addr.bits / 2 ^ (a.bitLen - p.bits)

/-- A field of a dotted quad, without leading zeros. -/
def octet (s : Bytes) : Option Nat :=
  (digits s).filter fun n => n ≤ 255 && (s.length = 1 || s.head? ≠ some 48)

def parseIPv4 (s : Bytes) : Option Addr :=
  match (s.splitOn 46).mapM octet with
  | some [a, b, c, d] => some ⟨32, ((a * 256 + b) * 256 + c) * 256 + d, []⟩
  | _ => none

/-- The host of `net.SplitHostPort`.  The port follows the last colon, and a
host with colons is in brackets. -/
def SplitHostPort (s : Bytes) : Option Bytes :=
  match (s.splitOn 58).reverse with
  | [] | [_] => none
  | port :: before =>
    if port.any (· ∈ [91, 93]) then none
    else match [58].intercalate before.reverse with
      | 91 :: host =>
        if host.getLast? = some 93 && !host.dropLast.any (· ∈ [91, 93]) then
          some host.dropLast
        else none
      | host => if host.any (· ∈ [58, 91, 93]) then none else some host

/-- What is read of a request: the peer, and the values of two header fields. -/
structure Forwarded where
  remoteAddr : Bytes
  xForwardedFor : List Bytes
  xRealIP : List Bytes

/-- What `r.RemoteAddr` is afterwards: as it was, or an address with port 0. -/
inductive RemoteAddr where
  | peer (s : Bytes)
  | client (a : Addr)
  deriving DecidableEq

def hops (r : Forwarded) : List Bytes :=
  ([44].intercalate r.xForwardedFor).splitOn 44

/-- The trusted prefixes, and how the text of an IPv6 address is read. -/
structure Proxies where
  parseIPv6 : Bytes → Option Addr
  trusted : List Prefix

namespace Proxies

variable (t : Proxies)

def ParseAddr (s : Bytes) : Option Addr :=
  match s.find? (· ∈ [46, 58, 37]) with
  | some 46 => parseIPv4 s
  | some 58 => t.parseIPv6 s
  | _ => none

def addrOf (s : Bytes) : Option Addr :=
  if s = [] then none
  else (t.ParseAddr ((SplitHostPort s).getD s)).map Addr.Unmap

def within (a : Addr) : Bool :=
  t.trusted.any (·.Contains a)

/-- What the loop makes of a hop: the client, or nothing. -/
def client (hop : Bytes) : Option Addr :=
  (t.addrOf (trimSpace hop)).filter fun a => !t.within a

def trustsPeer (r : Forwarded) : Bool :=
  (t.addrOf r.remoteAddr).any t.within

def clientFromForwarded (r : Forwarded) : Option Addr :=
  if t.trustsPeer r then
    ((hops r).reverse.findSome? t.client).or (t.addrOf (trimSpace (r.xRealIP.headD [])))
  else none

def RealIP (r : Forwarded) : RemoteAddr :=
  if t.trusted = [] then .peer r.remoteAddr
  else ((t.clientFromForwarded r).map .client).getD (.peer r.remoteAddr)

/-! ## What is evidence -/

/-- The hops up to the first one that is not a trusted address. -/
def upTo : List Bytes → List Bytes
  | [] => []
  | hop :: rest =>
    if (t.addrOf (trimSpace hop)).any t.within then hop :: upTo rest else [hop]

/-- From the right. -/
def evidence (r : Forwarded) : List Bytes :=
  t.upTo (hops r).reverse

/-- The result depends on the peer and the evidence only. -/
def Unforgeable (r : Forwarded) : Prop :=
  ∀ r' : Forwarded, r'.remoteAddr = r.remoteAddr → t.evidence r' = t.evidence r →
    t.RealIP r' = t.RealIP r

theorem upTo_prefix (l : List Bytes) : ∃ rest, l = t.upTo l ++ rest := by
  induction l with
  | nil => exact ⟨[], rfl⟩
  | cons hop l ih =>
    obtain ⟨rest, hrest⟩ := ih
    unfold upTo
    split
    · exact ⟨rest, by rw [cons_append, ← hrest]⟩
    · exact ⟨l, rfl⟩

theorem upTo_upTo (l : List Bytes) : t.upTo (t.upTo l) = t.upTo l := by
  induction l with
  | nil => rfl
  | cons hop l ih =>
    by_cases h : (t.addrOf (trimSpace hop)).any t.within <;> simp [upTo, h, ih]

theorem RealIP_eq (hpeer : t.trustsPeer r = true) : t.RealIP r =
    ((t.clientFromForwarded r).map .client).getD (.peer r.remoteAddr) := by
  refine if_neg fun hnil => ?_
  obtain ⟨a, -, ha⟩ := (Option.any_eq_true _ _).1 hpeer
  simp [within, hnil] at ha

/-- A client among the evidence is the result. -/
theorem RealIP_of_evidence (hpeer : t.trustsPeer r = true)
    (h : (t.evidence r).findSome? t.client = some a) : t.RealIP r = .client a := by
  obtain ⟨rest, hrest⟩ := t.upTo_prefix (hops r).reverse
  rw [t.RealIP_eq hpeer, clientFromForwarded, if_pos hpeer, hrest, findSome?_append,
    show findSome? t.client (t.upTo (hops r).reverse) = some a from h]
  rfl

/-- A request with the same evidence and nothing else. -/
def bare (r : Forwarded) (value : Bytes) : Forwarded :=
  ⟨r.remoteAddr, (t.evidence r).reverse, [value]⟩

theorem hops_bare (r : Forwarded) (value : Bytes) :
    (hops (t.bare r value)).reverse = t.evidence r := by
  have hne : (t.evidence r).reverse ≠ [] := by
    have hhops : (hops r).reverse ≠ [] := by simp [hops]
    unfold evidence
    cases hl : (hops r).reverse with
    | nil => exact absurd hl hhops
    | cons hop l => by_cases h : (t.addrOf (trimSpace hop)).any t.within <;> simp [upTo, h]
  obtain ⟨rest, hrest⟩ := t.upTo_prefix (hops r).reverse
  have hcomma : ∀ hop ∈ (t.evidence r).reverse, 44 ∉ hop := by
    intro hop hhop
    have hmem : hop ∈ (hops r).reverse := by
      rw [hrest]
      exact mem_append_left _ (mem_reverse.1 hhop)
    exact Segments.notMem_of_mem_splitOn (mem_reverse.1 hmem)
  rw [hops, bare, splitOn_intercalate _ hcomma hne, reverse_reverse]

variable {t} in
/-- Without a client among the evidence, `X-Real-IP` decides. -/
theorem Unforgeable.eq_client (value : Bytes) (hsafe : t.Unforgeable r)
    (hpeer : t.trustsPeer r = true) (h : (t.evidence r).findSome? t.client = none)
    (ha : t.addrOf (trimSpace value) = some a) : t.RealIP r = .client a := by
  have hbare : t.RealIP (t.bare r value) = t.RealIP r := by
    refine hsafe _ rfl ?_
    rw [evidence, t.hops_bare]
    exact t.upTo_upTo _
  have hpeer' : t.trustsPeer (t.bare r value) = true := hpeer
  rw [← hbare, t.RealIP_eq hpeer', clientFromForwarded, if_pos hpeer', hops_bare, h]
  simp [bare, ha]

end Proxies

/-- The peer is the result where it is not trusted.  Where it is, the address
cannot be forged if and only if the evidence ends in an address. -/
theorem unforgeable_iff (t : Proxies) (r : Forwarded) :
    (t.trustsPeer r = true ∨ t.RealIP r = .peer r.remoteAddr) ∧
      (t.Unforgeable r ↔
        (t.trustsPeer r = true → ∃ hop ∈ t.evidence r, ∃ a, t.client hop = some a)) := by
  have huntrusted : ∀ r, t.trustsPeer r = false → t.RealIP r = .peer r.remoteAddr := by
    intro r hpeer
    simp [Proxies.RealIP, Proxies.clientFromForwarded, hpeer]
  refine ⟨?_, ?_, ?_⟩
  · exact (Bool.eq_false_or_eq_true _).imp_right (huntrusted r)
  · intro hsafe hpeer
    by_contra hno
    have hnone : (t.evidence r).findSome? t.client = none := by
      rw [findSome?_eq_none_iff]
      intro hop hhop
      exact Option.eq_none_iff_forall_ne_some.2 fun a ha => hno ⟨hop, hhop, a, ha⟩
    have hone := hsafe.eq_client (ascii "192.0.2.1") hpeer hnone rfl
    have htwo := hsafe.eq_client (ascii "192.0.2.2") hpeer hnone rfl
    have heq := hone.symm.trans htwo
    cases heq
  · intro h r' hremote hevidence
    have hsame : t.trustsPeer r' = t.trustsPeer r := by
      unfold Proxies.trustsPeer
      rw [hremote]
    cases hpeer : t.trustsPeer r with
    | false => rw [huntrusted r hpeer, huntrusted r' (hsame.trans hpeer), hremote]
    | true =>
      obtain ⟨a, ha⟩ : ∃ a, (t.evidence r).findSome? t.client = some a := by
        rw [← Option.isSome_iff_exists, findSome?_isSome_iff]
        obtain ⟨hop, hhop, a, ha⟩ := h hpeer
        exact ⟨hop, hhop, by rw [ha]; rfl⟩
      rw [t.RealIP_of_evidence hpeer ha,
        t.RealIP_of_evidence (hsame.trans hpeer) (hevidence ▸ ha)]

/-- `10.0.0.0/8`. -/
def tenNet : Proxies :=
  ⟨fun _ => none, [{ addr := ⟨32, 10 * 2 ^ 24, []⟩, bits := 8 }]⟩

/-- A client forges its address on the left of a hop that is no address, or in
`X-Real-IP`. -/
theorem address_forged :
    (∀ left ∈ ["192.0.2.1", "192.0.2.2"], ∃ a, parseIPv4 (ascii left) = some a ∧
      tenNet.RealIP ⟨ascii "10.0.0.1:4711", [ascii left ++ ascii ", unknown"], []⟩ =
        .client a ∧
      tenNet.RealIP ⟨ascii "10.0.0.1:4711", [ascii "10.0.0.2"], [ascii left]⟩ = .client a) ∧
    ¬tenNet.Unforgeable
      ⟨ascii "10.0.0.1:4711", [ascii "192.0.2.1, unknown"], []⟩ := by
  refine ⟨by decide +kernel, fun hsafe => ?_⟩
  have hsame := hsafe ⟨ascii "10.0.0.1:4711", [ascii "192.0.2.2, unknown"], []⟩ rfl
    (by decide +kernel)
  exact absurd hsame (by decide +kernel)

end Akerdock.HttpApi
