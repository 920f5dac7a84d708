import Akerdock.Access.Coverage
import Akerdock.Proxy.Dynamic

/-!
# The access wall

A resource behind an access wall is reached through routers that carry the
wall, and the proxy takes the router with the highest priority of those that
accept a request.  This file decides for which routes that is the right one.

* `Priority_lt` and `Priority_succ` compare the priorities of two routes on the
  same path: the longer one comes first, and it is one step ahead only if it is
  the shorter one with a slash at its end.
* `Walled` is the guarantee for one request, and `RedirectsOnly` the one for
  plain HTTP.
* `Separated` is what it asks of the hosts and paths of the routes: none may
  end in a slash where a public route could be declared.  A public route wins
  over its own route by one step, and so does that route with a slash.
-/

namespace Akerdock.Proxy

open List Segments
open Crypto (Bytes)
open Secrets (ascii)
open Access (slash stem Publishable Strays Covers)

/-! ## Priorities -/

/-- The number of segments that `Priority` counts. -/
def segmentCount (p : Bytes) : Nat :=
  ((p.splitOn slash).filter fun s => s ≠ []).length

theorem Priority_eq (p : Bytes) : Priority p = 1000 * segmentCount p + p.length :=
  rfl

/-- A longer text has no fewer segments.  The induction also keeps track of the
segment that it is in. -/
theorem segmentCount_append_aux (p r : Bytes) (hp : p.splitOn slash = a :: l)
    (hpr : (p ++ r).splitOn slash = a' :: l') :
    (l.filter fun s => s ≠ []).length ≤ (l'.filter fun s => s ≠ []).length ∧
      (a ≠ [] → a' ≠ []) := by
  induction p generalizing a a' l l' with
  | nil =>
    obtain ⟨rfl, rfl⟩ := cons.inj hp
    simp
  | cons c p ih =>
    by_cases hc : c = slash
    · rw [hc, splitOn_cons_self] at hp
      rw [hc, cons_append, splitOn_cons_self] at hpr
      obtain ⟨rfl, rfl⟩ := cons.inj hp
      obtain ⟨rfl, rfl⟩ := cons.inj hpr
      cases hq : p.splitOn slash with
      | nil => exact absurd hq (splitOn_ne_nil _ _)
      | cons b m =>
        cases hq' : (p ++ r).splitOn slash with
        | nil => exact absurd hq' (splitOn_ne_nil _ _)
        | cons b' m' =>
          obtain ⟨hle, hne⟩ := ih hq hq'
          refine ⟨?_, fun h => absurd rfl h⟩
          by_cases hb : b = []
          · by_cases hb' : b' = []
            · simpa [hb, hb'] using hle
            · simp [hb, hb']
              exact Nat.le_succ_of_le (by simpa using hle)
          · simpa [hb, hne hb] using hle
    · obtain ⟨b, m, hq, hcq⟩ := splitOn_cons_ne hc p
      obtain ⟨b', m', hq', hcq'⟩ := splitOn_cons_ne hc (p ++ r)
      rw [hcq] at hp
      rw [cons_append, hcq'] at hpr
      obtain ⟨rfl, rfl⟩ := cons.inj hp
      obtain ⟨rfl, rfl⟩ := cons.inj hpr
      exact ⟨(ih hq hq').1, fun _ => cons_ne_nil _ _⟩

theorem segmentCount_append (p r : Bytes) : segmentCount p ≤ segmentCount (p ++ r) := by
  have h := segmentCount_append_aux (slash :: p) r
    (splitOn_cons_self p) (splitOn_cons_self (p ++ r))
  exact h.1

/-- A slash at the end adds no segment. -/
theorem segmentCount_append_slash (p : Bytes) : segmentCount (p ++ [slash]) = segmentCount p := by
  unfold segmentCount
  rw [splitOn_append_cons_self]
  simp

variable {p q : Bytes} {w : Router} {r : Route}

/-- After a slash, or at the start, any other byte begins a segment. -/
theorem segmentCount_append_new (hp : p = [] ∨ p.getLast? = some slash)
    (hc : c ≠ slash) : segmentCount (p ++ [c]) = segmentCount p + 1 := by
  have hone : segmentCount [c] = 1 := by
    obtain ⟨a, l, ha, hca⟩ := splitOn_cons_ne hc []
    obtain ⟨rfl, rfl⟩ := cons.inj ((splitOn_nil _).symm.trans ha)
    simp [segmentCount, hca]
  rcases hp with rfl | hlast
  · rw [nil_append, hone]
    simp [segmentCount]
  · obtain ⟨t, rfl⟩ : ∃ t, p = t ++ [slash] := ⟨p.dropLast, (dropLast_append_getLast? _ hlast).symm⟩
    rw [segmentCount_append_slash, append_assoc]
    simp only [segmentCount, singleton_append,
      splitOn_append_cons_self, filter_append,
      length_append] at hone ⊢
    omega

theorem Priority_append_slash (p : Bytes) : Priority (p ++ [slash]) = Priority p + 1 := by
  rw [Priority_eq, Priority_eq, segmentCount_append_slash, length_append, length_singleton]
  omega

/-- The longer one of two paths comes first. -/
theorem Priority_lt (h : p <+: q) (hne : p ≠ q) : Priority p < Priority q := by
  obtain ⟨r, rfl⟩ := h
  have hr : 0 < r.length := by
    apply length_pos_iff.mpr
    intro h0
    exact hne (by simp [h0])
  have := segmentCount_append p r
  rw [Priority_eq, Priority_eq, length_append]
  omega

theorem Priority_le (h : p <+: q) : Priority p ≤ Priority q := by
  by_cases hne : p = q
  · rw [hne]
  · exact Nat.le_of_lt (Priority_lt h hne)

/-- The longer path is one step ahead if it has one byte more, in the last
segment or as a slash. -/
theorem Priority_succ (h : p <+: q) (hs : Priority q = Priority p + 1) :
    q = p ++ [slash] ∨ (p ≠ [] ∧ p.getLast? ≠ some slash ∧ ∃ c ≠ slash, q = p ++ [c]) := by
  obtain ⟨r, rfl⟩ := h
  have hseg := segmentCount_append p r
  rw [Priority_eq, Priority_eq, length_append] at hs
  have hlen : r.length = 1 := by omega
  obtain ⟨c, rfl⟩ := length_eq_one_iff.mp hlen
  by_cases hc : c = slash
  · left
    rw [hc]
  · right
    -- otherwise the byte would begin a segment of its own
    refine ⟨?_, ?_, c, hc, rfl⟩
    · intro hp
      have := segmentCount_append_new (.inl hp) hc
      omega
    · intro hlast
      have := segmentCount_append_new (.inr hlast) hc
      omega

/-! ## The guarantee -/

/-- The routers that the proxy chooses from for an HTTPS request. -/
def RouteGroup.candidates (rg : RouteGroup) (req : Request) : List Router :=
  (GenerateDynamic rg).routers.filter fun w =>
    w.entryPoint = .websecure && w.rule.accepts req

/-- The router carries the wall. -/
def RouteGroup.Guards (rg : RouteGroup) (w : Router) : Prop :=
  rg.appUUID ++ ascii "-access" ∈ w.middlewares

def Route.Serves (r : Route) (req : Request) : Prop :=
  r.fqdn = req.host ∧ r.path <+: req.path

/-- The request is for a public route of the most specific route that serves
it. -/
def RouteGroup.Excepted (rg : RouteGroup) (req : Request) : Prop :=
  ∃ r ∈ rg.routes, r.Serves req ∧
    (∀ r' ∈ rg.routes, r'.Serves req → r'.path.length ≤ r.path.length) ∧
    ∃ pub ∈ r.publicRoutes, pub.accepts req.path req.method = true

def RouteGroup.Reserved (rg : RouteGroup) (path : Bytes) : Prop :=
  (∃ p, rg.callback? = some p ∧ path = p.accessCallbackPath) ∨
    (rg.ingressAttachPath ≠ [] ∧ path = rg.ingressAttachPath)

structure Walled (rg : RouteGroup) (req : Request) : Prop where
  /-- A router that the proxy may take carries the wall. -/
  first : ∀ w ∈ rg.candidates req,
    (∀ w' ∈ rg.candidates req, w'.priority ≤ w.priority) →
    rg.Guards w ∨ rg.Excepted req ∨ rg.Reserved req.path
  /-- A router with the wall and one without it are never level. -/
  distinct : ∀ w ∈ rg.candidates req, ∀ w' ∈ rg.candidates req,
    rg.Guards w → ¬ rg.Guards w' → w.priority ≠ w'.priority

def RedirectsOnly (rg : RouteGroup) : Prop :=
  ∀ w ∈ (GenerateDynamic rg).routers, w.entryPoint = .web →
    w.middlewares = [rg.appUUID ++ ascii "-https-redirect"] ∧
      (rg.appUUID ++ ascii "-https-redirect",
        Middleware.redirectScheme (ascii "https") true) ∈ (GenerateDynamic rg).middlewares

def RouteGroup.Accepted (rg : RouteGroup) : Prop :=
  ∀ r ∈ rg.routes, ∀ pub ∈ r.publicRoutes, ∃ raw, Access.Validate raw = .ok pub

def Route.bare (r : Route) : Route :=
  { r with publicRoutes := [] }

/-- The group without its public routes. -/
def RouteGroup.bare (rg : RouteGroup) : RouteGroup :=
  { rg with routes := rg.routes.map Route.bare }

/-- The hosts and paths of the routes leave room for any public routes. -/
structure Separated (rg : RouteGroup) : Prop where
  /-- No route is another one with a slash at its end, unless nothing below
  the two can be published. -/
  doubled : ∀ a ∈ rg.routes, ∀ b ∈ rg.routes, a.fqdn = b.fqdn →
    b.path = a.path ++ [slash] → ¬ Publishable (stem a.path)
  /-- Where a route ends in a slash, the paths that a public route would let
  through outside of it are reserved or are taken by another route. -/
  strays : ∀ a ∈ rg.routes, ∀ q x, a.path = q ++ [slash] → q ≠ [] →
    Publishable q → Strays q x → rg.Reserved x ∨
      ∃ b ∈ rg.routes, b.fqdn = a.fqdn ∧ b.path <+: x ∧ publicPriority a.path < Priority b.path
  /-- No route of a reserved path has the priority of the reserved
  routers. -/
  reserved : ∀ a ∈ rg.routes, ∀ p, rg.Reserved p → a.path <+: p →
    Priority a.path ≠ reservedPriority

/-! ## Separated routes -/

section

variable {rg : RouteGroup}

theorem Rule.accepts_iff {rule : Rule} : rule.accepts req = true ↔
    rule.host = req.host ∧ rule.path.accepts req.path = true ∧
      rule.methods.all (fun methods => methods.contains req.method) = true := by
  simp only [Rule.accepts, Bool.and_eq_true, decide_eq_true_eq, and_assoc]

theorem mem_candidates : w ∈ rg.candidates req ↔
    w ∈ (GenerateDynamic rg).routers ∧ w.entryPoint = .websecure ∧
      w.rule.accepts req = true := by
  simp [RouteGroup.candidates]

theorem publicRouter_middlewares (n k : Nat) (r : Route) (pub : Access.Route) :
    ∀ s ∈ (publicRouter rg n k r pub).middlewares,
      s = rg.appUUID ++ ascii "-" ++ ascii "noindex" := by
  intro s hs
  obtain ⟨t, ht, rfl⟩ := mem_map.mp hs
  split at ht
  · rw [mem_singleton.mp ht]
  · cases ht

theorem candidates_cases (hw : w ∈ rg.candidates req) :
    (∃ r ∈ rg.routes, r.Serves req ∧ w.priority = Priority r.path ∧
      w.middlewares = writeMiddlewares rg (secureMiddlewares rg)) ∨
    (∃ r ∈ rg.routes, r.fqdn = req.host ∧ w.priority = publicPriority r.path ∧
      ∃ pub ∈ r.publicRoutes, Covers r.path pub = true ∧
        pub.accepts req.path req.method = true ∧ ∀ s ∈ w.middlewares,
          s = rg.appUUID ++ ascii "-" ++ ascii "noindex") ∨
    (rg.Reserved req.path ∧ w.priority = reservedPriority ∧ w.middlewares = []) := by
  obtain ⟨hw, hentry, hrule⟩ := mem_candidates.mp hw
  obtain ⟨hhost, hpath, hmethods⟩ := Rule.accepts_iff.mp hrule
  rcases mem_routers hw with
    ⟨n, r, hr, rfl | rfl | ⟨k, pub, hpub, hc, rfl⟩⟩ |
    ⟨n, r, hr, p, hp, rfl⟩ | ⟨n, r, hr, hp, rfl⟩
  · cases hentry
  · left
    exact ⟨r, hr, ⟨hhost, Access.hasPrefix_iff.mp hpath⟩, rfl, rfl⟩
  · right
    left
    exact ⟨r, hr, hhost, rfl, pub, hpub, hc, Bool.and_eq_true_iff.mpr ⟨hpath, hmethods⟩,
      publicRouter_middlewares n k r pub⟩
  · right
    right
    exact ⟨.inl ⟨p, hp, of_decide_eq_true hpath⟩, rfl, rfl⟩
  · right
    right
    exact ⟨.inr ⟨hp, of_decide_eq_true hpath⟩, rfl, rfl⟩

theorem guards_secure (ha : rg.access.isSome = true)
    (hw : w.middlewares = writeMiddlewares rg (secureMiddlewares rg)) :
    rg.Guards w := by
  unfold RouteGroup.Guards
  rw [hw]
  unfold writeMiddlewares secureMiddlewares
  rw [ha]
  apply mem_map.mpr
  exact ⟨"access", by simp, by rw [append_assoc]; rfl⟩

theorem exists_guard (rg : RouteGroup) (req : Request)
    (ha : rg.access.isSome = true) (hr : r ∈ rg.routes) (hs : r.Serves req) :
    ∃ w ∈ rg.candidates req, w.priority = Priority r.path ∧ rg.Guards w := by
  obtain ⟨n, hn⟩ := secureRouter_mem hr
  refine ⟨_, mem_candidates.mpr ⟨hn, rfl, ?_⟩, rfl, ?_⟩
  · exact Rule.accepts_iff.mpr ⟨hs.1, Access.hasPrefix_iff.mpr hs.2, rfl⟩
  · exact guards_secure ha rfl

/-- Only the routers of routes carry the wall. -/
theorem not_guards_noindex (h : ∀ s ∈ w.middlewares,
      s = rg.appUUID ++ ascii "-" ++ ascii "noindex") : ¬ rg.Guards w := by
  intro hg
  have heq := h _ hg
  rw [append_assoc, append_cancel_left_eq] at heq
  revert heq
  decide +kernel

/-- A public route and its own route serve the same requests, or the route ends
in a slash and the request strays. -/
theorem public_serves (hv : pub.Valid) (hhost : r.fqdn = req.host)
    (hc : Covers r.path pub = true)
    (hx : pub.accepts req.path req.method = true) : r.Serves req ∨
      ∃ q, r.path = q ++ [slash] ∧ q ≠ [] ∧ Publishable q ∧ Strays q req.path := by
  have hpath := (Bool.and_eq_true_iff.mp hx).1
  rcases Access.Covers.cases hv hc hpath with h | ⟨q, hq, hne, hs⟩
  · exact .inl ⟨hhost, h⟩
  · right
    refine ⟨q, hq, hne, ?_, hs⟩
    have hp := Access.Covers.publishable hv hc
    rwa [hq, Access.stem_append_slash hne] at hp

/-- A route that serves a request is never level with a public route of another
one. -/
theorem Separated.not_level (hsep : Separated rg) (ha : a ∈ rg.routes)
    (hb : b ∈ rg.routes) (hv : pub.Valid) (hc : Covers a.path pub = true)
    (hx : pub.accepts req.path req.method = true) (has : a.Serves req)
    (hbs : b.Serves req) : Priority b.path ≠ publicPriority a.path := by
  intro hlevel
  have hpath := (Bool.and_eq_true_iff.mp hx).1
  rcases prefix_or_prefix_of_prefix has.2 hbs.2 with hab | hba
  · rcases Priority_succ hab hlevel with hq | ⟨hne, hlast, c, hcs, hq⟩
    · exact hsep.doubled a ha b hb (has.1.trans hbs.1.symm) hq (Access.Covers.publishable hv hc)
    · -- the two differ inside of a segment, where no public route reaches
      have hbx := hbs.2
      rw [hq] at hbx
      rcases Access.Covers.extends hv hc hne hlast hpath with hxa | hxa
      · rw [hxa] at hbx
        have := hbx.length_le
        simp only [length_append, length_singleton] at this
        omega
      · have hsame := prefix_of_prefix_length_le hbx hxa (by simp)
        simp at hsame
        exact hcs hsame
  · have := Priority_le hba
    unfold publicPriority at hlevel
    omega

/-- A route that serves a request is never level with a public route that the
request strays to. -/
theorem stray_not_level (hs : Strays q x) (hp : p <+: x) :
    Priority p ≠ publicPriority (q ++ [slash]) := by
  unfold publicPriority
  rw [Priority_append_slash]
  rcases hs with rfl | ⟨hlast, hq, hbelow⟩
  · have := Priority_le hp
    omega
  · rcases prefix_or_prefix_of_prefix hq hp with hqp | hpq
    · obtain ⟨r, rfl⟩ := hqp
      cases r with
      | nil =>
        rw [append_nil]
        omega
      | cons c r =>
        -- the next byte is no slash, so it begins a segment
        have hpre : q ++ [c] <+: q ++ c :: r := ⟨r, by simp⟩
        have hc : c ≠ slash := by
          rintro rfl
          exact hbelow (hpre.trans hp)
        have hle := Priority_le hpre
        rw [Priority_eq (q ++ [c]), segmentCount_append_new (.inr hlast) hc,
          length_append, length_singleton] at hle
        have := Priority_eq q
        omega
    · have := Priority_le hpq
      omega

/-- Separated routes keep the wall, whatever is published. -/
theorem Separated.walled (hsep : Separated rg) (ha : rg.access.isSome = true)
    (hacc : rg.Accepted) (req : Request) : Walled rg req := by
  constructor
  · intro w hw hmax
    rcases candidates_cases hw with ⟨r, hr, hs, hprio, hmid⟩ |
      ⟨r, hr, hhost, hprio, pub, hpub, hc, hx, hmid⟩ | ⟨hres, -, -⟩
    · exact .inl (guards_secure ha hmid)
    · right
      obtain ⟨raw, hraw⟩ := hacc r hr pub hpub
      have hv := Access.valid_of_Validate hraw
      rcases public_serves hv hhost hc hx with hs | ⟨q, hq, hne, hpq, hstray⟩
      · left
        refine ⟨r, hr, hs, ?_, pub, hpub, hx⟩
        intro r' hr' hs'
        by_contra hlt
        obtain ⟨w', hw', hprio', -⟩ := exists_guard rg req ha hr' hs'
        have hle := hmax w' hw'
        have hpre := prefix_of_prefix_length_le hs.2 hs'.2 (by omega)
        have hstep := Priority_lt hpre (by
          intro heq
          rw [heq] at hlt
          omega)
        apply hsep.not_level hr hr' hv hc hx hs hs'
        unfold publicPriority at hprio ⊢
        omega
      · rcases hsep.strays r hr q req.path hq hne hpq hstray with hres | ⟨b, hb, hbf, hbx, hout⟩
        · exact .inr hres
        · exfalso
          obtain ⟨w', hw', hprio', -⟩ :=
            exists_guard rg req ha hb ⟨hbf.trans hhost, hbx⟩
          have hle := hmax w' hw'
          omega
    · exact .inr (.inr hres)
  · intro w hw w' hw' hg hg'
    rcases candidates_cases hw with ⟨b, hb, hbs, hprio, -⟩ |
      ⟨_, _, _, _, _, _, _, _, hmid⟩ | ⟨-, -, hmid⟩
    · rcases candidates_cases hw' with ⟨_, _, _, _, hmid'⟩ |
        ⟨a, har, hhost, hprio', pub, hpub, hc, hx, -⟩ | ⟨hres, hprio', -⟩
      · exact absurd (guards_secure ha hmid') hg'
      · obtain ⟨raw, hraw⟩ := hacc a har pub hpub
        have hv := Access.valid_of_Validate hraw
        rw [hprio, hprio']
        rcases public_serves hv hhost hc hx with hs | ⟨q, hq, -, -, hstray⟩
        · exact hsep.not_level har hb hv hc hx hs hbs
        · rw [hq]
          exact stray_not_level hstray hbs.2
      · rw [hprio, hprio']
        exact hsep.reserved b hb req.path hres hbs.2
    · exact absurd hg (not_guards_noindex hmid)
    · exfalso
      unfold RouteGroup.Guards at hg
      rw [hmid] at hg
      cases hg

/-- A wall sends plain HTTP to HTTPS. -/
theorem redirectsOnly (ha : rg.access.isSome = true) : RedirectsOnly rg := by
  intro w hw hweb
  have hred : rg.redirects = true := by
    simp [RouteGroup.redirects, ha]
  rcases mem_routers hw with
    ⟨n, r, hr, rfl | rfl | ⟨k, pub, hpub, hc, rfl⟩⟩ |
    ⟨n, r, hr, p, hp, rfl⟩ | ⟨n, r, hr, hp, rfl⟩
  · constructor
    · unfold webRouter writeMiddlewares
      rw [hred]
      simp [ascii]
    · unfold GenerateDynamic middlewares
      rw [hred]
      simp
  all_goals cases hweb

/-! ## Routes that are not separated -/

/-- One public route is declared for the routes of a host and path, and no
other. -/
def RouteGroup.publish (rg : RouteGroup) (host path : Bytes) (pub : Access.Route) : RouteGroup :=
  { rg with routes := rg.routes.map fun r =>
      { r with publicRoutes :=
          if r.fqdn = host ∧ r.path = path then [pub] else [] } }

theorem publish_bare (host path : Bytes) (pub : Access.Route) :
    (rg.publish host path pub).bare = rg.bare := by
  simp [RouteGroup.publish, RouteGroup.bare, Route.bare]

theorem publish_accepted (host path : Bytes) (hraw : Access.Validate raw = .ok pub) :
    (rg.publish host path pub).Accepted := by
  intro r hr pub' hpub'
  obtain ⟨r, -, rfl⟩ := mem_map.mp hr
  split at hpub'
  · rw [mem_singleton.mp hpub']
    exact ⟨raw, hraw⟩
  · cases hpub'

theorem exists_public (rg : RouteGroup) (req : Request)
    (ha : rg.access.isSome = true) (hr : r ∈ rg.routes) (pub : Access.Route)
    (hpub : pub ∈ r.publicRoutes) (hc : Covers r.path pub = true)
    (hhost : r.fqdn = req.host) (hx : pub.accepts req.path req.method = true) :
    ∃ w ∈ rg.candidates req, w.priority = publicPriority r.path ∧ ¬ rg.Guards w := by
  obtain ⟨n, k, hn⟩ := publicRouter_mem hr ha hpub hc
  obtain ⟨hpath, hmethod⟩ := Bool.and_eq_true_iff.mp hx
  refine ⟨_, mem_candidates.mpr ⟨hn, rfl, ?_⟩, rfl, ?_⟩
  · exact Rule.accepts_iff.mpr ⟨hhost, hpath, hmethod⟩
  · exact not_guards_noindex (publicRouter_middlewares n k r pub)

theorem exists_reserved (rg : RouteGroup) (req : Request) (hr : r ∈ rg.routes)
    (hhost : r.fqdn = req.host) (hres : rg.Reserved req.path) :
    ∃ w ∈ rg.candidates req, w.priority = reservedPriority ∧ ¬ rg.Guards w := by
  rcases hres with ⟨p, hp, hpath⟩ | ⟨hp, hpath⟩
  · obtain ⟨n, hn⟩ := callbackRouter_mem hr hp
    refine ⟨_, mem_candidates.mpr ⟨hn, rfl, ?_⟩, rfl, not_mem_nil⟩
    exact Rule.accepts_iff.mpr ⟨hhost, decide_eq_true hpath, rfl⟩
  · obtain ⟨n, hn⟩ := attachRouter_mem hr hp
    refine ⟨_, mem_candidates.mpr ⟨hn, rfl, ?_⟩, rfl, not_mem_nil⟩
    exact Rule.accepts_iff.mpr ⟨hhost, decide_eq_true hpath, rfl⟩

/-- The public route at a publishable path, with all below it. -/
def subtree (q : Bytes) : Access.Route :=
  ⟨q, .matchPrefix, [ascii "GET"], []⟩

theorem subtree_validate (hq : Publishable q) :
    Access.Validate ⟨q, ascii "prefix", [ascii "GET"], []⟩ = .ok (subtree q) := by
  obtain ⟨hpath, hcolon⟩ := Access.publishable_iff.mp hq
  exact Access.validate_plain (by decide) (by simp) hpath hcolon

theorem subtree_get (q : Bytes) : (subtree q).methods.contains (ascii "GET") = true := by
  show [ascii "GET"].contains (ascii "GET") = true
  decide

/-- A route and the same with a slash at its end: a public route of the first
is level with the second. -/
theorem level_of_doubled (ha : rg.access.isSome = true) (har : a ∈ rg.routes)
    (hbr : b ∈ rg.routes) (hhost : a.fqdn = b.fqdn)
    (hpath : b.path = a.path ++ [slash]) (hq : Publishable (stem a.path)) :
    ¬ Walled (rg.publish a.fqdn a.path (subtree (stem a.path)))
      ⟨a.fqdn, b.path, ascii "GET"⟩ := by
  intro hwall
  have hcolon := (Access.publishable_iff.mp hq).2
  obtain ⟨w', hw', hprio', hg'⟩ := exists_public
    (rg.publish a.fqdn a.path (subtree (stem a.path)))
    ⟨a.fqdn, b.path, ascii "GET"⟩ ha
    (mem_map_of_mem har) (subtree (stem a.path)) (by simp)
    (Access.covers_stem rfl hcolon) rfl (by
      apply Bool.and_eq_true_iff.mpr
      refine ⟨?_, subtree_get _⟩
      rw [hpath]
      exact Access.subtree_stem rfl rfl)
  obtain ⟨w, hw, hprio, hg⟩ := exists_guard
    (rg.publish a.fqdn a.path (subtree (stem a.path)))
    ⟨a.fqdn, b.path, ascii "GET"⟩ ha
    (mem_map_of_mem hbr) ⟨hhost.symm, prefix_rfl⟩
  apply hwall.distinct w hw w' hw' hg hg'
  rw [hprio, hprio']
  rw [hpath, Priority_append_slash]
  rfl

/-- A public route of a route that ends in a slash lets through a path outside
of it. -/
theorem open_of_stray (ha : rg.access.isSome = true) (har : a ∈ rg.routes)
    (hpath : a.path = q ++ [slash]) (hne : q ≠ []) (hq : Publishable q)
    (hx : Strays q x) (hres : ¬ rg.Reserved x)
    (hout : ¬ ∃ b ∈ rg.routes, b.fqdn = a.fqdn ∧ b.path <+: x ∧
      publicPriority a.path < Priority b.path) :
    ¬ Walled (rg.publish a.fqdn a.path (subtree q)) ⟨a.fqdn, x, ascii "GET"⟩ := by
  intro hwall
  have hcolon := (Access.publishable_iff.mp hq).2
  have hstem : stem a.path = q := by
    rw [hpath, Access.stem_append_slash hne]
  obtain ⟨w, hw, hprio, hg⟩ := exists_public
    (rg.publish a.fqdn a.path (subtree q)) ⟨a.fqdn, x, ascii "GET"⟩ ha
    (mem_map_of_mem har) (subtree q) (by simp)
    (Access.covers_stem (by simp [subtree, hstem]) (by simpa [hstem])) rfl (by
      apply Bool.and_eq_true_iff.mpr
      exact ⟨Access.subtree_strays rfl hx, subtree_get _⟩)
  have hmax : ∀ w' ∈ (rg.publish a.fqdn a.path (subtree q)).candidates
      ⟨a.fqdn, x, ascii "GET"⟩, w'.priority ≤ w.priority := by
    intro w' hw'
    rw [hprio]
    rcases candidates_cases hw' with ⟨r, hr, hs, hprio', -⟩ |
      ⟨r, hr, hhost, hprio', pub, hpub, -⟩ | ⟨hres', -, -⟩
    · obtain ⟨b, hb, rfl⟩ := mem_map.mp hr
      rw [hprio']
      apply Nat.not_lt.mp
      intro hlt
      exact hout ⟨b, hb, hs.1, hs.2, hlt⟩
    · obtain ⟨b, hb, rfl⟩ := mem_map.mp hr
      split at hpub
      · rename_i hba
        rw [hprio', hba.2]
      · cases hpub
    · exact absurd hres' hres
  rcases hwall.first w hw hmax with hg' | ⟨r, hr, hs, -, pub, hpub, -⟩ | hres'
  · exact hg hg'
  · obtain ⟨b, hb, rfl⟩ := mem_map.mp hr
    split at hpub
    · rename_i hba
      have hbelow : q ++ [slash] <+: x := by
        have := hs.2
        rwa [hba.2, hpath] at this
      rcases hx with rfl | ⟨-, -, hx⟩
      · have := hbelow.length_le
        simp only [length_append, length_singleton] at this
        omega
      · exact hx hbelow
    · cases hpub
  · exact hres hres'

/-- The wall holds for all public routes only if the routes are separated. -/
theorem separated_of_walled (ha : rg.access.isSome = true)
    (h : ∀ rg' : RouteGroup, rg'.bare = rg.bare → rg'.Accepted →
      ∀ req, Walled rg' req) : Separated rg := by
  constructor
  · intro a har b hbr hhost hpath hq
    exact level_of_doubled ha har hbr hhost hpath hq
      (h _ (publish_bare _ _ _) (publish_accepted _ _ (subtree_validate hq)) _)
  · intro a har q x hpath hne hq hx
    by_contra hno
    obtain ⟨hres, hout⟩ := not_or.mp hno
    exact open_of_stray ha har hpath hne hq hx hres hout
      (h _ (publish_bare _ _ _) (publish_accepted _ _ (subtree_validate hq)) _)
  · intro a har p hres hpre hprio
    have hwall := h rg.bare (by simp [RouteGroup.bare, Route.bare]) (by
      intro r hr pub hpub
      obtain ⟨r, -, rfl⟩ := mem_map.mp hr
      cases hpub) ⟨a.fqdn, p, []⟩
    obtain ⟨w, hw, hwp, hg⟩ := exists_guard rg.bare
      ⟨a.fqdn, p, []⟩ ha (mem_map_of_mem har) ⟨rfl, hpre⟩
    obtain ⟨w', hw', hwp', hg'⟩ := exists_reserved rg.bare
      ⟨a.fqdn, p, []⟩ (mem_map_of_mem har) rfl hres
    apply hwall.distinct w hw w' hw' hg hg'
    rw [hwp, hwp']
    exact hprio

theorem mem_bare (hr : r ∈ rg.routes) : r.bare ∈ rg.bare.routes :=
  mem_map_of_mem hr

/-- Public routes play no part in whether the routes are separated. -/
theorem separated_bare : Separated rg.bare ↔ Separated rg := by
  constructor
  · intro h
    constructor
    · intro a ha b hb
      exact h.doubled a.bare (mem_bare ha) b.bare (mem_bare hb)
    · intro a ha q x hpath hne hq hx
      rcases h.strays a.bare (mem_bare ha) q x hpath hne hq hx with
        hres | ⟨_, hb, hout⟩
      · exact .inl hres
      · obtain ⟨b, hbr, rfl⟩ := mem_map.mp hb
        exact .inr ⟨b, hbr, hout⟩
    · intro a ha
      exact h.reserved a.bare (mem_bare ha)
  · intro h
    constructor
    · intro _ ha _ hb
      obtain ⟨a, har, rfl⟩ := mem_map.mp ha
      obtain ⟨b, hbr, rfl⟩ := mem_map.mp hb
      exact h.doubled a har b hbr
    · intro _ ha q x hpath hne hq hx
      obtain ⟨a, har, rfl⟩ := mem_map.mp ha
      rcases h.strays a har q x hpath hne hq hx with hres | ⟨b, hbr, hout⟩
      · exact .inl hres
      · exact .inr ⟨b.bare, mem_bare hbr, hout⟩
    · intro _ ha
      obtain ⟨a, har, rfl⟩ := mem_map.mp ha
      exact h.reserved a har

end

/-- Behind an access wall, the wall holds for every request and all public
routes that can be declared exactly if the hosts and paths of the routes are
separated.  Plain HTTP is redirected in any case. -/
theorem access_wall_iff (rg : RouteGroup) (ha : rg.access.isSome = true) :
    (∀ rg' : RouteGroup, rg'.bare = rg.bare → rg'.Accepted →
      (∀ req, Walled rg' req) ∧ RedirectsOnly rg') ↔ Separated rg := by
  constructor
  · intro h
    apply separated_of_walled ha
    intro rg' hb hacc
    exact (h rg' hb hacc).1
  · intro hsep rg' hb hacc
    have ha' : rg'.access.isSome = true := by
      have : rg'.bare.access = rg.bare.access := by rw [hb]
      show rg'.bare.access.isSome = true
      rw [this]
      exact ha
    have hsep' : Separated rg' := by
      rw [← separated_bare, hb, separated_bare]
      exact hsep
    exact ⟨hsep'.walled ha' hacc, redirectsOnly ha'⟩

/-! ### Concrete groups -/

/-- A resource with single sign-on and the given routes of one host. -/
def sampleGroup (routes : List (String × List Access.Route)) : RouteGroup where
  appUUID := ascii "u"
  wildcardDomain := []
  dnsProvider := []
  endpoint := []
  routes := routes.map fun r =>
    ⟨ascii "h", ascii r.1, 80, [], r.2⟩
  forceHTTPS := false
  access := some ⟨.sso, [], ascii "http://auth", ascii "http://back", []⟩
  noindex := false
  ingressAttachPath := []

/-- A route with a public page, below another route. -/
def nestedGroup : RouteGroup :=
  sampleGroup [("/", []), ("/api", [⟨ascii "/api/hooks", .matchExact, [ascii "GET"], []⟩])]

theorem access_wall_nested :
    nestedGroup.access.isSome = true ∧ nestedGroup.Accepted ∧
      (∀ req, Walled nestedGroup req) ∧ RedirectsOnly nestedGroup := by
  have hsep : Separated nestedGroup := by
    constructor
    · intro a ha b hb _ hpath
      have hnot : ∀ a ∈ nestedGroup.routes, ∀ b ∈ nestedGroup.routes,
          b.path ≠ a.path ++ [slash] := by decide
      exact absurd hpath (hnot a ha b hb)
    · intro a ha q x hpath hne
      have hroot : ∀ a ∈ nestedGroup.routes, a.path.getLast? = some slash →
          a.path.length = 1 := by decide
      have hone := hroot a ha (by simp [hpath])
      rw [hpath] at hone
      exact absurd (by simpa using hone) hne
    · intro a ha p _ _
      have hless : ∀ a ∈ nestedGroup.routes, Priority a.path ≠ reservedPriority := by decide
      exact hless a ha
  have hacc : nestedGroup.Accepted := by
    intro r hr pub hpub
    have honly : ∀ r ∈ nestedGroup.routes, ∀ pub ∈ r.publicRoutes,
        Access.Validate ⟨ascii "/api/hooks", ascii "exact", [ascii "GET"], []⟩ = .ok pub := by
      decide +kernel
    exact ⟨_, honly r hr pub hpub⟩
  exact ⟨rfl, hacc, (access_wall_iff nestedGroup rfl).2 hsep nestedGroup rfl hacc⟩

/-- The subtree at `/a` is public, and `/a/` is a route without public pages.  Of
the routers for a request for `/a/`, one with the wall and one without it have
the same priority. -/
theorem access_wall_level :
    let rg := sampleGroup [("/a", [subtree (ascii "/a")]), ("/a/", [])]
    rg.access.isSome = true ∧ rg.Accepted ∧
      ¬Walled rg ⟨ascii "h", ascii "/a/", ascii "GET"⟩ := by
  intro rg
  refine ⟨rfl, ?_, fun hwall => ?_⟩
  · intro r hr pub hpub
    have honly : ∀ r ∈ rg.routes, ∀ pub ∈ r.publicRoutes,
        Access.Validate ⟨ascii "/a", ascii "prefix", [ascii "GET"], []⟩ = .ok pub := by
      decide +kernel
    exact ⟨_, honly r hr pub hpub⟩
  · have hlevel : ∃ w ∈ rg.candidates ⟨ascii "h", ascii "/a/", ascii "GET"⟩,
        ∃ w' ∈ rg.candidates ⟨ascii "h", ascii "/a/", ascii "GET"⟩,
          rg.Guards w ∧ ¬rg.Guards w' ∧ w.priority = w'.priority := by
      unfold RouteGroup.Guards
      decide +kernel
    obtain ⟨w, hw, w', hw', hg, hg', heq⟩ := hlevel
    exact hwall.distinct w hw w' hw' hg hg' heq

end Akerdock.Proxy
