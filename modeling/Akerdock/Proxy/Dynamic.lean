import Akerdock.Access.Route

/-!
# The dynamic file of the proxy

`internal/proxy/proxy.go`: the routing of one resource and the file that is
generated from it.  The file is kept as its records here: routers, middlewares
and services, with the names that the generator gives them.

* `Priority` ranks the routes of one host by how specific their path is.
* `GenerateDynamic` emits two routers for each route, one for each entry point,
  and behind an access wall also one for each public route that the route
  covers, and the two kinds of reserved routers.
* `Rule.accepts` is what the rule of a router means.
* `mem_routers` lists the kinds of routers, and `secureRouter_mem` and the
  lemmas after it say that each is there.
-/

namespace Akerdock.Proxy

open List
open Crypto (Bytes)
open Secrets (ascii)
open Access (slash PathMatcher PathExpression Covers)

/-- `%d`. -/
def decimal (n : Nat) : Bytes :=
  ascii (toString n)

/-- `Route`: one pair of host and path, with the port behind it. -/
structure Route where
  fqdn : Bytes
  path : Bytes
  targetPort : Nat
  endpoint : Bytes
  publicRoutes : List Access.Route

/-- The two modes of an access wall. -/
inductive AccessMode where
  | basicAuth
  | sso
  deriving DecidableEq

structure AccessPolicy where
  mode : AccessMode
  basicAuthHash : Bytes
  forwardAuthURL : Bytes
  callbackURL : Bytes
  callbackPath : Bytes

def AccessPolicy.accessCallbackPath (p : AccessPolicy) : Bytes :=
  if p.callbackPath = [] then ascii "/.akerdock/app-callback"
  else p.callbackPath

structure RouteGroup where
  appUUID : Bytes
  wildcardDomain : Bytes
  dnsProvider : Bytes
  endpoint : Bytes
  routes : List Route
  forceHTTPS : Bool
  access : Option AccessPolicy
  noindex : Bool
  ingressAttachPath : Bytes

def Priority (path : Bytes) : Nat :=
  1000 * ((path.splitOn slash).filter fun s => s ≠ []).length + path.length

def publicPriority (basePath : Bytes) : Nat :=
  Priority basePath + 1

/-- `accessCallbackPriority` and `ingressAttachPriority`. -/
def reservedPriority : Nat := 2000000

/-! ## The file -/

inductive EntryPoint where
  | web
  | websecure
  deriving DecidableEq

/-- The rule of a router: a host, a matcher for the path, and the methods if
they matter. -/
structure Rule where
  host : Bytes
  path : PathMatcher
  methods : Option (List Bytes)
  deriving DecidableEq

/-- The `tls` section of a router. -/
structure TLS where
  certResolver : Bytes
  domain : Option Bytes
  deriving DecidableEq

structure Router where
  name : Bytes
  entryPoint : EntryPoint
  rule : Rule
  priority : Nat
  middlewares : List Bytes
  service : Bytes
  tls : Option TLS
  deriving DecidableEq

inductive Middleware where
  | redirectScheme (scheme : Bytes) (permanent : Bool)
  | basicAuth (users : List Bytes)
  | forwardAuth (address : Bytes)
  | headers (responseHeaders : List (Bytes × Bytes))

structure Service where
  name : Bytes
  url : Bytes
  passHostHeader : Bool

/-- The dynamic file. -/
structure Dynamic where
  routers : List Router
  middlewares : List (Bytes × Middleware)
  services : List Service

/-- A request, as far as rules read it. -/
structure Request where
  host : Bytes
  path : Bytes
  method : Bytes

/-- What a rule means. -/
def Rule.accepts (rule : Rule) (req : Request) : Bool :=
  rule.host = req.host && rule.path.accepts req.path &&
    rule.methods.all fun methods => methods.contains req.method

/-! ## The generator -/

section

variable (rg : RouteGroup)

def DNSResolverName (provider : Bytes) : Bytes :=
  ascii "dns01-" ++ provider

def underWildcard (fqdn domain : Bytes) : Bool :=
  let suffix := ascii "." ++ domain
  let label := fqdn.take (fqdn.length - suffix.length)
  domain ≠ [] && suffix.isSuffixOf fqdn && label ≠ [] && !label.contains Access.dot

def writeTLS (fqdn : Bytes) : TLS :=
  if rg.dnsProvider ≠ [] && underWildcard fqdn rg.wildcardDomain then
    ⟨DNSResolverName rg.dnsProvider, some rg.wildcardDomain⟩
  else ⟨ascii "http01", none⟩

/-- `writeMiddlewares`: the names carry the scope of the group. -/
def writeMiddlewares (suffixes : List String) : List Bytes :=
  suffixes.map fun s => rg.appUUID ++ ascii "-" ++ ascii s

def RouteGroup.redirects : Bool :=
  rg.forceHTTPS || rg.access.isSome

def secureMiddlewares : List String :=
  (if rg.access.isSome then ["access"] else []) ++
    if rg.noindex then ["noindex"] else []

def serviceName (n : Nat) : Bytes :=
  rg.appUUID ++ ascii "-s" ++ decimal n

def routerName (n : Nat) : Bytes :=
  rg.appUUID ++ ascii "-r" ++ decimal n

def webRouter (n : Nat) (route : Route) : Router where
  name := routerName rg n ++ ascii "-web"
  entryPoint := .web
  rule := ⟨route.fqdn, .pathPrefix route.path, none⟩
  priority := Priority route.path
  middlewares := writeMiddlewares rg
    (if rg.redirects then ["https-redirect"]
      else if rg.noindex then ["noindex"] else [])
  service := serviceName rg n
  tls := none

def secureRouter (n : Nat) (route : Route) : Router where
  name := routerName rg n
  entryPoint := .websecure
  rule := ⟨route.fqdn, .pathPrefix route.path, none⟩
  priority := Priority route.path
  middlewares := writeMiddlewares rg (secureMiddlewares rg)
  service := serviceName rg n
  tls := some (writeTLS rg route.fqdn)

def publicRouter (n publicN : Nat) (route : Route) (pub : Access.Route) : Router where
  name := routerName rg n ++ ascii "-public-" ++ decimal publicN
  entryPoint := .websecure
  rule := ⟨route.fqdn, PathExpression pub, some pub.methods⟩
  priority := publicPriority route.path
  middlewares := writeMiddlewares rg (if rg.noindex then ["noindex"] else [])
  service := serviceName rg n
  tls := some (writeTLS rg route.fqdn)

/-- The routers of the route at index `n`. -/
def routeRouters (n : Nat) (route : Route) : List Router :=
  [webRouter rg n route, secureRouter rg n route] ++
    if rg.access.isSome then
      route.publicRoutes.zipIdx.filterMap fun (pub, publicN) =>
        if Covers route.path pub then some (publicRouter rg n publicN route pub)
        else none
    else []

/-- The hosts of routes, each once, with the first route of each. -/
def distinctHosts : List Route → List Route
  | [] => []
  | route :: routes =>
    route :: (distinctHosts routes).filter fun r => r.fqdn ≠ route.fqdn

def RouteGroup.callback? : Option AccessPolicy :=
  rg.access.filter fun p => p.mode = .sso && p.callbackURL ≠ []

def callbackRouter (p : AccessPolicy) (callbackN : Nat) (fqdn : Bytes) : Router where
  name := rg.appUUID ++ ascii "-access-callback-" ++ decimal callbackN
  entryPoint := .websecure
  rule := ⟨fqdn, .path p.accessCallbackPath, none⟩
  priority := reservedPriority
  middlewares := []
  service := rg.appUUID ++ ascii "-access-callback"
  tls := some (writeTLS rg fqdn)

/-- `writeAccessCallbackRouters`. -/
def callbackRouters (routes : List Route) : List Router :=
  match rg.callback? with
  | none => []
  | some p =>
    (distinctHosts routes).zipIdx.map fun (route, n) =>
      callbackRouter rg p n route.fqdn

def attachRouter (n : Nat) (fqdn : Bytes) : Router where
  name := rg.appUUID ++ ascii "-ingress-attach-" ++ decimal n
  entryPoint := .websecure
  rule := ⟨fqdn, .path rg.ingressAttachPath, none⟩
  priority := reservedPriority
  middlewares := []
  service := rg.appUUID ++ ascii "-ingress-attach-" ++ decimal n
  tls := some (writeTLS rg fqdn)

def ingressAttachTargets (routes : List Route) : List Route :=
  if rg.ingressAttachPath = [] then [] else distinctHosts routes

def attachRouters (routes : List Route) : List Router :=
  (ingressAttachTargets rg routes).zipIdx.map fun (route, n) =>
    attachRouter rg n route.fqdn

def routeTarget (route : Route) : Bytes :=
  if route.endpoint ≠ [] then route.endpoint
  else if rg.endpoint ≠ [] then rg.endpoint
  else rg.appUUID

def accessMiddleware : List (Bytes × Middleware) :=
  match rg.access with
  | none => []
  | some p =>
    let name := rg.appUUID ++ ascii "-access"
    match p.mode with
    | .basicAuth => [(name, .basicAuth [p.basicAuthHash])]
    | .sso => [(name, .forwardAuth p.forwardAuthURL)]

def middlewares : List (Bytes × Middleware) :=
  (if rg.redirects then
    [(rg.appUUID ++ ascii "-https-redirect", .redirectScheme (ascii "https") true)]
  else []) ++ accessMiddleware rg ++
  if rg.noindex then
    [(rg.appUUID ++ ascii "-noindex",
      .headers [(ascii "X-Robots-Tag", ascii "noindex, nofollow")])]
  else []

def services (routes : List Route) : List Service :=
  (routes.zipIdx.map fun (route, n) =>
    ⟨serviceName rg n, ascii "http://" ++ routeTarget rg route ++ ascii ":" ++
      decimal route.targetPort, true⟩) ++
  ((ingressAttachTargets rg routes).zipIdx.map fun (route, n) =>
    ⟨rg.appUUID ++ ascii "-ingress-attach-" ++ decimal n,
      ascii "h2c://" ++ routeTarget rg route ++ ascii ":" ++ decimal route.targetPort, true⟩) ++
  match rg.callback? with
  | none => []
  | some p => [⟨rg.appUUID ++ ascii "-access-callback", p.callbackURL, false⟩]

def sortedRoutes : List Route :=
  rg.routes.insertionSort fun r r' =>
    if r.fqdn ≠ r'.fqdn then r.fqdn ≤ r'.fqdn else r.path ≤ r'.path

def GenerateDynamic : Dynamic where
  routers := ((sortedRoutes rg).zipIdx.flatMap fun (route, n) =>
      routeRouters rg n route) ++
    callbackRouters rg (sortedRoutes rg) ++ attachRouters rg (sortedRoutes rg)
  middlewares := middlewares rg
  services := services rg (sortedRoutes rg)

end

/-! ## The routers of the file -/

section

variable {rg : RouteGroup}

theorem mem_sortedRoutes : route ∈ sortedRoutes rg ↔ route ∈ rg.routes :=
  mem_insertionSort _

theorem distinctHosts_subset (h : route ∈ distinctHosts routes) : route ∈ routes := by
  induction routes with
  | nil => exact h
  | cons r routes ih =>
    rcases mem_cons.mp h with rfl | h
    · simp
    · exact mem_cons_of_mem _ (ih (mem_filter.mp h).1)

theorem exists_mem_distinctHosts (h : route ∈ routes) :
    ∃ r ∈ distinctHosts routes, r.fqdn = route.fqdn := by
  induction routes with
  | nil => cases h
  | cons r routes ih =>
    by_cases hr : r.fqdn = route.fqdn
    · exact ⟨r, by simp [distinctHosts], hr⟩
    · have hmem : route ∈ routes := by
        rcases mem_cons.mp h with rfl | h
        · exact absurd rfl hr
        · exact h
      obtain ⟨r', hr', heq⟩ := ih hmem
      refine ⟨r', ?_, heq⟩
      apply mem_cons_of_mem
      apply mem_filter.mpr
      refine ⟨hr', ?_⟩
      simp only [decide_eq_true_eq]
      intro h'
      exact hr (h'.symm.trans heq)

theorem mem_routers (hw : w ∈ (GenerateDynamic rg).routers) :
    (∃ n, ∃ r ∈ rg.routes, w = webRouter rg n r ∨ w = secureRouter rg n r ∨
      ∃ k, ∃ pub ∈ r.publicRoutes, Covers r.path pub = true ∧ w = publicRouter rg n k r pub) ∨
    (∃ n, ∃ r ∈ rg.routes, ∃ p, rg.callback? = some p ∧ w = callbackRouter rg p n r.fqdn) ∨
    (∃ n, ∃ r ∈ rg.routes, rg.ingressAttachPath ≠ [] ∧ w = attachRouter rg n r.fqdn) := by
  simp only [GenerateDynamic, mem_append] at hw
  rcases hw with (hw | hw) | hw
  · left
    obtain ⟨⟨r, n⟩, hr, hw⟩ := mem_flatMap.mp hw
    have hmem := mem_sortedRoutes.mp (fst_mem_of_mem_zipIdx hr)
    refine ⟨n, r, hmem, ?_⟩
    simp only [routeRouters, mem_append, mem_cons, not_mem_nil, or_false] at hw
    rcases hw with (hw | hw) | hw
    · exact .inl hw
    · exact .inr (.inl hw)
    · right
      right
      split at hw
      · obtain ⟨⟨pub, k⟩, hpub, hw⟩ := mem_filterMap.mp hw
        refine ⟨k, pub, fst_mem_of_mem_zipIdx hpub, ?_⟩
        split at hw
        · rename_i hc
          exact ⟨hc, (Option.some.inj hw).symm⟩
        · cases hw
      · cases hw
  · right
    left
    unfold callbackRouters at hw
    split at hw
    · cases hw
    · rename_i p hp
      obtain ⟨⟨r, n⟩, hr, rfl⟩ := mem_map.mp hw
      have hmem := distinctHosts_subset (fst_mem_of_mem_zipIdx hr)
      exact ⟨n, r, mem_sortedRoutes.mp hmem, p, hp, rfl⟩
  · right
    right
    obtain ⟨⟨r, n⟩, hr, rfl⟩ := mem_map.mp hw
    have hr := fst_mem_of_mem_zipIdx hr
    unfold ingressAttachTargets at hr
    split at hr
    · cases hr
    · rename_i hp
      exact ⟨n, r, mem_sortedRoutes.mp (distinctHosts_subset hr), hp, rfl⟩

theorem exists_mem_zipIdx {l : List α} (h : a ∈ l) : ∃ n, (a, n) ∈ l.zipIdx := by
  obtain ⟨n, hn⟩ := mem_iff_getElem?.mp h
  exact ⟨n, by simpa [mem_zipIdx_iff_getElem?] using hn⟩

theorem routeRouters_mem {r : Route} (hr : r ∈ rg.routes) :
    ∃ n, ∀ w ∈ routeRouters rg n r, w ∈ (GenerateDynamic rg).routers := by
  obtain ⟨n, hn⟩ := exists_mem_zipIdx (mem_sortedRoutes.mpr hr)
  refine ⟨n, ?_⟩
  intro w hw
  simp only [GenerateDynamic, mem_append, mem_flatMap]
  exact .inl (.inl ⟨(r, n), hn, hw⟩)

theorem secureRouter_mem (hr : r ∈ rg.routes) :
    ∃ n, secureRouter rg n r ∈ (GenerateDynamic rg).routers := by
  obtain ⟨n, hn⟩ := routeRouters_mem hr
  exact ⟨n, hn _ (by simp [routeRouters])⟩

theorem publicRouter_mem (hr : r ∈ rg.routes) (ha : rg.access.isSome = true)
    {pub : Access.Route} (hpub : pub ∈ r.publicRoutes)
    (hc : Covers r.path pub = true) :
    ∃ n k, publicRouter rg n k r pub ∈ (GenerateDynamic rg).routers := by
  obtain ⟨n, hn⟩ := routeRouters_mem hr
  obtain ⟨k, hk⟩ := exists_mem_zipIdx hpub
  refine ⟨n, k, hn _ ?_⟩
  simp only [routeRouters, ha, if_true, mem_append, mem_filterMap]
  exact .inr ⟨(pub, k), hk, by simp [hc]⟩

theorem callbackRouter_mem (hr : r ∈ rg.routes) {p : AccessPolicy}
    (hp : rg.callback? = some p) :
    ∃ n, callbackRouter rg p n r.fqdn ∈ (GenerateDynamic rg).routers := by
  obtain ⟨r', hr', heq⟩ := exists_mem_distinctHosts (mem_sortedRoutes.mpr hr)
  obtain ⟨n, hn⟩ := exists_mem_zipIdx hr'
  refine ⟨n, ?_⟩
  simp only [GenerateDynamic, callbackRouters, hp, mem_append, mem_map]
  exact .inl (.inr ⟨(r', n), hn, by rw [heq]⟩)

theorem attachRouter_mem {r : Route} (hr : r ∈ rg.routes) (hp : rg.ingressAttachPath ≠ []) :
    ∃ n, attachRouter rg n r.fqdn ∈ (GenerateDynamic rg).routers := by
  obtain ⟨r', hr', heq⟩ := exists_mem_distinctHosts (mem_sortedRoutes.mpr hr)
  obtain ⟨n, hn⟩ := exists_mem_zipIdx hr'
  refine ⟨n, ?_⟩
  simp only [GenerateDynamic, attachRouters, ingressAttachTargets, hp, if_false,
    mem_append, mem_map]
  exact .inr ⟨(r', n), hn, by rw [heq]⟩

end

end Akerdock.Proxy
