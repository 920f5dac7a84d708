import Akerdock.Compose.ContainerNames
import Akerdock.Proxy.Domains
import Akerdock.Proxy.Wall

/-!
# What the waker is provisioned with

`internal/jobs/agentprovision.go`: a resource that scales to zero is reached
through the waker.  The routes of its file are pointed at the waker, which looks
up the container by the `Host` header of the request alone, and which starts the
containers of a stack in the order of their needs.

* `transparent_iff`: requests end up where the routes designate exactly if the
  header is written as in a route, and the routes it matches agree on container
  and port.
* `wakeSet_order_iff`: no order is lost with the one-shot jobs exactly if what a
  chain of them leads to is a dependency in another way as well.
-/

namespace Akerdock.Provision

open List Relation
open Crypto (Bytes)
open Secrets (ascii)
open Proxy (Route RouteGroup Request Priority routeTarget)
open Compose (Plan ServicePlan)

/-! ## Routes -/

def AgentContainerName : Bytes :=
  ascii "akerdock-agent"

def AgentPort : Nat := 8080

def pointAtWaker (rt : Route) : Route :=
  { rt with endpoint := AgentContainerName, targetPort := AgentPort }

def pointRouteGroupAtWaker (rg : RouteGroup) : RouteGroup :=
  { rg with
    endpoint := AgentContainerName
    routes := rg.routes.map pointAtWaker }

/-- `agent.Route`, with texts as in the file of the proxy. -/
structure WakerRoute where
  host : Bytes
  resourceUUID : Bytes
  container : Bytes
  port : Nat
  deriving DecidableEq

/-- The routes of `wakerConfigFromRouteGroup`. -/
def wakerRoutes (resourceUUID : Bytes) (rg : RouteGroup) : List WakerRoute :=
  rg.routes.map fun rt =>
    ⟨rt.fqdn, resourceUUID, routeTarget rg rt, rt.targetPort⟩

def hostname (h : Bytes) : Bytes :=
  h.takeWhile (· ≠ Access.colon)

/-- The map of `New`.  Of the routes with one host it keeps the last. -/
def byHost (routes : List WakerRoute) (host : Bytes) : Option WakerRoute :=
  routes.reverse.find? fun r => r.host = host

section Routes

/- What the proxy compares hosts by: `Host` of Traefik matches without the port,
and without case. -/
variable (canon : Bytes → Bytes)

/-- The rule of the route matches the request, whose host is the header. -/
def Matches (r : Route) (req : Request) : Prop :=
  canon r.fqdn = canon req.host ∧ r.path <+: req.path

/-- The routes for a request: of those that match it, the most specific. -/
def Designates (rg : RouteGroup) (req : Request) (r : Route) : Prop :=
  r ∈ rg.routes ∧ Matches canon r req ∧
    ∀ r' ∈ rg.routes, Matches canon r' req → Priority r'.path ≤ Priority r.path

/-- The request goes to the container and the port. -/
def Reaches (rg : RouteGroup) (req : Request) (container : Bytes) (port : Nat) : Prop :=
  ∃ r, Designates canon rg req r ∧ routeTarget rg r = container ∧ r.targetPort = port

/-- The request goes to the waker, and the waker sends it on.  The table is that
of all resources of the server. -/
def ReachesAwake (table : List WakerRoute) (rg : RouteGroup) (req : Request)
    (container : Bytes) (port : Nat) : Prop :=
  Reaches canon (pointRouteGroupAtWaker rg) req AgentContainerName AgentPort ∧
    ∃ wr, byHost table (hostname req.host) = some wr ∧ wr.container = container ∧ wr.port = port

variable {canon} {rg : RouteGroup} {req : Request} {r : Route} {table : List WakerRoute}
  {uuid host header : Bytes} {others others' : List WakerRoute}

/-- Every route is the one for its own path. -/
theorem designates_self (hr : r ∈ rg.routes) (hhost : canon r.fqdn = canon header)
    (method : Bytes) : Designates canon rg ⟨header, r.path, method⟩ r :=
  ⟨hr, ⟨hhost, prefix_refl _⟩, fun _ _ h => Proxy.Priority_le h.2⟩

/-- The same requests go to the waker. -/
theorem reaches_waker_iff :
    Reaches canon (pointRouteGroupAtWaker rg) req AgentContainerName AgentPort ↔
      ∃ r, Designates canon rg req r := by
  constructor
  · rintro ⟨_, ⟨hmem, hserves, hmax⟩, -⟩
    obtain ⟨r, hr, rfl⟩ := mem_map.1 hmem
    exact ⟨r, hr, hserves, fun r' hr' =>
      hmax (pointAtWaker r') (mem_map_of_mem hr')⟩
  · rintro ⟨r, hr, hserves, hmax⟩
    refine ⟨pointAtWaker r, ⟨mem_map_of_mem hr, hserves, ?_⟩, rfl, rfl⟩
    intro _ hmem hserves'
    obtain ⟨r', hr', rfl⟩ := mem_map.1 hmem
    exact hmax r' hr' hserves'

/-- What is found in the table under a host that only the routes of the resource
have. -/
theorem byHost_some (hapart : ∀ wr ∈ others ++ others', wr.host ≠ host)
    (h : byHost (others ++ wakerRoutes uuid rg ++ others') host = some wr) :
    ∃ r ∈ rg.routes, r.fqdn = host ∧ wr.container = routeTarget rg r ∧
      wr.port = r.targetPort := by
  have hhost : wr.host = host := by simpa using find?_some h
  have hmem := mem_reverse.1 (mem_of_find?_eq_some h)
  simp only [mem_append] at hmem hapart
  rcases hmem with (hmem | hmem) | hmem
  · exact absurd hhost (hapart wr (.inl hmem))
  · obtain ⟨r, hr, rfl⟩ := mem_map.1 hmem
    exact ⟨r, hr, hhost, rfl, rfl⟩
  · exact absurd hhost (hapart wr (.inr hmem))

theorem exists_byHost (uuid : Bytes) (others others' : List WakerRoute) (hr : r ∈ rg.routes) :
    ∃ wr, byHost (others ++ wakerRoutes uuid rg ++ others') r.fqdn = some wr := by
  refine Option.isSome_iff_exists.1 (find?_isSome.2 ?_)
  refine ⟨_, mem_reverse.2 (mem_append_left _ (mem_append_right _ (mem_map_of_mem hr))), ?_⟩
  exact decide_eq_true rfl

/-- Take any `Host` header, whose host no route of another resource has.  Behind
the waker, requests with it end up where the routes designate exactly if one of
the routes that it matches has the host as it is written, and all of them agree
on the container and the port. -/
theorem transparent_iff (uuid : Bytes) (rg : RouteGroup) (header : Bytes)
    (hcanon : canon (hostname header) = canon header)
    (hapart : ∀ wr ∈ others ++ others', wr.host ≠ hostname header) :
    (∀ path method container port,
      ReachesAwake canon (others ++ wakerRoutes uuid rg ++ others') rg ⟨header, path, method⟩
          container port ↔
        Reaches canon rg ⟨header, path, method⟩ container port) ↔
    ∀ r ∈ rg.routes, canon r.fqdn = canon header →
      (∃ r' ∈ rg.routes, r'.fqdn = hostname header) ∧
      ∀ r' ∈ rg.routes, canon r'.fqdn = canon header →
        routeTarget rg r = routeTarget rg r' ∧ r.targetPort = r'.targetPort := by
  constructor
  · intro h r hr hhost
    obtain ⟨-, wr, hwr, hcontainer, hport⟩ :=
      (h r.path [] _ _).2 ⟨r, designates_self hr hhost [], rfl, rfl⟩
    obtain ⟨r₁, hr₁, hhost₁, -⟩ := byHost_some hapart hwr
    refine ⟨⟨r₁, hr₁, hhost₁⟩, fun r' hr' hhost' => ?_⟩
    obtain ⟨-, wr', hwr', hcontainer', hport'⟩ :=
      (h r'.path [] _ _).2 ⟨r', designates_self hr' hhost' [], rfl, rfl⟩
    obtain rfl : wr = wr' := Option.some.inj (hwr.symm.trans hwr')
    exact ⟨hcontainer.symm.trans hcontainer', hport.symm.trans hport'⟩
  · intro h path method container port
    constructor
    · rintro ⟨hwaker, wr, hwr, rfl, rfl⟩
      obtain ⟨r, hr⟩ := reaches_waker_iff.1 hwaker
      obtain ⟨r', hr', hhost, hcontainer, hport⟩ := byHost_some hapart hwr
      have heq := (h r hr.1 hr.2.1.1).2 r' hr' (by rw [hhost, hcanon])
      exact ⟨r, hr, heq.1.trans hcontainer.symm, heq.2.trans hport.symm⟩
    · rintro ⟨r, hr, rfl, rfl⟩
      obtain ⟨⟨r₁, hr₁, hhost₁⟩, hagree⟩ := h r hr.1 hr.2.1.1
      obtain ⟨wr, hwr⟩ := exists_byHost uuid others others' hr₁
      rw [hhost₁] at hwr
      obtain ⟨r', hr', hhost, hcontainer, hport⟩ := byHost_some hapart hwr
      have heq := hagree r' hr' (by rw [hhost, hcanon])
      exact ⟨reaches_waker_iff.2 ⟨r, hr⟩, wr, hwr, hcontainer.trans heq.1.symm,
        hport.trans heq.2.symm⟩

end Routes

/-- `canon` of Traefik, for hosts of ASCII characters. -/
def canonHost (h : Bytes) : Bytes :=
  Proxy.toLower id (hostname h)

/-- A shop with its API on a path of the same host, or on a host of its own. -/
def shop (apiHost apiPath : String) : RouteGroup where
  appUUID := ascii "shop"
  wildcardDomain := []
  dnsProvider := []
  endpoint := []
  routes := [⟨ascii "shop.example.com", ascii "/", 80, ascii "web", []⟩,
    ⟨ascii apiHost, ascii apiPath, 3000, ascii "api", []⟩]
  forceHTTPS := true
  access := none
  noindex := false
  ingressAttachPath := []

/-- The routes of another resource of the server. -/
def blog : List WakerRoute :=
  [⟨ascii "blog.example.com", ascii "blog", ascii "blog", 80⟩]

theorem transparent_iff_hosts :
    ReachesAwake canonHost (blog ++ wakerRoutes [] (shop "api.example.com" "/") ++ [])
      (shop "api.example.com" "/") ⟨ascii "shop.example.com:443", ascii "/", []⟩
      (ascii "web") 80 := by
  have hr : Designates canonHost (shop "api.example.com" "/")
      ⟨ascii "shop.example.com:443", _, []⟩ _ :=
    designates_self mem_cons_self (by decide +kernel) []
  exact ((transparent_iff [] _ (ascii "shop.example.com:443") (by decide +kernel)
    (by decide +kernel)).2 (by decide +kernel) _ _ _ _).2 ⟨_, hr, rfl, rfl⟩

/-- A request for the start page is sent to the API.  With another spelling of
the host it is sent nowhere. -/
theorem path_collapsed : ∃ req req',
    (Reaches canonHost (shop "shop.example.com" "/api") req (ascii "web") 80 ∧
      ReachesAwake canonHost (wakerRoutes [] (shop "shop.example.com" "/api"))
        (shop "shop.example.com" "/api") req (ascii "api") 3000 ∧
      ¬ReachesAwake canonHost (wakerRoutes [] (shop "shop.example.com" "/api"))
        (shop "shop.example.com" "/api") req (ascii "web") 80) ∧
    Reaches canonHost (shop "api.example.com" "/") req' (ascii "web") 80 ∧
      byHost (wakerRoutes [] (shop "api.example.com" "/")) (hostname req'.host) = none := by
  have hr : Designates canonHost (shop "shop.example.com" "/api")
      ⟨ascii "shop.example.com", _, []⟩ _ := designates_self mem_cons_self (by rfl) []
  have hr' : Designates canonHost (shop "api.example.com" "/")
      ⟨ascii "SHOP.example.com", _, []⟩ _ :=
    designates_self mem_cons_self (by decide +kernel) []
  have hlast : byHost (wakerRoutes [] (shop "shop.example.com" "/api"))
      (hostname (ascii "shop.example.com")) =
        some ⟨ascii "shop.example.com", [], ascii "api", 3000⟩ := by
    decide +kernel
  refine ⟨_, _, ⟨⟨_, hr, by decide +kernel, rfl⟩,
    ⟨reaches_waker_iff.2 ⟨_, hr⟩, _, hlast, rfl, rfl⟩, ?_⟩,
    ⟨_, hr', by decide +kernel, rfl⟩, by decide +kernel⟩
  rintro ⟨-, wr, hwr, -, hport⟩
  cases hlast.symm.trans hwr
  cases hport

/-! ## Wake sets -/

/-- `agent.WakeContainer`, with texts as in the plan. -/
structure WakeContainer where
  container : Bytes
  needs : List Bytes

def oneShot (plan : Plan) (name : Bytes) : Bool :=
  plan.services.any fun sp => sp.name = name && sp.oneShot

def containerOf (plan : Plan) (name : Bytes) : Option Bytes :=
  (plan.services.reverse.find? fun sp => sp.name = name).map ServicePlan.containerName

def stackWakeSet (plan : Plan) : List WakeContainer :=
  (plan.services.filter fun sp => !sp.oneShot).map fun sp =>
    ⟨sp.containerName, sp.dependsOn.filterMap fun dep =>
      if oneShot plan dep.1 then none else containerOf plan dep.1⟩

def Depends (plan : Plan) (a b : ServicePlan) : Prop :=
  a ∈ plan.services ∧ b ∈ plan.services ∧ ∃ dep ∈ a.dependsOn, dep.1 = b.name

def Needs (set : List WakeContainer) (x y : Bytes) : Prop :=
  ∃ c ∈ set, c.container = x ∧ y ∈ c.needs

/-- A dependency between services of the wake set. -/
def DependsLasting (plan : Plan) (a b : ServicePlan) : Prop :=
  Depends plan a b ∧ ¬a.oneShot = true ∧ ¬b.oneShot = true

/-- What `r` relates among the services of the wake set is reached through the
needs of the set. -/
def Keeps (plan : Plan) (r : ServicePlan → ServicePlan → Prop) : Prop :=
  ∀ a b, ¬a.oneShot = true → ¬b.oneShot = true → r a b →
    TransGen (Needs (stackWakeSet plan)) a.containerName b.containerName

/-- A chain from `a` to `b` whose inner members are all `gone`, with at least
one of them. -/
def Bypasses {α : Type} (r : α → α → Prop) (gone : α → Prop) (a b : α) : Prop :=
  ∃ j, TransGen (fun x y => r x y ∧ gone y) a j ∧ r j b

/-- A graph without some of its members, with an edge for each edge that is
left: what is reached is still reached if that holds for the bypasses. -/
theorem transGen_of_bypasses {r : α → α → Prop} {f : α → β}
    (hedge : ∀ a b, ¬gone a → ¬gone b → r a b → n (f a) (f b))
    (hbypass : ∀ a b, ¬gone a → ¬gone b → Bypasses r gone a b →
      TransGen n (f a) (f b)) (ha : ¬gone a) (h : TransGen r a b) :
    (¬gone b → TransGen n (f a) (f b)) ∧ (gone b → ∃ c, ¬gone c ∧
      ReflTransGen n (f a) (f c) ∧ TransGen (fun x y => r x y ∧ gone y) c b) := by
  induction h with
  | single h =>
    exact ⟨fun hb => .single (hedge _ _ ha hb h), fun hb => ⟨a, ha, .refl, .single ⟨h, hb⟩⟩⟩
  | @tail b c _ h ih =>
    by_cases hb : gone b
    · obtain ⟨d, hd, hreach, hchain⟩ := ih.2 hb
      refine ⟨fun hc => ?_, fun hc => ⟨d, hd, hreach, hchain.tail ⟨h, hc⟩⟩⟩
      exact .trans_right hreach (hbypass d c hd hc ⟨b, hchain, h⟩)
    · have hreach := ih.1 hb
      exact ⟨fun hc => hreach.tail (hedge b c hb hc h),
        fun hc => ⟨b, hb, hreach.to_reflTransGen, .single ⟨h, hc⟩⟩⟩

section Plan

variable {input : Compose.Input} {project : Compose.Project} {plan : Plan} {a b : ServicePlan}

/-- The services of a plan have different names. -/
theorem services_unique (h : (Compose.buildPlan input project).1 = some plan)
    (ha : a ∈ plan.services) (hb : b ∈ plan.services) (hname : a.name = b.name) :
    a = b := by
  obtain ⟨name, svc, hsvc, rfl⟩ := (Compose.mem_plan_services h).1 ha
  obtain ⟨name', svc', hsvc', rfl⟩ := (Compose.mem_plan_services h).1 hb
  obtain rfl : name = name' := hname
  rw [← Compose.lookup_eq_some project.services_nodup] at hsvc hsvc'
  cases hsvc.symm.trans hsvc'
  rfl

theorem container_unique (h : (Compose.buildPlan input project).1 = some plan)
    (ha : a ∈ plan.services) (hb : b ∈ plan.services)
    (hname : a.containerName = b.containerName) : a = b := by
  rw [(Compose.service_names h ha).1, (Compose.service_names h hb).1,
    append_cancel_left_eq] at hname
  exact services_unique h ha hb (append_cancel_left hname)

theorem needs_of_depends (h : (Compose.buildPlan input project).1 = some plan)
    (ha : ¬a.oneShot = true) (hb : ¬b.oneShot = true) (hd : Depends plan a b) :
    Needs (stackWakeSet plan) a.containerName b.containerName := by
  obtain ⟨hmem, hb', dep, hdep, hname⟩ := hd
  refine ⟨_, mem_map_of_mem (mem_filter.2 ⟨hmem, by simpa using ha⟩), rfl, ?_⟩
  have hnot : oneShot plan b.name = false := by
    simp only [oneShot, any_eq_false, Bool.and_eq_true, decide_eq_true_eq]
    rintro sp hsp ⟨heq, hone⟩
    rw [services_unique h hsp hb' heq] at hone
    exact hb hone
  have hcontainer : containerOf plan b.name = some b.containerName := by
    unfold containerOf
    cases hfind : plan.services.reverse.find? fun sp => sp.name = b.name with
    | none => simpa using find?_eq_none.1 hfind b (mem_reverse.2 hb')
    | some sp =>
      have hsp := mem_reverse.1 (mem_of_find?_eq_some hfind)
      rw [services_unique h hsp hb' (by simpa using find?_some hfind)]
      rfl
  refine mem_filterMap.2 ⟨dep, hdep, ?_⟩
  rw [hname, hnot, hcontainer]
  rfl

theorem depends_of_needs (h : Needs (stackWakeSet plan) x y) :
    ∃ a b, DependsLasting plan a b ∧ a.containerName = x ∧ b.containerName = y := by
  obtain ⟨_, hc, rfl, hy⟩ := h
  obtain ⟨a, ha, rfl⟩ := mem_map.1 hc
  obtain ⟨hmem, hlasting⟩ := mem_filter.1 ha
  obtain ⟨dep, hdep, hy⟩ := mem_filterMap.1 hy
  split at hy
  · cases hy
  · rename_i hnot
    obtain ⟨b, hfind, rfl⟩ := Option.map_eq_some_iff.1 hy
    have hb := mem_reverse.1 (mem_of_find?_eq_some hfind)
    have hname : b.name = dep.1 := by simpa using find?_some hfind
    refine ⟨a, b, ⟨⟨hmem, hb, dep, hdep, hname.symm⟩, by simpa using hlasting, fun hone => ?_⟩,
      rfl, rfl⟩
    exact hnot (any_eq_true.2 ⟨b, hb, by simp [hname, hone]⟩)

theorem reaches_of_needs (h : (Compose.buildPlan input project).1 = some plan)
    (ha : a ∈ plan.services) (hreach : TransGen (Needs (stackWakeSet plan)) a.containerName y) :
    ∃ b ∈ plan.services, b.containerName = y ∧ TransGen (DependsLasting plan) a b := by
  induction hreach with
  | single hneeds =>
    obtain ⟨a', b, hdep, hcontainer, rfl⟩ := depends_of_needs hneeds
    obtain rfl := container_unique h hdep.1.1 ha hcontainer
    exact ⟨b, hdep.1.2.1, rfl, .single hdep⟩
  | tail _ hneeds ih =>
    obtain ⟨a', b, hdep, hcontainer, rfl⟩ := depends_of_needs hneeds
    obtain ⟨c, hc, rfl, hreach⟩ := ih
    obtain rfl := container_unique h hdep.1.1 hc hcontainer
    exact ⟨b, hdep.1.2.1, rfl, hreach.tail hdep⟩

/-- The wake set of a plan keeps the order of its services exactly if a service
that a chain of one-shot jobs leads to is a dependency in another way as well,
through services of the set alone. -/
theorem wakeSet_order_iff (h : (Compose.buildPlan input project).1 = some plan) :
    Keeps plan (TransGen (Depends plan)) ↔
      ∀ a b, ¬a.oneShot = true → ¬b.oneShot = true →
        Bypasses (Depends plan) (fun sp => sp.oneShot = true) a b →
        TransGen (DependsLasting plan) a b := by
  constructor
  · rintro hall a b ha hb ⟨j, hchain, hlast⟩
    have hdepends := (hchain.lift id fun _ _ h => h.1).tail hlast
    have hmem : a ∈ plan.services := by
      obtain ⟨c, hstep, -⟩ := TransGen.head'_iff.1 hdepends
      exact hstep.1
    obtain ⟨b', hb', hcontainer, hreach⟩ := reaches_of_needs h hmem (hall a b ha hb hdepends)
    rwa [container_unique h hb' hlast.2.1 hcontainer] at hreach
  · intro hbypass a b ha hb hchain
    have hneeds : ∀ a b, DependsLasting plan a b →
        Needs (stackWakeSet plan) a.containerName b.containerName :=
      fun _ _ hd => needs_of_depends h hd.2.1 hd.2.2 hd.1
    refine (transGen_of_bypasses (fun a b ha hb hd => hneeds a b ⟨hd, ha, hb⟩) ?_ ha hchain).1 hb
    exact fun a b ha hb hgone => (hbypass a b ha hb hgone).lift _ hneeds

end Plan

/-- An API that waits for a migration, which waits for the database. -/
def migrated (others : List (Bytes × Compose.Condition)) : Compose.Project where
  services := [(ascii "api", { Compose.plainService [] with
      dependsOn := (ascii "migrate", .serviceCompletedSuccessfully) :: others }),
    (ascii "db", Compose.plainService []),
    (ascii "migrate", { Compose.plainService [] with
      restart := ascii "no", dependsOn := [(ascii "db", .serviceStarted)] })]
  volumes := []
  networks := []
  configs := []
  secrets := []
  services_nodup := by
    show [ascii "api", ascii "db", ascii "migrate"].Nodup
    decide
  volumes_nodup := List.nodup_nil
  volumes_name := Compose.volumes_nil

def migratedFile (others : List (Bytes × Compose.Condition)) : Compose.File :=
  { document := .ok (some ⟨[ascii "services"],
      [(ascii "api", some [ascii "image", ascii "depends_on"]), (ascii "db", some [ascii "image"]),
        (ascii "migrate", some [ascii "image", ascii "restart", ascii "depends_on"])]⟩)
    undefined := []
    project := .ok (migrated others) }

/-- The API waits for the database too. -/
theorem wakeSet_order_iff_direct : ∃ res plan,
    Compose.Load ⟨Compose.sampleUUID, {}, false⟩
      (migratedFile [(ascii "db", .serviceStarted)]) = .ok res ∧
    res.plan = some plan ∧ Keeps plan (TransGen (Depends plan)) := by
  obtain ⟨res, plan, hload, hplan⟩ := Compose.exists_plan ⟨Compose.sampleUUID, {}, false⟩
    (migratedFile [(ascii "db", .serviceStarted)]) (by decide +kernel)
  obtain ⟨_, -, -, hbuild⟩ := Compose.Load_plan hload hplan
  refine ⟨res, plan, hload, hplan, (wakeSet_order_iff hbuild).2 ?_⟩
  -- What the only job depends on lasts, and whoever depends on the job depends on it.
  have hjob := Compose.plan_eval hload hplan (a := true)
    (f := fun plan => plan.services.all fun j => !j.oneShot || plan.services.all fun b =>
      !j.dependsOn.any (fun dep => dep.1 = b.name) || !b.oneShot && plan.services.all fun a =>
        !a.dependsOn.any (fun dep => dep.1 = j.name) ||
          a.dependsOn.any fun dep => dep.1 = b.name) (by decide +kernel)
  simp only [all_eq_true, Bool.or_eq_true, Bool.not_eq_true', Bool.and_eq_true, any_eq_true,
    any_eq_false, decide_eq_true_eq] at hjob
  have hlast : ∀ j b, j.oneShot = true → Depends plan j b → b.oneShot = false ∧
      ∀ a, Depends plan a j → Depends plan a b := by
    rintro j b hone ⟨hj, hb, dep, hdep, hname⟩
    have hb' := (hjob j hj).resolve_left (by simp [hone]) b hb
    have hb' := hb'.resolve_left fun hnone => hnone dep hdep hname
    refine ⟨hb'.1, fun a ⟨ha, _, dep', hdep', hname'⟩ => ⟨ha, hb, ?_⟩⟩
    exact (hb'.2 a ha).resolve_left fun hnone => hnone dep' hdep' hname'
  rintro a b ha hb ⟨j, hchain, hjb⟩
  cases hchain with
  | single haj => exact .single ⟨(hlast j b haj.2 hjb).2 a haj.1, ha, hb⟩
  | @tail k _ hak hkj =>
    have hk : k.oneShot = true := by
      cases hak with
      | single h => exact h.2
      | tail _ h => exact h.2
    cases hkj.2.symm.trans (hlast k j hk hkj.1).1

/-- Without the migration, nothing tells the waker that the API waits for the
database. -/
theorem order_lost : ∃ res plan,
    Compose.Load ⟨Compose.sampleUUID, {}, false⟩ (migratedFile []) = .ok res ∧
    res.plan = some plan ∧ ¬Keeps plan (TransGen (Depends plan)) := by
  obtain ⟨res, plan, hload, hplan⟩ := Compose.exists_plan ⟨Compose.sampleUUID, {}, false⟩
    (migratedFile []) (by decide +kernel)
  have hfound := Compose.plan_eval hload hplan (a := true)
    (f := fun plan => (stackWakeSet plan).all (fun c => c.needs = []) &&
      plan.services.any fun a => plan.services.any fun j => plan.services.any fun b =>
        !a.oneShot && !b.oneShot && a.dependsOn.any (fun dep => dep.1 = j.name) &&
          j.dependsOn.any fun dep => dep.1 = b.name) (by decide +kernel)
  simp only [Bool.and_eq_true, any_eq_true, all_eq_true, decide_eq_true_eq,
    Bool.not_eq_true'] at hfound
  obtain ⟨hneeds, a, ha, j, hj, b, hb, ⟨⟨hone, hone'⟩, hdep⟩, hdep'⟩ := hfound
  refine ⟨res, plan, hload, hplan, fun hkeeps => ?_⟩
  have hreach := hkeeps a b (by simp [hone]) (by simp [hone'])
    (.tail (.single ⟨ha, hj, hdep⟩) ⟨hj, hb, hdep'⟩)
  obtain ⟨y, ⟨c, hc, -, hy⟩, -⟩ := TransGen.head'_iff.1 hreach
  rw [hneeds c hc] at hy
  cases hy

end Akerdock.Provision
