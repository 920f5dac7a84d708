import Akerdock.Lib.Json
import Akerdock.Lib.Turns

/-!
# The routing table of the waker

`internal/jobs/agentprovision.go`: one file on a server holds the routes of all
resources there that scale to zero.  Provisioning or removing a resource reads
the file, replaces the entries of the resource, and writes the file.

* `Config` is the table and `MarshalConfig` the document that it is written as.
  `decode_MarshalConfig` says that reading gives the table back.
* `ensureAgent` and `removeWakerRoutes` are programs over the file operations of
  the agent, each of which may fail.
* `readWakerConfig` takes a file that cannot be read or decoded for an empty
  table, and `removeWakerResource` copies two of the four kinds of entries;
  `Operation.FrameKept` is what that may break.
-/

namespace Akerdock.Agent

open Wire Proc List

/-! ## The table -/

structure Route where
  host : String
  resourceUUID : String
  container : String
  port : Int64
  deriving DecidableEq

structure WakeContainer where
  container : String
  needs : List String
  deriving DecidableEq

structure Resource where
  uuid : String
  containers : List String
  wakeSet : List WakeContainer
  deriving DecidableEq

structure IngressRoute where
  host : String
  endpointUUID : String
  deriving DecidableEq

structure PendingRoute where
  host : String
  resourceUUID : String
  state : String
  prNumber : Int64
  deriving DecidableEq

structure Config where
  routes : List Route
  resources : List Resource
  ingress : List IngressRoute
  pending : List PendingRoute
  deriving DecidableEq

def Config.zero : Config :=
  ⟨[], [], [], []⟩

/-! ## Its document -/

/-- A member that is left out if it is zero (`omitempty`). -/
def omitEmpty (empty : Bool) (name : String) (j : Json) : List (String × Json) :=
  if empty then [] else [(name, j)]

def strings (l : List String) : Json :=
  Lax.arrOf .str l

def Route.json (r : Route) : Json :=
  .obj [("host", .str r.host), ("resource_uuid", .str r.resourceUUID),
    ("container", .str r.container), ("port", .num (some r.port.toInt))]

def WakeContainer.json (c : WakeContainer) : Json :=
  .obj (("container", .str c.container) :: omitEmpty c.needs.isEmpty "needs" (strings c.needs))

def Resource.json (r : Resource) : Json :=
  .obj ([("uuid", .str r.uuid), ("containers", strings r.containers)] ++
    omitEmpty r.wakeSet.isEmpty "wake_set" (Lax.arrOf WakeContainer.json r.wakeSet))

def IngressRoute.json (r : IngressRoute) : Json :=
  .obj [("host", .str r.host), ("endpoint_uuid", .str r.endpointUUID)]

def PendingRoute.json (r : PendingRoute) : Json :=
  .obj ([("host", .str r.host), ("resource_uuid", .str r.resourceUUID), ("state", .str r.state)] ++
    omitEmpty (r.prNumber = 0) "pr_number" (.num (some r.prNumber.toInt)))

def MarshalConfig (cfg : Config) : Json :=
  .obj ([("routes", Lax.arrOf Route.json cfg.routes),
      ("resources", Lax.arrOf Resource.json cfg.resources)] ++
    omitEmpty cfg.ingress.isEmpty "ingress" (Lax.arrOf IngressRoute.json cfg.ingress) ++
    omitEmpty cfg.pending.isEmpty "pending" (Lax.arrOf PendingRoute.json cfg.pending))

def Route.decode : Lax Route := .struct fun
  | "host" => .within (·.host) (fun r host => { r with host }) .string
  | "resource_uuid" => .within (·.resourceUUID)
      (fun r resourceUUID => { r with resourceUUID }) .string
  | "container" => .within (·.container) (fun r container => { r with container }) .string
  | "port" => .within (·.port) (fun r port => { r with port }) .int64
  | _ => .ignore

def WakeContainer.decode : Lax WakeContainer := .struct fun
  | "container" => .within (·.container) (fun c container => { c with container }) .string
  | "needs" => .within (·.needs) (fun c needs => { c with needs }) (.slice .string "")
  | _ => .ignore

def Resource.decode : Lax Resource := .struct fun
  | "uuid" => .within (·.uuid) (fun r uuid => { r with uuid }) .string
  | "containers" => .within (·.containers)
      (fun r containers => { r with containers }) (.slice .string "")
  | "wake_set" => .within (·.wakeSet) (fun r wakeSet => { r with wakeSet })
      (.slice WakeContainer.decode ⟨"", []⟩)
  | _ => .ignore

def IngressRoute.decode : Lax IngressRoute := .struct fun
  | "host" => .within (·.host) (fun r host => { r with host }) .string
  | "endpoint_uuid" => .within (·.endpointUUID)
      (fun r endpointUUID => { r with endpointUUID }) .string
  | _ => .ignore

def PendingRoute.decode : Lax PendingRoute := .struct fun
  | "host" => .within (·.host) (fun r host => { r with host }) .string
  | "resource_uuid" => .within (·.resourceUUID)
      (fun r resourceUUID => { r with resourceUUID }) .string
  | "state" => .within (·.state) (fun r state => { r with state }) .string
  | "pr_number" => .within (·.prNumber) (fun r prNumber => { r with prNumber }) .int64
  | _ => .ignore

/-- `json.Unmarshal` into a `Config`: what it holds then, and whether there
was no error. -/
def Config.decode : Lax Config := .struct fun
  | "routes" => .within (·.routes) (fun c routes => { c with routes })
      (.slice Route.decode ⟨"", "", "", 0⟩)
  | "resources" => .within (·.resources)
      (fun c resources => { c with resources })
      (.slice Resource.decode ⟨"", [], []⟩)
  | "ingress" => .within (·.ingress) (fun c ingress => { c with ingress })
      (.slice IngressRoute.decode ⟨"", ""⟩)
  | "pending" => .within (·.pending) (fun c pending => { c with pending })
      (.slice PendingRoute.decode ⟨"", "", "", 0⟩)
  | _ => .ignore

theorem decode_strings (l : List String) : Lax.Writes (.slice .string "") (strings l) l :=
  Lax.writes_slice fun s _ => Lax.writes_string s ""

theorem decode_route (r : Route) (r' : Route) : Route.decode r.json r' = (r, true) := by
  have hport := Lax.writes_int64 r.port r'.port
  simp [Route.decode, Route.json, Lax.struct, Lax.members, Lax.within, Lax.string, hport]

theorem decode_ingressRoute (r r' : IngressRoute) : IngressRoute.decode r.json r' = (r, true) := by
  simp [IngressRoute.decode, IngressRoute.json, Lax.struct, Lax.members, Lax.within, Lax.string]

theorem decode_wakeContainer (c : WakeContainer) :
    WakeContainer.decode c.json ⟨"", []⟩ = (c, true) := by
  have hneeds := decode_strings c.needs []
  obtain ⟨container, needs⟩ := c
  cases needs with
  | nil => simp [WakeContainer.decode, WakeContainer.json, omitEmpty,
      Lax.struct, Lax.members, Lax.within, Lax.string]
  | cons n needs => simp [WakeContainer.decode, WakeContainer.json, omitEmpty,
      Lax.struct, Lax.members, Lax.within, Lax.string, hneeds]

theorem decode_resource (r : Resource) : Resource.decode r.json ⟨"", [], []⟩ = (r, true) := by
  have hcontainers := decode_strings r.containers []
  have hset : Lax.Writes (.slice WakeContainer.decode ⟨"", []⟩)
      (Lax.arrOf WakeContainer.json r.wakeSet) r.wakeSet :=
    Lax.writes_slice fun c _ => decode_wakeContainer c
  have hset := hset []
  obtain ⟨uuid, containers, wakeSet⟩ := r
  cases wakeSet with
  | nil => simp [Resource.decode, Resource.json, omitEmpty, Lax.struct,
      Lax.members, Lax.within, Lax.string, hcontainers]
  | cons c set => simp [Resource.decode, Resource.json, omitEmpty, Lax.struct,
      Lax.members, Lax.within, Lax.string, hcontainers, hset]

theorem decode_pendingRoute (r : PendingRoute) :
    PendingRoute.decode r.json ⟨"", "", "", 0⟩ = (r, true) := by
  have hpr := Lax.writes_int64 r.prNumber 0
  obtain ⟨host, resourceUUID, state, prNumber⟩ := r
  by_cases h0 : prNumber = 0
  · simp [PendingRoute.decode, PendingRoute.json, omitEmpty, Lax.struct,
      Lax.members, Lax.within, Lax.string, h0]
  · simp [PendingRoute.decode, PendingRoute.json, omitEmpty, Lax.struct,
      Lax.members, Lax.within, Lax.string, h0, hpr]

theorem decode_MarshalConfig (cfg : Config) :
    Config.decode (MarshalConfig cfg) .zero = (cfg, true) := by
  have hroutes : Lax.Writes (.slice Route.decode ⟨"", "", "", 0⟩)
      (Lax.arrOf Route.json cfg.routes) cfg.routes :=
    Lax.writes_slice fun r _ => decode_route r _
  have hresources : Lax.Writes (.slice Resource.decode ⟨"", [], []⟩)
      (Lax.arrOf Resource.json cfg.resources) cfg.resources :=
    Lax.writes_slice fun r _ => decode_resource r
  have hingress : Lax.Writes (.slice IngressRoute.decode ⟨"", ""⟩)
      (Lax.arrOf IngressRoute.json cfg.ingress) cfg.ingress :=
    Lax.writes_slice fun r _ => decode_ingressRoute r _
  have hpending : Lax.Writes (.slice PendingRoute.decode ⟨"", "", "", 0⟩)
      (Lax.arrOf PendingRoute.json cfg.pending) cfg.pending :=
    Lax.writes_slice fun r _ => decode_pendingRoute r
  have hroutes := hroutes []
  have hresources := hresources []
  have hingress := hingress []
  have hpending := hpending []
  obtain ⟨routes, resources, ingress, pending⟩ := cfg
  cases ingress <;> cases pending <;>
    simp [Config.decode, MarshalConfig, Config.zero, omitEmpty, Lax.struct,
      Lax.members, Lax.within, hroutes, hresources, hingress, hpending]

/-! ## Replacing the entries of a resource -/

def removeWakerResource (base : Config) (resourceUUID : String) : Config where
  routes := base.routes.filter fun r => r.resourceUUID ≠ resourceUUID
  resources := base.resources.filter fun r => r.uuid ≠ resourceUUID
  ingress := []
  pending := []

def mergeWakerConfig (base : Config) (resourceUUID : String) (add : Config) : Config :=
  let out := removeWakerResource base resourceUUID
  { out with routes := out.routes ++ add.routes, resources := out.resources ++ add.resources }

/-- What the table has for a resource. -/
def Config.entries (cfg : Config) (uuid : String) : Config where
  routes := cfg.routes.filter fun r => r.resourceUUID = uuid
  resources := cfg.resources.filter fun r => r.uuid = uuid
  ingress := cfg.ingress.filter fun r => r.endpointUUID = uuid
  pending := cfg.pending.filter fun r => r.resourceUUID = uuid

structure Config.Of (cfg : Config) (uuid : String) : Prop where
  routes : ∀ r ∈ cfg.routes, r.resourceUUID = uuid
  resources : ∀ r ∈ cfg.resources, r.uuid = uuid

/-- A route of `proxy.RouteGroup`, as far as the waker is told. -/
structure Target where
  fqdn : String
  endpoint : String
  targetPort : Int64

/-- `proxy.RouteGroup`, as far as the waker is told. -/
structure RouteGroup where
  appUUID : String
  endpoint : String
  routes : List Target

def RouteGroup.container (rg : RouteGroup) (rt : Target) : String :=
  if rt.endpoint ≠ "" then rt.endpoint
  else if rg.endpoint ≠ "" then rg.endpoint
  else rg.appUUID

def addContainer (set : List WakeContainer) (c : WakeContainer) : List WakeContainer :=
  if c.container ≠ "" ∧ c.container ∉ set.map WakeContainer.container then
    set ++ [c]
  else set

def wakerConfigFromRouteGroup (resourceUUID : String) (rg : RouteGroup)
    (wakeSet : List WakeContainer) : Config :=
  let routed := (rg.routes.map rg.container).insertionSort (· ≤ ·)
  let set := (wakeSet ++ routed.map fun c => WakeContainer.mk c []).foldl addContainer []
  { routes := rg.routes.map fun rt => ⟨rt.fqdn, resourceUUID, rg.container rt, rt.targetPort⟩
    resources := [⟨resourceUUID, set.map WakeContainer.container,
      if set.any fun c => c.needs ≠ [] then set else []⟩]
    ingress := []
    pending := [] }

theorem wakerConfigFromRouteGroup_of (resourceUUID : String) (rg : RouteGroup)
    (wakeSet : List WakeContainer) :
    (wakerConfigFromRouteGroup resourceUUID rg wakeSet).Of resourceUUID := by
  refine ⟨?_, ?_⟩
  · intro r hr
    obtain ⟨rt, -, rfl⟩ := mem_map.1 hr
    rfl
  · intro r hr
    rw [mem_singleton.1 hr]

/-! ## Operations on the file -/

/-- What the file holds: a document, or something that is read as none, since
it is damaged or longer than what one read gives. -/
inductive Content where
  | document (j : Json)
  | other

/-- The file on a server, and how often it was written. -/
structure Server where
  file : Option Content
  writes : Nat

/-- What the operations call. -/
inductive WakerCall where
  | readFile
  | writeFile (j : Json)
  | agentEnsureCommand

/-- The answers.  `none` and `false` are errors; a file that was not found is
`some none`. -/
def WakerAns : WakerCall → Type
  | .readFile => Option (Option Content)
  | .writeFile _ => Bool
  | .agentEnsureCommand => Bool

def WakerCall.act : (c : WakerCall) → CallEnd → Server → WakerAns c × Server
  | .readFile, e, s =>
    match e with
    | .done => (some s.file, s)
    | _ => (none, s)
  | .writeFile j, e, s =>
    match e with
    | .done => (true, ⟨some (.document j), s.writes + 1⟩)
    | .failed => (false, s)
    | .lost => (false, ⟨some (.document j), s.writes + 1⟩)
  | .agentEnsureCommand, e, s => (decide (e = .done), s)

def readWakerConfig : Option (Option Content) → Config
  | some (some (.document j)) => (Config.decode j .zero).1
  | _ => .zero

/-- How an operation ends. -/
inductive Provisioned where
  | ok
  | noImage
  | notDeposited
  | notEnsured
  deriving DecidableEq

def ensureAgent (image resourceUUID : String) (cfg : Config) : Prog WakerAns Provisioned :=
  if image = "" then .ret .noImage
  else .call .readFile fun (res : Option (Option Content)) =>
    .call (.writeFile (MarshalConfig
      (mergeWakerConfig (readWakerConfig res) resourceUUID cfg)))
      fun (deposited : Bool) =>
        if deposited then .call .agentEnsureCommand fun (ensured : Bool) =>
          .ret (if ensured then .ok else .notEnsured)
        else .ret .notDeposited

def removeWakerRoutes (resourceUUID : String) : Prog WakerAns Provisioned :=
  .call .readFile fun (res : Option (Option Content)) =>
    .call (.writeFile (MarshalConfig
      (removeWakerResource (readWakerConfig res) resourceUUID)))
      fun (deposited : Bool) =>
        .ret (if deposited then .ok else .notDeposited)

inductive Operation where
  | provision (image resourceUUID : String) (cfg : Config)
  | remove (resourceUUID : String)
  deriving DecidableEq

def Operation.resource : Operation → String
  | .provision _ resourceUUID _ => resourceUUID
  | .remove resourceUUID => resourceUUID

def Operation.program : Operation → Prog WakerAns Provisioned
  | .provision image resourceUUID cfg => ensureAgent image resourceUUID cfg
  | .remove resourceUUID => removeWakerRoutes resourceUUID

/-- What an operation puts into the table for its resource. -/
def Operation.adds : Operation → Config
  | .provision _ _ cfg => cfg
  | .remove _ => .zero

def Operation.Own (op : Operation) : Prop :=
  op.adds.Of op.resource

/-- The table that an operation writes, for the one that it read. -/
def Operation.merged (op : Operation) (base : Config) : Config :=
  match op with
  | .provision _ resourceUUID cfg => mergeWakerConfig base resourceUUID cfg
  | .remove resourceUUID => removeWakerResource base resourceUUID

/-- The routes and resources of a table. -/
def Config.routing (cfg : Config) : Config :=
  { cfg with ingress := [], pending := [] }

section Merged

variable {op : Operation}

/-- In the new table, another resource has the routes that it had, and
nothing else. -/
theorem entries_merged_of_ne (hown : op.Own) (base : Config) {uuid : String}
    (hne : uuid ≠ op.resource) :
    (op.merged base).entries uuid = (base.entries uuid).routing := by
  have hroutes : op.adds.routes.filter (fun r => r.resourceUUID = uuid) = [] := by
    rw [filter_eq_nil_iff]
    intro r hr
    simp only [hown.routes r hr, decide_eq_true_eq]
    exact fun h => hne h.symm
  have hresources : op.adds.resources.filter (fun r => r.uuid = uuid) = [] := by
    rw [filter_eq_nil_iff]
    intro r hr
    simp only [hown.resources r hr, decide_eq_true_eq]
    exact fun h => hne h.symm
  have hbase : ((removeWakerResource base op.resource).entries uuid) =
      (base.entries uuid).routing := by
    have hboth : ∀ u : String, (decide (u = uuid) && decide (u ≠ op.resource))
        = decide (u = uuid) := by
      intro u
      by_cases hu : u = uuid
      · simp [hu, hne]
      · simp [hu]
    simp only [removeWakerResource, Config.entries, Config.routing,
      filter_filter, hboth, filter_nil]
  cases op with
  | remove resourceUUID => exact hbase
  | provision image resourceUUID cfg =>
    rw [← hbase]
    simp only [Operation.merged, mergeWakerConfig, Config.entries, filter_append]
    rw [show cfg.routes.filter _ = [] from hroutes,
      show cfg.resources.filter _ = [] from hresources, append_nil,
      append_nil]
    rfl

/-- The resource of the operation has what the operation puts there. -/
theorem entries_merged_self (hown : op.Own) (base : Config) :
    (op.merged base).entries op.resource = op.adds.routing := by
  have hroutes : op.adds.routes.filter
      (fun r => r.resourceUUID = op.resource) = op.adds.routes := by
    rw [filter_eq_self]
    intro r hr
    simpa using hown.routes r hr
  have hresources : op.adds.resources.filter
      (fun r => r.uuid = op.resource) = op.adds.resources := by
    rw [filter_eq_self]
    intro r hr
    simpa using hown.resources r hr
  have hbase : (removeWakerResource base op.resource).entries op.resource = .zero := by
    simp only [removeWakerResource, Config.entries, filter_filter]
    simp [Config.zero]
  cases op with
  | remove resourceUUID => exact hbase
  | provision image resourceUUID cfg =>
    have hr := congrArg Config.routes hbase
    have hs := congrArg Config.resources hbase
    simp only [Config.entries, Operation.resource] at hr hs hroutes hresources
    simp only [Operation.merged, mergeWakerConfig, Config.entries,
      filter_append, Operation.resource, hr, hs]
    simp only [Operation.adds] at hroutes hresources
    rw [hroutes, hresources]
    rfl

end Merged

/-! ## One operation -/

structure Ends where
  read : CallEnd
  write : CallEnd
  command : CallEnd

def Ends.of (ends : Ends) : WakerCall → CallEnd
  | .readFile => ends.read
  | .writeFile _ => ends.write
  | .agentEnsureCommand => ends.command

def Operation.run (op : Operation) (ends : Ends) (s : Server) : Provisioned × Server :=
  op.program.exec (fun c => c.act (ends.of c)) s

/-- The table that the file holds, if it can be decoded.  A file that is not
there holds an empty one. -/
def Server.table (s : Server) : Option Config :=
  match s.file with
  | none => some .zero
  | some (.document j) =>
    if (Config.decode j .zero).2 then some (Config.decode j .zero).1 else none
  | some .other => none

/-- The table that an operation has to start from, if it gets to see one. -/
def Server.seen (s : Server) (ends : Ends) : Option Config :=
  if ends.read = .done then s.table else none

/-- The entries of the other resources stay as they are; if the table cannot
be read or decoded, the operation fails and leaves the file alone. -/
def Operation.FrameKept (op : Operation) (ends : Ends) (s : Server) : Prop :=
  match s.seen ends with
  | none => (op.run ends s).1 ≠ .ok ∧ (op.run ends s).2 = s
  | some cfg => ∃ cfg', (op.run ends s).2.table = some cfg' ∧
      ∀ uuid, uuid ≠ op.resource → cfg'.entries uuid = cfg.entries uuid

/-- There is an image, so the operation gets to the file. -/
def Operation.Begins : Operation → Prop
  | .provision image _ _ => image ≠ ""
  | .remove _ => True

instance (op : Operation) : Decidable op.Begins := by
  cases op <;> unfold Operation.Begins <;> infer_instance

/-- The table has no pending entry and no ingress host of another resource. -/
def Config.OnlyRoutes (cfg : Config) (uuid : String) : Prop :=
  (∀ p ∈ cfg.pending, p.resourceUUID = uuid) ∧ ∀ i ∈ cfg.ingress, i.endpointUUID = uuid

/-- When an operation keeps the entries of the others. -/
def Operation.Harmless (op : Operation) (ends : Ends) (s : Server) : Prop :=
  ¬op.Begins ∨ ends.write = .failed ∨ ∃ cfg, s.seen ends = some cfg ∧ cfg.OnlyRoutes op.resource

theorem run_of_not_begins {op : Operation} (h : ¬op.Begins) (ends : Ends)
    (s : Server) : op.run ends s = (.noImage, s) := by
  cases op with
  | remove uuid => exact absurd trivial h
  | provision image uuid cfg =>
    have himage : image = "" := not_not.1 h
    simp [Operation.run, Operation.program, ensureAgent, himage, Prog.exec]

theorem run_of_write_failed {op : Operation} (h : ends.write = .failed)
    (s : Server) : (op.run ends s).1 ≠ .ok ∧ (op.run ends s).2 = s := by
  obtain ⟨read, write, command⟩ := ends
  obtain rfl : write = .failed := h
  cases op with
  | remove uuid =>
    cases read <;> exact ⟨by simp [Operation.run, Operation.program,
      removeWakerRoutes, Prog.exec, Ends.of, WakerCall.act], rfl⟩
  | provision image uuid cfg =>
    by_cases himage : image = ""
    · have hb : ¬(Operation.provision image uuid cfg).Begins := not_not.2 himage
      rw [run_of_not_begins hb]
      exact ⟨by simp, rfl⟩
    · cases read <;> simp [Operation.run, Operation.program, ensureAgent,
        himage, Prog.exec, Ends.of, WakerCall.act]

theorem run_of_written {op : Operation} (hbegins : op.Begins)
    (h : ends.write ≠ .failed) (s : Server) :
    (op.run ends s).2 = ⟨some (.document (MarshalConfig (op.merged
      (readWakerConfig (WakerCall.readFile.act ends.read s).1)))),
      s.writes + 1⟩ := by
  obtain ⟨read, write, command⟩ := ends
  cases write with
  | failed => exact absurd rfl h
  | _ =>
    cases op with
    | remove uuid =>
      cases read <;> simp [Operation.run, Operation.program,
        removeWakerRoutes, Prog.exec, Ends.of, WakerCall.act,
        Operation.merged]
    | provision image uuid cfg =>
      have himage : image ≠ "" := hbegins
      cases read <;> simp [Operation.run, Operation.program, ensureAgent,
        himage, Prog.exec, Ends.of, WakerCall.act, Operation.merged]

theorem readWakerConfig_of_seen (h : s.seen ends = some cfg) :
    readWakerConfig (WakerCall.readFile.act ends.read s).1 = cfg := by
  unfold Server.seen at h
  split at h
  · rename_i hdone
    rw [hdone]
    unfold Server.table at h
    split at h
    · rename_i hfile
      simp only [WakerCall.act, hfile, readWakerConfig]
      exact Option.some.inj h
    · rename_i j hfile
      split at h
      · simp only [WakerCall.act, hfile, readWakerConfig]
        exact Option.some.inj h
      · cases h
    · cases h
  · cases h

theorem table_of_MarshalConfig (cfg : Config) (n : Nat) :
    Server.table ⟨some (.document (MarshalConfig cfg)), n⟩ = some cfg := by
  simp [Server.table, decode_MarshalConfig]

theorem routing_entries_of_onlyRoutes {cfg : Config} (h : cfg.OnlyRoutes uuid)
    (hne : uuid' ≠ uuid) : (cfg.entries uuid').routing = cfg.entries uuid' := by
  have hp : cfg.pending.filter (fun p => p.resourceUUID = uuid') = [] := by
    rw [filter_eq_nil_iff]
    intro p hp
    simp only [h.1 p hp, decide_eq_true_eq]
    exact fun h => hne h.symm
  have hi : cfg.ingress.filter (fun i => i.endpointUUID = uuid') = [] := by
    rw [filter_eq_nil_iff]
    intro i hi
    simp only [h.2 i hi, decide_eq_true_eq]
    exact fun h => hne h.symm
  simp [Config.routing, Config.entries, hp, hi]

theorem onlyRoutes_of_routing_entries {cfg : Config}
    (h : ∀ uuid', uuid' ≠ uuid → (cfg.entries uuid').routing =
      cfg.entries uuid') : cfg.OnlyRoutes uuid := by
  refine ⟨?_, ?_⟩
  · intro p hp
    by_contra hne
    have hpending := congrArg Config.pending (h p.resourceUUID hne)
    have hmem : p ∈ (cfg.entries p.resourceUUID).pending := by
      simp [Config.entries, hp]
    rw [← hpending] at hmem
    cases hmem
  · intro i hi
    by_contra hne
    have hingress := congrArg Config.ingress (h i.endpointUUID hne)
    have hmem : i ∈ (cfg.entries i.endpointUUID).ingress := by
      simp [Config.entries, hi]
    rw [← hingress] at hmem
    cases hmem

/-- An operation keeps the entries of the other resources if and only if it is
harmless. -/
theorem frameKept_iff {op : Operation} (hown : op.Own) (ends : Ends)
    (s : Server) : op.FrameKept ends s ↔ op.Harmless ends s := by
  by_cases hbegins : op.Begins
  · by_cases hwrite : ends.write = .failed
    · have hrun : (op.run ends s).1 ≠ .ok ∧ (op.run ends s).2 = s := run_of_write_failed hwrite s
      refine iff_of_true ?_ (.inr (.inl hwrite))
      unfold Operation.FrameKept
      split
      · exact hrun
      · rename_i cfg hcfg
        unfold Server.seen at hcfg
        split at hcfg
        · exact ⟨cfg, by rw [hrun.2, hcfg], fun _ _ => rfl⟩
        · cases hcfg
    · have hrun := run_of_written hbegins hwrite s
      unfold Operation.FrameKept Operation.Harmless
      cases hseen : s.seen ends with
      | none =>
        refine iff_of_false ?_ (by simp [hbegins, hwrite])
        intro h
        have := congrArg Server.writes (hrun.symm.trans h.2)
        simp at this
      | some cfg =>
        rw [readWakerConfig_of_seen hseen] at hrun
        have htable : (op.run ends s).2.table = some (op.merged cfg) := by
          rw [hrun, table_of_MarshalConfig]
        simp only [htable, Option.some.injEq, exists_eq_left', hbegins,
          not_true_eq_false, hwrite, false_or]
        constructor
        · intro h
          refine onlyRoutes_of_routing_entries fun uuid hne => ?_
          rw [← entries_merged_of_ne hown cfg hne, h uuid hne]
        · intro h uuid hne
          rw [entries_merged_of_ne hown cfg hne, routing_entries_of_onlyRoutes h hne]
  · refine iff_of_true ?_ (.inl hbegins)
    have hrun := run_of_not_begins hbegins ends s
    unfold Operation.FrameKept
    rw [hrun]
    split
    · exact ⟨by simp, rfl⟩
    · rename_i cfg hcfg
      unfold Server.seen at hcfg
      split at hcfg
      · exact ⟨cfg, hcfg, fun _ _ => rfl⟩
      · cases hcfg

def oneRoute (uuid host : String) : Config :=
  wakerConfigFromRouteGroup uuid ⟨uuid, "", [⟨host, "", 80⟩]⟩ []

/-- A server whose table is `cfg`. -/
def serverWith (cfg : Config) : Server :=
  ⟨some (.document (MarshalConfig cfg)), 0⟩

/-- All calls end well. -/
def allDone : Ends :=
  ⟨.done, .done, .done⟩

def provisionPreview : Operation :=
  .provision "img" "pr-1" (oneRoute "pr-1" "b.test")

theorem provisionPreview_own : provisionPreview.Own :=
  wakerConfigFromRouteGroup_of _ _ _

def shopTable : Config :=
  oneRoute "shop" "a.test"

theorem frameKept_shop :
    provisionPreview.FrameKept allDone (serverWith shopTable) ∧
      provisionPreview.Harmless allDone (serverWith shopTable) := by
  have hseen : (serverWith shopTable).seen allDone = some shopTable :=
    table_of_MarshalConfig shopTable 0
  have h : provisionPreview.Harmless allDone (serverWith shopTable) :=
    .inr (.inr ⟨shopTable, hseen, by decide, by decide⟩)
  exact ⟨(frameKept_iff provisionPreview_own _ _).2 h, h⟩

/-- The table with an application and another preview, whose container is not
there yet. -/
def pendingTable : Config :=
  { shopTable with pending := [⟨"c.test", "pr-2", "queued", 2⟩] }

/-- Provisioning loses the pending entry of another preview, with all calls
ending well.  If the file cannot be read for once, provisioning loses the route
of the application as well and reports success. -/
theorem provision_loses_others :
    (provisionPreview.run allDone (serverWith pendingTable)).2.table =
        some (provisionPreview.merged shopTable) ∧
      ¬provisionPreview.FrameKept allDone (serverWith pendingTable) ∧
    (provisionPreview.run ⟨.failed, .done, .done⟩ (serverWith shopTable)).1 = .ok ∧
      (provisionPreview.run ⟨.failed, .done, .done⟩
        (serverWith shopTable)).2.table = some (oneRoute "pr-1" "b.test") ∧
      ¬provisionPreview.FrameKept ⟨.failed, .done, .done⟩ (serverWith shopTable) := by
  have htable : (provisionPreview.run allDone
      (serverWith pendingTable)).2.table = some (provisionPreview.merged shopTable) :=
    rfl
  refine ⟨htable, ?_, rfl, ?_, ?_⟩
  · intro h
    obtain ⟨cfg', hcfg', hsame⟩ : ∃ cfg', (provisionPreview.run allDone
        (serverWith pendingTable)).2.table = some cfg' ∧
        ∀ uuid, uuid ≠ provisionPreview.resource →
          cfg'.entries uuid = pendingTable.entries uuid := by
      have hseen : (serverWith pendingTable).seen allDone =
          some pendingTable := table_of_MarshalConfig pendingTable 0
      unfold Operation.FrameKept at h
      rwa [hseen] at h
    have hpr := hsame "pr-2" (by decide)
    rw [← Option.some.inj hcfg'] at hpr
    exact absurd hpr (by decide)
  · exact table_of_MarshalConfig (oneRoute "pr-1" "b.test") 1
  · intro h
    exact h.1 rfl

end Akerdock.Agent
