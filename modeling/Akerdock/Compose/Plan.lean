import Akerdock.Compose.Project

/-!
# The plan of a compose stack

`internal/compose/transform.go` and `internal/compose/compose.go`: what the
deployment creates for a project, and under which names.

* `topologicalOrder` is the order in which services start.
* `buildPlan` names the volumes of the stack, and `buildServicePlan` rewrites
  the mounts of a service to these names.
* `Load` is the way from a file to its plan.
* `Ordered` is what an order of the services keeps while it grows, and
  `mem_topologicalOrder` what follows from it: every service is in the plan.
-/

namespace Akerdock.Compose

open List
open Crypto (Bytes)
open Secrets (ascii)
open Access (hasPrefix)
open Prod (fst snd)

/-! ## Identifiers -/

/-- `pguuid.String`: the text form of an identifier. -/
structure UUID where
  text : Bytes
  length_eq : text.length = 36
  chars : ∀ c ∈ text, (Access.isDigit c || (97 ≤ c && c ≤ 102) || c = 45) = true
  deriving DecidableEq

/-! ## The order of services -/

/-- The state of the search for an order.  `indegree` are the dependencies of
each service that have not started. -/
structure Kahn where
  indegree : Bytes → Int
  ready : List Bytes
  order : List Bytes

def knownDeps (project : Project) (svc : Service) : List Bytes :=
  (svc.dependsOn.map fst).filter fun dep => (project.service? dep).isSome

def dependents (project : Project) (dep : Bytes) : List Bytes :=
  project.services.flatMap fun (name, svc) =>
    ((knownDeps project svc).filter fun d => d = dep).map fun _ => name

/-- One dependent of a service that was put into the order. -/
def Kahn.release (s : Kahn) (dependent : Bytes) : Kahn :=
  let n := s.indegree dependent - 1
  { s with
    indegree := fun name => if name = dependent then n else s.indegree name
    ready := if n = 0 then sortStrings (s.ready ++ [dependent]) else s.ready }

/-- The loop of `topologicalOrder`.  Each round puts a service into the order,
so the number of services is enough for `n`. -/
def Kahn.run (project : Project) : (n : Nat) → Kahn → Kahn
  | 0, s => s
  | n + 1, s =>
    match s.ready with
    | [] => s
    | name :: ready =>
      let s := { s with ready, order := s.order ++ [name] }
      Kahn.run project n ((sortStrings (dependents project name)).foldl Kahn.release s)

/-- The state at the start. -/
def Kahn.start (project : Project) : Kahn :=
  let indegree (name : Bytes) : Int :=
    ((project.service? name).map fun svc =>
      ((knownDeps project svc).length : Int)).getD 0
  { indegree
    ready := sortStrings ((project.services.map fst).filter fun name =>
      indegree name = 0)
    order := [] }

/-- `topologicalOrder`: the order and whether it is complete. -/
def topologicalOrder (project : Project) : List Bytes × Bool :=
  let s := Kahn.run project project.services.length (Kahn.start project)
  (s.order, s.order.length = project.services.length)

/-! ## Plans -/

structure MountPlan where
  type : VolumeType
  source : Bytes
  target : Bytes
  readOnly : Bool
  ext : Option VolumeExtensions

/-- `ServicePlan`, without the flags that are computed from the service
alone. -/
structure ServicePlan where
  name : Bytes
  containerName : Bytes
  candidateName : Bytes
  aliases : List Bytes
  extraNetworks : List Bytes
  image : Bytes
  build : Bool
  buildImage : Bytes
  mounts : List MountPlan
  dependsOn : List (Bytes × Condition)
  restart : Bytes
  oneShot : Bool
  preCommand : Bytes
  postCommand : Bytes
  accessPublicRoutes : List Access.Route
  excludeFromHC : Bool
  zeroDowntimeOptOut : Bool
  hasHostPorts : Bool

/-- `Plan`.  The maps give the names of Docker objects for declared names, and
`seedVolumes` the other way round. -/
structure Plan where
  stackUUID : Bytes
  networkName : Bytes
  extraNetworks : List (Bytes × Bytes)
  volumes : List (Bytes × Bytes)
  seedVolumes : List (Bytes × Bytes)
  externalVolumes : List (Bytes × Bytes)
  services : List ServicePlan

/-- `Input`, without the file. -/
structure Input where
  stackUUID : UUID
  policy : Policy
  raw : Bool

section

variable (input : Input)

/-- The Docker name of an object that the file declares.  In raw mode it is the
declared one. -/
def dockerName (name : Bytes) : Bytes :=
  if input.raw then name
  else input.stackUUID.text ++ ascii "_" ++ name

def externalName (name : Bytes) (volume : TopVolume) : Bytes :=
  if volume.name = [] then name else volume.name

/-- The findings of `buildPlan` about a volume. -/
def seedFindings (name : Bytes) (volume : TopVolume) : List Finding :=
  let path := ascii "volumes." ++ name ++ ascii ".x-akerdock.preview_seed"
  match volume.previewSeed with
  | none => []
  | some seed =>
    if volume.external then
      [errf .previewSeedInvalid [] path
        ("preview_seed does not apply to an external volume — it is the " ++
         "production object itself (ADR-029)") []]
    else if seed ≠ some (ascii "clone") then
      [errf .previewSeedInvalid [] path "preview_seed only accepts \"clone\" (ADR-029)" []]
    else report input.raw
      (errf .previewSeedInvalid [] path
        ("preview_seed is not available in raw compose mode — volume names " ++
         "are not prefixed there (ADR-029, §9)") [])

def planVolumes (project : Project) : List (Bytes × Bytes) :=
  (project.volumes.filter fun v => !v.2.external).map fun v =>
    (v.1, dockerName input v.1)

def planExternalVolumes (project : Project) : List (Bytes × Bytes) :=
  (project.volumes.filter fun v => v.2.external).map fun v =>
    (v.1, externalName v.1 v.2)

def planSeedVolumes (project : Project) : List (Bytes × Bytes) :=
  (project.volumes.filter fun v => !v.2.external && !input.raw &&
      v.2.previewSeed = some (some (ascii "clone"))).map fun v =>
    (dockerName input v.1, v.1)

def planNetworks (project : Project) : List (Bytes × Bytes) :=
  (project.networks.filter fun n => n.1 ≠ ascii "default" && !n.2).map
    fun n => (dockerName input n.1, n.1)

/-- The source of a mount.  Only declared names are rewritten. -/
def mountSource (volumes external : List (Bytes × Bytes)) (vol : ServiceVolume) : Bytes :=
  if vol.type = .volume && vol.source ≠ [] then
    match volumes.lookup vol.source with
    | some name => name
    | none => (external.lookup vol.source).getD vol.source
  else vol.source

def planMounts (volumes external : List (Bytes × Bytes)) (name : Bytes)
    (svc : Service) : List MountPlan :=
  svc.volumes.zipIdx.map fun (vol, i) =>
    { type := vol.type
      source := mountSource volumes external vol
      target := vol.target
      readOnly := vol.readOnly
      ext := (volumeExtensions name (ascii "services." ++ name ++
        ascii ".volumes[" ++ ascii (toString i) ++ ascii "]") vol).1 }

def buildServicePlan (volumes external networks : List (Bytes × Bytes))
    (name : Bytes) (svc : Service) : ServicePlan × List Finding :=
  let p := ascii "services." ++ name
  let ext := (serviceExtensions name (p ++ ascii ".x-akerdock") svc).1
  let container := input.stackUUID.text ++ ascii "-" ++ name
  let oneShot := svc.restart = ascii "no"
  ({ name
     containerName := container
     candidateName := container ++ ascii "-next"
     aliases := [name, container]
     extraNetworks := sortStrings
       ((svc.networks.filter fun n => n ≠ ascii "default").flatMap fun n =>
         (networks.filter fun e => e.2 = n).map fst)
     image := svc.image
     build := svc.build.isSome
     buildImage := if svc.build.isSome then ascii "akerdock/" ++ container
       else []
     mounts := planMounts volumes external name svc
     dependsOn := svc.dependsOn.insertionSort fun d d' => d.1 ≤ d'.1
     restart := if svc.restart = [] && !input.raw then ascii "unless-stopped"
       else svc.restart
     oneShot
     preCommand := ext.preDeploymentCommand
     postCommand := ext.postDeploymentCommand
     accessPublicRoutes := ext.accessPublicRoutes
     excludeFromHC := ext.excludeFromHC
     zeroDowntimeOptOut := ext.zeroDowntime = some false
     hasHostPorts := svc.ports ≠ 0 },
   report (oneShot && !ext.excludeFromHC)
     (warnf .oneshotWithoutExclude name (p ++ ascii ".restart")
       ("restart: no without x-akerdock.exclude_from_hc: the one-shot job " ++
        "will drag the stack health down — add the extension") []))

def buildPlan (project : Project) : Option Plan × List Finding :=
  let volumes := planVolumes input project
  let external := planExternalVolumes project
  let networks := planNetworks input project
  let (order, complete) := topologicalOrder project
  let services := order.filterMap fun name =>
    (project.service? name).map fun svc =>
      buildServicePlan input volumes external networks name svc
  let plan : Plan :=
    { stackUUID := input.stackUUID.text
      networkName := input.stackUUID.text
      extraNetworks := networks
      volumes
      seedVolumes := planSeedVolumes input project
      externalVolumes := external
      services := services.map fst }
  (if complete then some plan else none,
    (project.volumes.flatMap fun v => seedFindings input v.1 v.2) ++ services.flatMap snd)

/-! ## Files -/

/-- A file before it is loaded: its keys, and those of each service that is a
map. -/
structure RawDocument where
  topLevel : List Bytes
  services : List (Bytes × Option (List Bytes))

/-- A file: what the YAML parser makes of it, the variables that it refers to
without a definition, and what the compose library makes of it. -/
structure File where
  document : Except Bytes (Option RawDocument)
  undefined : List Bytes
  project : Except (Bool × Bytes) Project

def knownTopLevel : List Bytes :=
  ["services", "networks", "volumes", "configs", "secrets", "name", "version",
    "include"].map ascii

def knownServiceKeys : List Bytes :=
  ["image", "build", "command", "entrypoint", "environment", "env_file",
    "ports", "expose", "volumes", "labels", "hostname", "networks",
    "depends_on", "healthcheck", "restart", "deploy", "mem_limit",
    "mem_reservation", "memswap_limit", "cpus", "cpu_shares", "cpuset",
    "stop_grace_period", "stop_signal", "user", "working_dir", "init", "tty",
    "stdin_open", "read_only", "tmpfs", "shm_size", "ulimits", "group_add",
    "dns", "dns_search", "extra_hosts", "platform", "pull_policy", "profiles",
    "logging", "extends", "configs", "secrets", "privileged", "cap_add",
    "cap_drop", "devices", "security_opt", "sysctls", "network_mode", "pid",
    "ipc", "userns_mode", "cgroup_parent", "cgroup", "external_links", "scale",
    "credential_spec", "isolation"].map ascii

/-- The findings of `rawPass` about a key of the file. -/
def topLevelFindings (key : Bytes) : List Finding :=
  if key = ascii "version" then
    [warnf .versionIgnored [] (ascii "version")
      ("the version key is obsolete in the Compose Specification and is " ++ "ignored") []]
  else if key = ascii "name" then
    [warnf .keyIgnored [] (ascii "name")
      ("the project name is imposed by the stack UUID (INV-011) — name is " ++ "ignored") []]
  else if key = ascii "include" then
    [errf .includeRejected [] (ascii "include")
      "include is rejected: one stack = one file (path traversal surface)" []]
  else report (!hasPrefix key (ascii "x-") && !knownTopLevel.contains key)
    (warnf .keyIgnored [] key "unsupported top-level key %q removed" [key])

/-- The findings of `rawPass` about a key of a service. -/
def serviceKeyFindings (name key : Bytes) : List Finding :=
  let path := ascii "services." ++ name ++ ascii "."
  if key = ascii "container_name" then
    [warnf .containerNameIgnored name (path ++ ascii "container_name")
      "container naming is imposed (INV-011) — container_name is ignored" []]
  else if key = ascii "links" then
    [warnf .keyIgnored name (path ++ ascii "links")
      "links is legacy — the stack's isolated network DNS covers it" []]
  else report (!hasPrefix key (ascii "x-") && !knownServiceKeys.contains key)
    (warnf .keyIgnored name (path ++ key) "unsupported service key %q removed" [key])

/-- `rawPass`: whether the file can be loaded, and the findings. -/
def rawPass (document : Except Bytes (Option RawDocument)) : Bool × List Finding :=
  match document with
  | .error e => (false, [errf .parseError [] [] "invalid YAML: %v" [e]])
  | .ok none => (false, [errf .parseError [] [] "empty compose file" []])
  | .ok (some doc) =>
    let fs := doc.topLevel.flatMap topLevelFindings
    if doc.services = [] then
      (false, fs ++ [errf .parseError [] (ascii "services") "the file declares no service" []])
    else
      (true, fs ++ doc.services.flatMap fun (name, keys) =>
        (keys.getD []).flatMap (serviceKeyFindings name))

/-- `Result`.  The project is the one that was loaded. -/
structure Result where
  project : Option Project
  plan : Option Plan
  findings : List Finding

/-- `Load`.  It fails if a cycle of dependencies was not found before. -/
def Load (file : File) : Except String Result :=
  let (ok, fs) := rawPass file.document
  if !ok then .ok ⟨none, none, fs⟩
  else
    let fs := fs ++ file.undefined.map fun name =>
      warnf .variableUndefined [] []
        "variable %q is undefined and interpolates to an empty string" [name]
    match file.project with
    | .error (required, e) =>
      let code := if required then Code.requiredVariableMissing
        else .parseError
      .ok ⟨none, none, fs ++ [errf code [] [] "%s" [e]]⟩
    | .ok project =>
      let fs := fs ++ validate project input.policy
      if HasErrors fs then .ok ⟨some project, none, fs⟩
      else
        match buildPlan input project with
        | (none, _) => .error "compose: dependency cycle survived validation"
        | (some plan, fs') =>
          .ok ⟨some project, if HasErrors (fs ++ fs') then none else some plan, fs ++ fs'⟩

end

/-! ## Every service is in the plan -/

theorem mem_sortStrings : s ∈ sortStrings l ↔ s ∈ l :=
  mem_insertionSort _

/-- What holds of the order of services while it grows: nothing is in it or
ready twice, because a service that is has no dependency left to wait for. -/
structure Kahn.Ordered (project : Project) (s : Kahn) : Prop where
  nodup : (s.order ++ s.ready).Nodup
  known : ∀ x ∈ s.order ++ s.ready, x ∈ project.services.map fst
  spent : ∀ x ∈ s.order ++ s.ready, s.indegree x ≤ 0

section

theorem mem_dependents {dep x : Bytes} (h : x ∈ dependents project dep) :
    x ∈ project.services.map fst := by
  obtain ⟨⟨name, svc⟩, hmem, hx⟩ := mem_flatMap.mp h
  obtain ⟨_, -, rfl⟩ := mem_map.mp hx
  exact mem_map_of_mem hmem

theorem Kahn.Ordered.release (h : Ordered project s)
    (hd : dependent ∈ project.services.map fst) :
    Ordered project (s.release dependent) := by
  by_cases hn : s.indegree dependent - 1 = 0
  · -- it was waiting until now, and so is not there yet
    have hnew : dependent ∉ s.order ++ s.ready := by
      intro hmem
      have := h.spent dependent hmem
      omega
    have hperm : (s.order ++ sortStrings (s.ready ++ [dependent])).Perm
        ((s.order ++ s.ready) ++ [dependent]) := by
      rw [append_assoc]
      exact (perm_insertionSort _ _).append_left _
    have hready : (s.release dependent).ready = sortStrings (s.ready ++ [dependent]) := by
      simp [Kahn.release, hn]
    refine ⟨?_, ?_, ?_⟩
    · show (s.order ++ (s.release dependent).ready).Nodup
      rw [hready, hperm.nodup_iff]
      exact nodup_append.mpr ⟨h.nodup, by simp, by
        intro x hx y hy
        rw [mem_singleton.mp hy]
        intro heq
        exact hnew (heq ▸ hx)⟩
    · intro x hx
      have hx : x ∈ s.order ++ (s.release dependent).ready := hx
      rw [hready, hperm.mem_iff] at hx
      rcases mem_append.mp hx with hx | hx
      · exact h.known x hx
      · rw [mem_singleton.mp hx]
        exact hd
    · intro x hx
      have hx : x ∈ s.order ++ (s.release dependent).ready := hx
      rw [hready, hperm.mem_iff] at hx
      show (if x = dependent then s.indegree dependent - 1
        else s.indegree x) ≤ 0
      split
      · omega
      · rename_i hne
        rcases mem_append.mp hx with hx | hx
        · exact h.spent x hx
        · exact absurd (mem_singleton.mp hx) hne
  · have hready : (s.release dependent).ready = s.ready := by simp [Kahn.release, hn]
    refine ⟨?_, ?_, ?_⟩
    · rw [hready]
      exact h.nodup
    · intro x hx
      rw [hready] at hx
      exact h.known x hx
    · intro x hx
      rw [hready] at hx
      have := h.spent x hx
      show (if x = dependent then s.indegree dependent - 1
        else s.indegree x) ≤ 0
      split
      · rename_i heq
        rw [heq] at this
        omega
      · exact this

theorem Kahn.Ordered.foldl (h : Ordered project s) {l : List Bytes}
    (hl : ∀ x ∈ l, x ∈ project.services.map fst) :
    Ordered project (l.foldl Kahn.release s) := by
  induction l generalizing s with
  | nil => exact h
  | cons x l ih =>
    exact ih (h.release (hl x (by simp))) (fun y hy => hl y (by simp [hy]))

theorem Kahn.Ordered.run (h : Ordered project s) (n : Nat) :
    Ordered project (Kahn.run project n s) := by
  induction n generalizing s with
  | zero => exact h
  | succ n ih =>
    unfold Kahn.run
    split
    · exact h
    · rename_i name ready hready
      apply ih
      have hsame : s.order ++ [name] ++ ready = s.order ++ s.ready := by
        simp [hready]
      have hpop : Ordered project { s with ready, order := s.order ++ [name] } :=
        ⟨hsame ▸ h.nodup, hsame ▸ h.known, hsame ▸ h.spent⟩
      apply hpop.foldl
      intro x hx
      exact mem_dependents (mem_sortStrings.mp hx)

theorem Kahn.Ordered.start : Ordered project (Kahn.start project) := by
  refine ⟨?_, ?_, ?_⟩
  · exact ((perm_insertionSort _ _).nodup_iff).mpr (project.services_nodup.filter _)
  · intro x hx
    exact (mem_filter.mp (mem_sortStrings.mp hx)).1
  · intro x hx
    have := (mem_filter.mp (mem_sortStrings.mp hx)).2
    exact le_of_eq (of_decide_eq_true this)

/-- The order is complete only if every service is in it. -/
theorem mem_topologicalOrder (h : (topologicalOrder project).2 = true) :
    name ∈ (topologicalOrder project).1 ↔ name ∈ project.services.map fst := by
  have hord := (@Kahn.Ordered.start project).run project.services.length
  have hnodup : (topologicalOrder project).1.Nodup :=
    (nodup_append.mp hord.nodup).1
  have hsub : (topologicalOrder project).1 ⊆ project.services.map fst := by
    intro x hx
    exact hord.known x (mem_append_left _ hx)
  have hperm := (subperm_of_subset hnodup hsub).perm_of_length_le (by
    have hlen : (topologicalOrder project).1.length = project.services.length := of_decide_eq_true h
    rw [length_map, hlen])
  exact hperm.mem_iff

theorem lookup_eq_some {l : List (Bytes × β)} (hnodup : (l.map fst).Nodup)
    {v : β} : l.lookup k = some v ↔ (k, v) ∈ l := by
  induction l with
  | nil => simp
  | cons e l ih =>
    obtain ⟨k', v'⟩ := e
    rw [map_cons, nodup_cons] at hnodup
    rw [lookup_cons]
    by_cases hk : k = k'
    · subst hk
      simp only [beq_self_eq_true, Option.some.injEq, mem_cons, Prod.mk.injEq, true_and]
      constructor
      · intro h
        exact .inl h.symm
      · rintro (h | h)
        · exact h.symm
        · exact absurd (mem_map_of_mem h) hnodup.1
    · have hbeq : (k == k') = false := by simpa using hk
      simp only [hbeq, ih hnodup.2, mem_cons, Prod.mk.injEq, hk, false_and, false_or]

variable {input : Input}

theorem mem_plan_services (h : (buildPlan input project).1 = some plan) {sp : ServicePlan} :
    sp ∈ plan.services ↔ ∃ name svc, (name, svc) ∈ project.services ∧
      sp = (buildServicePlan input (planVolumes input project)
        (planExternalVolumes project) (planNetworks input project) name
        svc).1 := by
  have hcomplete : (topologicalOrder project).2 = true := by
    unfold buildPlan at h
    by_contra hno
    simp [hno] at h
  have hplan := h
  unfold buildPlan at hplan
  simp only [hcomplete, if_true, Option.some.injEq] at hplan
  rw [← hplan]
  simp only [mem_map, mem_filterMap, Option.map_eq_some_iff, mem_topologicalOrder hcomplete]
  constructor
  · rintro ⟨_, ⟨name, -, svc, hsvc, rfl⟩, rfl⟩
    exact ⟨name, svc, (lookup_eq_some project.services_nodup).mp hsvc, rfl⟩
  · rintro ⟨name, svc, hmem, rfl⟩
    exact ⟨_, ⟨name, ⟨(name, svc), hmem, rfl⟩, svc,
      (lookup_eq_some project.services_nodup).mpr hmem, rfl⟩, rfl⟩

/-- A file has a plan only if its project passes all checks. -/
theorem Load_plan (h : Load input file = .ok res) (hplan : res.plan = some plan) :
    ∃ project, file.project = .ok project ∧
      HasErrors (validate project input.policy) = false ∧
      (buildPlan input project).1 = some plan := by
  unfold Load at h
  split at h
  split at h
  · cases h
    cases hplan
  · simp only at h
    split at h
    · cases h
      cases hplan
    · rename_i project hproject
      refine ⟨project, hproject, ?_⟩
      split at h
      · cases h
        cases hplan
      · rename_i hno
        split at h
        · cases h
        · rename_i plan' fs' hbuild
          cases h
          split at hplan
          · cases hplan
          · cases hplan
            refine ⟨?_, by rw [hbuild]⟩
            simp only [HasErrors, any_append, Bool.or_eq_true, not_or, Bool.not_eq_true] at hno
            exact hno.2

end

end Akerdock.Compose
