import Akerdock.Access.Route
import Akerdock.Lib.Paths

/-!
# Compose projects

`internal/compose/findings.go` and `internal/compose/policy.go`: a project as
the compose library loads it, and the checks that it has to pass.

A check gives the list of its findings.  A finding keeps the format of its
message and the arguments, and the code under which it is known.

* `validate` is all checks together, and `HasErrors` whether they refuse the
  project.
* `escapesBase` and `underAllowedRoot` decide about the paths of bind mounts.
* `findCycle` names a cycle of dependencies.
* `validate_mounts` and `validate_external` are what a project that passes has
  to say about its mounts.
-/

namespace Akerdock.Compose

open Crypto (Bytes)
open Secrets (ascii)
open Access (slash dot hasPrefix)

/-! ## Findings -/

inductive Severity where
  | error
  | warning
  deriving DecidableEq

/-- The codes of findings. -/
inductive Code where
  | parseError | versionIgnored | keyIgnored | containerNameIgnored
  | swarmKeyRejected | networkModeHostRejected | networkModeRejected
  | hostNamespaceRejected | privilegedDenied | bindMountDenied
  | externalObjectRejected | includeRejected | platformUnsupported
  | invalidServiceName | reservedLabel | pathTraversal | conflictingLimits
  | dependencyCycle | dependencyNeedsHealthcheck | requiredVariableMissing
  | previewSeedInvalid | variableUndefined | storageExtensionConflict
  | accessPublicRouteInvalid | oneshotWithoutExclude | fileContentTooLarge
  | hookOnOneShot | hookWithoutHealthcheck

structure Finding where
  code : Code
  severity : Severity
  service : Bytes
  path : Bytes
  format : String
  args : List Bytes

def errf (code : Code) (service path : Bytes) (format : String) (args : List Bytes) : Finding :=
  ⟨code, .error, service, path, format, args⟩

def warnf (code : Code) (service path : Bytes) (format : String) (args : List Bytes) : Finding :=
  ⟨code, .warning, service, path, format, args⟩

def HasErrors (fs : List Finding) : Bool :=
  fs.any fun f => f.severity = .error

/-- A check with one finding. -/
def report (c : Bool) (f : Finding) : List Finding :=
  if c then [f] else []

@[simp] theorem HasErrors_append (fs gs : List Finding) :
    HasErrors (fs ++ gs) = (HasErrors fs || HasErrors gs) := by
  simp [HasErrors]

@[simp] theorem HasErrors_flatMap (l : List α) (f : α → List Finding) :
    HasErrors (l.flatMap f) = l.any fun a => HasErrors (f a) := by
  simp [HasErrors, List.any_flatMap]

@[simp] theorem HasErrors_report_errf (c : Bool) (code : Code)
    (service path : Bytes) (format : String) (args : List Bytes) :
    HasErrors (report c (errf code service path format args)) = c := by
  cases c <;> rfl

/-! ## Projects -/

/-- `Policy`.  The default denies everything. -/
structure Policy where
  allowPrivileged : Bool := false
  allowDevices : Bool := false
  allowSecurityOpt : Bool := false
  allowExternalObjects : Bool := false
  extraCapAdd : List Bytes := []
  allowedBindRoots : List Bytes := []

/-- The types of mounts that the compose schema knows. -/
inductive VolumeType where
  | bind
  | volume
  | tmpfs
  | npipe
  | cluster
  | image
  deriving DecidableEq

/-- The `x-akerdock` block of a volume entry, each key if it has the type that
is asked for. -/
structure RawVolumeExtensions where
  isDirectory : Option Bool
  content : Option Bytes
  fileMode : Option Bytes
  ownerUID : Option Int
  groupGID : Option Int

/-- `types.ServiceVolumeConfig`. -/
structure ServiceVolume where
  type : VolumeType
  source : Bytes
  target : Bytes
  readOnly : Bool
  extensions : Option RawVolumeExtensions

structure Limits where
  memoryBytes : Int
  nanoCPUs : Rat

structure Deploy where
  replicas : Option Int
  mode : Bytes
  updateConfig : Bool
  rollbackConfig : Bool
  constraints : List Bytes
  preferences : List Bytes
  endpointMode : Bytes
  labels : List Bytes
  limits : Option Limits

/-- The conditions of `depends_on`. -/
inductive Condition where
  | serviceStarted
  | serviceHealthy
  | serviceCompletedSuccessfully

/-- The `x-akerdock` block of a service, each key if it has the type that is
asked for.  The public routes are `none` inside if they are no list of
routes. -/
structure RawServiceExtensions where
  excludeFromHC : Option Bool
  zeroDowntime : Option Bool
  preDeploymentCommand : Option Bytes
  postDeploymentCommand : Option Bytes
  accessPublicRoutes : Option (Option (List Access.RawRoute))

/-- `types.ServiceConfig`. -/
structure Service where
  image : Bytes
  build : Option Bytes
  restart : Bytes
  networks : List Bytes
  volumes : List ServiceVolume
  ports : Nat
  dependsOn : List (Bytes × Condition)
  healthCheck : Option Bool
  labels : List Bytes
  envFiles : List Bytes
  extendsFile : Option Bytes
  deploy : Option Deploy
  scale : Option Int
  externalLinks : List Bytes
  networkMode : Bytes
  pid : Bytes
  ipc : Bytes
  userNSMode : Bytes
  cgroup : Bytes
  cgroupParent : Bytes
  credentialSpec : Bool
  isolation : Bytes
  privileged : Bool
  capAdd : List Bytes
  devices : List Bytes
  securityOpt : List Bytes
  sysctls : List Bytes
  memLimit : Int
  cpus : Rat
  extensions : Option RawServiceExtensions

/-- A top-level volume.  `previewSeed` is the key of its `x-akerdock` block,
with `none` inside if it is no text. -/
structure TopVolume where
  external : Bool
  name : Bytes
  previewSeed : Option (Option Bytes)

/-- The characters that the compose schema allows in the name of an object. -/
def isNameChar (c : UInt8) : Bool :=
  Access.isLetter c || Access.isDigit c || (ascii "._-").contains c

/-- `types.Project`, as it is loaded.  The keys of a map are distinct, and the
names of volumes are those that the schema lets pass. -/
structure Project where
  services : List (Bytes × Service)
  volumes : List (Bytes × TopVolume)
  networks : List (Bytes × Bool)
  configs : List (Bytes × Bool)
  secrets : List (Bytes × Bool)
  services_nodup : (services.map Prod.fst).Nodup
  volumes_nodup : (volumes.map Prod.fst).Nodup
  volumes_name : ∀ v ∈ volumes, v.1 ≠ [] ∧ v.1.all isNameChar = true

theorem volumes_nil :
    ∀ v ∈ ([] : List (Bytes × TopVolume)), v.1 ≠ [] ∧ v.1.all isNameChar = true := by
  simp

def Project.service? (project : Project) (name : Bytes) : Option Service :=
  project.services.lookup name

/-! ## Keys of a service -/

section

variable (name p : Bytes) (svc : Service)

def validateRejected : List Finding :=
  (match svc.deploy with
  | none => []
  | some d =>
    if d.replicas.isSome then
      [errf .swarmKeyRejected name (p ++ ascii ".deploy.replicas")
        "deploy.replicas is Swarm semantics — one instance per service" []]
    else if d.mode ≠ [] then
      [errf .swarmKeyRejected name (p ++ ascii ".deploy.mode")
        "deploy.mode is Swarm semantics" []]
    else if d.updateConfig || d.rollbackConfig then
      [errf .swarmKeyRejected name (p ++ ascii ".deploy.update_config")
        ("deploy update/rollback configs are Swarm semantics — " ++
         "zero-downtime is built in (§8)") []]
    else if !d.constraints.isEmpty || !d.preferences.isEmpty then
      [errf .swarmKeyRejected name (p ++ ascii ".deploy.placement")
        ("deploy.placement is Swarm semantics — the server is chosen by the " ++ "resource") []]
    else if d.endpointMode ≠ [] then
      [errf .swarmKeyRejected name (p ++ ascii ".deploy.endpoint_mode")
        "deploy.endpoint_mode is Swarm semantics" []]
    else report (!d.labels.isEmpty)
      (errf .swarmKeyRejected name (p ++ ascii ".deploy.labels")
        "deploy.labels is Swarm semantics — use service labels" [])) ++
  report (svc.scale.any fun n => n ≠ 1)
    (errf .swarmKeyRejected name (p ++ ascii ".scale")
      "scale is rejected — one instance per service (multi-instance is P3)"
      []) ++
  report (!svc.externalLinks.isEmpty)
    (errf .swarmKeyRejected name (p ++ ascii ".external_links")
      "external_links is legacy and bypasses destinations" []) ++
  (if svc.networkMode = ascii "host" then
    [errf .networkModeHostRejected name (p ++ ascii ".network_mode")
      "network_mode: host breaks per-stack isolation and proxy routing" []]
  else report (hasPrefix svc.networkMode (ascii "service:") ||
      hasPrefix svc.networkMode (ascii "container:"))
    (errf .networkModeRejected name (p ++ ascii ".network_mode")
      "network_mode %q is incompatible with container replacement"
      [svc.networkMode])) ++
  report (svc.pid = ascii "host" || svc.ipc = ascii "host" ||
      svc.userNSMode = ascii "host" || svc.cgroup = ascii "host" ||
      svc.cgroupParent ≠ [])
    (errf .hostNamespaceRejected name p
      "host namespaces (pid/ipc/userns/cgroup) are isolation escapes" []) ++
  report (svc.credentialSpec || svc.isolation ≠ [])
    (errf .platformUnsupported name p "credential_spec and isolation are Windows-only" [])

def defaultCapAllowlist : List Bytes :=
  [ascii "NET_BIND_SERVICE", ascii "CHOWN", ascii "SETUID", ascii "SETGID"]

def validatePolicy (policy : Policy) : List Finding :=
  report (svc.privileged && !policy.allowPrivileged)
    (errf .privilegedDenied name (p ++ ascii ".privileged")
      "privileged: true requires an explicit server policy" []) ++
  (svc.capAdd.flatMap fun cap =>
    report (!(defaultCapAllowlist.contains cap || policy.extraCapAdd.contains cap))
      (errf .privilegedDenied name (p ++ ascii ".cap_add")
        "capability %q is outside the allowlist — requires a server policy"
        [cap])) ++
  report (!svc.devices.isEmpty && !policy.allowDevices)
    (errf .privilegedDenied name (p ++ ascii ".devices")
      "devices requires an explicit server policy" []) ++
  (svc.securityOpt.flatMap fun opt =>
    report (!(opt = ascii "no-new-privileges:true" ||
        opt = ascii "no-new-privileges") && !policy.allowSecurityOpt)
      (errf .privilegedDenied name (p ++ ascii ".security_opt")
        "security_opt %q requires a server policy" [opt])) ++
  svc.sysctls.flatMap fun key =>
    report (!hasPrefix key (ascii "net."))
      (errf .privilegedDenied name (p ++ ascii ".sysctls")
        "sysctl %q is outside the net.* allowlist" [key])

def validateLimits : List Finding :=
  match svc.deploy.bind Deploy.limits with
  | none => []
  | some limits =>
    report (svc.memLimit ≠ 0 && limits.memoryBytes ≠ 0 && limits.memoryBytes ≠ svc.memLimit)
      (errf .conflictingLimits name p
        "mem_limit and deploy.resources.limits.memory contradict each other"
        []) ++
    report (svc.cpus ≠ 0 && limits.nanoCPUs ≠ 0 && limits.nanoCPUs ≠ svc.cpus)
      (errf .conflictingLimits name p
        "cpus and deploy.resources.limits.cpus contradict each other" [])

/-- `strings.ToLower`, as far as the result can be ASCII: two capitals outside
of ASCII have their small letter in it. -/
def toLower : Bytes → Bytes
  | 0xC4 :: 0xB0 :: s => 105 :: toLower s
  | 0xE2 :: 0x84 :: 0xAA :: s => 107 :: toLower s
  | c :: s => (if Access.isUpper c then c + 32 else c) :: toLower s
  | [] => []

def validateLabels : List Finding :=
  svc.labels.flatMap fun key =>
    report (hasPrefix (toLower key) (ascii "akerdock."))
      (errf .reservedLabel name (p ++ ascii ".labels")
        "the akerdock.* label prefix is reserved for the platform" [])

/-! ## Paths -/

def escapesBase (rel : Bytes) : Bool :=
  let cleaned := Paths.clean slash dot rel
  cleaned = [dot, dot] || hasPrefix cleaned [dot, dot, slash]

def underAllowedRoot (abs : Bytes) (roots : List Bytes) : Bool :=
  roots.any fun root =>
    Paths.clean slash dot abs = Paths.clean slash dot root ||
      hasPrefix (Paths.clean slash dot abs) (Paths.clean slash dot root ++ [slash])

/-- The check of one volume entry. -/
def validateMount (policy : Policy) (vol : ServiceVolume) : List Finding :=
  if vol.type ≠ .bind || vol.source = [] then []
  else if hasPrefix vol.source [slash] then
    report (!underAllowedRoot vol.source policy.allowedBindRoots)
      (errf .bindMountDenied name (p ++ ascii ".volumes")
        "absolute bind mount %q is outside the allowed roots" [vol.source])
  else
    report (escapesBase vol.source)
      (errf .pathTraversal name (p ++ ascii ".volumes")
        "relative bind mount %q escapes the stack directory" [vol.source])

def validateMounts (policy : Policy) : List Finding :=
  svc.volumes.flatMap (validateMount name p policy) ++
  (svc.envFiles.flatMap fun path =>
    if hasPrefix path [slash] then
      [errf .pathTraversal name (p ++ ascii ".env_file")
        ("env_file %q is an absolute path — only files inside the source " ++
         "are allowed") [path]]
    else report (escapesBase path)
      (errf .pathTraversal name (p ++ ascii ".env_file")
        "env_file %q escapes the source directory" [path])) ++
  (match svc.build with
  | none => []
  | some context =>
    report (hasPrefix context [slash] || escapesBase context)
      (errf .pathTraversal name (p ++ ascii ".build.context")
        "build context %q must stay inside the source" [context])) ++
  match svc.extendsFile with
  | none => []
  | some file =>
    report (file ≠ [] && (hasPrefix file [slash] || escapesBase file))
      (errf .pathTraversal name (p ++ ascii ".extends.file")
        "extends.file %q must stay inside the source" [file])

/-! ## Extensions -/

structure ServiceExtensions where
  excludeFromHC : Bool
  accessPublicRoutes : List Access.Route
  zeroDowntime : Option Bool
  preDeploymentCommand : Bytes
  postDeploymentCommand : Bytes

/-- The loop over the public routes of a service. -/
def publicRoutes : Nat → List Access.RawRoute → List Access.Route × List Finding
  | _, [] => ([], [])
  | i, raw :: raws =>
    let (routes, fs) := publicRoutes (i + 1) raws
    match Access.Validate raw with
    | .error e =>
      (routes, errf .accessPublicRouteInvalid name
        (p ++ ascii ".access_public_routes[" ++ ascii (toString i) ++
          ascii "]") e.format e.args :: fs)
    | .ok route => (route :: routes, fs)

/-- `serviceExtensions`: the extensions and the findings about them. -/
def serviceExtensions : ServiceExtensions × List Finding :=
  match svc.extensions with
  | none => (⟨false, [], none, [], []⟩, [])
  | some raw =>
    let (routes, fs) :=
      match raw.accessPublicRoutes with
      | none => ([], [])
      | some none => ([], [errf .accessPublicRouteInvalid name
          (p ++ ascii ".access_public_routes")
          ("access_public_routes must be a list of \x7bpath, match, " ++
           "methods, parameters\x7d objects") []])
      | some (some raws) => publicRoutes name p 0 raws
    let post := raw.postDeploymentCommand.getD []
    let hook :=
      if post = [] then []
      else if svc.restart = ascii "no" then
        [errf .hookOnOneShot name (p ++ ascii ".post_deployment_command")
          ("a post-deployment command needs a candidate container: a " ++
           "one-shot service (restart: no) never has one (§10)") []]
      else if svc.healthCheck.all id then
        [warnf .hookWithoutHealthcheck name
          (p ++ ascii ".post_deployment_command")
          ("a post-deployment command requires a resolvable health check " ++
           "(§10, INV-005): none is declared here — the deployment will " ++
           "fail before mutating anything if the image provides none") []]
      else []
    (⟨raw.excludeFromHC.getD false, routes, raw.zeroDowntime,
      raw.preDeploymentCommand.getD [], post⟩, fs ++ hook)

structure VolumeExtensions where
  isDirectory : Bool
  content : Bytes
  fileMode : Bytes
  ownerUID : Option Int
  groupGID : Option Int
  deriving DecidableEq

def maxFileContentBytes : Nat := 5 * 2 ^ 20

/-- `volumeExtensions`: the extensions, if they say something, and the findings
about them. -/
def volumeExtensions (vol : ServiceVolume) : Option VolumeExtensions × List Finding :=
  match vol.extensions with
  | none => (none, [])
  | some raw =>
    let out : VolumeExtensions :=
      ⟨raw.isDirectory.getD false, raw.content.getD [], raw.fileMode.getD [],
        raw.ownerUID, raw.groupGID⟩
    let fs := report (out.isDirectory && out.content ≠ [])
        (errf .storageExtensionConflict name p
          "content and is_directory are mutually exclusive on a volume entry"
          []) ++
      report (out.content.length > maxFileContentBytes)
        (errf .fileContentTooLarge name p "x-akerdock.content exceeds %d MiB" [ascii "5"])
    (if out = ⟨false, [], [], none, none⟩ then none else some out, fs)

def validateExtensions : List Finding :=
  (serviceExtensions name (p ++ ascii ".x-akerdock") svc).2 ++
    svc.volumes.zipIdx.flatMap fun (vol, i) =>
      (volumeExtensions name (p ++ ascii ".volumes[" ++ ascii (toString i) ++
        ascii "].x-akerdock") vol).2

end

/-! ## Dependencies -/

/-- `sort.Strings`. -/
def sortStrings (l : List Bytes) : List Bytes :=
  l.insertionSort fun s t => s ≤ t

/-- The colours of the search for a cycle. -/
inductive Color where
  | white
  | gray
  | black
  deriving DecidableEq

/-- The state of the search.  Names that `color` does not have are white. -/
structure Search where
  color : List (Bytes × Color)
  stack : List Bytes
  cycle : List Bytes

def Search.colorOf (s : Search) (name : Bytes) : Color :=
  (s.color.lookup name).getD .white

def Search.setColor (s : Search) (name : Bytes) (c : Color) : Search :=
  { s with color := (name, c) :: s.color.filter fun e => e.1 ≠ name }

/-- The loop of `visit` over the dependencies. -/
def visitDeps (project : Project) (visit : Bytes → Search → Bool × Search) :
    List Bytes → Search → Bool × Search
  | [], s => (false, s)
  | dep :: deps, s =>
    if (project.service? dep).isNone then visitDeps project visit deps s
    else
      match s.colorOf dep with
      | .white =>
        let (found, s) := visit dep s
        if found then (true, s) else visitDeps project visit deps s
      | .gray =>
        if s.stack.contains dep then
          (true, { s with
            cycle := s.stack.dropWhile (fun n => n ≠ dep) ++ [dep] })
        else visitDeps project visit deps s
      | .black => visitDeps project visit deps s

/-- `visit`.  Each level colours a white service, so the number of services is
enough for `n`. -/
def visit (project : Project) : (n : Nat) → Bytes → Search → Bool × Search
  | 0, _, s => (false, s)
  | n + 1, name, s =>
    let s := { s.setColor name .gray with stack := s.stack ++ [name] }
    let deps := ((project.service? name).map Service.dependsOn).getD []
    let (found, s) := visitDeps project (visit project n) (sortStrings (deps.map Prod.fst)) s
    if found then (true, s)
    else (false, { s.setColor name .black with stack := s.stack.dropLast })

def findCycleFrom (project : Project) : List Bytes → Search → List Bytes
  | [], _ => []
  | name :: names, s =>
    if s.colorOf name = .white then
      let (found, s) := visit project project.services.length name s
      if found then s.cycle else findCycleFrom project names s
    else findCycleFrom project names s

def findCycle (project : Project) : List Bytes :=
  findCycleFrom project (sortStrings (project.services.map Prod.fst)) ⟨[], [], []⟩

def validateDependencies (project : Project) : List Finding :=
  (project.services.flatMap fun (name, svc) =>
    let p := ascii "services." ++ name ++ ascii ".depends_on"
    svc.dependsOn.flatMap fun (dep, condition) =>
      match project.service? dep with
      | none => [errf .parseError name p "depends_on references unknown service %q" [dep]]
      | some target =>
        match condition with
        | .serviceHealthy =>
          report (target.healthCheck.all id)
            (errf .dependencyNeedsHealthcheck name p
              "service_healthy requires a healthcheck on %q" [dep])
        | .serviceCompletedSuccessfully =>
          report (target.restart ≠ [] && target.restart ≠ ascii "no")
            (errf .parseError name p
              ("service_completed_successfully requires %q to be a one-shot " ++
               "job (restart: no)") [dep])
        | .serviceStarted => []) ++
  report (!(findCycle project).isEmpty)
    (errf .dependencyCycle [] (ascii "services") "depends_on cycle: %s"
      [(ascii " -> ").intercalate (findCycle project)])

/-! ## All checks -/

def validateTopLevelObjects (project : Project) (policy : Policy) : List Finding :=
  (project.networks.flatMap fun (name, external) =>
    report (external && !policy.allowExternalObjects)
      (errf .externalObjectRejected [] (ascii "networks." ++ name)
        "external network %q requires a server policy" [name])) ++
  (project.volumes.flatMap fun (name, volume) =>
    report (volume.external && !policy.allowExternalObjects)
      (errf .externalObjectRejected [] (ascii "volumes." ++ name)
        "external volume %q requires a server policy" [name])) ++
  (project.configs.flatMap fun (name, external) =>
    report external
      (errf .externalObjectRejected [] (ascii "configs." ++ name)
        "external configs are rejected" [])) ++
  project.secrets.flatMap fun (name, external) =>
    report external
      (errf .swarmKeyRejected [] (ascii "secrets." ++ name)
        "external secrets are Swarm semantics" [])

def serviceNamePattern : Bytes → Bool
  | [] => false
  | c :: s =>
    let small (c : UInt8) : Bool := (97 ≤ c && c ≤ 122) || Access.isDigit c
    small c && s.all fun c => small c || (ascii "_.-").contains c

def validateService (policy : Policy) (name : Bytes) (svc : Service) : List Finding :=
  let p := ascii "services." ++ name
  report (!serviceNamePattern name)
    (errf .invalidServiceName name p "service name must match [a-z0-9][a-z0-9_.-]*" []) ++
  validateRejected name p svc ++
  validatePolicy name p svc policy ++
  validateLimits name p svc ++
  validateLabels name p svc ++
  validateMounts name p svc policy ++
  validateExtensions name p svc

def validate (project : Project) (policy : Policy) : List Finding :=
  (project.services.flatMap fun (name, svc) =>
    validateService policy name svc) ++
  validateDependencies project ++
  validateTopLevelObjects project policy

/-! ## What passes -/

/-- A bind mount that passes is below an allowed root, or relative and does not
escape. -/
theorem validateMount_ok
    (h : HasErrors (validateMount name p policy vol) = false)
    (htype : vol.type = .bind) :
    vol.source = [] ∨
      (hasPrefix vol.source [slash] = true ∧
        underAllowedRoot vol.source policy.allowedBindRoots = true) ∨
      (hasPrefix vol.source [slash] = false ∧ escapesBase vol.source = false) := by
  unfold validateMount at h
  by_cases hsource : vol.source = []
  · exact .inl hsource
  · right
    rw [if_neg (by simp [htype, hsource])] at h
    split at h
    · rename_i habs
      left
      refine ⟨habs, ?_⟩
      rw [HasErrors_report_errf] at h
      simpa using h
    · rename_i habs
      right
      refine ⟨by simpa using habs, ?_⟩
      rwa [HasErrors_report_errf] at h

theorem validate_mounts (h : HasErrors (validate project policy) = false)
    (hmem : (name, svc) ∈ project.services) (hvol : vol ∈ svc.volumes) :
    HasErrors (validateMount name (ascii "services." ++ name) policy vol) =
      false := by
  simp only [validate, HasErrors_append, HasErrors_flatMap,
    Bool.or_eq_false_iff, List.any_eq_false, Bool.not_eq_true] at h
  have hsvc := h.1.1 (name, svc) hmem
  simp only [validateService, validateMounts, HasErrors_append,
    HasErrors_flatMap, Bool.or_eq_false_iff, List.any_eq_false,
    Bool.not_eq_true] at hsvc
  exact hsvc.1.2.1.1.1 vol hvol

/-- External volumes pass only if the policy allows them. -/
theorem validate_external (h : HasErrors (validate project policy) = false)
    (hv : v ∈ project.volumes) (hext : v.2.external = true) :
    policy.allowExternalObjects = true := by
  simp only [validate, validateTopLevelObjects, HasErrors_append,
    HasErrors_flatMap, HasErrors_report_errf, Bool.or_eq_false_iff,
    List.any_eq_false, Bool.not_eq_true] at h
  have := h.2.1.1.2 v hv
  simpa [hext] using this

end Akerdock.Compose
