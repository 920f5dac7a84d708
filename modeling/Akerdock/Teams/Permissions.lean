import Akerdock.Lib.Closure
import Akerdock.Teams.Members

/-!
# The catalogue of permissions

`auth.Catalog` and what `internal/auth/permissions.go`, `roles.go` and `auth.go`
compute from it.  A granular permission is a pair of a domain and an action,
and the catalogue gives the coarse scope, the socle, of the pairs that exist.
What an identity carries is a list of `Permission`s of both kinds.  The Go code
sorts its lists and drops duplicates; only their entries matter here.

* `mem_Closure_Closure` says that a closed set is closed, which is what makes
  it safe to store the closed set of a custom role and close it again on use.
* `Within` says what an identity is limited to, whatever the coarse scopes it
  carries: the granular permissions that `Has` finds in it.
* `within_expand_validated` is the anti-elevation rule of
  `ValidateCustomPermissions`: whoever holds the role that a composer was
  allowed to write is limited to what the composer is limited to.
-/

namespace Akerdock.Teams

open List

/-- The coarse permissions, which are the scopes of API tokens. -/
inductive Socle where
  | read
  | readSensitive
  | write
  | deploy
  | root
  deriving DecidableEq

inductive Domain where
  | team
  | members
  | invitations
  | roles
  | tokens
  | projects
  | environments
  | resources
  | applications
  | databases
  | services
  | secrets
  | servers
  | keys
  | certificates
  | sources
  | registries
  | cloud
  | storages
  | backups
  | deployments
  | jobs
  | previews
  | templates
  | terminal
  | portForwards
  | externalEndpoints
  | ingressEndpoints
  | ingressTunnels
  | logs
  | metrics
  | audit
  | uptime
  | notifications
  | config
  | instanceSettings
  deriving DecidableEq

inductive Action where
  | read
  | manage
  | create
  | update
  | delete
  | revoke
  | deploy
  | adopt
  | lifecycle
  | exec
  | credentials
  | reveal
  | write
  | maintain
  | proxy
  | renew
  | restore
  | cancel
  | opens
  | root
  | exports
  | apply
  | audit
  | encryption
  deriving DecidableEq

structure Granular where
  domain : Domain
  action : Action
  deriving DecidableEq

/-- An entry of the permissions of an identity. -/
inductive Permission where
  | coarse (socle : Socle)
  | granular (name : Granular)
  deriving DecidableEq

/-! ## The catalogue -/

def Catalog : List (Granular × Socle) := [
  -- Team & access
  (⟨.team, .read⟩, .read), (⟨.team, .manage⟩, .write),
  (⟨.members, .read⟩, .read), (⟨.members, .manage⟩, .write),
  (⟨.invitations, .manage⟩, .write),
  (⟨.roles, .read⟩, .read), (⟨.roles, .manage⟩, .write),
  (⟨.tokens, .read⟩, .read), (⟨.tokens, .create⟩, .write),
  (⟨.tokens, .revoke⟩, .write),
  -- Projects & environments
  (⟨.projects, .read⟩, .read), (⟨.projects, .manage⟩, .write),
  (⟨.environments, .read⟩, .read), (⟨.environments, .manage⟩, .write),
  (⟨.environments, .deploy⟩, .deploy),
  (⟨.resources, .read⟩, .read), (⟨.resources, .adopt⟩, .write),
  -- Applications
  (⟨.applications, .read⟩, .read), (⟨.applications, .create⟩, .write),
  (⟨.applications, .update⟩, .write), (⟨.applications, .delete⟩, .write),
  (⟨.applications, .deploy⟩, .deploy), (⟨.applications, .lifecycle⟩, .deploy),
  (⟨.applications, .exec⟩, .deploy),
  -- Databases
  (⟨.databases, .read⟩, .read), (⟨.databases, .create⟩, .write),
  (⟨.databases, .update⟩, .write), (⟨.databases, .delete⟩, .write),
  (⟨.databases, .lifecycle⟩, .deploy),
  (⟨.databases, .credentials⟩, .readSensitive),
  -- Services
  (⟨.services, .read⟩, .read), (⟨.services, .manage⟩, .write),
  (⟨.services, .deploy⟩, .deploy),
  -- Secrets and environment variables
  (⟨.secrets, .read⟩, .read), (⟨.secrets, .reveal⟩, .readSensitive),
  (⟨.secrets, .write⟩, .write),
  -- Servers & proxy
  (⟨.servers, .read⟩, .read), (⟨.servers, .manage⟩, .write),
  (⟨.servers, .maintain⟩, .write), (⟨.servers, .proxy⟩, .write),
  -- SSH keys and certificates
  (⟨.keys, .read⟩, .read), (⟨.keys, .manage⟩, .write),
  (⟨.certificates, .read⟩, .read), (⟨.certificates, .renew⟩, .write),
  -- Git sources & registries
  (⟨.sources, .read⟩, .read), (⟨.sources, .manage⟩, .write),
  (⟨.registries, .manage⟩, .write),
  -- Cloud & storage
  (⟨.cloud, .read⟩, .read), (⟨.cloud, .manage⟩, .write),
  (⟨.storages, .manage⟩, .write),
  -- Backups
  (⟨.backups, .read⟩, .read), (⟨.backups, .manage⟩, .write),
  (⟨.backups, .restore⟩, .write),
  -- Deployments & jobs
  (⟨.deployments, .read⟩, .read), (⟨.deployments, .cancel⟩, .deploy),
  (⟨.jobs, .manage⟩, .write),
  -- Previews and templates
  (⟨.previews, .read⟩, .read), (⟨.previews, .manage⟩, .write),
  (⟨.templates, .manage⟩, .write),
  -- Terminal & tunnels
  (⟨.terminal, .opens⟩, .write), (⟨.terminal, .root⟩, .write),
  (⟨.portForwards, .opens⟩, .write),
  (⟨.externalEndpoints, .read⟩, .read),
  (⟨.externalEndpoints, .manage⟩, .write),
  (⟨.ingressEndpoints, .read⟩, .read), (⟨.ingressEndpoints, .manage⟩, .write),
  (⟨.ingressTunnels, .opens⟩, .write),
  -- Observability
  (⟨.logs, .read⟩, .read), (⟨.logs, .manage⟩, .write),
  (⟨.metrics, .read⟩, .read), (⟨.audit, .read⟩, .read),
  (⟨.uptime, .read⟩, .read), (⟨.uptime, .manage⟩, .write),
  (⟨.notifications, .read⟩, .read), (⟨.notifications, .manage⟩, .write),
  -- Config as code
  (⟨.config, .exports⟩, .read), (⟨.config, .apply⟩, .write),
  -- Instance
  (⟨.instanceSettings, .manage⟩, .root), (⟨.instanceSettings, .audit⟩, .root),
  (⟨.instanceSettings, .encryption⟩, .root)]

def socle? (p : Granular) : Option Socle :=
  Catalog.lookup p

def extraPrerequisites : Granular → List Granular
  | ⟨.invitations, .manage⟩ => [⟨.members, .read⟩]
  | ⟨.config, .apply⟩ => [⟨.config, .exports⟩]
  | ⟨.environments, .deploy⟩ => [⟨.resources, .read⟩, ⟨.environments, .read⟩]
  | ⟨.terminal, .root⟩ => [⟨.terminal, .opens⟩]
  | ⟨.registries, .manage⟩ => [⟨.sources, .read⟩]
  | ⟨.storages, .manage⟩ => [⟨.applications, .read⟩]
  | ⟨.jobs, .manage⟩ => [⟨.deployments, .read⟩]
  | ⟨.ingressTunnels, .opens⟩ => [⟨.ingressEndpoints, .read⟩]
  | _ => []

def Prerequisites (p : Granular) : List Granular :=
  (if p.action ≠ .read ∧ (socle? ⟨p.domain, .read⟩).isSome then
    [⟨p.domain, .read⟩] else []) ++ extraPrerequisites p

/-- `Closure`.  A prerequisite has no prerequisites, so visits of depth 2 are
enough. -/
def Closure (perms : List Granular) : List Granular :=
  Dependencies.closure Prerequisites 2 perms

def ProjectScopes (scopes : List Socle) : List Granular :=
  if .root ∈ scopes then Closure (Catalog.map Prod.fst)
  else Closure ((Catalog.filter fun e => e.2 ∈ scopes).map Prod.fst)

def TeamAdminPermissions : List Granular :=
  Closure ((Catalog.filter fun e => e.2 ≠ .root).map Prod.fst)

def reviewerPermissions : List Granular := [
  ⟨.projects, .read⟩, ⟨.environments, .read⟩, ⟨.applications, .read⟩,
  ⟨.previews, .read⟩]

def memberPermissions : List Granular := [
  ⟨.team, .read⟩, ⟨.members, .read⟩, ⟨.projects, .read⟩, ⟨.projects, .manage⟩,
  ⟨.environments, .read⟩, ⟨.environments, .manage⟩,
  ⟨.resources, .read⟩, ⟨.resources, .adopt⟩,
  ⟨.applications, .read⟩, ⟨.applications, .create⟩, ⟨.applications, .update⟩,
  ⟨.applications, .delete⟩, ⟨.applications, .deploy⟩,
  ⟨.applications, .lifecycle⟩, ⟨.applications, .exec⟩,
  ⟨.databases, .read⟩, ⟨.databases, .create⟩, ⟨.databases, .update⟩,
  ⟨.databases, .delete⟩, ⟨.databases, .lifecycle⟩,
  ⟨.services, .read⟩, ⟨.services, .manage⟩, ⟨.services, .deploy⟩,
  ⟨.secrets, .read⟩, ⟨.secrets, .write⟩,
  ⟨.servers, .read⟩, ⟨.certificates, .read⟩, ⟨.keys, .read⟩,
  ⟨.sources, .read⟩, ⟨.sources, .manage⟩, ⟨.registries, .manage⟩,
  ⟨.storages, .manage⟩,
  ⟨.backups, .read⟩, ⟨.backups, .manage⟩, ⟨.backups, .restore⟩,
  ⟨.deployments, .read⟩, ⟨.deployments, .cancel⟩,
  ⟨.previews, .read⟩, ⟨.previews, .manage⟩,
  ⟨.terminal, .opens⟩, ⟨.portForwards, .opens⟩, ⟨.externalEndpoints, .read⟩,
  ⟨.ingressEndpoints, .read⟩, ⟨.ingressTunnels, .opens⟩,
  ⟨.logs, .read⟩, ⟨.metrics, .read⟩,
  ⟨.notifications, .read⟩, ⟨.notifications, .manage⟩,
  ⟨.uptime, .read⟩, ⟨.uptime, .manage⟩, ⟨.audit, .read⟩]

def PermissionsForRole : TeamRole → List Granular
  | .admin | .owner => TeamAdminPermissions
  | .reviewer => reviewerPermissions
  | .none => []
  | .member => memberPermissions

/-- `PermissionsForMembership`: a custom role overrides the system role, also
one with no permissions. -/
def PermissionsForMembership (role : TeamRole) (custom : Option (List Granular)) : List Granular :=
  custom.getD (PermissionsForRole role)

/-! ## The permissions of an identity -/

def Has (granted : List Permission) (required : Permission) : Bool :=
  granted.any fun g =>
    g == .coarse .root || g == required ||
      (required == .coarse .read &&
        (g == .coarse .write || g == .coarse .readSensitive || g == .coarse .deploy))

def ExpandGranular (perms : List Granular) : List Permission :=
  (Closure perms).map .granular ++ ((Closure perms).filterMap socle?).map .coarse

def EffectivePermissions (scopes : List Socle) : List Permission :=
  scopes.map .coarse ++ (ProjectScopes scopes).map .granular

def Intersect (a b : List Permission) : List Permission :=
  a.filter fun p => p ∈ b

/-- The errors of `ValidateCustomPermissions`, each with the permission that it
names. -/
inductive CustomPermissionsError where
  | unknown (p : Granular)
  | instanceScoped (p : Granular)
  | notHeld (p : Granular)

/-- The first loop of `ValidateCustomPermissions`. -/
def checkCatalog : List Granular → Option CustomPermissionsError
  | [] => none
  | p :: rest =>
    match socle? p with
    | none => some (.unknown p)
    | some .root => some (.instanceScoped p)
    | some _ => checkCatalog rest

def ValidateCustomPermissions (perms : List Granular) (composer : List Permission) :
    Except CustomPermissionsError (List Granular) :=
  match checkCatalog perms with
  | some e => .error e
  | none =>
    match (Closure perms).find? fun p => !Has composer (.granular p) with
    | some p => .error (.notHeld p)
    | none => .ok (Closure perms)

/-! ## Prerequisites -/

theorem extraPrerequisites_prerequisites (h : q ∈ extraPrerequisites p) :
    Prerequisites q = [] ∧ socle? q ≠ some .root := by
  unfold extraPrerequisites at h
  split at h <;> simp only [mem_cons, not_mem_nil, or_false] at h
  all_goals
    first
    | (subst h; decide)
    | (obtain rfl | rfl := h <;> decide)

/-- A prerequisite has no prerequisites, and is not instance-scoped. -/
theorem prerequisites_prerequisites (h : q ∈ Prerequisites p) :
    Prerequisites q = [] ∧ socle? q ≠ some .root := by
  have hread : ∀ d : Domain, Prerequisites ⟨d, .read⟩ = [] ∧
      socle? ⟨d, .read⟩ ≠ some .root := by
    intro d
    cases d <;> decide
  rcases mem_append.1 h with h | h
  · split at h
    · obtain rfl := mem_singleton.1 h
      exact hread p.domain
    · cases h
  · exact extraPrerequisites_prerequisites h

/-- How many prerequisites follow one another. -/
def depth (p : Granular) : Nat :=
  if Prerequisites p = [] then 0 else 1

theorem depth_lt (p : Granular) : depth p < 2 := by
  unfold depth
  split <;> omega

theorem depth_prerequisites (p q : Granular) (h : q ∈ Prerequisites p) : depth q < depth p := by
  have hq : depth q = 0 := if_pos (prerequisites_prerequisites h).1
  have hp : depth p = 1 := if_neg (ne_nil_of_mem h)
  omega

theorem mem_Closure_Closure : p ∈ Closure (Closure perms) ↔ p ∈ Closure perms :=
  Dependencies.mem_closure_closure depth_prerequisites depth_lt

/-- Prerequisites bring in nothing that is instance-scoped. -/
theorem socle_Closure (h : ∀ p ∈ perms, socle? p ≠ some .root) :
    ∀ p ∈ Closure perms, socle? p ≠ some .root :=
  Dependencies.closure_induction h fun _ _ _ hq => (prerequisites_prerequisites hq).2

/-! ## What an identity is limited to -/

theorem has_granular :
    Has granted (.granular p) = true ↔ .coarse .root ∈ granted ∨ .granular p ∈ granted := by
  unfold Has
  simp [any_eq_true, and_or_left, exists_or]

def Within (P : Granular → Prop) (granted : List Permission) : Prop :=
  ∀ p, Has granted (.granular p) = true → P p

/-- Whoever carries `root` is limited to nothing. -/
theorem Within.of_root (h : Within P granted)
    (hroot : .coarse .root ∈ granted) (other : List Permission) :
    Within P other :=
  fun p _ => h p (has_granular.2 (.inl hroot))

theorem Within.mono (h : Within P granted) (hsub : sub ⊆ granted) : Within P sub := by
  intro p hp
  apply h p
  rcases has_granular.1 hp with hroot | hp
  · exact has_granular.2 (.inl (hsub hroot))
  · exact has_granular.2 (.inr (hsub hp))

theorem within_nil : Within P [] := by
  intro p hp
  cases hp

/-- A set without instance-scoped permissions expands to no more than its
closure. -/
theorem within_expand (hroot : ∀ p ∈ Closure perms, socle? p ≠ some .root)
    (h : ∀ p ∈ Closure perms, P p) : Within P (ExpandGranular perms) := by
  intro p hp
  unfold ExpandGranular at hp
  rcases has_granular.1 hp with hp | hp
  · have hsocle : ∃ q ∈ Closure perms, socle? q = some .root := by simpa using hp
    obtain ⟨q, hq, hsocle⟩ := hsocle
    exact absurd hsocle (hroot q hq)
  · exact h p (by simpa using hp)

theorem checkCatalog_none (h : checkCatalog perms = none) : ∀ p ∈ perms, socle? p ≠ some .root := by
  induction perms with
  | nil => exact fun p hp => by cases hp
  | cons q rest ih =>
    unfold checkCatalog at h
    split at h
    · cases h
    · cases h
    · rename_i s hs hsocle
      refine forall_mem_cons.2 ⟨?_, ih h⟩
      rw [hsocle]
      intro hsome
      exact hs (Option.some.inj hsome)

/-- What `ValidateCustomPermissions` accepts limits whoever is given it to what
the composer is limited to. -/
theorem within_expand_validated (hcomposer : Within P composer)
    (h : ValidateCustomPermissions perms composer = .ok closed) :
    Within P (ExpandGranular closed) := by
  unfold ValidateCustomPermissions at h
  split at h
  · cases h
  · rename_i hcatalog
    split at h
    · cases h
    · rename_i hheld
      cases h
      -- The set is closed again when it is used, which adds nothing.
      apply within_expand
      · intro p hp
        exact socle_Closure (checkCatalog_none hcatalog) p (mem_Closure_Closure.1 hp)
      · intro p hp
        have hhas := find?_eq_none.1 hheld p (mem_Closure_Closure.1 hp)
        exact hcomposer p (by simpa using hhas)

end Akerdock.Teams
