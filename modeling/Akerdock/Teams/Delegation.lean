import Akerdock.Teams.Permissions

/-!
# What is delegated

The two ceilings of `Intersect`: `boundToCreator` of
`internal/auth/middleware.go`, which bounds a token by what its creator holds
now, and `narrowToViewAs` of `internal/session/viewas.go`, which narrows a
session to a simulated role.

`delegated_iff` says that both are bounded and monotone.  What a session is
narrowed to is closed; a token keeps a granular scope without its prerequisites.
-/

namespace Akerdock.Teams

open List

/-- Permissions closed under `Prerequisites`. -/
def Closed (granted : List Permission) : Prop :=
  ∀ p, .granular p ∈ granted → ∀ q ∈ Prerequisites p, .granular q ∈ granted

theorem mem_ExpandGranular : .granular p ∈ ExpandGranular perms ↔ p ∈ Closure perms := by
  simp [ExpandGranular]

theorem closed_expand (perms : List Granular) : Closed (ExpandGranular perms) := by
  intro p hp q hq
  rw [mem_ExpandGranular] at hp ⊢
  exact Dependencies.mem_closure_of_dep depth_prerequisites depth_lt hp hq

/-- An entry of `api_tokens.permissions`, which is any text. -/
inductive Scope where
  | known (p : Permission)
  | other (text : String)
  deriving DecidableEq

def Scope.coarse? : Scope → Option Socle
  | .known (.coarse socle) => some socle
  | _ => none

/-- `EffectivePermissions`.  Every scope is kept as it is. -/
def effectiveScopes (scopes : List Scope) : List Scope :=
  scopes ++ (ProjectScopes (scopes.filterMap Scope.coarse?)).map fun p => .known (.granular p)

/-- What a creator holds now; nothing, if the creator is not a member any more.
The list is what `PermissionsForMembership` gives. -/
def creatorAuthority (creator : Option (List Granular)) : List Permission :=
  (creator.map ExpandGranular).getD []

/-- The permissions of the identity that `ResolveAPIToken` makes.  A token
without a recorded creator keeps its own. -/
def ResolveAPIToken (scopes : List Scope) : Option (Option (List Granular)) → List Scope
  | none => effectiveScopes scopes
  | some none => []
  | some (some granular) => (effectiveScopes scopes).filter fun p =>
      p ∈ (ExpandGranular granular).map Scope.known

/-- The simulated role of a session.  A custom role that is gone, or of another
team, is none. -/
inductive ViewAs where
  | off
  | custom (perms : Option (List Granular))
  | system (role : TeamRole)

def narrowToViewAs (perms : List Permission) : ViewAs → List Permission
  | .off => perms
  | .custom none => []
  | .custom (some role) => Intersect perms (ExpandGranular role)
  | .system role => Intersect perms (ExpandGranular (PermissionsForRole role))

/-- What a session holds itself. -/
def sessionPermissions (granular : List Granular) (isRoot : Bool) : List Permission :=
  ExpandGranular granular ++ if isRoot then [.coarse .root] else []

/-- A token is bounded by its creator, and monotone in the creator. -/
def Delegated (scopes : List Scope) (creator : Option (List Granular)) : Prop :=
  ResolveAPIToken scopes (some creator) ⊆ (creatorAuthority creator).map .known ∧
  ∀ creator', creatorAuthority creator ⊆ creatorAuthority creator' →
    ResolveAPIToken scopes (some creator) ⊆ ResolveAPIToken scopes (some creator')

/-- What a token holds is closed under `Prerequisites`. -/
def ClosedToken (scopes : List Scope) (creator : Option (List Granular)) : Prop :=
  ∀ p, .known (.granular p) ∈ ResolveAPIToken scopes (some creator) →
    ∀ q ∈ Prerequisites p, .known (.granular q) ∈ ResolveAPIToken scopes (some creator)

/-- What a session is narrowed to is bounded by it, closed, and monotone. -/
def Narrows (f : List Permission → List Permission) (perms : List Permission) : Prop :=
  f perms ⊆ perms ∧ Closed (f perms) ∧ ∀ perms', perms ⊆ perms' → f perms ⊆ f perms'

theorem mem_ResolveAPIToken : x ∈ ResolveAPIToken scopes (some creator) ↔
    x ∈ effectiveScopes scopes ∧ x ∈ (creatorAuthority creator).map .known := by
  cases creator <;> simp [ResolveAPIToken, creatorAuthority]

theorem closed_creatorAuthority (creator : Option (List Granular)) :
    Closed (creatorAuthority creator) := by
  cases creator with
  | none => exact nofun
  | some granular => exact closed_expand granular

theorem closed_ProjectScopes (h : p ∈ ProjectScopes scopes) (hq : q ∈ Prerequisites p) :
    q ∈ ProjectScopes scopes := by
  obtain ⟨l, hl⟩ : ∃ l, ProjectScopes scopes = Closure l := by
    unfold ProjectScopes
    split <;> exact ⟨_, rfl⟩
  rw [hl] at h ⊢
  exact Dependencies.mem_closure_of_dep depth_prerequisites depth_lt h hq

theorem Closed.intersect (ha : Closed a) (hb : Closed b) : Closed (Intersect a b) := by
  intro p hp q hq
  simp only [Intersect, mem_filter, decide_eq_true_eq] at hp ⊢
  exact ⟨ha p hp.1 q hq, hb p hp.2 q hq⟩

theorem closed_session (granular : List Granular) (isRoot : Bool) :
    Closed (sessionPermissions granular isRoot) := by
  intro p hp q hq
  have hp' : .granular p ∈ ExpandGranular granular := by
    cases isRoot <;> simpa [sessionPermissions] using hp
  exact mem_append_left _ (closed_expand granular p hp' q hq)

theorem narrows_viewAs (h : Closed perms) (view : ViewAs) :
    Narrows (narrowToViewAs · view) perms := by
  have hcap : ∀ role, Narrows (Intersect · (ExpandGranular role)) perms :=
    fun role => ⟨filter_sublist.subset, h.intersect (closed_expand role),
      fun _ hsub => filter_subset _ hsub⟩
  match view with
  | .off => exact ⟨Subset.refl _, h, fun _ hsub => hsub⟩
  | .custom none => exact ⟨nil_subset _, nofun, fun _ _ => nil_subset _⟩
  | .custom (some role) => exact hcap role
  | .system role => exact hcap (PermissionsForRole role)

theorem delegated (scopes : List Scope) (creator : Option (List Granular)) :
    Delegated scopes creator := by
  refine ⟨fun x hx => (mem_ResolveAPIToken.1 hx).2, fun creator' hsub x hx => ?_⟩
  obtain ⟨heffective, hheld⟩ := mem_ResolveAPIToken.1 hx
  exact mem_ResolveAPIToken.2 ⟨heffective, map_subset _ hsub hheld⟩

/-- Whatever its scopes are, a token is bounded by its creator and monotone, and
so is what a session is narrowed to, which is closed too.  The token is closed
if and only if every prerequisite of a granular scope that the creator holds is
granted too, as a scope or by a coarse one. -/
theorem delegated_iff (scopes : List Scope) (creator : Option (List Granular))
    (granular : List Granular) (isRoot : Bool) (view : ViewAs) :
    Delegated scopes creator ∧
    Narrows (narrowToViewAs · view) (sessionPermissions granular isRoot) ∧
    (ClosedToken scopes creator ↔
      ∀ p, .known (.granular p) ∈ scopes → .granular p ∈ creatorAuthority creator →
        ∀ q ∈ Prerequisites p, .known (.granular q) ∈ effectiveScopes scopes) := by
  refine ⟨delegated scopes creator, narrows_viewAs (closed_session granular isRoot) view, ?_, ?_⟩
  · intro hclosed p hp hheld q hq
    have hmem := mem_ResolveAPIToken.2 ⟨mem_append_left _ hp, mem_map_of_mem hheld⟩
    exact (mem_ResolveAPIToken.1 (hclosed p hmem q hq)).1
  · intro hscopes p hp q hq
    obtain ⟨heffective, hheld⟩ := mem_ResolveAPIToken.1 hp
    have hp' : .granular p ∈ creatorAuthority creator := by simpa using hheld
    refine mem_ResolveAPIToken.2 ⟨?_,
      mem_map_of_mem (closed_creatorAuthority creator p hp' q hq)⟩
    rcases mem_append.1 heffective with hscope | hproject
    · exact hscopes p hscope hp' q hq
    · have hp : p ∈ ProjectScopes (scopes.filterMap Scope.coarse?) := by simpa using hproject
      exact mem_append_right _ (mem_map.2 ⟨q, closed_ProjectScopes hp hq, rfl⟩)

/-- A token for updates, of whoever can read and update applications, cannot
read them. -/
theorem scope_without_prerequisite :
    ¬ClosedToken [.known (.granular ⟨.applications, .update⟩)]
      (some [⟨.applications, .read⟩, ⟨.applications, .update⟩]) := by
  intro hclosed
  have hread := hclosed ⟨.applications, .update⟩ (by decide) ⟨.applications, .read⟩ (by decide)
  revert hread
  decide

end Akerdock.Teams
