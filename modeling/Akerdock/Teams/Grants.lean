import Akerdock.Lib.Table
import Akerdock.Teams.Admins
import Akerdock.Teams.Permissions

/-!
# The handlers that give permissions

`CreateTeamRole`, `UpdateTeamRole`, `DeleteTeamRole` and `UpdateTeamMember` of
`internal/handlers/roles.go`, `CreateTeamInvitation` and the acceptance of an
invitation, and `CreateApiToken`, on one team with its members, custom roles,
invitations and tokens.  A handler returns `none` where it refuses.

* `Team.identity` is what a session or a token holds at the moment.
* `Members.find_addTeamMember`, `find_clearCustomRole` and
  `find_updateTeamMemberRole` say what a reader of the members sees after each
  of the statements.
-/

namespace Akerdock.Teams

open Table

/-! ## Members that come and lose a role -/

namespace Members

/-- `AddTeamMember`, with its `ON CONFLICT DO NOTHING`. -/
def addTeamMember (s : Members) (m : Membership) : Members :=
  if h : m.user ∈ s.rows.map Membership.user then s else
    { rows := s.rows ++ [m]
      unique := by
        rw [List.map_append]
        exact s.unique.append (List.nodup_singleton _)
          (by simpa [List.disjoint_singleton] using h) }

/-- The row without its custom role, if that is `id`. -/
def cleared (id : Nat) (m : Membership) : Membership :=
  if m.customRoleID = some id then { m with customRoleID := none } else m

@[simp] theorem cleared_user (id : Nat) (m : Membership) : (cleared id m).user = m.user := by
  unfold cleared
  split <;> rfl

/-- `ON DELETE SET NULL` of `team_memberships.custom_role_id`. -/
def clearCustomRole (s : Members) (id : Nat) : Members where
  rows := s.rows.map (cleared id)
  unique := by
    rw [List.map_map]
    have hsame : Membership.user ∘ cleared id = Membership.user := by
      funext m
      exact cleared_user id m
    rw [hsame]
    exact s.unique

/-- A change of rows that keeps the users is seen row by row. -/
theorem find?_map {f : Membership → Membership}
    (hf : ∀ m, (f m).user = m.user) (rows : List Membership) (user : Nat) :
    (rows.map f).find? (fun m => m.user == user) =
      (rows.find? fun m => m.user == user).map f := by
  rw [List.find?_map]
  have hsame : (fun m : Membership => m.user == user) ∘ f = fun m => m.user == user := by
    funext m
    simp [hf m]
  rw [hsame]

theorem find_clearCustomRole (s : Members) (id user : Nat) :
    (s.clearCustomRole id).find user = (s.find user).map (cleared id) :=
  find?_map (cleared_user id) s.rows user

theorem find_updateTeamMemberRole (s : Members) (user user' : Nat)
    (role : TeamRole) (customRoleID : Option Nat) :
    (s.updateTeamMemberRole user role customRoleID).find user' =
      (s.find user').map (assigned user role customRoleID) :=
  find?_map (assigned_user user role customRoleID) s.rows user'

theorem find_addTeamMember (s : Members) (m : Membership) (user : Nat) :
    (s.addTeamMember m).find user = s.find user ∨
      m.user = user ∧ (s.addTeamMember m).find user = some m := by
  unfold addTeamMember
  split
  · exact .inl rfl
  · unfold find
    by_cases huser : m.user = user
    · cases hfind : s.rows.find? fun r => r.user == user with
      | none => exact .inr ⟨huser, by simp [List.find?_append, hfind, huser]⟩
      | some r => exact .inl (by simp [List.find?_append, hfind])
    · exact .inl (by simp [List.find?_append, huser])

end Members

/-! ## The team -/

/-- `custom_roles`: a row. -/
structure CustomRole where
  id : Nat
  name : String
  permissions : List Granular
  deriving DecidableEq

/-- `invitations`: a row that can be accepted.  `account` stands for the email
address, and for the account that has it or will be created with it. -/
structure Invitation where
  id : Nat
  account : Nat
  role : TeamRole
  customRoleID : Option Nat
  deriving DecidableEq

structure ApiToken where
  id : Nat
  scopes : List Socle
  createdBy : Option Nat
  deriving DecidableEq

structure Team where
  members : Members
  customRoles : List CustomRole
  invitations : List Invitation
  tokens : List ApiToken
  roots : List Nat
  deriving DecidableEq

/-- Who sends a request. -/
inductive Actor where
  | session (user : Nat)
  | token (id : Nat)
  deriving DecidableEq

namespace Team

/-- `GetCustomRoleByUUID`. -/
def customRole (s : Team) (id : Nat) : Option CustomRole :=
  row? CustomRole.id id s.customRoles

/-- The permissions of a custom role, as the queries join them. -/
def customPermissions (s : Team) (id : Nat) : Option (List Granular) :=
  (s.customRole id).map CustomRole.permissions

/-- What the two columns for the role of a member or an invitation stand
for. -/
def permissions (s : Team) (role : TeamRole) (customRoleID : Option Nat) : List Granular :=
  PermissionsForMembership role (customRoleID.bind s.customPermissions)

/-- What a user holds by being a member; see `GetTeamMembershipForUser` and
`GetTokenCreatorAuthority`. -/
def authority (s : Team) (user : Nat) : List Permission :=
  match s.members.find user with
  | none => []
  | some m => ExpandGranular (s.permissions m.role m.customRoleID)

/-- `boundToCreator`: a token holds no more than its creator does now. -/
def tokenIdentity (s : Team) (t : ApiToken) : List Permission :=
  match t.createdBy with
  | none => EffectivePermissions t.scopes
  | some user => Intersect (EffectivePermissions t.scopes) (s.authority user)

def token (s : Team) (id : Nat) : Option ApiToken :=
  row? ApiToken.id id s.tokens

/-- What a request is allowed by; see `Authenticate` for a session. -/
def identity (s : Team) : Actor → List Permission
  | .session user =>
    s.authority user ++ if user ∈ s.roots then [.coarse .root] else []
  | .token id => (s.token id).elim [] s.tokenIdentity

def actingUserID (s : Team) : Actor → Option Nat
  | .session user => some user
  | .token id => (s.token id).bind ApiToken.createdBy

def require (s : Team) (actor : Actor) (p : Granular) : Bool :=
  Has (s.identity actor) (.granular p)

/-! ## The handlers -/

/-- `validRoleName`, and the same check of the name of a token. -/
def validRoleName (name : String) : Bool :=
  name.utf8ByteSize ≠ 0 && name.utf8ByteSize ≤ 255

def CreateTeamRole (actor : Actor) (name : String) (perms : List Granular)
    (s : Team) : Option Team :=
  if s.require actor ⟨.roles, .manage⟩ && validRoleName name then
    match ValidateCustomPermissions perms (s.identity actor) with
    | .error _ => none
    | .ok closed =>
      if s.customRoles.any fun r => r.name == name then none
      else
        let role : CustomRole :=
          ⟨nextId CustomRole.id s.customRoles, name, closed⟩
        some { s with customRoles := s.customRoles ++ [role] }
  else none

/-- The permissions of a body of `UpdateTeamRole`, which may leave them
out. -/
def validatedPermissions (perms : Option (List Granular)) (composer : List Permission) :
    Except CustomPermissionsError (Option (List Granular)) :=
  match perms with
  | none => .ok none
  | some perms => (ValidateCustomPermissions perms composer).map some

/-- `UpdateCustomRole` on one row. -/
def patchRole (name : Option String) (perms : Option (List Granular))
    (r : CustomRole) : CustomRole :=
  { r with
    name := name.getD r.name
    permissions := perms.getD r.permissions }

def UpdateTeamRole (actor : Actor) (id : Nat) (name : Option String)
    (perms : Option (List Granular)) (s : Team) : Option Team :=
  if s.require actor ⟨.roles, .manage⟩ && name.all validRoleName then
    match validatedPermissions perms (s.identity actor) with
    | .error _ => none
    | .ok closed =>
      match s.customRole id with
      | none => none
      | some _ =>
        if s.customRoles.any fun r => r.id != id && name == some r.name then
          none
        else
          some { s with
            customRoles := updateWhere (fun r => r.id = id)
              (patchRole name closed) s.customRoles }
  else none

def DeleteTeamRole (actor : Actor) (id : Nat) (s : Team) : Option Team :=
  if s.require actor ⟨.roles, .manage⟩ && (s.customRole id).isSome then
    some { s with
      members := s.members.clearCustomRole id
      customRoles := deleteWhere (fun r => r.id = id) s.customRoles
      invitations := updateWhere (fun i => i.customRoleID = some id)
        (fun i => { i with customRoleID := none }) s.invitations }
  else none

/-- The columns for the role that a body names; a custom role falls back on
`member`. -/
def resolveRole (s : Team) : RoleUpdate → Option (TeamRole × Option Nat)
  | .admin => some (.admin, none)
  | .member => some (.member, none)
  | .reviewer => some (.reviewer, none)
  | .custom id => (s.customRole id).map fun r => (.member, some r.id)

def UpdateTeamMember (actor : Actor) (user : Nat) (body : RoleUpdate) (s : Team) : Option Team :=
  if s.require actor ⟨.members, .manage⟩ then
    match s.members.find user, s.resolveRole body with
    | some current, some (role, customRoleID) =>
      if current.isAdmin && body != .admin && s.members.countTeamAdmins ≤ 1 then
        none
      else
        some { s with
          members := s.members.updateTeamMemberRole user role customRoleID }
    | _, _ => none
  else none

def CreateTeamInvitation (actor : Actor) (account : Nat) (body : RoleUpdate)
    (s : Team) : Option Team :=
  if s.require actor ⟨.invitations, .manage⟩ then
    match s.resolveRole body with
    | none => none
    | some (role, customRoleID) =>
      if s.invitations.any fun i => i.account == account then none
      else
        let id := nextId Invitation.id s.invitations
        some { s with
          invitations := s.invitations ++ [⟨id, account, role, customRoleID⟩] }
  else none

def AcceptInvitation (i : Invitation) (s : Team) : Team :=
  { s with
    members := s.members.addTeamMember ⟨i.account, i.role, i.customRoleID⟩
    invitations := deleteWhere (fun j => j.id = i.id) s.invitations }

def CreateApiToken (actor : Actor) (name : String) (scopes : List Socle) (s : Team) : Option Team :=
  if s.require actor ⟨.tokens, .create⟩ then
    match s.actingUserID actor with
    | none => none
    | some user =>
      if validRoleName name && !scopes.isEmpty &&
          scopes.all (fun p => Has (s.identity actor) (.coarse p)) then
        let id := nextId ApiToken.id s.tokens
        some { s with tokens := s.tokens ++ [⟨id, scopes, some user⟩] }
      else none
  else none

end Team

end Akerdock.Teams
