import Akerdock.Lib.Machine
import Akerdock.Teams.Grants

/-!
# Who can be given which permissions

A party of sessions and tokens of one team takes one operation after another,
and whoever it invites and every token it creates joins it.

* `Given` says once what an operation can change: nobody's permissions change
  except to permissions within `P`.  There is one lemma for each handler.
* `party_within` is the condition under which a party that is limited to `P`
  stays limited to `P`: what an operation gives is held by who takes it.
  `CreateTeamRole` and `UpdateTeamRole` check that themselves, the other
  handlers do not.
* `party_elevated` has four parties that leave their limit.
-/

namespace Akerdock.Teams

open List Option Machine Table

/-! ## The party -/

inductive Operation where
  | createTeamRole (actor : Actor) (name : String) (perms : List Granular)
  | updateTeamRole (actor : Actor) (id : Nat) (name : Option String)
      (perms : Option (List Granular))
  | deleteTeamRole (actor : Actor) (id : Nat)
  | updateTeamMember (actor : Actor) (user : Nat) (body : RoleUpdate)
  | createTeamInvitation (actor : Actor) (account : Nat) (body : RoleUpdate)
  | acceptInvitation (id : Nat)
  | createApiToken (actor : Actor) (name : String) (scopes : List Socle)

/-- A team, the sessions and tokens that act together, and the invitations
that they have made. -/
structure Party where
  team : Team
  actors : List Actor
  invited : List Nat
  deriving DecidableEq

namespace Operation

/-- The team after the operation, or `none` if it is refused. -/
def serve : Operation → Team → Option Team
  | .createTeamRole actor name perms, s => s.CreateTeamRole actor name perms
  | .updateTeamRole actor id name perms, s =>
    s.UpdateTeamRole actor id name perms
  | .deleteTeamRole actor id, s => s.DeleteTeamRole actor id
  | .updateTeamMember actor user body, s => s.UpdateTeamMember actor user body
  | .createTeamInvitation actor account body, s =>
    s.CreateTeamInvitation actor account body
  | .acceptInvitation id, s =>
    (Table.row? Invitation.id id s.invitations).map s.AcceptInvitation
  | .createApiToken actor name scopes, s =>
    s.CreateApiToken actor name scopes

/-- Who joins the party: the token that is created, and an account that becomes
a member.  What the instance root holds does not come from the team. -/
def joins : Operation → Team → List Actor
  | .acceptInvitation id, s =>
    match Table.row? Invitation.id id s.invitations with
    | none => []
    | some i =>
      if (s.members.find i.account).isNone ∧ i.account ∉ s.roots then
        [.session i.account]
      else []
  | .createApiToken _ _ _, s => [.token (Table.nextId ApiToken.id s.tokens)]
  | _, _ => []

def invites : Operation → Team → List Nat
  | .createTeamInvitation _ _ _, s =>
    [Table.nextId Invitation.id s.invitations]
  | _, _ => []

/-- The operation is one of the party: one of its actors takes it, or an account
accepts what the party has offered. -/
def InParty : Operation → Party → Prop
  | .acceptInvitation id, w => id ∈ w.invited
  | .createTeamRole actor _ _, w
  | .updateTeamRole actor _ _ _, w
  | .deleteTeamRole actor _, w
  | .updateTeamMember actor _ _, w
  | .createTeamInvitation actor _ _, w
  | .createApiToken actor _ _, w => actor ∈ w.actors

instance (op : Operation) (w : Party) : Decidable (op.InParty w) := by
  unfold Operation.InParty
  split <;> infer_instance

def apply (op : Operation) (w : Party) : Option Party :=
  if op.InParty w then
    (op.serve w.team).map fun team =>
      ⟨team, op.joins w.team ++ w.actors, op.invites w.team ++ w.invited⟩
  else none

end Operation

def Team.Holds (s : Team) (actor : Actor) (perms : List Permission) : Prop :=
  Within (fun p => Has (s.identity actor) (.granular p) = true) perms

/-- What the operation gives is held by who takes it: the role that is assigned
or offered, the role on which the holders of a deleted role fall back, and the
scopes of a token as far as its creator has them. -/
def Operation.Held : Operation → Team → Prop
  | .updateTeamMember actor _ body, s
  | .createTeamInvitation actor _ body, s =>
    ∀ role custom, s.resolveRole body = some (role, custom) →
      s.Holds actor (ExpandGranular (s.permissions role custom))
  | .deleteTeamRole actor id, s =>
    (∀ m ∈ s.members.rows, m.customRoleID = some id →
      s.Holds actor (ExpandGranular (PermissionsForRole m.role))) ∧
    ∀ i ∈ s.invitations, i.customRoleID = some id →
      s.Holds actor (ExpandGranular (PermissionsForRole i.role))
  | .createApiToken actor _ scopes, s =>
    ∀ user, s.actingUserID actor = some user →
      s.Holds actor (Intersect (EffectivePermissions scopes) (s.authority user))
  | _, _ => True

/-! ## What an operation can give -/

/-- The invitations `ids` offer nothing beyond `P`. -/
def Offered (P : Granular → Prop) (ids : List Nat) (s : Team) : Prop :=
  ∀ i ∈ s.invitations, i.id ∈ ids →
    Within P (ExpandGranular (s.permissions i.role i.customRoleID))

/-- From `s` to `s'`, nobody's permissions have changed except to permissions
within `P`, and the invitations `ids` offer no more than that. -/
structure Given (P : Granular → Prop) (ids : List Nat) (s s' : Team) : Prop where
  authority : ∀ user, s'.authority user = s.authority user ∨
    Within P (s'.authority user)
  invitations : Offered P ids s'
  tokens : ∀ id, s'.token id = s.token id ∨
    ∃ t, s'.token id = some t ∧ Within P (s'.tokenIdentity t)
  roots : s'.roots = s.roots

variable {P : Granular → Prop} {s s' : Team} {actor : Actor}

theorem Team.Holds.within (h : s.Holds actor perms)
    (hactor : Within P (s.identity actor)) : Within P perms :=
  fun p hp => hactor p (h p hp)

theorem holds_of_subset (h : perms ⊆ s.identity actor) : s.Holds actor perms := by
  have hself : s.Holds actor (s.identity actor) := fun _ hp => hp
  exact hself.mono h

theorem Intersect_subset (a b : List Permission) : Intersect a b ⊆ b := by
  intro p hp
  simpa using (mem_filter.1 hp).2

theorem tokenIdentity_of_creator (h : t.createdBy = some user) :
    s.tokenIdentity t = Intersect (EffectivePermissions t.scopes) (s.authority user) := by
  rw [Team.tokenIdentity, h]

theorem identity_session (s : Team) (user : Nat) :
    s.identity (.session user) =
      s.authority user ++ if user ∈ s.roots then [.coarse .root] else [] :=
  rfl

theorem identity_token (s : Team) (id : Nat) :
    s.identity (.token id) = (s.token id).elim [] s.tokenIdentity :=
  rfl

theorem Given.tokenIdentity (h : Given P ids s s')
    (ht : Within P (s.tokenIdentity t)) : Within P (s'.tokenIdentity t) := by
  cases hcreator : t.createdBy with
  | none =>
    have hsame : s'.tokenIdentity t = s.tokenIdentity t := by
      simp only [Team.tokenIdentity, hcreator]
    rw [hsame]
    exact ht
  | some user =>
    rw [tokenIdentity_of_creator hcreator] at ht ⊢
    rcases h.authority user with hsame | hwithin
    · rw [hsame]
      exact ht
    · exact hwithin.mono (Intersect_subset _ _)

theorem Given.identity (h : Given P ids s s') (ha : Within P (s.identity a)) :
    Within P (s'.identity a) := by
  cases a with
  | session user =>
    rw [identity_session] at ha ⊢
    rw [h.roots]
    by_cases hroot : user ∈ s.roots
    · exact ha.of_root (by simp [hroot]) _
    · rw [if_neg hroot, append_nil] at ha ⊢
      rcases h.authority user with hsame | hwithin
      · rw [hsame]
        exact ha
      · exact hwithin
  | token id =>
    rw [identity_token] at ha ⊢
    rcases h.tokens id with hsame | ⟨t, ht, hwithin⟩
    · rw [hsame]
      cases htoken : s.token id with
      | none => exact within_nil
      | some t =>
        rw [htoken] at ha
        exact h.tokenIdentity ha
    · rw [ht]
      exact hwithin

/-! ### Custom roles -/

def RolesGiven (P : Granular → Prop) (s s' : Team) : Prop :=
  ∀ id, s'.customPermissions id = s.customPermissions id ∨
    ∃ l, s'.customPermissions id = some l ∧ Within P (ExpandGranular l)

theorem RolesGiven.permissions (h : RolesGiven P s s') (role : TeamRole) (custom : Option Nat) :
    s'.permissions role custom = s.permissions role custom ∨
      Within P (ExpandGranular (s'.permissions role custom)) := by
  cases custom with
  | none => exact .inl rfl
  | some id =>
    show PermissionsForMembership role (s'.customPermissions id) =
      PermissionsForMembership role (s.customPermissions id) ∨
        Within P (ExpandGranular (PermissionsForMembership role (s'.customPermissions id)))
    rcases h id with hsame | ⟨l, hl, hwithin⟩
    · exact .inl (by rw [hsame])
    · rw [hl]
      exact .inr hwithin

theorem RolesGiven.given (h : RolesGiven P s { s with customRoles := roles })
    (hoffered : Offered P ids s) :
    Given P ids s { s with customRoles := roles } where
  authority user := by
    unfold Team.authority
    cases hfind : s.members.find user with
    | none => exact .inl rfl
    | some m =>
      rcases h.permissions m.role m.customRoleID with hsame | hwithin
      · exact .inl (congrArg ExpandGranular hsame)
      · exact .inr hwithin
  invitations i hi hid := by
    rcases h.permissions i.role i.customRoleID with hsame | hwithin
    · rw [hsame]
      exact hoffered i hi hid
    · exact hwithin
  tokens _ := .inl rfl
  roots := rfl

theorem given_createTeamRole (h : s.CreateTeamRole actor name perms = some s')
    (hactor : Within P (s.identity actor)) (hoffered : Offered P ids s) :
    Given P ids s s' := by
  unfold Team.CreateTeamRole at h
  split at h
  · split at h
    · cases h
    · rename_i closed hclosed
      split at h
      · cases h
      · cases h
        refine RolesGiven.given ?_ hoffered
        intro id
        have hwithin := within_expand_validated hactor hclosed
        unfold Team.customPermissions Team.customRole row?
        rw [find?_append]
        cases hfind : s.customRoles.find? fun r => r.id = id with
        | some r => exact .inl rfl
        | none =>
          by_cases hid : nextId CustomRole.id s.customRoles = id
          · exact .inr ⟨closed, by simp [hid], hwithin⟩
          · exact .inl (by simp [hid])
  · cases h

theorem within_validated (hcomposer : Within P composer)
    (h : Team.validatedPermissions perms composer = .ok closed) :
    ∀ l, closed = some l → Within P (ExpandGranular l) := by
  cases perms with
  | none =>
    cases h
    intro l hl
    cases hl
  | some perms =>
    cases hv : ValidateCustomPermissions perms composer with
    | error e =>
      rw [Team.validatedPermissions, hv] at h
      cases h
    | ok l' =>
      rw [Team.validatedPermissions, hv] at h
      cases h
      intro l hl
      cases hl
      exact within_expand_validated hcomposer hv

/-- An update of a custom role, seen by a reader of the permissions. -/
theorem rolesGiven_patch {id : Nat} (h : ∀ l, closed = some l → Within P (ExpandGranular l)) :
    RolesGiven P s { s with
      customRoles := updateWhere (fun r => r.id = id)
        (Team.patchRole name closed) s.customRoles } := by
  intro id'
  have hkey : ∀ r, (Team.patchRole name closed r).id = r.id := fun _ => rfl
  unfold Team.customPermissions Team.customRole
  rw [row?_updateWhere _ hkey]
  cases hrow : row? CustomRole.id id' s.customRoles with
  | none => exact .inl rfl
  | some r =>
    by_cases hid : r.id = id
    · cases closed with
      | none => exact .inl (by simp [hid, Team.patchRole])
      | some l => exact .inr ⟨l, by simp [hid, Team.patchRole], h l rfl⟩
    · exact .inl (by simp [hid])

theorem given_updateTeamRole {id : Nat}
    (h : s.UpdateTeamRole actor id name perms = some s')
    (hactor : Within P (s.identity actor)) (hoffered : Offered P ids s) :
    Given P ids s s' := by
  unfold Team.UpdateTeamRole at h
  split at h
  · split at h
    · cases h
    · rename_i closed hclosed
      have hwithin := within_validated hactor hclosed
      split at h
      · cases h
      · split at h
        · cases h
        · cases h
          exact (rolesGiven_patch hwithin).given hoffered
  · cases h

theorem customPermissions_delete {id id' : Nat} (h : id' ≠ id)
    (members : Members) (invitations : List Invitation) :
    Team.customPermissions { s with
      members
      customRoles := deleteWhere (fun r => r.id = id) s.customRoles
      invitations } id' = s.customPermissions id' := by
  unfold Team.customPermissions Team.customRole row? deleteWhere
  have hsame : (fun r : CustomRole => !decide (r.id = id) && decide (r.id = id'))
      = fun r => decide (r.id = id') := by
    funext r
    by_cases hr : r.id = id'
    · simp [hr, h]
    · simp [hr]
  simp [hsame]

theorem given_deleteTeamRole {id : Nat}
    (h : s.DeleteTeamRole actor id = some s')
    (hactor : Within P (s.identity actor)) (hoffered : Offered P ids s)
    (hheld : (Operation.deleteTeamRole actor id).Held s) : Given P ids s s' := by
  obtain ⟨-, rfl⟩ := of_guard h
  -- Columns that do not name the role read as before.
  have hkept : ∀ (role : TeamRole) (custom : Option Nat),
      custom ≠ some id →
      Team.permissions { s with
        members := s.members.clearCustomRole id
        customRoles := deleteWhere (fun r => r.id = id) s.customRoles
        invitations := updateWhere (fun i => i.customRoleID = some id)
          (fun i => { i with customRoleID := none }) s.invitations }
        role custom = s.permissions role custom := by
    intro role custom hne
    cases custom with
    | none => rfl
    | some id' =>
      have hid : id' ≠ id := fun heq => hne (heq ▸ rfl)
      exact congrArg (PermissionsForMembership role) (customPermissions_delete hid _ _)
  constructor
  · intro user
    unfold Team.authority
    simp only [Members.find_clearCustomRole]
    cases hfind : s.members.find user with
    | none => exact .inl rfl
    | some m =>
      simp only [map_some, Members.cleared]
      by_cases hid : m.customRoleID = some id
      · rw [if_pos hid]
        refine .inr ?_
        exact (hheld.1 m (Members.mem_of_find hfind).1 hid).within hactor
      · rw [if_neg hid]
        exact .inl (congrArg ExpandGranular (hkept m.role _ hid))
  · intro i hi hin
    rcases of_mem_updateKey hi with ⟨j, hj, hid, rfl⟩ | ⟨hj, hid⟩
    · exact (hheld.2 j hj hid).within hactor
    · rw [hkept _ _ hid]
      exact hoffered _ hj hin
  · exact fun _ => .inl rfl
  · rfl

/-! ### Members, invitations and tokens -/

theorem given_updateTeamMember
    (h : s.UpdateTeamMember actor user body = some s')
    (hactor : Within P (s.identity actor)) (hoffered : Offered P ids s)
    (hheld : (Operation.updateTeamMember actor user body).Held s) :
    Given P ids s s' := by
  unfold Team.UpdateTeamMember at h
  split at h
  · split at h
    · rename_i current role customRoleID hfind hrole
      split at h
      · cases h
      · cases h
        refine ⟨?_, hoffered, fun _ => .inl rfl, rfl⟩
        intro user'
        unfold Team.authority
        simp only [Members.find_updateTeamMemberRole]
        cases hfind' : s.members.find user' with
        | none => exact .inl rfl
        | some m =>
          simp only [map_some, Members.assigned]
          by_cases huser : m.user = user
          · rw [if_pos huser]
            exact .inr ((hheld role customRoleID hrole).within hactor)
          · rw [if_neg huser]
            exact .inl rfl
    · cases h
  · cases h

theorem given_createTeamInvitation
    (h : s.CreateTeamInvitation actor account body = some s')
    (hactor : Within P (s.identity actor)) (hoffered : Offered P ids s)
    (hheld : (Operation.createTeamInvitation actor account body).Held s) :
    Given P (nextId Invitation.id s.invitations :: ids) s s' := by
  unfold Team.CreateTeamInvitation at h
  split at h
  · split at h
    · cases h
    · rename_i role customRoleID hrole
      split at h
      · cases h
      · cases h
        refine ⟨fun _ => .inl rfl, ?_, fun _ => .inl rfl, rfl⟩
        refine forall_concat (fun i hi hid => ?_) ?_
        · have hlt : i.id < nextId Invitation.id s.invitations := lt_nextId hi
          exact hoffered i hi ((mem_cons.1 hid).resolve_left (Nat.ne_of_lt hlt))
        · exact fun _ => (hheld role customRoleID hrole).within hactor
  · cases h

theorem given_acceptInvitation (hi : i ∈ s.invitations) (hid : i.id ∈ ids)
    (hoffered : Offered P ids s) :
    Given P ids s (s.AcceptInvitation i) where
  authority user := by
    unfold Team.authority
    have hfind := Members.find_addTeamMember s.members ⟨i.account, i.role, i.customRoleID⟩ user
    rcases hfind with hsame | ⟨_, hnew⟩
    · refine .inl ?_
      simp only [Team.AcceptInvitation, hsame]
      rfl
    · refine .inr ?_
      simp only [Team.AcceptInvitation, hnew]
      exact hoffered i hi hid
  invitations j hj := hoffered j (mem_filter.1 hj).1
  tokens _ := .inl rfl
  roots := rfl

theorem given_createApiToken (h : s.CreateApiToken actor name scopes = some s')
    (hactor : Within P (s.identity actor)) (hoffered : Offered P ids s)
    (hheld : (Operation.createApiToken actor name scopes).Held s) :
    Given P ids s s' := by
  unfold Team.CreateApiToken at h
  split at h
  · split at h
    · cases h
    · rename_i user huser
      obtain ⟨-, rfl⟩ := of_guard h
      refine ⟨fun _ => .inl rfl, hoffered, ?_, rfl⟩
      intro id
      unfold Team.token row?
      rw [find?_append]
      cases hfind : s.tokens.find? fun t => t.id = id with
      | some t => exact .inl rfl
      | none =>
        by_cases hid : nextId ApiToken.id s.tokens = id
        · refine .inr ⟨⟨id, scopes, some user⟩, by simp [hid], ?_⟩
          exact (hheld user huser).within hactor
        · exact .inl (by simp [hid])
  · cases h

/-! ## Runs of the party -/

/-- Who joins the party held nothing before. -/
theorem identity_joins {op : Operation} (h : a ∈ op.joins s) : s.identity a = [] := by
  cases op with
  | acceptInvitation id =>
    simp only [Operation.joins] at h
    split at h
    · cases h
    · split at h
      · rename_i hnew
        obtain rfl := mem_singleton.1 h
        have hfind := isNone_iff_eq_none.1 hnew.1
        rw [identity_session, if_neg hnew.2, Team.authority, hfind]
        rfl
      · cases h
  | createApiToken actor name scopes =>
    obtain rfl := mem_singleton.1 h
    have hfresh : s.token (nextId ApiToken.id s.tokens) = none := by
      apply find?_eq_none.2
      intro t ht
      have hlt : t.id < nextId ApiToken.id s.tokens :=
        lt_nextId ht
      simpa using Nat.ne_of_lt hlt
    rw [identity_token, hfresh]
    rfl
  | _ => cases h

/-- The party is limited to `P`, and has offered nothing beyond it. -/
structure Limited (P : Granular → Prop) (w : Party) : Prop where
  actors : ∀ a ∈ w.actors, Within P (w.team.identity a)
  invitations : Offered P w.invited w.team

theorem given_serve {op : Operation} (h : Limited P w) (hparty : op.InParty w)
    (hserve : op.serve w.team = some s') (hheld : op.Held w.team) :
    Given P (op.invites w.team ++ w.invited) w.team s' := by
  have hoffered := h.invitations
  cases op with
  | createTeamRole actor name perms =>
    exact given_createTeamRole hserve (h.actors _ hparty) hoffered
  | updateTeamRole actor id name perms =>
    exact given_updateTeamRole hserve (h.actors _ hparty) hoffered
  | deleteTeamRole actor id =>
    exact given_deleteTeamRole hserve (h.actors _ hparty) hoffered hheld
  | updateTeamMember actor user body =>
    exact given_updateTeamMember hserve (h.actors _ hparty) hoffered hheld
  | createTeamInvitation actor account body =>
    exact given_createTeamInvitation hserve (h.actors _ hparty) hoffered hheld
  | acceptInvitation id =>
    obtain ⟨i, hi, rfl⟩ := map_eq_some_iff.1 hserve
    have hid : i.id ∈ w.invited := row?_key hi ▸ hparty
    exact given_acceptInvitation (row?_mem hi) hid hoffered
  | createApiToken actor name scopes =>
    exact given_createApiToken hserve (h.actors _ hparty) hoffered hheld

/-- The step: an operation that gives only what is held keeps the limit. -/
theorem limited_apply {w w' : Party} {op : Operation} (h : Limited P w)
    (hheld : op.Held w.team) (happly : op.apply w = some w') :
    Limited P w' := by
  unfold Operation.apply at happly
  split at happly
  · rename_i hparty
    obtain ⟨team, hserve, rfl⟩ := map_eq_some_iff.1 happly
    have hgiven := given_serve h hparty hserve hheld
    refine ⟨?_, hgiven.invitations⟩
    intro a ha
    apply hgiven.identity
    rcases mem_append.1 ha with hjoins | ha
    · rw [identity_joins hjoins]
      exact within_nil
    · exact h.actors a ha
  · cases happly

/-- A party of sessions and tokens that are limited to `P` stays limited to `P`,
with everyone it invites and every token it creates, if what each of its
operations gives is held by who takes it. -/
theorem party_within {team : Team} {actors : List Actor} {w : Party}
    (hstart : ∀ a ∈ actors, Within P (team.identity a))
    (h : Reaches Operation.apply (fun op w => op.Held w.team) ⟨team, actors, []⟩ w) :
    ∀ a ∈ w.actors, Within P (w.team.identity a) := by
  have hlimited : Limited P ⟨team, actors, []⟩ :=
    ⟨hstart, nofun⟩
  exact (h.invariant (fun _ _ _ hheld happly hw =>
    limited_apply hw hheld happly) hlimited).actors

/-- A team with the admin 1, and a member 2 with a custom role that holds
`perms`. -/
def staffed (perms : List Granular) : Team where
  members := ⟨[⟨1, .admin, none⟩, ⟨2, .member, some 1⟩], by decide⟩
  customRoles := [⟨1, "staff", perms⟩]
  invitations := []
  tokens := []
  roots := []

/-- The recruiter 2 may invite, and holds the role that it offers. -/
def recruited : Team :=
  staffed [⟨.members, .read⟩, ⟨.invitations, .manage⟩]

/-- The recruiter offers its own role to the account 5, which accepts. -/
theorem party_within_recruited :
    ∃ w, Reaches Operation.apply (fun op w => op.Held w.team)
        ⟨recruited, [.session 2], []⟩ w ∧ .session 5 ∈ w.actors ∧
      Within (fun p => Has (recruited.identity (.session 2)) (.granular p))
        (w.team.identity (.session 5)) := by
  have hheld : (Operation.createTeamInvitation (.session 2) 5 (.custom 1)).Held recruited := by
    intro role custom hrole
    cases some.inj hrole
    exact holds_of_subset (by decide)
  have hinvite : Step Operation.apply (fun op w => op.Held w.team)
      ⟨recruited, [.session 2], []⟩
      ⟨{ recruited with invitations := [⟨1, 5, .member, some 1⟩] }, [.session 2], [1]⟩ :=
    ⟨.createTeamInvitation (.session 2) 5 (.custom 1), hheld, by decide⟩
  have haccept : Step Operation.apply (fun op w => op.Held w.team)
      ⟨{ recruited with invitations := [⟨1, 5, .member, some 1⟩] }, [.session 2], [1]⟩
      ⟨{ recruited with
          members := ⟨[⟨1, .admin, none⟩, ⟨2, .member, some 1⟩,
            ⟨5, .member, some 1⟩], by decide⟩ },
        [.session 5, .session 2], [1]⟩ :=
    ⟨.acceptInvitation 1, trivial, by decide⟩
  have hrun := (Relation.ReflTransGen.single hinvite).tail haccept
  have hstart : ∀ a ∈ [Actor.session 2], Within
      (fun p => Has (recruited.identity (.session 2)) (.granular p))
      (recruited.identity a) := by
    intro a ha p hp
    rwa [mem_singleton.1 ha] at hp
  exact ⟨_, hrun, by simp, party_within hstart hrun _ (by simp)⟩

/-! ## Elevation -/

/-- Some limit that the party has at first does not limit it after a run. -/
def Elevated (team : Team) (actors : List Actor) : Prop :=
  ∃ (P : Granular → Prop) (w : Party),
    (∀ a ∈ actors, Within P (team.identity a)) ∧
    Reaches Operation.apply (fun _ _ => True) ⟨team, actors, []⟩ w ∧
    ∃ a ∈ w.actors, ¬Within P (w.team.identity a)

/-- A run after which an actor of the party holds what its one actor did not
hold. -/
theorem elevated_of_run
    (hrun : run Operation.apply ops ⟨team, [actor], []⟩ = some w)
    (ha : a ∈ w.actors) (hp : Has (w.team.identity a) (.granular p) = true)
    (hnot : Has (team.identity actor) (.granular p) = false) :
    Elevated team [actor] := by
  refine ⟨fun q => Has (team.identity actor) (.granular q) = true, w, ?_,
    Reaches.of_run hrun runMay_true, a, ha, ?_⟩
  · intro b hb q hq
    rwa [mem_singleton.1 hb] at hq
  · intro hwithin
    have htrue : Has (team.identity actor) (.granular p) = true :=
      hwithin p hp
    cases hnot.symm.trans htrue

def automated : Team where
  members := ⟨[⟨1, .admin, none⟩], nodup_singleton 1⟩
  customRoles := []
  invitations := []
  tokens := [⟨1, [.write], some 1⟩]
  roots := []

/-- Nothing but the permission to call a handler is checked in four ways to more
permissions.  A member that manages members makes itself an admin; one that
invites offers a role it does not have; one that manages roles deletes its own
and falls back on `member`; and a token with the scope `write` creates one with
the scope `read`, which projects onto reads that `write` does not. -/
theorem party_elevated :
    Elevated (staffed [⟨.members, .read⟩, ⟨.members, .manage⟩]) [.session 2] ∧
    Elevated recruited [.session 2] ∧
    Elevated (staffed [⟨.roles, .read⟩, ⟨.roles, .manage⟩]) [.session 2] ∧
    Elevated automated [.token 1] := by
  refine ⟨?_, ?_, ?_, ?_⟩
  · have hrun : run Operation.apply
        [.updateTeamMember (.session 2) 2 .admin]
        ⟨staffed [⟨.members, .read⟩, ⟨.members, .manage⟩], [.session 2], []⟩ =
        some ⟨{ staffed [⟨.members, .read⟩, ⟨.members, .manage⟩] with
          members := ⟨[⟨1, .admin, none⟩, ⟨2, .admin, none⟩], by decide⟩ },
          [.session 2], []⟩ := by decide
    exact elevated_of_run (a := .session 2) (p := ⟨.servers, .manage⟩) hrun
      (by decide) (by decide +kernel) (by decide)
  · have hrun : run Operation.apply
        [.createTeamInvitation (.session 2) 5 .admin, .acceptInvitation 1]
        ⟨recruited, [.session 2], []⟩ =
        some ⟨{ recruited with
          members := ⟨[⟨1, .admin, none⟩, ⟨2, .member, some 1⟩,
            ⟨5, .admin, none⟩], by decide⟩ },
          [.session 5, .session 2], [1]⟩ := by decide
    exact elevated_of_run (a := .session 5) (p := ⟨.servers, .manage⟩) hrun
      (by decide) (by decide +kernel) (by decide)
  · have hrun : run Operation.apply [.deleteTeamRole (.session 2) 1]
        ⟨staffed [⟨.roles, .read⟩, ⟨.roles, .manage⟩], [.session 2], []⟩ =
        some ⟨{ staffed [] with
          members := ⟨[⟨1, .admin, none⟩, ⟨2, .member, none⟩], by decide⟩
          customRoles := [] }, [.session 2], []⟩ := by decide
    exact elevated_of_run (a := .session 2) (p := ⟨.applications, .delete⟩)
      hrun (by decide) (by decide +kernel) (by decide)
  · have hrun : run Operation.apply
        [.createApiToken (.token 1) "reader" [.read]]
        ⟨automated, [.token 1], []⟩ =
        some ⟨{ automated with
          tokens := [⟨1, [.write], some 1⟩, ⟨2, [.read], some 1⟩] },
          [.token 2, .token 1], []⟩ := by decide +kernel
    exact elevated_of_run (a := .token 2) (p := ⟨.metrics, .read⟩) hrun
      (by decide) (by decide +kernel) (by decide +kernel)

end Akerdock.Teams
