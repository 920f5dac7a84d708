import Mathlib

/-!
# Members of a team

The rows of `team_memberships` that belong to one team, and the statements of
`db/queries/roles.sql`, `scim.sql` and `sessions.sql` on them.  A member has a
system role, and may have a custom role that overrides it.

* `Members` carries the uniqueness of a user in a team, which is the constraint
  `UNIQUE (team_id, user_id)`.
* `HasAdmin` says that some member is an effective admin, and `CanLose` that one
  is who is not the given user.  `canLose_of_count` and `canLose_of_find` are
  what the two guards of the handlers find out.
-/

namespace Akerdock.Teams

open List

inductive TeamRole where
  | owner
  | admin
  | member
  | reviewer
  | none
  deriving DecidableEq

structure Membership where
  user : Nat
  role : TeamRole
  customRoleID : Option Nat
  deriving DecidableEq

/-- An effective admin: a member with a custom role is none, whatever its
system role. -/
def Membership.isAdmin (m : Membership) : Bool :=
  m.role == .admin && m.customRoleID.isNone

/-- The members of one team. -/
structure Members where
  rows : List Membership
  unique : (rows.map Membership.user).Nodup
  deriving DecidableEq

namespace Members

/-- `GetTeamMemberByUUID` and `GetScimMember`. -/
def find (s : Members) (user : Nat) : Option Membership :=
  s.rows.find? fun m => m.user == user

def countTeamAdmins (s : Members) : Nat :=
  s.rows.countP Membership.isAdmin

/-- The row of the user with another role. -/
def assigned (user : Nat) (role : TeamRole) (customRoleID : Option Nat)
    (m : Membership) : Membership :=
  if m.user = user then { m with role, customRoleID } else m

@[simp] theorem assigned_user (user : Nat) (role : TeamRole)
    (customRoleID : Option Nat) (m : Membership) :
    (assigned user role customRoleID m).user = m.user := by
  unfold assigned
  split <;> rfl

theorem assigned_of_ne (h : m.user ≠ user) (role : TeamRole)
    (customRoleID : Option Nat) : assigned user role customRoleID m = m :=
  if_neg h

def updateTeamMemberRole (s : Members) (user : Nat) (role : TeamRole)
    (customRoleID : Option Nat) : Members where
  rows := s.rows.map (assigned user role customRoleID)
  unique := by
    rw [List.map_map]
    have hsame : Membership.user ∘ assigned user role customRoleID = Membership.user := by
      funext m
      exact assigned_user user role customRoleID m
    rw [hsame]
    exact s.unique

def removeTeamMember (s : Members) (user : Nat) : Members where
  rows := s.rows.filter fun m => m.user ≠ user
  unique := s.unique.sublist (List.filter_sublist.map _)

/-! ## Admins -/

/-- Some member is an effective admin. -/
def HasAdmin (s : Members) : Prop :=
  ∃ m ∈ s.rows, m.isAdmin = true

/-- Some member other than `user` is an effective admin. -/
def CanLose (s : Members) (user : Nat) : Prop :=
  ∃ m ∈ s.rows, m.isAdmin = true ∧ m.user ≠ user

instance (s : Members) : Decidable s.HasAdmin :=
  inferInstanceAs (Decidable (∃ m ∈ s.rows, _))

instance (s : Members) (user : Nat) : Decidable (s.CanLose user) :=
  inferInstanceAs (Decidable (∃ m ∈ s.rows, _))

variable {s : Members} {user : Nat} {role : TeamRole} {customRoleID : Option Nat}

theorem hasAdmin_update (h : s.CanLose user) :
    (s.updateTeamMemberRole user role customRoleID).HasAdmin := by
  obtain ⟨m, hm, hadmin, hne⟩ := h
  refine ⟨m, mem_map.2 ⟨m, hm, assigned_of_ne hne _ _⟩, hadmin⟩

theorem hasAdmin_remove (h : s.CanLose user) : (s.removeTeamMember user).HasAdmin := by
  obtain ⟨m, hm, hadmin, hne⟩ := h
  exact ⟨m, mem_filter.2 ⟨hm, by simp [hne]⟩, hadmin⟩

theorem hasAdmin_promote (h : s.HasAdmin) : (s.updateTeamMemberRole user .admin none).HasAdmin := by
  obtain ⟨m, hm, hadmin⟩ := h
  refine ⟨assigned user .admin none m, mem_map_of_mem hm, ?_⟩
  unfold assigned
  split
  · rfl
  · exact hadmin

theorem mem_of_find (h : s.find user = some m) : m ∈ s.rows ∧ m.user = user := by
  refine ⟨mem_of_find?_eq_some h, ?_⟩
  have := find?_some h
  simpa using this

theorem eq_of_mem (hm : m ∈ s.rows) (hm' : m' ∈ s.rows) (h : m.user = m'.user) : m = m' :=
  inj_on_of_nodup_map s.unique hm hm' h

theorem find_of_mem (hm : m ∈ s.rows) : s.find m.user = some m := by
  cases hfind : s.find m.user with
  | none =>
    have hnone := find?_eq_none.1 hfind m hm
    simp at hnone
  | some m' =>
    have hm' := mem_of_find hfind
    rw [eq_of_mem hm'.1 hm hm'.2]

/-- Where there is an admin, a member that is none can be changed. -/
theorem canLose_of_find (h : s.HasAdmin)
    (hfind : ∀ m, s.find user = some m → m.isAdmin = false) :
    s.CanLose user := by
  obtain ⟨m, hm, hadmin⟩ := h
  refine ⟨m, hm, hadmin, ?_⟩
  intro huser
  have hnone := hfind m (huser ▸ find_of_mem hm)
  cases hadmin.symm.trans hnone

/-- Where there are two admins, any member can be changed. -/
theorem canLose_of_count (h : 1 < s.countTeamAdmins) : s.CanLose user := by
  by_contra hno
  have hall : ∀ m ∈ s.rows, m.isAdmin = true → m.user = user := by
    intro m hm hadmin
    by_contra hne
    exact hno ⟨m, hm, hadmin, hne⟩
  have hsub : ((s.rows.filter Membership.isAdmin).map Membership.user).length ≤ 1 := by
    have hnodup : ((s.rows.filter Membership.isAdmin).map
        Membership.user).Nodup := s.unique.sublist (filter_sublist.map _)
    have hsingle : ∀ u ∈ (s.rows.filter Membership.isAdmin).map Membership.user, u = user := by
      intro u hu
      obtain ⟨m, hm, rfl⟩ := mem_map.1 hu
      exact hall m (mem_filter.1 hm).1 (mem_filter.1 hm).2
    have hsubset : (s.rows.filter Membership.isAdmin).map Membership.user ⊆
        [user] := fun u hu => mem_singleton.2 (hsingle u hu)
    exact (subperm_of_subset hnodup hsubset).length_le
  rw [length_map, ← countP_eq_length_filter] at hsub
  exact absurd h (Nat.not_lt.2 hsub)

end Members

end Akerdock.Teams
