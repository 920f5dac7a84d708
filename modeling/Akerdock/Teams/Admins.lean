import Akerdock.Lib.Windows
import Akerdock.Teams.Members

/-!
# The last admin

The requests that take a role away from a member: `UpdateTeamMember` of
`internal/handlers/roles.go`, and the group and user endpoints of
`internal/handlers/scim.go`.  Any number of them act on one team, statement by
statement.

* `UpdateTeamMember`, `ScimPatchGroup` and `ScimDeleteUser` are programs over
  the statements.  The first one and the removals of the second one read the
  member and count the admins before they write; an assignment to a group and a
  deprovisioning do not.
* `admin_remains` is the condition under which a team keeps an admin: the writes
  that are not guarded are for members whom the team can lose, the reads of the
  guard succeed, and no other request writes between the reads of a guard and
  its write.
* `admin_lost` has three runs that end without an admin.
-/

namespace Akerdock.Teams

open Proc
open Pool.Reaches (launch)

/-! ## The statements -/

/-- The request that assigns a role. -/
inductive Via where
  | updateTeamMember
  | scimAdd
  | scimRemove
  deriving DecidableEq

/-- The statements.  The answer to `scimGroupExists` takes two reads, of the
members and of the custom roles. -/
inductive MemberCall where
  | getTeamMemberByUUID (user : Nat)
  | getScimMember (user : Nat)
  | getCustomRoleByUUID (uuid : Nat)
  | scimGroupExists
  | countTeamAdmins
  | updateTeamMemberRole (user : Nat) (role : TeamRole) (customRoleID : Option Nat) (via : Via)
  | removeTeamMemberByUUID (user : Nat)

/-- The answers; `none` is an error.  A member is looked up with or without
success, and an update answers whether it found the row. -/
def MemberAns : MemberCall → Type
  | .getTeamMemberByUUID _ => Option (Option Membership)
  | .getScimMember _ => Option (Option Membership)
  | .getCustomRoleByUUID _ => Option Nat
  | .scimGroupExists => Bool
  | .countTeamAdmins => Option Nat
  | .updateTeamMemberRole _ _ _ _ => Option Bool
  | .removeTeamMemberByUUID _ => Option Bool

/-- What is not up to the members: whether the statement fails, and what the
custom roles of the team are. -/
structure MemberOutcome where
  failed : Bool
  customRole : Option Nat
  groupExists : Bool

/-- What a statement does to the members. -/
def MemberCall.act : (c : MemberCall) → MemberOutcome → Members → MemberAns c × Members
  | .getTeamMemberByUUID user, o, s =>
    (if o.failed then none else some (s.find user), s)
  | .getScimMember user, o, s =>
    (if o.failed then none else some (s.find user), s)
  | .getCustomRoleByUUID _, o, s => (o.customRole, s)
  | .scimGroupExists, o, s => (o.groupExists, s)
  | .countTeamAdmins, o, s =>
    (if o.failed then none else some s.countTeamAdmins, s)
  | .updateTeamMemberRole user role customRoleID _, o, s =>
    if o.failed then (none, s)
    else (some (s.find user).isSome, s.updateTeamMemberRole user role customRoleID)
  | .removeTeamMemberByUUID user, o, s =>
    if o.failed then (none, s)
    else (some (s.find user).isSome, s.removeTeamMember user)

/-! ## The requests -/

/-- The role of a request to change a member: a system role among those that
can be given, or a custom role. -/
inductive RoleUpdate where
  | admin
  | member
  | reviewer
  | custom (uuid : Nat)
  deriving DecidableEq

/-- The columns that a role is written as: a custom role with the system role
`member` to fall back on. -/
def resolveRole : RoleUpdate → Prog MemberAns (Option (TeamRole × Option Nat))
  | .admin => .ret (some (.admin, none))
  | .member => .ret (some (.member, none))
  | .reviewer => .ret (some (.reviewer, none))
  | .custom uuid =>
    .call (.getCustomRoleByUUID uuid) fun (role : Option Nat) =>
      match role with
      | none => .ret none
      | some id => .ret (some (.member, some id))

/-- The last part of `UpdateTeamMember`.  Results are statuses. -/
def writeRole (user : Nat) (role : TeamRole) (customRoleID : Option Nat) : Prog MemberAns Nat :=
  .call (.updateTeamMemberRole user role customRoleID .updateTeamMember)
    fun (n : Option Bool) =>
      match n with
      | none => .ret 500
      | some false => .ret 404
      | some true => .call (.getTeamMemberByUUID user)
          fun (updated : Option (Option Membership)) =>
            match updated with
            | some (some _) => .ret 200
            | _ => .ret 500

def UpdateTeamMember (user : Nat) (body : RoleUpdate) : Prog MemberAns Nat :=
  .call (.getTeamMemberByUUID user)
    fun (current : Option (Option Membership)) =>
      match current with
      | none => .ret 500
      | some none => .ret 404
      | some (some current) => (resolveRole body).bind fun
        | none => .ret 404
        | some (role, customRoleID) =>
          if current.isAdmin && body != .admin then
            .call .countTeamAdmins fun (admins : Option Nat) =>
              match admins with
              | none => .ret 500
              | some n =>
                if n ≤ 1 then .ret 409 else writeRole user role customRoleID
          else writeRole user role customRoleID

/-- `scimWouldOrphanLastAdmin`: a failed read is taken for a no. -/
def scimWouldOrphanLastAdmin (user : Nat) : Prog MemberAns Bool :=
  .call (.getScimMember user) fun (m : Option (Option Membership)) =>
    match m with
    | some (some m) =>
      if m.role ≠ .admin then .ret false
      else .call .countTeamAdmins fun (admins : Option Nat) =>
        match admins with
        | none => .ret false
        | some n => .ret (n ≤ 1)
    | _ => .ret false

def scimSetMemberRole (user : Nat) (group : RoleUpdate) (grant : Bool) : Prog MemberAns Unit :=
  if grant then (resolveRole group).bind fun
    | none => .ret ()
    | some (role, customRoleID) =>
      .call (.updateTeamMemberRole user role customRoleID .scimAdd) fun _ => .ret ()
  else (scimWouldOrphanLastAdmin user).bind fun
    | true => .ret ()
    | false => .call (.updateTeamMemberRole user .member none .scimRemove) fun _ => .ret ()

/-- The members of the operations of a patch, one after another. -/
def scimApply (group : RoleUpdate) : List (Bool × Nat) → Prog MemberAns Nat
  | [] => .ret 204
  | (grant, user) :: rest =>
    (scimSetMemberRole user group grant).bind fun _ => scimApply group rest

/-- `ScimPatchGroup`, with the members that its operations add or remove. -/
def ScimPatchGroup (group : RoleUpdate) (ops : List (Bool × Nat)) : Prog MemberAns Nat :=
  .call .scimGroupExists fun (found : Bool) =>
    if found then scimApply group ops else .ret 404

/-- `ScimDeleteUser`, and `ScimReplaceUser` and `ScimPatchUser` for a user that
is no longer active. -/
def ScimDeleteUser (user : Nat) : Prog MemberAns Nat :=
  .call (.getScimMember user) fun (m : Option (Option Membership)) =>
    match m with
    | some (some _) => .call (.removeTeamMemberByUUID user) fun _ => .ret 204
    | _ => .ret 404

/-- A request that changes the members. -/
inductive MemberRequest where
  | update (user : Nat) (body : RoleUpdate)
  | patchGroup (group : RoleUpdate) (ops : List (Bool × Nat))
  | deprovision (user : Nat)

def MemberRequest.program : MemberRequest → Prog MemberAns Nat
  | .update user body => UpdateTeamMember user body
  | .patchGroup group ops => ScimPatchGroup group ops
  | .deprovision user => ScimDeleteUser user

/-- The members, with the statements that may be made. -/
def membership (may : MemberCall → MemberOutcome → Members → Prop) :
    System MemberAns MemberOutcome Members where
  sem := MemberCall.act
  ok := may
  rely := (· = ·)

/-- The requests, side by side. -/
def memberRequests (may : MemberCall → MemberOutcome → Members → Prop) :
    Pool (membership may) Nat where
  spawn s p s' := s = s' ∧ ∃ r : MemberRequest, p = r.program

/-! ## Watching one request -/

/-- What a request has found out about the member it is going to change:
`blind` if a read of the guard failed. -/
inductive Guard where
  | idle
  | read (user : Nat) (current : Option Membership)
  | passed (user : Nat)
  | blind

def Guard.next : Guard → (c : MemberCall) → MemberAns c → Guard
  | .blind, _, _ => .blind
  | _, .getTeamMemberByUUID user, some current => .read user current
  | _, .getTeamMemberByUUID _, none => .idle
  | _, .getScimMember user, some current => .read user current
  | _, .getScimMember _, none => .blind
  | .read user current, .countTeamAdmins, some n =>
    if n ≤ 1 then .read user current else .passed user
  | g, .countTeamAdmins, some _ => g
  | _, .countTeamAdmins, none => .blind
  | g, .getCustomRoleByUUID _, _ => g
  | g, .scimGroupExists, _ => g
  | _, .updateTeamMemberRole _ _ _ _, _ => .idle
  | _, .removeTeamMemberByUUID _, _ => .idle

/-- The writes of each stage: one that is guarded is for the member that was
read, who is no admin or stays one, or for a member the team can lose. -/
def Guard.calls : Guard → MemberCall → Prop
  | .blind, _ => True
  | .read user current, .updateTeamMemberRole user' role customRoleID via =>
    via = .scimAdd ∨ user' = user ∧
      ((∀ m, current = some m → m.isAdmin = false) ∨ role = .admin ∧ customRoleID = none)
  | .passed user, .updateTeamMemberRole user' _ _ via =>
    via = .scimAdd ∨ user' = user
  | .idle, .updateTeamMemberRole _ _ _ via => via = .scimAdd
  | _, _ => True

section Follows

variable {α : Type} {g : Guard}

def Respects (g : Guard) (p : Prog MemberAns α) : Prop :=
  Prog.Follows Guard.next Guard.calls (fun _ _ => True) g p

theorem respects_ret (a : α) : Respects g (.ret a) :=
  .ret _ _ trivial

theorem respects_blind (p : Prog MemberAns α) : Respects .blind p := by
  induction p with
  | ret a => exact respects_ret a
  | call c next ih => exact .call _ _ _ trivial ih

/-- A role is resolved without a write; a role other than `admin` is not
written as one. -/
theorem respects_resolveRole (hnone : Respects g (f none))
    (hsome : ∀ role customRoleID, (body = .admin → role = .admin ∧
      customRoleID = none) → Respects g (f (some (role, customRoleID)))) :
    Respects g ((resolveRole body).bind f) := by
  cases body with
  | admin => exact hsome _ _ fun _ => ⟨rfl, rfl⟩
  | member | reviewer => exact hsome _ _ (by simp)
  | custom uuid =>
    refine .call _ _ _ (by cases g <;> trivial) ?_
    intro (role : Option Nat)
    have hg : g.next (.getCustomRoleByUUID uuid) role = g := by
      cases g <;> rfl
    rw [hg]
    cases role with
    | none => exact hnone
    | some id => exact hsome _ _ (by simp)

theorem respects_writeRole (h : g.calls
      (.updateTeamMemberRole user role customRoleID .updateTeamMember)) :
    Respects g (writeRole user role customRoleID) := by
  refine .call _ _ _ h ?_
  intro (n : Option Bool)
  match n with
  | none => exact respects_ret _
  | some false => exact respects_ret _
  | some true =>
    refine .call _ _ _ (by cases g <;> trivial) ?_
    intro (updated : Option (Option Membership))
    match updated with
    | none => exact respects_ret _
    | some none => exact respects_ret _
    | some (some m) => exact respects_ret _

theorem respects_UpdateTeamMember (user : Nat) (body : RoleUpdate) :
    Respects .idle (UpdateTeamMember user body) := by
  refine .call _ _ _ trivial ?_
  intro (current : Option (Option Membership))
  match current with
  | none => exact respects_ret _
  | some none => exact respects_ret _
  | some (some current) =>
    refine respects_resolveRole (respects_ret _) ?_
    intro role customRoleID hadmin
    show Respects (.read user (some current)) (if _ then _ else _)
    split
    · refine .call _ _ _ trivial ?_
      intro (admins : Option Nat)
      cases admins with
      | none => exact respects_blind _
      | some n =>
        show Respects (if n ≤ 1 then _ else _) (if n ≤ 1 then _ else _)
        split
        · exact respects_ret _
        · exact respects_writeRole (.inr rfl)
    · next hguard =>
      refine respects_writeRole (.inr ⟨rfl, ?_⟩)
      by_cases hbody : body = .admin
      · exact .inr (hadmin hbody)
      · refine .inl ?_
        intro m hm
        cases hm
        simpa [hbody] using hguard

/-- A request that is done with a member goes on with the next one, whatever it
knows. -/
def Anywhere (p : Prog MemberAns α) : Prop :=
  ∀ g, Respects g p

theorem respects_scimSetMemberRole (user : Nat) (group : RoleUpdate)
    (grant : Bool) : Anywhere (scimSetMemberRole user group grant) := by
  intro g
  unfold scimSetMemberRole
  split
  · refine respects_resolveRole (respects_ret _) ?_
    intro role customRoleID _
    refine .call _ _ _ ?_ fun _ => respects_ret _
    cases g with
    | blind => trivial
    | idle => rfl
    | read user' current | passed user' => exact .inl rfl
  · refine .call _ _ _ (by cases g <;> trivial) ?_
    intro (m : Option (Option Membership))
    by_cases hg : g = .blind
    · subst hg
      exact respects_blind _
    have hread : ∀ current, g.next (.getScimMember user) (some current) =
        .read user current := by
      intro current
      cases g with
      | blind => exact absurd rfl hg
      | _ => rfl
    match m with
    | none =>
      have hblind : g.next (.getScimMember user) none = .blind := by
        cases g <;> rfl
      rw [hblind]
      exact respects_blind _
    | some none =>
      rw [hread]
      refine .call _ _ _ (.inr ⟨rfl, .inl ?_⟩) fun _ => respects_ret _
      intro m hm
      cases hm
    | some (some m) =>
      rw [hread]
      show Respects _ (Prog.bind (if m.role ≠ .admin then _ else _) _)
      split
      · next hrole =>
        refine .call _ _ _ (.inr ⟨rfl, .inl ?_⟩) fun _ => respects_ret _
        intro m' hm
        cases hm
        simp [Membership.isAdmin, hrole]
      · refine .call _ _ _ trivial ?_
        intro (admins : Option Nat)
        cases admins with
        | none => exact respects_blind _
        | some n =>
          by_cases hn : n ≤ 1
          · show Respects (if n ≤ 1 then _ else _) (match decide (n ≤ 1) with
              | true => _ | false => _)
            simp only [hn, decide_true]
            exact respects_ret _
          · show Respects (if n ≤ 1 then _ else _) (match decide (n ≤ 1) with
              | true => _ | false => _)
            simp only [hn, decide_false, if_false]
            exact .call _ _ _ (.inr rfl) fun _ => respects_ret _

theorem respects_scimApply (group : RoleUpdate) (ops : List (Bool × Nat)) :
    Anywhere (scimApply group ops) := by
  induction ops with
  | nil => exact fun g => respects_ret _
  | cons op rest ih =>
    intro g
    exact Prog.Follows.bind (respects_scimSetMemberRole op.2 group op.1 g) fun g' _ _ => ih g'

theorem respects_program (r : MemberRequest) : Respects .idle r.program := by
  cases r with
  | update user body => exact respects_UpdateTeamMember user body
  | patchGroup group ops =>
    refine .call _ _ _ trivial ?_
    intro (found : Bool)
    cases found with
    | false => exact respects_ret _
    | true => exact respects_scimApply group ops _
  | deprovision user =>
    refine .call _ _ _ trivial ?_
    intro (m : Option (Option Membership))
    match m with
    | none => exact respects_ret _
    | some none => exact respects_ret _
    | some (some m) =>
      exact .call _ _ _ trivial fun _ => respects_ret _

end Follows

/-! ## When an admin remains -/

/-- The reads that a guard begins with. -/
def MemberCall.reads : MemberCall → Bool
  | .getTeamMemberByUUID _ | .getScimMember _ => true
  | _ => false

/-- The statements that change the members. -/
def MemberCall.writes : MemberCall → Bool
  | .updateTeamMemberRole _ _ _ _ | .removeTeamMemberByUUID _ => true
  | _ => false

/-- The writes that a guard comes before. -/
def MemberCall.guarded : MemberCall → Bool
  | .updateTeamMemberRole _ _ _ via => via != .scimAdd
  | _ => false

/-- The condition on the statements of a run: the reads of the guards succeed,
and where there is no guard the team can lose the member. -/
def Spared : MemberCall → MemberOutcome → Members → Prop
  | .getScimMember _, o, _ => o.failed = false
  | .countTeamAdmins, o, _ => o.failed = false
  | .updateTeamMemberRole user role customRoleID via, _, s =>
    via = .scimAdd → role = .admin ∧ customRoleID = none ∨ s.CanLose user
  | .removeTeamMemberByUUID user, _, s => s.CanLose user
  | _, _, _ => True

/-- No other request wrote between the reads of a guard and its write. -/
abbrev GuardsKept (t : List (Event MemberAns Nat)) : Prop :=
  Pool.Undisturbed MemberCall.reads MemberCall.writes MemberCall.guarded t

/-- What a request knows about the members. -/
def Guard.Holds : Guard → Members → Prop
  | .idle, _ => True
  | .read user current, s => s.find user = current
  | .passed user, s => s.CanLose user
  | .blind, _ => False

section Window

variable {g : Guard} {c : MemberCall} {o : MemberOutcome} {s : Members}

theorem act_frame (h : c.writes = false) : (c.act o s).2 = s := by
  cases c with
  | updateTeamMemberRole user role customRoleID via
  | removeTeamMemberByUUID user => cases h
  | _ => rfl

/-- A write keeps an admin if it promotes or if the team can lose the
member. -/
theorem hasAdmin_act_update (hs : s.HasAdmin)
    (h : role = .admin ∧ customRoleID = none ∨ s.CanLose user) :
    ((MemberCall.updateTeamMemberRole user role customRoleID via).act o s).2.HasAdmin := by
  show Members.HasAdmin (if o.failed = true then (_, s) else _ : _ × _).2
  split
  · exact hs
  · rcases h with ⟨rfl, rfl⟩ | h
    · exact Members.hasAdmin_promote hs
    · exact Members.hasAdmin_update h

/-- A statement without a guard. -/
theorem hasAdmin_act (hs : s.HasAdmin) (hguard : c.guarded = false)
    (hok : Spared c o s) : (c.act o s).2.HasAdmin := by
  cases c with
  | updateTeamMemberRole user role customRoleID via =>
    have hvia : via = .scimAdd := by simpa [MemberCall.guarded] using hguard
    exact hasAdmin_act_update hs (hok hvia)
  | removeTeamMemberByUUID user =>
    show Members.HasAdmin (if o.failed = true then (_, s) else _ : _ × _).2
    split
    · exact hs
    · exact Members.hasAdmin_remove hok
  | _ => exact hs

/-- What is read is known. -/
theorem holds_next_of_reads (hg : g ≠ .blind) (hreads : c.reads = true)
    (hok : Spared c o s) : (g.next c (c.act o s).1).Holds s := by
  cases c with
  | getTeamMemberByUUID user =>
    unfold MemberCall.act
    by_cases ho : o.failed = true
    · simp only [ho]
      cases g with
      | blind => exact absurd rfl hg
      | _ => trivial
    · simp only [ho]
      cases g with
      | blind => exact absurd rfl hg
      | _ => rfl
  | getScimMember user =>
    have ho : o.failed = false := hok
    unfold MemberCall.act
    simp only [ho]
    cases g with
    | blind => exact absurd rfl hg
    | _ => rfl
  | _ => cases hreads

theorem next_ne_blind (hg : g ≠ .blind) (hok : Spared c o s) : g.next c (c.act o s).1 ≠ .blind := by
  cases c with
  | getTeamMemberByUUID user =>
    intro heq
    have := holds_next_of_reads hg (c := .getTeamMemberByUUID user) rfl hok
    rw [heq] at this
    exact this
  | getScimMember user =>
    intro heq
    have := holds_next_of_reads hg (c := .getScimMember user) rfl hok
    rw [heq] at this
    exact this
  | countTeamAdmins =>
    have ho : o.failed = false := hok
    unfold MemberCall.act
    simp only [ho]
    cases g with
    | blind => exact absurd rfl hg
    | read user current =>
      show (if _ then _ else _) ≠ Guard.blind
      split <;> simp
    | idle | passed user => simp [Guard.next]
  | _ =>
    cases g with
    | blind => exact absurd rfl hg
    | _ => simp [Guard.next]

/-- A write after a guard that was not overtaken. -/
theorem hasAdmin_act_of_calls (hs : s.HasAdmin) (hg : g.Holds s)
    (hcalls : g.calls c) (hguard : c.guarded = true) :
    (c.act o s).2.HasAdmin := by
  cases c with
  | updateTeamMemberRole user role customRoleID via =>
    have hvia : via ≠ .scimAdd := by simpa [MemberCall.guarded] using hguard
    refine hasAdmin_act_update hs ?_
    cases g with
    | idle => exact absurd hcalls hvia
    | blind => cases hg
    | passed user' =>
      obtain rfl := hcalls.resolve_left hvia
      exact .inr hg
    | read user' current =>
      obtain ⟨rfl, hnone | hadmin⟩ := hcalls.resolve_left hvia
      · exact .inr (Members.canLose_of_find hs fun m hm => hnone m (hg.symm.trans hm))
      · exact .inl hadmin
  | _ => cases hguard

/-- What a request knows after one of its own statements. -/
theorem holds_next (hg : g.Holds s) (hok : Spared c o s) :
    (g.next c (c.act o s).1).Holds (c.act o s).2 := by
  have hblind : g ≠ .blind := by
    intro heq
    rw [heq] at hg
    exact hg
  cases hreads : c.reads with
  | true =>
    have hsame : (c.act o s).2 = s := act_frame (by
      cases c <;> first | rfl | cases hreads)
    rw [hsame]
    exact holds_next_of_reads hblind hreads hok
  | false =>
    cases c with
    | getTeamMemberByUUID user | getScimMember user => cases hreads
    | countTeamAdmins =>
      have ho : o.failed = false := hok
      unfold MemberCall.act
      simp only [ho]
      cases g with
      | blind => exact absurd rfl hblind
      | idle | passed user => exact hg
      | read user current =>
        show Guard.Holds (if _ then _ else _) s
        split
        · exact hg
        · next hn => exact Members.canLose_of_count (Nat.lt_of_not_le hn)
    | getCustomRoleByUUID uuid | scimGroupExists => cases g <;> exact hg
    | updateTeamMemberRole user role customRoleID via
    | removeTeamMemberByUUID user =>
      cases g with
      | blind => exact absurd rfl hblind
      | _ => trivial

end Window

theorem window_hasAdmin : Pool.Window (memberRequests Spared) MemberCall.reads
    MemberCall.writes MemberCall.guarded Guard.next Guard.calls
    (fun _ _ => True) Members.HasAdmin (· ≠ .blind) Guard.Holds where
  start := by
    intro s p s' hspawn
    obtain ⟨rfl, r, rfl⟩ := hspawn
    exact ⟨rfl, .idle, respects_program r, by simp, fun _ => trivial⟩
  frame h := act_frame h
  stays hV _ hok := next_ne_blind hV hok
  step := by
    intro g c o s hs _ hg hcalls hok
    refine ⟨?_, holds_next hg hok⟩
    cases hguard : c.guarded with
    | true => exact hasAdmin_act_of_calls hs hg hcalls hguard
    | false => exact hasAdmin_act hs hguard hok
  careless := by
    intro g c o s hguard hs hV _ hok
    refine ⟨hasAdmin_act hs hguard hok, ?_⟩
    intro hreads
    have hsame : (c.act o s).2 = s := act_frame (by
      cases c <;> first | rfl | cases hreads)
    show Guard.Holds _ (c.act o s).2
    rw [hsame]
    exact holds_next_of_reads hV hreads hok
  other h := h

/-- A team that has an admin keeps one, in the runs in which the writes without
a guard spare the last admin and no guard is overtaken. -/
theorem admin_remains {s : Members} (hs : s.HasAdmin)
    {x : Pool.Config MemberAns Members Nat}
    (hx : (memberRequests Spared).Reaches s x) (ht : GuardsKept x.trace) :
    x.state.HasAdmin :=
  window_hasAdmin.reaches hs hx ht

/-! ## Teams without an admin -/

def twoAdmins : Members :=
  ⟨[⟨1, .admin, none⟩, ⟨2, .admin, none⟩], by decide⟩

/-- A statement that succeeds. -/
def succeeds : MemberOutcome :=
  ⟨false, none, true⟩

theorem spawns_program (s : Members) (r : MemberRequest) :
    (memberRequests may).spawn s r.program s :=
  ⟨rfl, r, rfl⟩

instance (c : MemberCall) (o : MemberOutcome) (s : Members) :
    Decidable ((membership Spared).ok c o s) := by
  show Decidable (Spared c o s)
  unfold Spared
  split <;> infer_instance

/-- The first admin is demoted, and then the demotion of the second one is
refused. -/
def oneDemoted : Pool.Config MemberAns Members Nat :=
  ((((Pool.Config.initial twoAdmins).launch (membership Spared) succeeds
    (UpdateTeamMember 1 .member) 4).finish 0).launch (membership Spared)
      succeeds (UpdateTeamMember 2 .member) 2).finish 1

theorem admin_remains_demoted :
    (memberRequests Spared).Reaches twoAdmins oneDemoted ∧
      Event.ended 0 200 ∈ oneDemoted.trace ∧
      Event.ended 1 409 ∈ oneDemoted.trace ∧
      oneDemoted.state.HasAdmin := by
  have hx : (memberRequests Spared).Reaches twoAdmins oneDemoted := by
    have h₁ : (memberRequests Spared).Reaches twoAdmins
        (((Pool.Config.initial twoAdmins).launch (membership Spared) succeeds
          (UpdateTeamMember 1 .member) 4).finish 0) :=
      (launch .refl (spawns_program _ (.update 1 .member)) (by decide)).finish 0
    exact (h₁.launch (spawns_program _ (.update 2 .member)) (by decide)).finish 1
  have htrace : oneDemoted.trace = [.ended 1 409,
      .called 1 .countTeamAdmins (some 1),
      .called 1 (.getTeamMemberByUUID 2) (some (some ⟨2, .admin, none⟩)),
      .ended 0 200,
      .called 0 (.getTeamMemberByUUID 1) (some (some ⟨1, .member, none⟩)),
      .called 0 (.updateTeamMemberRole 1 .member none .updateTeamMember) (some true),
      .called 0 .countTeamAdmins (some 2),
      .called 0 (.getTeamMemberByUUID 1) (some (some ⟨1, .admin, none⟩))] := rfl
  refine ⟨hx, ?_, ?_, admin_remains (by decide) hx (by decide)⟩
  · rw [htrace]
    simp
  · rw [htrace]
    simp

/-- Any statement may be made. -/
abbrev anyStatement : MemberCall → MemberOutcome → Members → Prop :=
  fun _ _ _ => True

/-- Both admins are demoted at once: each request counts two admins before the
other one writes. -/
def bothDemoted : Pool.Config MemberAns Members Nat :=
  (((((Pool.Config.initial twoAdmins).launch (membership anyStatement) succeeds
    (UpdateTeamMember 1 .member) 2).launch (membership anyStatement) succeeds
      (UpdateTeamMember 2 .member) 4).finish 1).calls (membership anyStatement)
        succeeds 0 2).finish 0

def oneAdmin : Members :=
  ⟨[⟨1, .admin, none⟩], by decide⟩

def groupPatched : Pool.Config MemberAns Members Nat :=
  ((Pool.Config.initial oneAdmin).launch (membership anyStatement) succeeds
    (ScimPatchGroup .member [(true, 1)]) 2).finish 0

def deprovisioned : Pool.Config MemberAns Members Nat :=
  ((Pool.Config.initial oneAdmin).launch (membership anyStatement) succeeds
    (ScimDeleteUser 1) 2).finish 0

/-- The team ends without an admin: by two demotions at once, by an assignment
to another group, and by a deprovisioning. -/
theorem admin_lost :
    ((memberRequests anyStatement).Reaches twoAdmins bothDemoted ∧
      twoAdmins.HasAdmin ∧ bothDemoted.state.rows = [⟨1, .member, none⟩, ⟨2, .member, none⟩] ∧
      ¬bothDemoted.state.HasAdmin) ∧
    ((memberRequests anyStatement).Reaches oneAdmin groupPatched ∧
      oneAdmin.HasAdmin ∧
      groupPatched.state.rows = [⟨1, .member, none⟩] ∧
      ¬groupPatched.state.HasAdmin) ∧
    ((memberRequests anyStatement).Reaches oneAdmin deprovisioned ∧
      deprovisioned.state.rows = [] ∧ ¬deprovisioned.state.HasAdmin) := by
  have hall : ∀ {k n} {x : Pool.Config MemberAns Members Nat},
      x.CallsOk (membership anyStatement) succeeds k n :=
    Pool.Config.callsOk_of_forall (fun _ _ => trivial) _ _ _
  refine ⟨⟨?_, by decide, rfl, by decide⟩, ⟨?_, by decide, rfl, by decide⟩, ?_,
    rfl, by decide⟩
  · have h₁ := launch (P := memberRequests anyStatement) .refl
      (spawns_program twoAdmins (.update 1 .member)) (hall (n := 2))
    exact (((h₁.launch (spawns_program _ (.update 2 .member)) hall).finish
      1).calls hall).finish 0
  · exact (launch .refl (spawns_program _ (.patchGroup .member [(true, 1)])) hall).finish 0
  · exact (launch .refl (spawns_program _ (.deprovision 1)) hall).finish 0

end Akerdock.Teams
