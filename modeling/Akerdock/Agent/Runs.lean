import Akerdock.Agent.Waker

/-!
# Operations on the table of the waker, side by side

Deployments, destroys and reconciliations of different resources provision and
remove entries of one file.  Their lock keys are those of applications and
previews, so on one server any number of them may be between their read and
their write.

* `table_up_to_date`: when the operations take turns, the table has for each
  resource what its last operation put there.
* `concurrent_provision_lost`: when they do not, it need not.
-/

namespace Akerdock.Agent

open Proc

/-- The table was written. -/
def Provisioned.deposited : Provisioned → Bool
  | .ok | .notEnsured => true
  | .noImage | .notDeposited => false

abbrev fileOf (may : WakerCall → CallEnd → Server → Prop) : System WakerAns CallEnd Server :=
  .alone WakerCall.act may

/-- Any number of operations, side by side.  Without an image an operation ends
before it touches the file, so it is left out. -/
def operations (may : WakerCall → CallEnd → Server → Prop) :
    Pool (fileOf may) (Operation × Provisioned) where
  spawn s p s' := s = s' ∧ ∃ op : Operation, op.Own ∧ op.Begins ∧
    p = op.program.bind fun r => .ret (op, r)

/-- What the last operation on a resource put into the table. -/
def lastDeposit (uuid : String) : List (Operation × Provisioned) → Option Config
  | [] => none
  | (op, r) :: l =>
    if op.resource = uuid ∧ r.deposited = true then some op.adds.routing
    else lastDeposit uuid l

/-- The condition for operations that take turns: the file is read, and a write
that reports an error has not happened. -/
def Steady : WakerCall → CallEnd → Server → Prop
  | .readFile, e, _ => e = .done
  | .writeFile _, e, _ => e ≠ .lost
  | .agentEnsureCommand, _, _ => True

/-- The table has for each resource what its last operation put there, after
operations with the results `l` on the table `cfg₀`. -/
def UpToDate (cfg₀ : Config) (l : List (Operation × Provisioned)) (s : Server) : Prop :=
  ∃ cfg, s.table = some cfg ∧ ∀ uuid, (cfg.entries uuid).routing =
    (lastDeposit uuid l).getD (cfg₀.entries uuid).routing

theorem UpToDate.unchanged (h : UpToDate cfg₀ l s) (hr : r.deposited = false) :
    UpToDate cfg₀ ((op, r) :: l) s := by
  obtain ⟨cfg, htable, hentries⟩ := h
  refine ⟨cfg, htable, ?_⟩
  intro uuid
  rw [lastDeposit, if_neg (by simp [hr])]
  exact hentries uuid

theorem UpToDate.merged (hown : op.Own)
    (hentries : ∀ uuid, (cfg.entries uuid).routing =
      (lastDeposit uuid l).getD (cfg₀.entries uuid).routing)
    (hr : r.deposited = true) (n : Nat) :
    UpToDate cfg₀ ((op, r) :: l) ⟨some (.document (MarshalConfig (op.merged cfg))), n⟩ := by
  refine ⟨op.merged cfg, table_of_MarshalConfig _ n, ?_⟩
  intro uuid
  by_cases huuid : uuid = op.resource
  · subst huuid
    rw [lastDeposit, if_pos ⟨rfl, hr⟩, entries_merged_self hown]
    rfl
  · rw [lastDeposit, if_neg fun h => huuid h.1.symm,
      entries_merged_of_ne hown cfg huuid, ← hentries uuid]
    rfl

theorem operation_keeps (hown : op.Own) (hbegins : op.Begins) (h : UpToDate cfg₀ l s) :
    wp ((fileOf Steady).keeping fun _ => True) op.program
      (fun r s => UpToDate cfg₀ ((op, r) :: l) s) s := by
  obtain ⟨cfg, htable, hentries⟩ := h
  have hseen : s.seen allDone = some cfg := htable
  have hread : readWakerConfig (some s.file) = cfg :=
    readWakerConfig_of_seen hseen
  have hold : UpToDate cfg₀ l s := ⟨cfg, htable, hentries⟩
  cases op with
  | remove uuid =>
    refine wp_alone fun e he => ?_
    obtain rfl : e = .done := he
    refine wp_alone fun e he => ?_
    cases e with
    | lost => exact absurd rfl he
    | failed => exact hold.unchanged rfl
    | done =>
      show UpToDate _ _ ⟨some (.document (MarshalConfig
        (removeWakerResource (readWakerConfig (some s.file)) uuid))), _⟩
      rw [hread]
      exact .merged hown hentries rfl _
  | provision image uuid new =>
    have himage : image ≠ "" := hbegins
    rw [Operation.program, ensureAgent, if_neg himage]
    refine wp_alone fun e he => ?_
    obtain rfl : e = .done := he
    refine wp_alone fun e he => ?_
    cases e with
    | lost => exact absurd rfl he
    | failed => exact hold.unchanged rfl
    | done =>
      refine wp_alone fun e _ => ?_
      show UpToDate _ _ ⟨some (.document (MarshalConfig
        (mergeWakerConfig (readWakerConfig (some s.file)) uuid new))), _⟩
      rw [hread]
      refine .merged hown hentries ?_ _
      cases e <;> rfl

/-- In the runs in which the operations on a server take turns, whenever none is
in progress, the table has for each resource what its last operation put
there. -/
theorem table_up_to_date {s : Server} {cfg₀ : Config}
    (hs : s.table = some cfg₀)
    {x : Pool.Config WakerAns Server (Operation × Provisioned)}
    (hx : (operations Steady).Reaches s x)
    (hturns : Pool.TakesTurns x.trace) (hidle : Pool.active x.trace = []) :
    ∃ cfg, x.state.table = some cfg ∧ ∀ uuid, (cfg.entries uuid).routing =
      (lastDeposit uuid (Pool.results x.trace)).getD (cfg₀.entries uuid).routing := by
  have hquiet : Pool.Quiet (fileOf Steady) (UpToDate cfg₀) := .alone _
  have hspawn : ∀ {s p s'}, (operations Steady).spawn s p s' →
      (fileOf Steady).rely s s' ∧ Pool.Restores (fileOf Steady) (UpToDate cfg₀) p := by
    intro s p s' h
    obtain ⟨hs, op, hown, hbegins, rfl⟩ := h
    refine ⟨hs, ?_, fun l s hI => wp_bind (operation_keeps hown hbegins hI)⟩
    cases op with
    | remove uuid => exact ⟨_, _, rfl⟩
    | provision image uuid cfg =>
      have himage : image ≠ "" := hbegins
      rw [Operation.program, ensureAgent, if_neg himage]
      exact ⟨_, _, rfl⟩
  exact Pool.holds_between_turns hquiet hspawn ⟨cfg₀, hs, fun _ => rfl⟩ hx hturns hidle

/-- The configuration after `op` starts and makes its next `n` calls. -/
def launch (may : WakerCall → CallEnd → Server → Prop) (op : Operation)
    (n : Nat) (x : Pool.Config WakerAns Server (Operation × Provisioned)) :
    Pool.Config WakerAns Server (Operation × Provisioned) :=
  (x.started (op.program.bind fun r => .ret (op, r)) x.state).calls (fileOf may) .done x.next n

theorem reaches_launch (hmay : ∀ c s, may c .done s) (h : (operations may).Reaches s x)
    (hown : op.Own) (hbegins : op.Begins) (n : Nat) :
    (operations may).Reaches s (launch may op n x) :=
  Pool.Reaches.calls (h.tail (.start x _ _ ⟨rfl, op, hown, hbegins, rfl⟩))
    (Pool.Config.callsOk_of_forall hmay _ _ _)

theorem steady_done (c : WakerCall) (s : Server) : Steady c .done s := by
  cases c <;> simp [Steady]

def emptyServer : Server :=
  ⟨none, 0⟩

/-- An application is provisioned. -/
def provisionShop : Operation :=
  .provision "img" "shop" shopTable

theorem provisionShop_own : provisionShop.Own :=
  wakerConfigFromRouteGroup_of _ _ _

/-- A preview and the application are provisioned in turn, and then the preview
is removed. -/
def inTurn : Pool.Config WakerAns Server (Operation × Provisioned) :=
  (launch Steady (.remove "pr-1") 2 ((launch Steady provisionShop 3
    ((launch Steady provisionPreview 3 (.initial emptyServer)).finish 0)).finish 1)).finish 2

theorem table_up_to_date_inTurn :
    (operations Steady).Reaches emptyServer inTurn ∧
      Pool.results inTurn.trace =
        [(.remove "pr-1", .ok), (provisionShop, .ok), (provisionPreview, .ok)] ∧
      ∃ cfg, inTurn.state.table = some cfg ∧ ∀ uuid,
        (cfg.entries uuid).routing = (lastDeposit uuid
          (Pool.results inTurn.trace)).getD (Config.zero.entries uuid).routing := by
  have hremove : (Operation.remove "pr-1").Own := ⟨nofun, nofun⟩
  have hpreview : (operations Steady).Reaches emptyServer _ :=
    (reaches_launch steady_done .refl provisionPreview_own (by decide) 3).finish 0
  have hshop := (reaches_launch steady_done hpreview provisionShop_own (by decide) 3).finish 1
  have hx : (operations Steady).Reaches emptyServer inTurn :=
    (reaches_launch steady_done hshop hremove trivial 2).finish 2
  exact ⟨hx, by decide +kernel, table_up_to_date rfl hx (by decide) (by decide)⟩

/-- The application's provisioning reads the file, then the preview is
provisioned, and then the application's provisioning goes on. -/
def interleaved : Pool.Config WakerAns Server (Operation × Provisioned) :=
  (((launch (fun _ _ _ => True) provisionPreview 3
    (launch (fun _ _ _ => True) provisionShop 1
      (.initial emptyServer))).finish 1).calls (fileOf fun _ _ _ => True) .done 0 2).finish 0

/-- Both operations end well, and the table has no route of the preview. -/
theorem concurrent_provision_lost :
    (operations fun _ _ _ => True).Reaches emptyServer interleaved ∧
      Pool.active interleaved.trace = [] ∧
      Pool.results interleaved.trace = [(provisionShop, .ok), (provisionPreview, .ok)] ∧
      interleaved.state.table = some shopTable ∧
      shopTable.entries "pr-1" = .zero ∧
      lastDeposit "pr-1" (Pool.results interleaved.trace) =
        some (oneRoute "pr-1" "b.test") := by
  refine ⟨?_, by decide, by decide +kernel, ?_, by decide, by decide +kernel⟩
  · have hshop : (operations fun _ _ _ => True).Reaches emptyServer _ :=
      reaches_launch (fun _ _ => trivial) .refl provisionShop_own (by decide) 1
    have hpreview :=
      (reaches_launch (fun _ _ => trivial) hshop provisionPreview_own (by decide) 3).finish 1
    exact (hpreview.calls (Pool.Config.callsOk_of_forall (fun _ _ => trivial) _ _ _)).finish 0
  · exact table_of_MarshalConfig shopTable 2

end Akerdock.Agent
