import Akerdock.Secrets.Envelope

/-!
# The variables of a deployment

`internal/jobs/sharedvars.go` and the three places that turn stored variables
into what a deployment sees: the environment of its containers, the inputs of
its build, and the variables of its compose file.

* `deployEnvVars` selects the set: the application's own, or the one that is
  dedicated to previews.
* `resolveSharedEnv` loads what the team, the project, the environment and the
  server share, and `interpolate` replaces the references to it.
  `inheritsSharedScopes` decides who gets there: a fork does not.
* `SameForPreviews` relates two databases that differ in nothing but the
  application's own variables and the shared ones.  `deployEnvVars_congr` and
  `sharedFor_congr` are the two places where a fork's deployment could tell
  them apart, and the results for the three renderings follow from these.

Strings are strings of bytes, as they are in the source.
-/

namespace Akerdock.Variables

open Crypto Secrets List

/-! ## Maps with strings as keys -/

abbrev StrMap := List (Bytes × Bytes)

/-- `m[k]`, if the key is there. -/
def StrMap.get? (m : StrMap) (k : Bytes) : Option Bytes :=
  (m.find? fun e => e.1 = k).map Prod.snd

/-- `m[k] = v`. -/
def StrMap.set (m : StrMap) (k v : Bytes) : StrMap :=
  m.filter (fun e => e.1 ≠ k) ++ [(k, v)]

/-- All entries of `n` are put into `m`. -/
def StrMap.merge (m n : StrMap) : StrMap :=
  n.foldl (fun m e => m.set e.1 e.2) m

/-- Strings in the order of their bytes. -/
def bytesLe : Bytes → Bytes → Bool
  | [], _ => true
  | _ :: _, [] => false
  | a :: as, b :: bs => a < b || (a = b && bytesLe as bs)

def itoa (n : Int) : Bytes :=
  ascii (toString n)

/-! ## The rows -/

structure EnvironmentVariable where
  uuid : Bytes
  resourceId : Nat
  key : Bytes
  valueEnc : Bytes
  isSecret : Bool
  isBuildTime : Bool
  isLiteral : Bool
  isPreview : Bool
  isGenerated : Bool
  previewId : Option Nat
  deriving DecidableEq

/-- `shared_variable_scope`, with the row that the scope points at. -/
inductive SharedScope where
  | team
  | project (id : Nat)
  | environment (id : Nat)
  | server (id : Nat)

def SharedScope.name : SharedScope → Bytes
  | .team => ascii "team"
  | .project _ => ascii "project"
  | .environment _ => ascii "environment"
  | .server _ => ascii "server"

structure SharedVariable where
  id : Nat
  uuid : Bytes
  teamId : Nat
  scope : SharedScope
  key : Bytes
  valueEnc : Bytes

/-- Where a resource is: the joins of `ListSharedVariablesForResource`. -/
structure Placement where
  resourceId : Nat
  teamId : Nat
  projectId : Nat
  environmentId : Nat
  serverId : Nat

/-- The tables that the renderers read.  `domains` are the domains of each
application, the first one first. -/
structure Database where
  envVars : List EnvironmentVariable
  sharedVariables : List SharedVariable
  placements : List Placement
  domains : List (Nat × Bytes)

/-- The preview of a deployment. -/
structure PreviewRow where
  id : Nat
  prId : Int
  fqdn : Option Bytes
  isFork : Bool

/-- What a deployment run knows from the start. -/
structure Run where
  resourceId : Nat
  preview : Option PreviewRow

/-! ## The statements -/

def listEnvVarsForDeploy (resourceId : Nat) (db : Database) : List EnvironmentVariable :=
  (db.envVars.filter fun v => v.resourceId = resourceId && !v.isPreview).insertionSort
    fun v v' => bytesLe v.key v'.key

/-- `DISTINCT ON (key)`: of adjacent rows with one key, the first.  `last` is
the key of the row before. -/
def distinctOnKey (last : Option Bytes) : List EnvironmentVariable → List EnvironmentVariable
  | [] => []
  | v :: vs =>
    if some v.key = last then distinctOnKey last vs
    else v :: distinctOnKey (some v.key) vs

/-- The order of `ListPreviewEnvVars`: a variable of one pull request comes
before the one of the set. -/
def previewVarLe (v v' : EnvironmentVariable) : Bool :=
  if v.key = v'.key then v.previewId.isSome || v'.previewId.isNone
  else bytesLe v.key v'.key

def listPreviewEnvVars (resourceId previewId : Nat) (db : Database) : List EnvironmentVariable :=
  distinctOnKey none ((db.envVars.filter fun v =>
      v.resourceId = resourceId && v.isPreview &&
        (v.previewId = none || v.previewId = some previewId)).insertionSort
    fun v v' => previewVarLe v v')

def SharedVariable.inherited (p : Placement) (v : SharedVariable) : Bool :=
  v.teamId = p.teamId &&
    match v.scope with
    | .team => true
    | .project id => id = p.projectId
    | .environment id => id = p.environmentId
    | .server id => id = p.serverId

def listSharedVariablesForResource (resourceId : Nat) (db : Database) : List SharedVariable :=
  match db.placements.find? fun p => p.resourceId = resourceId with
  | none => []
  | some p =>
    (db.sharedVariables.filter (SharedVariable.inherited p)).insertionSort
      fun v v' => v.id ≤ v'.id

def listDomainsForApplication (resourceId : Nat) (db : Database) : List Bytes :=
  (db.domains.filter fun d => d.1 = resourceId).map Prod.snd

/-! ## Shared variables -/

def inheritsSharedScopes (preview : Option PreviewRow) : Bool :=
  match preview with
  | none => true
  | some p => !p.isFork

/-- `sharedEnv`: the values of `scope.KEY`, and the variables of the server. -/
structure SharedEnv where
  refs : StrMap
  server : StrMap

/-- Why a rendering fails. -/
inductive RenderError where
  | sharedVariable (key : Bytes) (e : EnvelopeError)
  | variable (key : Bytes) (e : EnvelopeError)
  | encrypt (e : EnvelopeError)
  deriving DecidableEq

section

variable (A : IdealAead) (k : Keyring)

def resolveShared : List SharedVariable → SharedEnv → Except RenderError SharedEnv
  | [], out => .ok out
  | v :: vs, out =>
    match Decrypt A k (ascii "shared_variables") (ascii "value_enc") v.uuid v.valueEnc with
    | .error e => .error (.sharedVariable v.key e)
    | .ok plaintext =>
      match v.scope with
      | .server _ =>
        resolveShared vs { out with server := out.server.set v.key plaintext }
      | scope => resolveShared vs { out with
          refs := out.refs.set (scope.name ++ ascii "." ++ v.key) plaintext }

def resolveSharedEnv (resourceId : Nat) (db : Database) : Except RenderError SharedEnv :=
  resolveShared A k (listSharedVariablesForResource resourceId db) ⟨[], []⟩

/-- The scopes that a reference can name. -/
def refScopes : List Bytes :=
  [ascii "team", ascii "project", ascii "environment", ascii "deployment"]

/-- `[A-Za-z_]`. -/
def isIdentStart (c : UInt8) : Bool :=
  (65 ≤ c && c ≤ 90) || (97 ≤ c && c ≤ 122) || c = 95

/-- `[A-Za-z0-9_]`. -/
def isIdent (c : UInt8) : Bool :=
  isIdentStart c || (48 ≤ c && c ≤ 57)

/-- What follows the start `p` of `v`. -/
def cutStart (p v : Bytes) : Option Bytes :=
  if p.isPrefixOf v then some (v.drop p.length) else none

/-- `sharedRefRe` at the start of a text: the scope, the key, and what
follows. -/
def matchRef (v : Bytes) : Option (Bytes × Bytes × Bytes) :=
  (cutStart (ascii "\x7b\x7b") v).bind fun v =>
    refScopes.findSome? fun scope =>
      (cutStart (scope ++ ascii ".") v).bind fun v =>
        let key := v.takeWhile isIdent
        if v.head?.any isIdentStart then
          (cutStart (ascii "\x7d\x7d") (v.drop key.length)).map fun rest =>
            (scope, key, rest)
        else none

/-- `strings.ToLower`, of a key. -/
def toLower (v : Bytes) : Bytes :=
  v.map fun c => if 65 ≤ c && c ≤ 90 then c + 32 else c

/-- The value of a reference.  The keys of the `deployment` scope are read in
any case. -/
def SharedEnv.ref? (s : SharedEnv) (scope key : Bytes) : Option Bytes :=
  if scope = ascii "deployment" then
    s.refs.get? (ascii "deployment." ++ toLower key)
  else s.refs.get? (scope ++ ascii "." ++ key)

/-- `ReplaceAllStringFunc`, from left to right.  Each step takes a byte at
least, so the length of the text is enough for `n`. -/
def SharedEnv.replace (s : SharedEnv) : (n : Nat) → Bytes → Bytes
  | 0, v => v
  | _ + 1, [] => []
  | n + 1, c :: cs =>
    match matchRef (c :: cs) with
    | none => c :: s.replace n cs
    | some (scope, key, rest) =>
      match s.ref? scope key with
      | some value => value ++ s.replace n rest
      | none => (c :: cs).take ((c :: cs).length - rest.length) ++ s.replace n rest

def SharedEnv.interpolate (s : SharedEnv) (value : Bytes) : Bytes :=
  if s.refs = [] then value else s.replace value.length value

def deploymentRefs (r : Run) (db : Database) : StrMap :=
  let address (refs : StrMap) (fqdn : Bytes) : StrMap :=
    if fqdn = [] then refs
    else (refs.set (ascii "deployment.fqdn") fqdn).set
      (ascii "deployment.url") (ascii "https://" ++ fqdn)
  match r.preview with
  | some p =>
    address (StrMap.set [] (ascii "deployment.pr_id") (itoa p.prId)) (p.fqdn.getD [])
  | none =>
    address [] ((listDomainsForApplication r.resourceId db).headD [])

def SharedEnv.mergeDeploymentRefs (s : SharedEnv) (dep : StrMap) : SharedEnv :=
  { s with refs := s.refs.merge dep }

/-! ## The three renderings -/

/-- `deployEnvVars`: the one place that selects the set. -/
def deployEnvVars (r : Run) (db : Database) : List EnvironmentVariable :=
  match r.preview with
  | some p => listPreviewEnvVars r.resourceId p.id db
  | none => listEnvVarsForDeploy r.resourceId db

/-- What the deployment shares with others, and its own address.  All three
renderings begin like this. -/
def sharedFor (r : Run) (db : Database) : Except RenderError SharedEnv := do
  let shared ←
    if inheritsSharedScopes r.preview then
      resolveSharedEnv A k r.resourceId db
    else pure ⟨[], []⟩
  return shared.mergeDeploymentRefs (deploymentRefs r db)

/-- The value of a variable.  References stay as they are in a literal one. -/
def plainValue (shared : SharedEnv) (v : EnvironmentVariable) : Except RenderError Bytes :=
  match Decrypt A k (ascii "environment_variables") (ascii "value_enc") v.uuid v.valueEnc with
  | .error e => .error (.variable v.key e)
  | .ok plaintext =>
    .ok (if v.isLiteral then plaintext else shared.interpolate plaintext)

def plainValues (shared : SharedEnv) : List EnvironmentVariable → Except RenderError StrMap
  | [] => .ok []
  | v :: vs => do
    let value ← plainValue A k shared v
    let rest ← plainValues shared vs
    return (v.key, value) :: rest

/-- `KEY=VALUE`. -/
def entry (e : Bytes × Bytes) : Bytes :=
  e.1 ++ ascii "=" ++ e.2

def renderRuntimeEnv (r : Run) (db : Database) :
    Except RenderError (List Bytes) := do
  let shared ← sharedFor A k r db
  let own ← plainValues A k shared (deployEnvVars r db)
  let server := (shared.server.insertionSort fun e e' => bytesLe e.1 e'.1)
  let inherited := server.filter fun e => !own.any fun o => o.1 = e.1
  let dep := deploymentRefs r db
  let prId := match dep.get? (ascii "deployment.pr_id") with
    | some v => if v = [] then [] else [(ascii "AKERDOCK_PR_ID", v)]
    | none => []
  let address := match dep.get? (ascii "deployment.fqdn") with
    | some v =>
      if v = [] then []
      else [(ascii "AKERDOCK_FQDN", v), (ascii "AKERDOCK_URL",
        (dep.get? (ascii "deployment.url")).getD [])]
    | none => []
  return (own ++ inherited ++ prId ++ address).map entry

def shellQuote (v : Bytes) : Bytes :=
  ascii "'" ++ (v.flatMap fun c =>
    if c = 39 then ascii "'\\''" else [c]) ++ ascii "'"

structure BuildInputs where
  env : Bytes
  argValues : StrMap
  secretValues : StrMap

def renderBuildEnv (r : Run) (db : Database) :
    Except RenderError BuildInputs := do
  let vars := (deployEnvVars r db).filter fun v => v.isBuildTime
  let shared ← sharedFor A k r db
  let values ← plainValues A k shared vars
  let secret := (vars.zip values).filterMap fun p =>
    if p.1.isSecret then some p.2 else none
  let plain := (vars.zip values).filterMap fun p =>
    if p.1.isSecret then none else some p.2
  return {
    env := values.flatMap fun e =>
      e.1 ++ ascii "=" ++ shellQuote e.2 ++ ascii "\n"
    argValues := StrMap.merge [] plain
    secretValues := StrMap.merge [] secret }

/-- The entry is put into the map unless the key is there. -/
def StrMap.setDefault (m : StrMap) (key value : Bytes) : StrMap :=
  if (m.get? key).isSome then m else m.set key value

def plainEnvVars (r : Run) (db : Database) : Except RenderError StrMap := do
  let shared ← sharedFor A k r db
  let own ← plainValues A k shared (deployEnvVars r db)
  let vars := (StrMap.merge [] shared.server).merge own
  match r.preview with
  | some p =>
    let vars := vars.set (ascii "AKERDOCK_PR_ID") (itoa p.prId)
    match p.fqdn with
    | none => return vars
    | some fqdn =>
      if fqdn = [] then return vars
      else
        let vars := vars.set (ascii "AKERDOCK_FQDN") fqdn
        return vars.set (ascii "AKERDOCK_URL") (ascii "https://" ++ fqdn)
  | none =>
    let dep := deploymentRefs r db
    match dep.get? (ascii "deployment.fqdn") with
    | none => return vars
    | some fqdn =>
      if fqdn = [] then return vars
      else
        let vars := vars.setDefault (ascii "AKERDOCK_FQDN") fqdn
        let url := (dep.get? (ascii "deployment.url")).getD []
        return vars.setDefault (ascii "AKERDOCK_URL") url

/-! ## Generated variables -/

inductive MagicType where
  | fqdn | url | user | password | passwordWithSymbols | base64 | realBase64
  | hex
  deriving DecidableEq

/-- `MagicRef`: what the generation reads of it.  The credentials are all types
but the two of addresses. -/
structure MagicRef where
  name : Bytes
  type : MagicType

/-- The field `Credential`. -/
def MagicRef.credential (ref : MagicRef) : Bool :=
  ref.type ≠ .fqdn && ref.type ≠ .url

/-- A compose file: the generated variables that it refers to and the address
of the component that a reference names.  Both come from a first load of the
file, which reads the variables. -/
structure ComposeFile where
  refs : StrMap → List MagicRef
  fqdn : StrMap → MagicRef → Bytes

/-- The random choices for each reference. -/
structure Draws where
  value : MagicRef → Bytes
  uuid : MagicRef → Bytes
  nonce : MagicRef → Option Nonce

/-- `CreateGeneratedPreviewEnvVar`, or `CreateGeneratedEnvVar` outside of
previews: the row is there already, or it is inserted. -/
def createGenerated (r : Run) (uuid key valueEnc : Bytes) (db : Database) : Bool × Database :=
  let conflict := db.envVars.any fun v =>
    v.resourceId = r.resourceId && v.key = key &&
      v.isPreview = r.preview.isSome && v.previewId.getD 0 = 0
  if conflict then (false, db)
  else (true, { db with envVars := db.envVars ++ [{
    uuid, resourceId := r.resourceId, key, valueEnc, isSecret := true,
    isBuildTime := false, isLiteral := false, isPreview := r.preview.isSome,
    isGenerated := true, previewId := none }] })

def ensureMagic (r : Run) (draws : Draws) (fqdn : MagicRef → Bytes) :
    List MagicRef → StrMap → Database → Except RenderError (StrMap × Database)
  | [], vars, db => .ok (vars, db)
  | ref :: refs, vars, db =>
    if (vars.get? ref.name).isSome then ensureMagic r draws fqdn refs vars db
    else if ref.credential then
      match Encrypt A k (draws.nonce ref) (ascii "environment_variables")
          (ascii "value_enc") (draws.uuid ref) (draws.value ref) with
      | .error e => .error (.encrypt e)
      | .ok enc =>
        let (inserted, db) :=
          createGenerated r (draws.uuid ref) ref.name enc db
        if inserted then
          ensureMagic r draws fqdn refs (vars.set ref.name (draws.value ref)) db
        else
          -- a concurrent writer was first, and its value counts
          match plainEnvVars A k r db with
          | .error e => .error e
          | .ok stored =>
            ensureMagic r draws fqdn refs
              (vars.set ref.name ((stored.get? ref.name).getD [])) db
    else if fqdn ref = [] then ensureMagic r draws fqdn refs vars db
    else if ref.type = .url then
      ensureMagic r draws fqdn refs (vars.set ref.name (ascii "https://" ++ fqdn ref)) db
    else
      ensureMagic r draws fqdn refs (vars.set ref.name (fqdn ref)) db

/-- The part of `executeCompose` that makes the variables of the file and the
environment of the stack. -/
def composeVariables (r : Run) (file : ComposeFile) (draws : Draws)
    (db : Database) : Except RenderError (StrMap × List Bytes) := do
  let vars ← plainEnvVars A k r db
  let (vars', db') ← ensureMagic A k r draws (file.fqdn vars) (file.refs vars) vars db
  let stackEnv ← renderRuntimeEnv A k r db'
  return (vars', stackEnv)

/-! ## What a fork can tell apart -/

/-- The two databases differ in the application's own variables and in shared
variables only. -/
structure SameForPreviews (resourceId : Nat) (db₁ db₂ : Database) : Prop where
  envVars : db₁.envVars.filter (fun v =>
      !(v.resourceId = resourceId && !v.isPreview)) =
    db₂.envVars.filter (fun v => !(v.resourceId = resourceId && !v.isPreview))
  placements : db₁.placements = db₂.placements
  domains : db₁.domains = db₂.domains

section

variable {A k} {resourceId : Nat} {db₁ db₂ : Database}

/-- Any selection that leaves the application's own variables out. -/
theorem SameForPreviews.filter_eq (h : SameForPreviews resourceId db₁ db₂)
    (hq : ∀ v, q v = true → v.resourceId = resourceId → v.isPreview = true) :
    db₁.envVars.filter q = db₂.envVars.filter q := by
  have narrow : ∀ l : List EnvironmentVariable, l.filter q =
      (l.filter fun v => !(v.resourceId = resourceId && !v.isPreview)).filter
        q := by
    intro l
    rw [filter_filter]
    apply filter_congr
    intro v _
    by_cases hv : q v = true
    · have himp := hq v hv
      by_cases hid : v.resourceId = resourceId
      · simp [hv, himp hid]
      · simp [hv, hid]
    · simp [hv]
  rw [narrow, h.envVars, ← narrow]

theorem SameForPreviews.listPreviewEnvVars_eq
    (h : SameForPreviews resourceId db₁ db₂) (previewId : Nat) :
    listPreviewEnvVars resourceId previewId db₁ =
      listPreviewEnvVars resourceId previewId db₂ := by
  unfold listPreviewEnvVars
  rw [h.filter_eq (by intro v hv _; simp at hv; exact hv.1.2)]

theorem deployEnvVars_congr (h : SameForPreviews resourceId db₁ db₂) :
    deployEnvVars ⟨resourceId, some p⟩ db₁ = deployEnvVars ⟨resourceId, some p⟩ db₂ :=
  h.listPreviewEnvVars_eq p.id

/-- Nothing is shared with a fork but its own address, and a preview has that
from its own row. -/
theorem sharedFor_fork (hp : p.isFork = true) (db : Database) :
    sharedFor A k ⟨resourceId, some p⟩ db =
      .ok (SharedEnv.mergeDeploymentRefs ⟨[], []⟩
        (deploymentRefs ⟨resourceId, some p⟩ db)) := by
  simp [sharedFor, inheritsSharedScopes, hp]
  rfl

theorem sharedFor_congr (hp : p.isFork = true) :
    sharedFor A k ⟨resourceId, some p⟩ db₁ = sharedFor A k ⟨resourceId, some p⟩ db₂ := by
  rw [sharedFor_fork hp, sharedFor_fork hp]
  rfl

theorem renderRuntimeEnv_congr (hp : p.isFork = true) (h : SameForPreviews resourceId db₁ db₂) :
    renderRuntimeEnv A k ⟨resourceId, some p⟩ db₁ =
      renderRuntimeEnv A k ⟨resourceId, some p⟩ db₂ := by
  unfold renderRuntimeEnv
  rw [deployEnvVars_congr h, sharedFor_congr hp]
  rfl

theorem renderBuildEnv_congr (hp : p.isFork = true) (h : SameForPreviews resourceId db₁ db₂) :
    renderBuildEnv A k ⟨resourceId, some p⟩ db₁ =
      renderBuildEnv A k ⟨resourceId, some p⟩ db₂ := by
  unfold renderBuildEnv
  rw [deployEnvVars_congr h, sharedFor_congr hp]

theorem plainEnvVars_congr (hp : p.isFork = true) (h : SameForPreviews resourceId db₁ db₂) :
    plainEnvVars A k ⟨resourceId, some p⟩ db₁ = plainEnvVars A k ⟨resourceId, some p⟩ db₂ := by
  unfold plainEnvVars
  rw [deployEnvVars_congr h, sharedFor_congr hp]

/-- A generated variable of a preview meets the same rows in both databases,
and leaves the two as alike as before. -/
theorem createGenerated_congr (h : SameForPreviews resourceId db₁ db₂)
    (uuid key valueEnc : Bytes) :
    (createGenerated ⟨resourceId, some p⟩ uuid key valueEnc db₁).1 =
        (createGenerated ⟨resourceId, some p⟩ uuid key valueEnc db₂).1 ∧
      SameForPreviews resourceId
        (createGenerated ⟨resourceId, some p⟩ uuid key valueEnc db₁).2
        (createGenerated ⟨resourceId, some p⟩ uuid key valueEnc db₂).2 := by
  have hany : ∀ q : EnvironmentVariable → Bool,
      (∀ v, q v = true → v.resourceId = resourceId → v.isPreview = true) →
      db₁.envVars.any q = db₂.envVars.any q := by
    intro q hq
    simpa [any_filter] using congrArg (·.any q) (h.filter_eq hq)
  unfold createGenerated
  rw [hany _ (by intro v hv _; simp at hv; exact hv.1.2)]
  dsimp only
  split
  · exact ⟨rfl, h⟩
  · refine ⟨rfl, ?_, h.placements, h.domains⟩
    simp only [filter_append, h.envVars]

/-- Two runs of the generation end in the same error, or in the same variables
and in databases that are as alike as before. -/
def SameResult (resourceId : Nat) :
    Except RenderError (StrMap × Database) → Except RenderError (StrMap × Database) → Prop
  | .ok (vars₁, db₁), .ok (vars₂, db₂) =>
    vars₁ = vars₂ ∧ SameForPreviews resourceId db₁ db₂
  | .error e₁, .error e₂ => e₁ = e₂
  | _, _ => False

theorem ensureMagic_congr (hp : p.isFork = true) (draws : Draws)
    (fqdn : MagicRef → Bytes) (refs : List MagicRef) (vars : StrMap)
    (h : SameForPreviews resourceId db₁ db₂) :
    SameResult resourceId
      (ensureMagic A k ⟨resourceId, some p⟩ draws fqdn refs vars db₁)
      (ensureMagic A k ⟨resourceId, some p⟩ draws fqdn refs vars db₂) := by
  induction refs generalizing vars db₁ db₂ with
  | nil => exact ⟨rfl, h⟩
  | cons ref refs ih =>
    unfold ensureMagic
    split
    · exact ih vars h
    split
    · -- a credential
      cases Encrypt A k (draws.nonce ref) (ascii "environment_variables")
          (ascii "value_enc") (draws.uuid ref) (draws.value ref) with
      | error e => exact rfl
      | ok enc =>
        obtain ⟨hins, hdb⟩ := createGenerated_congr (p := p) h (draws.uuid ref) ref.name enc
        simp only [hins]
        split
        · exact ih _ hdb
        · rw [plainEnvVars_congr hp hdb]
          split
          · exact rfl
          · exact ih _ hdb
    · -- an address
      split
      · exact ih vars h
      split
      · exact ih _ h
      · exact ih _ h

theorem composeVariables_congr (hp : p.isFork = true) (file : ComposeFile)
    (draws : Draws) (h : SameForPreviews resourceId db₁ db₂) :
    composeVariables A k ⟨resourceId, some p⟩ file draws db₁ =
      composeVariables A k ⟨resourceId, some p⟩ file draws db₂ := by
  unfold composeVariables
  rw [plainEnvVars_congr hp h]
  cases plainEnvVars A k ⟨resourceId, some p⟩ db₂ with
  | error e => rfl
  | ok vars =>
    have hm := ensureMagic_congr (A := A) (k := k) hp draws (file.fqdn vars)
      (file.refs vars) vars h
    simp only [bind, Except.bind]
    generalize ensureMagic A k ⟨resourceId, some p⟩ draws (file.fqdn vars)
      (file.refs vars) vars db₁ = res₁ at hm ⊢
    generalize ensureMagic A k ⟨resourceId, some p⟩ draws (file.fqdn vars)
      (file.refs vars) vars db₂ = res₂ at hm ⊢
    rcases res₁ with e₁ | res₁ <;> rcases res₂ with e₂ | res₂
    · rw [show e₁ = e₂ from hm]
    · exact hm.elim
    · exact hm.elim
    · simp only [renderRuntimeEnv_congr hp hm.2, hm.1]

end

/-- Neither the application's own variables nor the shared ones reach a fork:
the environment of its containers, the inputs of its build, the variables of
its compose file and the environment of its stack are the same in two
databases that differ in nothing else, errors included. -/
theorem fork_noninterference (resourceId : Nat) (p : PreviewRow)
    (hp : p.isFork = true) (file : ComposeFile) (draws : Draws)
    (db₁ db₂ : Database) (h : SameForPreviews resourceId db₁ db₂) :
    renderRuntimeEnv A k ⟨resourceId, some p⟩ db₁ = renderRuntimeEnv A k ⟨resourceId, some p⟩ db₂ ∧
      renderBuildEnv A k ⟨resourceId, some p⟩ db₁ =
        renderBuildEnv A k ⟨resourceId, some p⟩ db₂ ∧
      plainEnvVars A k ⟨resourceId, some p⟩ db₁ = plainEnvVars A k ⟨resourceId, some p⟩ db₂ ∧
      composeVariables A k ⟨resourceId, some p⟩ file draws db₁ =
        composeVariables A k ⟨resourceId, some p⟩ file draws db₂ :=
  ⟨renderRuntimeEnv_congr hp h, renderBuildEnv_congr hp h,
    plainEnvVars_congr hp h, composeVariables_congr hp file draws h⟩

end

/-! ### A fork that asks for a secret of the team -/

def storedValue (table uuid : Bytes) (value : String) : Bytes :=
  match Encrypt clear oneKey (some zeroNonce) table (ascii "value_enc") uuid (ascii value) with
  | .ok enc => enc
  | .error _ => []

/-- A variable of application 1. -/
def sampleVariable (uuid key value : String) (isPreview : Bool) : EnvironmentVariable where
  uuid := ascii uuid
  resourceId := 1
  key := ascii key
  valueEnc := storedValue (ascii "environment_variables") (ascii uuid) value
  isSecret := true
  isBuildTime := true
  isLiteral := false
  isPreview := isPreview
  isGenerated := false
  previewId := none

/-- Application 1 with a secret of its own, a secret of its team, and a preview
variable that refers to the latter. -/
def sampleDatabase (own team : String) : Database where
  envVars := [sampleVariable "a" "PASS" own false,
    sampleVariable "b" "URL" "\x7b\x7bteam.KEY\x7d\x7d" true]
  sharedVariables := [{
    id := 1, uuid := ascii "c", teamId := 1, scope := .team,
    key := ascii "KEY"
    valueEnc := storedValue (ascii "shared_variables") (ascii "c") team }]
  placements := [⟨1, 1, 1, 1, 1⟩]
  domains := []

/-- Pull request 7, from a fork. -/
def samplePreview : PreviewRow :=
  ⟨3, 7, none, true⟩

theorem fork_noninterference_team :
    renderRuntimeEnv clear oneKey ⟨1, some samplePreview⟩ (sampleDatabase "p" "t") =
      renderRuntimeEnv clear oneKey ⟨1, some samplePreview⟩ (sampleDatabase "q" "u") ∧
    renderRuntimeEnv clear oneKey ⟨1, some samplePreview⟩ (sampleDatabase "p" "t") =
      .ok [ascii "URL=\x7b\x7bteam.KEY\x7d\x7d", ascii "AKERDOCK_PR_ID=7"] :=
  ⟨(fork_noninterference clear oneKey 1 samplePreview rfl ⟨fun _ => [],
      fun _ _ => []⟩ ⟨fun _ => [], fun _ => [], fun _ => none⟩
      (sampleDatabase "p" "t") (sampleDatabase "q" "u")
      ⟨by decide +kernel, rfl, rfl⟩).1,
    by decide +kernel⟩

-- A pull request of the repository itself is given the secret.
example : renderRuntimeEnv clear oneKey
      ⟨1, some { samplePreview with isFork := false }⟩
      (sampleDatabase "p" "t") =
    .ok [ascii "URL=t", ascii "AKERDOCK_PR_ID=7"] := by
  decide +kernel

end Akerdock.Variables
