import Akerdock.Compose.Plan

/-!
# What the containers of a stack mount

`buildComposeCreateSpec` in `internal/jobs/composecreate.go`: the mounts of a
plan become texts of the form `source:target`, and Docker takes what stands
before the first colon for the source.

* `createBinds` are these texts, and `bindSource` what Docker reads.
* `Confined` and `BindConfined` say that a mount stays with the stack, in the
  plan and in the text.
* `Harmless` is what that asks of a volume entry of the file.  A volume that
  the file does not declare is mounted under the name that is written there,
  and a bind mount is checked with the part after a colon.
-/

namespace Akerdock.Compose

open List
open Crypto (Bytes)
open Secrets (ascii)
open Access (slash colon dot hasPrefix hasPrefix_iff)

/-! ## The containers -/

/-- What a deployment is of. -/
inductive StackKind where
  | application
  | service
  | preview

/-- The directory of a stack on its server. -/
def appDir (kind : StackKind) (uuid : UUID) : Bytes :=
  match kind with
  | .application => ascii "/var/lib/akerdock/applications/" ++ uuid.text
  | .service => ascii "/var/lib/akerdock/services/" ++ uuid.text
  | .preview => ascii "/var/lib/akerdock/previews/" ++ uuid.text

/-- `strings.TrimPrefix(source, "./")`. -/
def trimHere (source : Bytes) : Bytes :=
  if hasPrefix source [dot, slash] then source.drop 2 else source

/-- The source of a mount as it stands in the create body. -/
def createSource (dir : Bytes) (m : MountPlan) : Bytes :=
  if m.type = .bind && !hasPrefix m.source [slash] then
    dir ++ ascii "/mounts/" ++ trimHere m.source
  else m.source

/-- `host.Binds`, from the mounts of a service. -/
def createBinds (dir : Bytes) (mounts : List MountPlan) : List Bytes :=
  (mounts.filter fun m => m.type = .volume || m.type = .bind).map fun m =>
    createSource dir m ++ [colon] ++ m.target ++
      if m.readOnly then ascii ":ro" else []

/-- What stands before the first colon. -/
def beforeColon (s : Bytes) : Bytes :=
  s.takeWhile fun c => c ≠ colon

/-- What Docker takes for the source of a bind text. -/
def bindSource (b : Bytes) : Bytes :=
  beforeColon b

/-! ## The guarantee -/

section

variable (uuid : UUID) (dir : Bytes) (project : Project)

/-- The directory that bind mounts are confined to. -/
def mountsDir : Bytes :=
  dir ++ ascii "/mounts"

/-- The name is the one that the stack gives to a volume that the file
declares. -/
def OwnVolume (name : Bytes) : Prop :=
  ∃ n ∈ project.volumes.map Prod.fst, name = uuid.text ++ ascii "_" ++ n

/-- A mount of the plan stays with the stack: a volume of its own or an
anonymous one, a temporary file system, or a path below its directory. -/
def Confined (m : MountPlan) : Prop :=
  match m.type with
  | .volume => m.source = [] ∨ OwnVolume uuid project m.source
  | .tmpfs => True
  | .bind => hasPrefix m.source [slash] = false ∧
      underAllowedRoot (createSource dir m) [mountsDir dir] = true
  | .npipe | .cluster | .image => False

/-- The source that Docker reads stays with the stack. -/
def BindConfined (b : Bytes) : Prop :=
  bindSource b = [] ∨ OwnVolume uuid project (bindSource b) ∨
    underAllowedRoot (bindSource b) [mountsDir dir] = true

/-- All mounts of a plan stay with the stack, in the plan and in the create
bodies of its containers. -/
def PlanConfined (plan : Plan) : Prop :=
  ∀ sp ∈ plan.services, (∀ m ∈ sp.mounts, Confined uuid dir project m) ∧
    ∀ b ∈ createBinds dir sp.mounts, BindConfined uuid dir project b

/-- A volume entry of the file that is a declared volume, written as such or
with its full name, an anonymous one, a temporary file system, or a bind mount
that stays below its directory also when it is cut off at its first colon. -/
def Harmless (vol : ServiceVolume) : Prop :=
  match vol.type with
  | .volume => vol.source = [] ∨ vol.source ∈ project.volumes.map Prod.fst ∨
      OwnVolume uuid project vol.source
  | .tmpfs => True
  | .bind => escapesBase (beforeColon vol.source) = false
  | .npipe | .cluster | .image => False

end

/-! ## The mounts of a plan -/

section

variable {project : Project}

theorem mem_planMounts (hm : m ∈ planMounts volumes external name svc) :
    ∃ vol ∈ svc.volumes, m.type = vol.type ∧
      m.source = mountSource volumes external vol ∧
      m.readOnly = vol.readOnly := by
  obtain ⟨⟨vol, i⟩, hvol, rfl⟩ := mem_map.mp hm
  exact ⟨vol, fst_mem_of_mem_zipIdx hvol, rfl, rfl, rfl⟩

theorem exists_mem_planMounts (volumes external : List (Bytes × Bytes))
    (name : Bytes) (hvol : vol ∈ svc.volumes) :
    ∃ m ∈ planMounts volumes external name svc, m.type = vol.type ∧
      m.source = mountSource volumes external vol ∧
      m.readOnly = vol.readOnly := by
  obtain ⟨i, hi⟩ := mem_iff_getElem?.mp hvol
  refine ⟨_, mem_map_of_mem (a := (vol, i)) ?_, rfl, rfl, rfl⟩
  simpa [mem_zipIdx_iff_getElem?] using hi

theorem mountSource_of_ne_volume (h : vol.type ≠ .volume) :
    mountSource volumes external vol = vol.source := by
  simp [mountSource, h]

theorem lookup_filter_map {l : List (Bytes × β)}
    (hnodup : (l.map Prod.fst).Nodup) (q : Bytes × β → Bool) (f : Bytes × β → γ)
    (k : Bytes) :
    ((l.filter q).map fun e => (e.1, f e)).lookup k =
      (l.lookup k).bind fun v =>
        if q (k, v) then some (f (k, v)) else none := by
  induction l with
  | nil => rfl
  | cons e l ih =>
    obtain ⟨k', v⟩ := e
    rw [map_cons, nodup_cons] at hnodup
    rw [lookup_cons]
    by_cases hk : k = k'
    · subst hk
      have hnone : l.lookup k = none := by
        cases hl : l.lookup k with
        | none => rfl
        | some w =>
          have := (lookup_eq_some hnodup.2).mp hl
          exact absurd (mem_map_of_mem this) hnodup.1
      have := ih hnodup.2
      rw [hnone] at this
      by_cases hq : q (k, v) = true
      · simp [hq]
      · simpa [hq] using this
    · have hbeq : (k == k') = false := by simpa using hk
      rw [hbeq, ← ih hnodup.2]
      by_cases hq : q (k', v) = true
      · simp [hq, lookup_cons, hbeq]
      · simp [hq]

/-- The Docker name that stands for the source of a volume entry. -/
def resolveSource (input : Input) (project : Project) (source : Bytes) : Bytes :=
  match project.volumes.lookup source with
  | none => source
  | some v =>
    if v.external then externalName source v else dockerName input source

variable {input : Input}

theorem mountSource_volume {vol : ServiceVolume} (htype : vol.type = .volume)
    (hsource : vol.source ≠ []) :
    mountSource (planVolumes input project) (planExternalVolumes project) vol =
      resolveSource input project vol.source := by
  unfold mountSource planVolumes planExternalVolumes resolveSource
  rw [if_pos (by simp [htype, hsource])]
  rw [lookup_filter_map project.volumes_nodup (fun v => !v.2.external)
      (fun v => dockerName input v.1),
    lookup_filter_map project.volumes_nodup (fun v => v.2.external)
      (fun v => externalName v.1 v.2)]
  cases project.volumes.lookup vol.source with
  | none => rfl
  | some v =>
    cases hv : v.external with
    | false | true => simp [hv]

/-- Without external volumes and in the normal mode, a declared name is
prefixed and any other stays. -/
theorem resolveSource_own (hext : ∀ v ∈ project.volumes, v.2.external = false)
    (hraw : input.raw = false) (source : Bytes) :
    resolveSource input project source =
      if source ∈ project.volumes.map Prod.fst then
        input.stackUUID.text ++ ascii "_" ++ source
      else source := by
  unfold resolveSource
  cases hl : project.volumes.lookup source with
  | none =>
    rw [if_neg]
    intro hmem
    obtain ⟨e, he, rfl⟩ := mem_map.mp hmem
    have := (lookup_eq_some project.volumes_nodup).mpr he
    cases hl.symm.trans this
  | some v =>
    have hmem := (lookup_eq_some project.volumes_nodup).mp hl
    rw [if_pos (mem_map_of_mem hmem)]
    have hv : v.external = false := hext _ hmem
    simp [hv, dockerName, hraw]

/-! ## Bind mounts -/

variable {kind : StackKind} {uuid : UUID}

theorem uuid_notMem (hc : (Access.isDigit c ||
      (97 ≤ c && c ≤ 102) || c = 45) = false) : c ∉ uuid.text := by
  intro hmem
  cases (uuid.chars c hmem).symm.trans hc

theorem colon_notMem_appDir : colon ∉ appDir kind uuid := by
  have huuid : colon ∉ uuid.text := uuid_notMem (by decide)
  cases kind
  all_goals
    rw [appDir, mem_append, not_or]
    exact ⟨by decide, huuid⟩

theorem head_mountsDir : (mountsDir (appDir kind uuid)).head? = some slash := by
  cases kind <;> rfl

theorem createSource_bind (dir : Bytes) (htype : m.type = .bind)
    (habs : hasPrefix m.source [slash] = false) :
    createSource dir m = mountsDir dir ++ slash :: trimHere m.source := by
  unfold createSource mountsDir
  rw [if_pos (by simp [htype, habs])]
  rw [append_assoc, append_assoc]
  rfl

/-- The segments of the directory for mounts. -/
theorem resolve_mountsDir_ne :
    Paths.resolve slash dot true [] (mountsDir (appDir kind uuid)) ≠ [] := by
  have happ : mountsDir (appDir kind uuid) = appDir kind uuid ++ slash :: ascii "mounts" := rfl
  rw [happ, Paths.resolve_append]
  have : ∀ s, Paths.resolve slash dot true s (ascii "mounts") =
      s ++ [ascii "mounts"] := by
    intro s
    have hsplit : (ascii "mounts").splitOn slash = [ascii "mounts"] := by
      decide
    rw [Paths.resolve, hsplit]
    simp only [foldl_cons, foldl_nil, Paths.step]
    rw [if_neg (by decide), if_neg (by decide)]
  rw [this]
  simp

/-- A path below the directory for mounts, by its segments. -/
theorem under_mountsDir (rel : Bytes) :
    underAllowedRoot (mountsDir (appDir kind uuid) ++ slash :: rel)
        [mountsDir (appDir kind uuid)] = true ↔
      Paths.resolve slash dot true [] (mountsDir (appDir kind uuid)) <+:
        Paths.resolve slash dot true
          (Paths.resolve slash dot true [] (mountsDir (appDir kind uuid)))
          rel := by
  have hhead : (mountsDir (appDir kind uuid) ++ slash :: rel).head? = some slash := by
    cases kind <;> rfl
  rw [← Paths.resolve_append, ← Paths.clean_under hhead head_mountsDir resolve_mountsDir_ne]
  simp [underAllowedRoot, hasPrefix_iff]

theorem escapesBase_iff (hrel : hasPrefix rel [slash] = false) :
    escapesBase rel = true ↔ Paths.Climbs slash dot rel := by
  have hhead : rel.head? ≠ some slash := by
    intro hh
    cases rel with
    | nil => cases hh
    | cons c rel =>
      cases hh
      simp [hasPrefix] at hrel
  rw [← Paths.clean_climbs (by decide) hhead]
  simp [escapesBase, hasPrefix_iff]

/-- A leading `./` changes nothing. -/
theorem climbs_trimHere (source : Bytes) :
    Paths.Climbs slash dot (trimHere source) ↔ Paths.Climbs slash dot source := by
  unfold trimHere
  split
  · rename_i h
    obtain ⟨t, rfl⟩ := hasPrefix_iff.mp h
    have hsplit : ([dot, slash] ++ t).splitOn slash = [dot] :: t.splitOn slash :=
      rfl
    unfold Paths.Climbs Paths.resolve
    rw [hsplit, foldl_cons]
    rfl
  · rfl

/-- A text is cut at its first colon, whatever follows. -/
theorem beforeColon_append (s t : Bytes) : beforeColon (s ++ colon :: t) = beforeColon s := by
  induction s with
  | nil => rfl
  | cons c s ih =>
    unfold beforeColon at ih ⊢
    rw [cons_append, takeWhile_cons, takeWhile_cons, ih]

theorem beforeColon_isPrefix (s : Bytes) : beforeColon s <+: s :=
  takeWhile_prefix _

theorem beforeColon_append_left (hs : colon ∉ s) (t : Bytes) :
    beforeColon (s ++ t) = s ++ beforeColon t := by
  apply takeWhile_append_of_pos
  intro c hc
  simp only [decide_eq_true_eq]
  rintro rfl
  exact hs hc

theorem beforeColon_trimHere (source : Bytes) :
    beforeColon (trimHere source) = trimHere (beforeColon source) := by
  unfold trimHere
  by_cases h : hasPrefix source [dot, slash] = true
  · obtain ⟨t, rfl⟩ := hasPrefix_iff.mp h
    rfl
  · rw [if_neg h, if_neg]
    intro h'
    apply h
    exact hasPrefix_iff.mpr ((hasPrefix_iff.mp h').trans (beforeColon_isPrefix source))

theorem bindSource_bind (htype : m.type = .bind)
    (habs : hasPrefix m.source [slash] = false) (rest : Bytes) :
    bindSource (createSource (appDir kind uuid) m ++ colon :: rest) =
      mountsDir (appDir kind uuid) ++ slash :: trimHere (beforeColon m.source) := by
  rw [bindSource, createSource_bind _ htype habs, beforeColon_append, ← beforeColon_trimHere]
  have hdir : colon ∉ mountsDir (appDir kind uuid) ++ [slash] := by
    unfold mountsDir
    simp only [mem_append, not_or]
    exact ⟨⟨colon_notMem_appDir, by decide⟩, by decide⟩
  have := beforeColon_append_left hdir (trimHere m.source)
  simpa using this

/-- A relative bind mount that does not escape stays below the directory. -/
theorem under_of_not_escapes (h : ¬ Paths.Climbs slash dot rel) :
    underAllowedRoot (mountsDir (appDir kind uuid) ++ slash :: rel)
      [mountsDir (appDir kind uuid)] = true := by
  rw [under_mountsDir]
  have := (Paths.foldl_rooted
    (Paths.resolve slash dot true [] (mountsDir (appDir kind uuid)))
    not_mem_nil (rel.splitOn slash) h).1
  rw [append_nil] at this
  unfold Paths.resolve at this ⊢
  rw [this]
  exact prefix_append _ _

/-- A bind mount that passes the check stays below the directory when it is cut
off at its first colon, or else ends above it. -/
theorem under_cut_iff (habs : hasPrefix source [slash] = false)
    (hesc : escapesBase source = false) :
    underAllowedRoot (mountsDir (appDir kind uuid) ++
        slash :: trimHere (beforeColon source))
        [mountsDir (appDir kind uuid)] = true ↔
      escapesBase (beforeColon source) = false := by
  have habs' : hasPrefix (beforeColon source) [slash] = false := by
    by_contra h
    rw [Bool.not_eq_false, hasPrefix_iff] at h
    have := hasPrefix_iff.mpr (h.trans (beforeColon_isPrefix source))
    cases habs.symm.trans this
  constructor
  · intro hunder
    by_contra hno
    simp only [Bool.not_eq_false] at hno
    have hclimb := (climbs_trimHere _).mpr ((escapesBase_iff habs').mp hno)
    have hwhole : ¬ Paths.Climbs slash dot (trimHere source) := by
      rw [climbs_trimHere, ← escapesBase_iff habs]
      simp [hesc]
    rw [← beforeColon_trimHere] at hclimb hunder
    obtain ⟨rest, hrest⟩ := beforeColon_isPrefix (trimHere source)
    rw [← hrest] at hwhole
    have hne := @resolve_mountsDir_ne kind uuid
    have hup := Paths.cut_climbs hne (Paths.foldl_true_notMem not_mem_nil _) hwhole hclimb
    have hlen := ((under_mountsDir _).mp hunder).length_le
    rw [hup, length_dropLast] at hlen
    have hpos := length_pos_iff.mpr hne
    omega
  · intro h
    apply under_of_not_escapes
    rw [climbs_trimHere, ← escapesBase_iff habs']
    simp [h]

/-! ## One volume entry -/

/-- The name of an own volume has no colon and does not start with a
slash. -/
theorem OwnVolume.beforeColon (h : OwnVolume uuid project name) : beforeColon name = name := by
  obtain ⟨n, hn, rfl⟩ := h
  obtain ⟨v, hv, rfl⟩ := mem_map.mp hn
  have hchars := all_eq_true.mp (project.volumes_name v hv).2
  have hname : colon ∉ v.1 := by
    intro hmem
    exact absurd (hchars colon hmem) (by decide)
  have huuid : colon ∉ uuid.text := uuid_notMem (by decide)
  have hall : colon ∉ uuid.text ++ ascii "_" ++ v.1 := by
    simp only [mem_append, not_or]
    exact ⟨⟨huuid, by decide⟩, hname⟩
  have happ := beforeColon_append_left hall []
  rw [append_nil] at happ
  rw [happ]
  exact append_nil _

theorem not_ownVolume_slash (s : Bytes) : ¬ OwnVolume uuid project (slash :: s) := by
  rintro ⟨n, -, h⟩
  have huuid : slash ∉ uuid.text := uuid_notMem (by decide)
  cases htext : uuid.text with
  | nil =>
    have := uuid.length_eq
    rw [htext] at this
    cases this
  | cons c t =>
    rw [htext] at h huuid
    obtain ⟨rfl, -⟩ := cons.inj h
    exact huuid mem_cons_self

theorem mem_createBinds :
    b ∈ createBinds dir mounts ↔ ∃ m ∈ mounts,
      (m.type = .volume ∨ m.type = .bind) ∧
        b = createSource dir m ++ colon :: (m.target ++
          if m.readOnly then ascii ":ro" else []) := by
  unfold createBinds
  simp only [mem_map, mem_filter, Bool.or_eq_true,
    decide_eq_true_eq, append_assoc, singleton_append]
  constructor
  · rintro ⟨m, ⟨hm, htype⟩, rfl⟩
    exact ⟨m, hm, htype, rfl⟩
  · rintro ⟨m, hm, htype, rfl⟩
    exact ⟨m, ⟨hm, htype⟩, rfl⟩

/-- A bind mount that passes the check under a policy without allowed roots. -/
theorem bind_checked (h : HasErrors (validateMount name p policy vol) = false)
    (hroots : policy.allowedBindRoots = []) (htype : vol.type = .bind) :
    hasPrefix vol.source [slash] = false ∧ escapesBase vol.source = false := by
  rcases validateMount_ok h htype with hs | ⟨-, hroot⟩ | hrel
  · rw [hs]
    decide
  · simp [underAllowedRoot, hroots] at hroot
  · exact hrel

/-- A checked bind mount stays below its directory in the plan, and does so in
the text if it does when it is cut off. -/
theorem bind_confined_iff (htype : m.type = .bind)
    (habs : hasPrefix m.source [slash] = false)
    (hesc : escapesBase m.source = false) (rest : Bytes) :
    Confined uuid (appDir kind uuid) project m ∧
      (BindConfined uuid (appDir kind uuid) project
          (createSource (appDir kind uuid) m ++ colon :: rest) ↔
        escapesBase (beforeColon m.source) = false) := by
  constructor
  · rw [Confined, htype]
    refine ⟨habs, ?_⟩
    rw [createSource_bind _ htype habs]
    apply under_of_not_escapes
    rw [climbs_trimHere, ← escapesBase_iff habs]
    simp [hesc]
  · rw [BindConfined, bindSource_bind htype habs, under_cut_iff habs hesc]
    have hslash : ∃ t, mountsDir (appDir kind uuid) ++
        slash :: trimHere (beforeColon m.source) = slash :: t := by
      cases kind <;> exact ⟨_, rfl⟩
    obtain ⟨t, ht⟩ := hslash
    rw [ht]
    simp [not_ownVolume_slash]

/-- A volume mount stays with the stack if the name does, and so does its
text. -/
theorem volume_confined (htype : m.type = .volume)
    (h : Confined uuid dir project m) (rest : Bytes) :
    BindConfined uuid dir project (createSource dir m ++ colon :: rest) := by
  have hsource : createSource dir m = m.source := by
    simp [createSource, htype]
  unfold Confined at h
  rw [htype] at h
  unfold BindConfined bindSource
  rw [hsource, beforeColon_append]
  rcases h with h | h
  · left
    rw [h]
    rfl
  · right
    left
    rw [h.beforeColon]
    exact h

/-- The volume mount of an entry stays with the stack if the entry names a
volume of the file. -/
theorem volume_confined_iff (hext : ∀ v ∈ project.volumes, v.2.external = false)
    (hraw : input.raw = false) (htype : vol.type = .volume)
    (hmtype : m.type = vol.type)
    (hsource : m.source = mountSource (planVolumes input project)
      (planExternalVolumes project) vol) :
    Confined input.stackUUID dir project m ↔ Harmless input.stackUUID project vol := by
  unfold Confined Harmless
  rw [hmtype, htype]
  by_cases hempty : vol.source = []
  · have : m.source = [] := by
      rw [hsource]
      simp [mountSource, hempty]
    simp [this, hempty]
  · rw [hsource, mountSource_volume htype hempty, resolveSource_own hext hraw]
    by_cases hdecl : vol.source ∈ project.volumes.map Prod.fst
    · rw [if_pos hdecl]
      have hown : OwnVolume input.stackUUID project
          (input.stackUUID.text ++ ascii "_" ++ vol.source) :=
        ⟨vol.source, hdecl, rfl⟩
      exact ⟨fun _ => .inr (.inl hdecl), fun _ => .inr hown⟩
    · rw [if_neg hdecl]
      simp only [hdecl, false_or]

/-- One entry of a file that passes the checks under the default policy, and
its mount in the plan. -/
theorem entry_confined_iff (input : Input) (kind : StackKind)
    (hext : ∀ v ∈ project.volumes, v.2.external = false)
    (hraw : input.raw = false)
    (hcheck : HasErrors (validateMount name p {} vol) = false)
    (hmtype : m.type = vol.type)
    (hsource : m.source = mountSource (planVolumes input project)
      (planExternalVolumes project) vol) (rest : Bytes) :
    (Confined input.stackUUID (appDir kind input.stackUUID) project m ∧
      (m.type = .volume ∨ m.type = .bind →
        BindConfined input.stackUUID (appDir kind input.stackUUID) project
          (createSource (appDir kind input.stackUUID) m ++ colon :: rest))) ↔
      Harmless input.stackUUID project vol := by
  cases htype : vol.type with
  | volume =>
    rw [← volume_confined_iff hext hraw htype hmtype hsource]
    constructor
    · intro h
      exact h.1
    · intro h
      exact ⟨h, fun _ => volume_confined (hmtype.trans htype) h rest⟩
  | bind =>
    rw [mountSource_of_ne_volume (by simp [htype])] at hsource
    obtain ⟨habs, hesc⟩ := bind_checked hcheck rfl htype
    rw [← hsource] at habs hesc
    obtain ⟨hplan, htext⟩ := @bind_confined_iff project kind input.stackUUID
      m (hmtype.trans htype) habs hesc rest
    simp only [Harmless, htype, ← hsource, hplan, hmtype, ← htext, true_and,
      or_true, true_implies]
  | tmpfs | npipe | cluster | image =>
    simp [Confined, Harmless, hmtype, htype]

end

/-! ## Stacks -/

/-- Under the default policy and outside of raw mode, the containers of a file
that is accepted stay with their stack exactly if each of its volume entries
is harmless. -/
theorem compose_confined_iff (uuid : UUID) (kind : StackKind) (file : File)
    (project : Project) (res : Result) (plan : Plan)
    (hproject : file.project = .ok project)
    (hload : Load ⟨uuid, {}, false⟩ file = .ok res)
    (hplan : res.plan = some plan) :
    PlanConfined uuid (appDir kind uuid) project plan ↔
      ∀ e ∈ project.services, ∀ vol ∈ e.2.volumes, Harmless uuid project vol := by
  obtain ⟨project', hproject', hvalid, hbuild⟩ := Load_plan hload hplan
  obtain rfl : project = project' :=
    Except.ok.inj (hproject.symm.trans hproject')
  have hext : ∀ v ∈ project.volumes, v.2.external = false := by
    intro v hv
    by_contra h
    exact absurd (validate_external hvalid hv (by simpa using h)) (by simp)
  constructor
  · intro hconf e he vol hvol
    obtain ⟨m, hm, hmtype, hsource, -⟩ := exists_mem_planMounts
      (planVolumes ⟨uuid, {}, false⟩ project) (planExternalVolumes project)
      e.1 hvol
    obtain ⟨hmounts, hbinds⟩ := hconf _ ((mem_plan_services hbuild).mpr ⟨e.1, e.2, he, rfl⟩)
    rw [← entry_confined_iff ⟨uuid, {}, false⟩ kind hext rfl
      (validate_mounts hvalid he hvol) hmtype hsource
      (m.target ++ if m.readOnly then ascii ":ro" else [])]
    exact ⟨hmounts m hm, fun ht =>
      hbinds _ (mem_createBinds.mpr ⟨m, hm, ht, rfl⟩)⟩
  · intro hharm sp hsp
    obtain ⟨name, svc, he, rfl⟩ := (mem_plan_services hbuild).mp hsp
    constructor
    · intro m hm
      obtain ⟨vol, hvol, hmtype, hsource, -⟩ := mem_planMounts hm
      exact ((entry_confined_iff ⟨uuid, {}, false⟩ kind hext rfl
        (validate_mounts hvalid he hvol) hmtype hsource []).mpr
        (hharm _ he vol hvol)).1
    · intro b hb
      obtain ⟨m, hm, htype, rfl⟩ := mem_createBinds.mp hb
      obtain ⟨vol, hvol, hmtype, hsource, -⟩ := mem_planMounts hm
      exact ((entry_confined_iff ⟨uuid, {}, false⟩ kind hext rfl
        (validate_mounts hvalid he hvol) hmtype hsource _).mpr
        (hharm _ he vol hvol)).2 htype

/-- A service that says nothing but its image and its volumes. -/
def plainService (volumes : List ServiceVolume) : Service :=
  { image := ascii "nginx", build := none, restart := [], networks := []
    volumes, ports := 0, dependsOn := [], healthCheck := none, labels := []
    envFiles := [], extendsFile := none, deploy := none, scale := none
    externalLinks := [], networkMode := [], pid := [], ipc := []
    userNSMode := [], cgroup := [], cgroupParent := []
    credentialSpec := false, isolation := [], privileged := false
    capAdd := [], devices := [], securityOpt := [], sysctls := []
    memLimit := 0, cpus := 0, extensions := none }

def plainProject (mounts : List ServiceVolume)
    (volumes : List (Bytes × TopVolume))
    (hnodup : (volumes.map Prod.fst).Nodup)
    (hname : ∀ v ∈ volumes, v.1 ≠ [] ∧ v.1.all isNameChar = true) : Project :=
  { services := [(ascii "web", plainService mounts)]
    volumes, networks := [], configs := [], secrets := []
    services_nodup := by simp
    volumes_nodup := hnodup
    volumes_name := hname }

def plainFile (project : Project) : File :=
  { document := .ok (some ⟨[ascii "services", ascii "volumes"],
      [(ascii "web", some [ascii "image", ascii "volumes"])]⟩)
    undefined := []
    project := .ok project }

theorem exists_plan (input : Input) (file : File)
    (h : ((Load input file).toOption.bind Result.plan).isSome = true) :
    ∃ res plan, Load input file = .ok res ∧ res.plan = some plan := by
  cases hload : Load input file with
  | error e =>
    rw [hload] at h
    cases h
  | ok res =>
    rw [hload] at h
    obtain ⟨plan, hplan⟩ := Option.isSome_iff_exists.mp h
    exact ⟨res, plan, rfl, hplan⟩

theorem plan_eval (hload : Load input file = .ok res)
    (hplan : res.plan = some plan)
    (h : ((Load input file).toOption.bind Result.plan).map f = some a) :
    f plan = a := by
  rw [hload] at h
  simpa [Except.toOption, hplan] using h

/-- An identifier. -/
def sampleUUID : UUID :=
  { text := ascii "11111111-2222-4333-8444-555555555555"
    length_eq := by decide
    chars := by decide +kernel }

/-- An entry of the given type. -/
def sampleVolume (type : VolumeType) (source : String) (target : String) : ServiceVolume :=
  { type, source := ascii source, target := ascii target, readOnly := false
    extensions := none }

/-- A declared volume and a directory of the source. -/
def ownProject : Project :=
  plainProject [sampleVolume .volume "data" "/data",
    sampleVolume .bind "./conf" "/etc/conf"]
    [(ascii "data", ⟨false, [], none⟩)] (by decide) (by decide)

theorem compose_confined_own : ∃ res plan,
    Load ⟨sampleUUID, {}, false⟩ (plainFile ownProject) = .ok res ∧
      res.plan = some plan ∧
      PlanConfined sampleUUID (appDir .application sampleUUID) ownProject
        plan := by
  obtain ⟨res, plan, hload, hplan⟩ := exists_plan ⟨sampleUUID, {}, false⟩
    (plainFile ownProject) (by decide +kernel)
  refine ⟨res, plan, hload, hplan, ?_⟩
  rw [compose_confined_iff sampleUUID .application (plainFile ownProject)
    ownProject res plan rfl hload hplan]
  intro e he vol hvol
  obtain rfl := mem_singleton.mp he
  rcases mem_pair.mp hvol with rfl | rfl
  · exact .inr (.inl (by decide))
  · show escapesBase _ = false
    decide +kernel

/-- The source of a volume entry that is the path of a directory of the
server. -/
def hostProject : Project :=
  plainProject [sampleVolume .volume "/etc" "/host"] [] nodup_nil volumes_nil

/-- The file is accepted, and its container mounts a directory of the
server. -/
theorem compose_mounts_host : ∃ res plan,
    Load ⟨sampleUUID, {}, false⟩ (plainFile hostProject) = .ok res ∧
      res.plan = some plan ∧
      plan.services.flatMap (fun sp =>
        createBinds (appDir .application sampleUUID) sp.mounts) = [ascii "/etc:/host"] ∧
      ¬ PlanConfined sampleUUID (appDir .application sampleUUID) hostProject
        plan := by
  obtain ⟨res, plan, hload, hplan⟩ := exists_plan ⟨sampleUUID, {}, false⟩
    (plainFile hostProject) (by decide +kernel)
  have hbinds := plan_eval (f := fun plan => plan.services.flatMap fun sp =>
      createBinds (appDir .application sampleUUID) sp.mounts)
    (a := [ascii "/etc:/host"]) hload hplan (by decide +kernel)
  refine ⟨res, plan, hload, hplan, hbinds, ?_⟩
  intro hconf
  have hmem : ascii "/etc:/host" ∈ plan.services.flatMap (fun sp =>
      createBinds (appDir .application sampleUUID) sp.mounts) := by
    rw [hbinds]
    exact mem_singleton_self _
  obtain ⟨sp, hsp, hb⟩ := mem_flatMap.mp hmem
  have hsource : bindSource (ascii "/etc:/host") = slash :: ascii "etc" := by
    decide
  rcases (hconf sp hsp).2 _ hb with h | h | h
  · cases hsource.symm.trans h
  · rw [hsource] at h
    exact not_ownVolume_slash _ h
  · exact absurd h (by decide +kernel)

end Akerdock.Compose
