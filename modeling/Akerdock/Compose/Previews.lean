import Akerdock.Compose.Confinement

/-!
# The volumes of previews

`executeCompose`, `previewSeedPairs` and `seedPreviewVolumes` in
`internal/jobs`: a preview is a stack of its own, with the file of its pull
request, the settings of its application and its own identifier.

* `mountedVolumes` are the volumes that the containers of a plan mount, and
  `productionVolumes` those with which a production stack has to do.
* `Isolated` says that a preview has none of them, but for the source of a copy
  that is mounted read-only, and no path of the server but those of its own
  directory.
* A volume that the file declares gets the identifier of the stack in front
  (`Own`), and any other name is one that the file gives (`Given`).
  `mem_mountedVolumes` says that there is nothing else, and `own_disjoint` that
  the first kind keeps stacks apart.
-/

namespace Akerdock.Compose

open List
open Crypto (Bytes)
open Secrets (ascii)
open Access (colon slash hasPrefix)

/-! ## Stacks of an application -/

/-- What the plan of a stack takes from its application. -/
structure Application where
  uuid : UUID
  rawCompose : Bool
  adopted : Bool

/-- The input that `executeCompose` makes for a stack of the application: with
the identifier of the application in production, and with that of the preview
otherwise. -/
def Application.input (app : Application) (stackUUID : UUID) : Input :=
  { stackUUID
    policy := { allowExternalObjects := app.adopted }
    raw := app.rawCompose }

/-- The volumes that the containers of a plan mount, as Docker reads them. -/
def mountedVolumes (dir : Bytes) (plan : Plan) : List Bytes :=
  (plan.services.flatMap fun sp =>
    (createBinds dir (sp.mounts.filter fun m => m.type = .volume)).map
      bindSource).filter fun v => v ≠ []

def previewSeedPairs (app : UUID) (plan : Plan) (sp : ServicePlan) : List (Bytes × Bytes) :=
  sp.mounts.filterMap fun m =>
    if m.type = .volume then
      (plan.seedVolumes.lookup m.source).map fun declared =>
        (app.text ++ ascii "_" ++ declared, m.source)
    else none

/-- The mounts of the container that copies a volume. -/
def seedBinds (pair : Bytes × Bytes) : List Bytes :=
  [pair.1 ++ ascii ":/akerdock-seed-from:ro", pair.2 ++ ascii ":/akerdock-volume"]

/-! ## The guarantee -/

def productionVolumes (dir : Bytes) (plan : Plan) : List Bytes :=
  mountedVolumes dir plan ++ plan.externalVolumes.map Prod.snd

/-- A preview mounts no production volume, but for the source of a copy, which
is read-only, and no path of the server outside of its own directory, where the
data of production could be. -/
structure Isolated (app preview : UUID) (previewPlan production : Plan) : Prop where
  mounts : ∀ v ∈ mountedVolumes (appDir .preview preview) previewPlan,
    v ∉ productionVolumes (appDir .application app) production
  seeds : ∀ sp ∈ previewPlan.services,
    ∀ pair ∈ previewSeedPairs app previewPlan sp, ∀ b ∈ seedBinds pair,
      bindSource b ∈ productionVolumes (appDir .application app) production → ascii ":ro" <:+ b
  paths : ∀ sp ∈ previewPlan.services, ∀ b ∈ createBinds (appDir .preview preview) sp.mounts,
    hasPrefix (bindSource b) [slash] = true →
      underAllowedRoot (bindSource b) [mountsDir (appDir .preview preview)] = true

section

variable (raw : Bool) (project : Project)

/-- The names by which the services of a file mount volumes. -/
def volumeSources : List Bytes :=
  project.services.flatMap fun e =>
    (e.2.volumes.filter fun vol => vol.type = .volume && vol.source ≠ []).map
      ServiceVolume.source

/-- The name that the file itself gives to a volume: any but that of a declared
volume outside of raw mode. -/
def givenName (source : Bytes) : Option Bytes :=
  match project.volumes.lookup source with
  | none => some source
  | some v =>
    if v.external then some (externalName source v)
    else if raw then some source
    else none

/-- The file mounts a volume by a name that it gives itself. -/
def Given (x : Bytes) : Prop :=
  x ≠ [] ∧ ∃ s ∈ volumeSources project, ∃ g,
    givenName raw project s = some g ∧ x = beforeColon g

/-- The file mounts a volume that it declares, by the name that the stack
gives. -/
def Own (uuid : UUID) (x : Bytes) : Prop :=
  ∃ s ∈ volumeSources project, givenName raw project s = none ∧ x = uuid.text ++ ascii "_" ++ s

/-- The file pins an external volume. -/
def Pinned (x : Bytes) : Prop :=
  ∃ v ∈ project.volumes, v.2.external = true ∧ x = externalName v.1 v.2

end

/-- No name that stands in one of the files is one of a volume of the other, and
what Docker reads of a name or a bind mount in the file of the preview is no path
outside of the directory of the preview. -/
structure Unshared (app : Application) (preview : UUID)
    (project production : Project) : Prop where
  given : ∀ x, Given app.rawCompose project x →
    ¬ Given app.rawCompose production x ∧
    ¬ Own app.rawCompose production app.uuid x ∧ ¬ Pinned production x
  own : ∀ x, Own app.rawCompose project preview x →
    ¬ Given app.rawCompose production x ∧ ¬ Pinned production x
  paths : ∀ x, Given app.rawCompose project x → hasPrefix x [slash] = true →
    underAllowedRoot x [mountsDir (appDir .preview preview)] = true
  binds : ∀ e ∈ project.services, ∀ vol ∈ e.2.volumes, vol.type = .bind →
    escapesBase (beforeColon vol.source) = false

/-! ## Names -/

section

variable {app : Application} {uuid : UUID} {project : Project}

theorem mem_volumeSources :
    s ∈ volumeSources project ↔ ∃ e ∈ project.services, ∃ vol ∈ e.2.volumes,
      vol.type = .volume ∧ vol.source ≠ [] ∧ vol.source = s := by
  unfold volumeSources
  simp only [mem_flatMap, mem_map, mem_filter, Bool.and_eq_true, decide_eq_true_eq, and_assoc]

theorem resolveSource_givenName (source : Bytes) :
    resolveSource (app.input uuid) project source =
      (givenName app.rawCompose project source).getD (uuid.text ++ ascii "_" ++ source) := by
  unfold resolveSource givenName
  cases project.volumes.lookup source with
  | none => rfl
  | some v =>
    cases hv : v.external with
    | true => simp [hv]
    | false =>
      cases hraw : app.rawCompose with
      | true | false => simp [hv, dockerName, Application.input, hraw]

/-- A name that the file does not give is declared. -/
theorem givenName_none (h : givenName raw project source = none) :
    OwnVolume uuid project (uuid.text ++ ascii "_" ++ source) := by
  unfold givenName at h
  cases hl : project.volumes.lookup source with
  | none =>
    rw [hl] at h
    cases h
  | some v =>
    have := (lookup_eq_some project.volumes_nodup).mp hl
    exact ⟨source, mem_map_of_mem this, rfl⟩

theorem bindSource_volume (dir : Bytes) (hm : m.type = .volume) (rest : Bytes) :
    bindSource (createSource dir m ++ colon :: rest) = beforeColon m.source := by
  unfold bindSource
  rw [beforeColon_append]
  simp [createSource, hm]

theorem mem_mountedVolumes_iff :
    x ∈ mountedVolumes dir plan ↔ x ≠ [] ∧ ∃ sp ∈ plan.services,
      ∃ m ∈ sp.mounts, m.type = .volume ∧ x = beforeColon m.source := by
  unfold mountedVolumes
  simp only [mem_filter, mem_flatMap, mem_map, mem_createBinds,
    decide_eq_true_eq]
  constructor
  · rintro ⟨⟨sp, hsp, b, ⟨m, ⟨hm, hv⟩, -, rfl⟩, rfl⟩, hx⟩
    exact ⟨hx, sp, hsp, m, hm, hv, bindSource_volume dir hv _⟩
  · rintro ⟨hx, sp, hsp, m, hm, hv, rfl⟩
    exact ⟨⟨sp, hsp, _, ⟨m, ⟨hm, hv⟩, .inl hv, rfl⟩, bindSource_volume dir hv _⟩, hx⟩

/-- The volumes of a plan are those that its file names, and those that its
stack names. -/
theorem mem_mountedVolumes (dir : Bytes)
    (hbuild : (buildPlan (app.input uuid) project).1 = some plan) (x : Bytes) :
    x ∈ mountedVolumes dir plan ↔
      Given app.rawCompose project x ∨ Own app.rawCompose project uuid x := by
  rw [mem_mountedVolumes_iff]
  constructor
  · rintro ⟨hx, sp, hsp, m, hm, hv, rfl⟩
    obtain ⟨name, svc, he, rfl⟩ := (mem_plan_services hbuild).mp hsp
    obtain ⟨vol, hvol, htype, hsource, -⟩ := mem_planMounts hm
    have hne : vol.source ≠ [] := by
      intro h0
      apply hx
      rw [hsource]
      simp [mountSource, h0, beforeColon]
    have hmem : vol.source ∈ volumeSources project :=
      mem_volumeSources.mpr ⟨_, he, vol, hvol, htype.symm.trans hv, hne, rfl⟩
    rw [mountSource_volume (htype.symm.trans hv) hne, resolveSource_givenName] at hsource
    cases hg : givenName app.rawCompose project vol.source with
    | some g =>
      left
      rw [hg] at hsource
      exact ⟨hx, _, hmem, g, hg, by rw [hsource]; rfl⟩
    | none =>
      right
      rw [hg] at hsource
      refine ⟨_, hmem, hg, ?_⟩
      rw [hsource]
      exact (givenName_none hg).beforeColon
  · -- the mount of an entry with that source
    have hmount : ∀ s ∈ volumeSources project, ∃ sp ∈ plan.services,
        ∃ m ∈ sp.mounts, m.type = .volume ∧ m.source =
          (givenName app.rawCompose project s).getD (uuid.text ++ ascii "_" ++ s) := by
      intro s hs
      obtain ⟨e, he, vol, hvol, htype, hne, rfl⟩ := mem_volumeSources.mp hs
      obtain ⟨m, hm, hmtype, hsource, -⟩ := exists_mem_planMounts
        (planVolumes (app.input uuid) project) (planExternalVolumes project)
        e.1 hvol
      rw [mountSource_volume htype hne, resolveSource_givenName] at hsource
      exact ⟨_, (mem_plan_services hbuild).mpr ⟨e.1, e.2, he, rfl⟩, m, hm,
        hmtype.trans htype, hsource⟩
    rintro (⟨hx, s, hs, g, hg, rfl⟩ | ⟨s, hs, hg, rfl⟩)
    · obtain ⟨sp, hsp, m, hm, hv, hsource⟩ := hmount s hs
      rw [hg] at hsource
      exact ⟨hx, sp, hsp, m, hm, hv, by rw [hsource]; rfl⟩
    · obtain ⟨sp, hsp, m, hm, hv, hsource⟩ := hmount s hs
      rw [hg] at hsource
      refine ⟨by simp [ascii], sp, hsp, m, hm, hv, ?_⟩
      rw [hsource]
      exact (givenName_none hg).beforeColon.symm

theorem externalVolumes_eq (hbuild : (buildPlan input project).1 = some plan) :
    plan.externalVolumes = planExternalVolumes project := by
  unfold buildPlan at hbuild
  dsimp only at hbuild
  split at hbuild
  · cases hbuild
    rfl
  · cases hbuild

theorem mem_externalVolumes (hbuild : (buildPlan input project).1 = some plan)
    (x : Bytes) : x ∈ plan.externalVolumes.map Prod.snd ↔ Pinned project x := by
  rw [externalVolumes_eq hbuild]
  unfold planExternalVolumes Pinned
  simp only [map_map, mem_map, mem_filter, Function.comp]
  constructor
  · rintro ⟨v, ⟨hv, hext⟩, rfl⟩
    exact ⟨v, hv, hext, rfl⟩
  · rintro ⟨v, hv, hext, rfl⟩
    exact ⟨v, ⟨hv, hext⟩, rfl⟩

theorem Pinned.ne_nil (h : Pinned project x) : x ≠ [] := by
  obtain ⟨v, hv, -, rfl⟩ := h
  unfold externalName
  split
  · exact (project.volumes_name v hv).1
  · assumption

/-- Two stacks give no name in common. -/
theorem own_disjoint (h : Own raw project uuid x)
    (h' : Own raw project' uuid' x) : uuid = uuid' := by
  obtain ⟨s, -, -, rfl⟩ := h
  obtain ⟨s', -, -, heq⟩ := h'
  rw [append_assoc, append_assoc] at heq
  have hlen : uuid.text.length = uuid'.text.length := by
    rw [uuid.length_eq, uuid'.length_eq]
  have htext := (append_inj heq hlen).1
  cases uuid
  cases uuid'
  cases htext
  rfl

end

/-! ## Isolation -/

/-- The volume that a copy writes to is one that the preview mounts. -/
theorem seedBinds_readOnly {P : Bytes → Prop} (hP : ¬ P [])
    (hmounts : ∀ v ∈ mountedVolumes dir plan, ¬ P v) {sp : ServicePlan}
    (hsp : sp ∈ plan.services) {pair : Bytes × Bytes}
    (hpair : pair ∈ previewSeedPairs app plan sp) {b : Bytes}
    (hb : b ∈ seedBinds pair) (hprod : P (bindSource b)) :
    ascii ":ro" <:+ b := by
  obtain ⟨m, hm, hseed⟩ := mem_filterMap.mp hpair
  split at hseed
  · rename_i htype
    obtain ⟨declared, -, rfl⟩ := Option.map_eq_some_iff.mp hseed
    rcases mem_pair.mp hb with rfl | rfl
    · exact ⟨app.text ++ ascii "_" ++ declared ++ ascii ":/akerdock-seed-from",
        by rw [append_assoc]; rfl⟩
    · have hsource : bindSource (m.source ++ ascii ":/akerdock-volume") = beforeColon m.source :=
        beforeColon_append _ _
      rw [hsource] at hprod
      have hne : beforeColon m.source ≠ [] := by
        intro h0
        rw [h0] at hprod
        exact hP hprod
      exact absurd hprod (hmounts _
        (mem_mountedVolumes_iff.mpr ⟨hne, sp, hsp, m, hm, htype, rfl⟩))
  · cases hseed

/-- The paths of the server that a plan mounts are below the directory of its
stack exactly if those are that stand in the file, as names of volumes or as
bind mounts up to the first colon. -/
theorem paths_confined_iff {app : Application} {project : Project}
    (hbuild : (buildPlan (app.input uuid) project).1 = some plan)
    (hvalid : HasErrors (validate project (app.input uuid).policy) = false) (kind : StackKind) :
    (∀ sp ∈ plan.services, ∀ b ∈ createBinds (appDir kind uuid) sp.mounts,
      hasPrefix (bindSource b) [slash] = true →
        underAllowedRoot (bindSource b) [mountsDir (appDir kind uuid)] = true) ↔
    (∀ x, Given app.rawCompose project x → hasPrefix x [slash] = true →
      underAllowedRoot x [mountsDir (appDir kind uuid)] = true) ∧
    ∀ e ∈ project.services, ∀ vol ∈ e.2.volumes, vol.type = .bind →
      escapesBase (beforeColon vol.source) = false := by
  have hslash : ∀ rel, hasPrefix (mountsDir (appDir kind uuid) ++ slash :: rel) [slash] = true := by
    intro rel
    cases kind <;> rfl
  constructor
  · intro h
    constructor
    · intro x hx hpath
      obtain ⟨-, sp, hsp, m, hm, hv, rfl⟩ := mem_mountedVolumes_iff.mp
        ((mem_mountedVolumes (appDir kind uuid) hbuild x).mpr (.inl hx))
      have hb := h sp hsp _ (mem_createBinds.mpr ⟨m, hm, .inl hv, rfl⟩)
      rw [bindSource_volume _ hv] at hb
      exact hb hpath
    · intro e he vol hvol htype
      obtain ⟨habs, hesc⟩ := bind_checked (validate_mounts hvalid he hvol) rfl htype
      obtain ⟨m, hm, hmtype, hsource, -⟩ := exists_mem_planMounts
        (planVolumes (app.input uuid) project) (planExternalVolumes project) e.1 hvol
      rw [mountSource_of_ne_volume (by rw [htype]; rintro ⟨⟩)] at hsource
      have hb := h _ ((mem_plan_services hbuild).mpr ⟨e.1, e.2, he, rfl⟩) _
        (mem_createBinds.mpr ⟨m, hm, .inr (hmtype.trans htype), rfl⟩)
      rw [bindSource_bind (hmtype.trans htype) (by rwa [hsource]), hsource] at hb
      exact (under_cut_iff habs hesc).mp (hb (hslash _))
  · rintro ⟨hgiven, hbinds⟩ sp hsp b hb hpath
    obtain ⟨m, hm, hv | hbind, rfl⟩ := mem_createBinds.mp hb
    · rw [bindSource_volume _ hv] at hpath ⊢
      have hne : beforeColon m.source ≠ [] := by
        intro h0
        rw [h0] at hpath
        cases hpath
      rcases (mem_mountedVolumes (appDir kind uuid) hbuild _).mp
        (mem_mountedVolumes_iff.mpr ⟨hne, sp, hsp, m, hm, hv, rfl⟩) with hx | ⟨s, -, hnone, hx⟩
      · exact hgiven _ hx hpath
      · -- A name that the stack gives is no path.
        obtain ⟨t, ht⟩ := Access.hasPrefix_iff.mp hpath
        have hown : OwnVolume uuid project _ := givenName_none hnone
        rw [← hx, ← ht] at hown
        exact absurd hown (not_ownVolume_slash t)
    · obtain ⟨name, svc, he, rfl⟩ := (mem_plan_services hbuild).mp hsp
      obtain ⟨vol, hvol, htype, hsource, -⟩ := mem_planMounts hm
      have htype' : vol.type = .bind := htype.symm.trans hbind
      rw [mountSource_of_ne_volume (by rw [htype']; rintro ⟨⟩)] at hsource
      obtain ⟨habs, hesc⟩ := bind_checked (validate_mounts hvalid he hvol) rfl htype'
      rw [bindSource_bind hbind (by rwa [hsource]), hsource]
      exact (under_cut_iff habs hesc).mpr (hbinds _ he vol hvol htype')

/-- A preview has no volume of its production stack, and no path outside of its
own directory, exactly if no name that stands in one of the two files is one of
a volume of the other, or such a path. -/
theorem preview_isolated_iff (app : Application) (preview : UUID)
    (hne : preview ≠ app.uuid) (file prodFile : File)
    (project production : Project) (res prodRes : Result)
    (plan prodPlan : Plan) (hproject : file.project = .ok project)
    (hprod : prodFile.project = .ok production)
    (hload : Load (app.input preview) file = .ok res)
    (hprodLoad : Load (app.input app.uuid) prodFile = .ok prodRes)
    (hplan : res.plan = some plan) (hprodPlan : prodRes.plan = some prodPlan) :
    Isolated app.uuid preview plan prodPlan ↔ Unshared app preview project production := by
  obtain ⟨project', hproject', hvalid, hbuild⟩ := Load_plan hload hplan
  obtain rfl : project = project' :=
    Except.ok.inj (hproject.symm.trans hproject')
  obtain ⟨production', hprod', -, hprodBuild⟩ := Load_plan hprodLoad hprodPlan
  obtain rfl : production = production' :=
    Except.ok.inj (hprod.symm.trans hprod')
  have hmem : ∀ x, x ∈ productionVolumes (appDir .application app.uuid)
      prodPlan ↔ (Given app.rawCompose production x ∨
        Own app.rawCompose production app.uuid x) ∨ Pinned production x := by
    intro x
    unfold productionVolumes
    rw [mem_append, mem_mountedVolumes _ hprodBuild, mem_externalVolumes hprodBuild]
  have hpaths := paths_confined_iff hbuild hvalid .preview
  constructor
  · intro h
    refine ⟨?_, ?_, (hpaths.mp h.paths).1, (hpaths.mp h.paths).2⟩
    · intro x hx
      have := h.mounts x ((mem_mountedVolumes _ hbuild x).mpr (.inl hx))
      rw [hmem, not_or, not_or] at this
      exact ⟨this.1.1, this.1.2, this.2⟩
    · intro x hx
      have := h.mounts x ((mem_mountedVolumes _ hbuild x).mpr (.inr hx))
      rw [hmem, not_or, not_or] at this
      exact ⟨this.1.1, this.2⟩
  · intro h
    have hmounts : ∀ v ∈ mountedVolumes (appDir .preview preview) plan,
        v ∉ productionVolumes (appDir .application app.uuid) prodPlan := by
      intro v hv
      rw [hmem, not_or, not_or]
      rcases (mem_mountedVolumes _ hbuild v).mp hv with hgiven | hown
      · obtain ⟨h₁, h₂, h₃⟩ := h.given v hgiven
        exact ⟨⟨h₁, h₂⟩, h₃⟩
      · obtain ⟨h₁, h₃⟩ := h.own v hown
        exact ⟨⟨h₁, fun h₂ => hne (own_disjoint hown h₂)⟩, h₃⟩
    have hnil : [] ∉ productionVolumes (appDir .application app.uuid)
        prodPlan := by
      rw [hmem]
      rintro ((⟨h0, -⟩ | ⟨s, -, -, h0⟩) | h0)
      · exact h0 rfl
      · simp [ascii] at h0
      · exact h0.ne_nil rfl
    refine ⟨hmounts, ?_, hpaths.mpr ⟨h.paths, h.binds⟩⟩
    intro sp hsp pair hpair b hb hprod
    exact seedBinds_readOnly hnil hmounts hsp hpair hb hprod

/-- An application with the settings of a new one. -/
def sampleApplication : Application :=
  ⟨sampleUUID, false, false⟩

/-- The identifier of a preview. -/
def previewUUID : UUID :=
  { text := ascii "66666666-7777-4888-9999-aaaaaaaaaaaa"
    length_eq := by decide
    chars := by decide +kernel }

/-- A preview of the file that is in production. -/
theorem preview_isolated_own : ∃ res plan prodRes prodPlan,
    Load (sampleApplication.input previewUUID) (plainFile ownProject) =
        .ok res ∧ res.plan = some plan ∧
      Load (sampleApplication.input sampleUUID) (plainFile ownProject) =
        .ok prodRes ∧ prodRes.plan = some prodPlan ∧
      Isolated sampleUUID previewUUID plan prodPlan := by
  obtain ⟨res, plan, hload, hplan⟩ := exists_plan
    (sampleApplication.input previewUUID) (plainFile ownProject)
    (by decide +kernel)
  obtain ⟨prodRes, prodPlan, hprodLoad, hprodPlan⟩ := exists_plan
    (sampleApplication.input sampleUUID) (plainFile ownProject)
    (by decide +kernel)
  refine ⟨res, plan, prodRes, prodPlan, hload, hplan, hprodLoad, hprodPlan,
    (preview_isolated_iff sampleApplication previewUUID (by decide)
      (plainFile ownProject) (plainFile ownProject) ownProject ownProject res
      prodRes plan prodPlan rfl rfl hload hprodLoad hplan hprodPlan).mpr ?_⟩
  have hsources : volumeSources ownProject = [ascii "data"] := by
    decide
  have hgiven : ∀ x, ¬ Given false ownProject x := by
    rintro x ⟨-, s, hs, g, hg, -⟩
    rw [hsources] at hs
    obtain rfl := mem_singleton.mp hs
    cases hg
  have hpinned : ∀ x, ¬ Pinned ownProject x := by
    rintro x ⟨v, hv, hext, -⟩
    obtain rfl := mem_singleton.mp hv
    cases hext
  exact ⟨fun x hx => absurd hx (hgiven x), fun x _ => ⟨hgiven x, hpinned x⟩,
    fun x hx => absurd hx (hgiven x), by decide +kernel⟩

/-- The file of a pull request that mounts a volume which it does not
declare. -/
def foreignProject : Project :=
  plainProject [sampleVolume .volume
    "11111111-2222-4333-8444-555555555555_data" "/data"] [] nodup_nil
    volumes_nil

/-- The file is accepted, and the preview mounts the volume of the production
stack so that it can write. -/
theorem preview_mounts_production : ∃ res plan prodRes prodPlan,
    Load (sampleApplication.input previewUUID) (plainFile foreignProject) =
        .ok res ∧ res.plan = some plan ∧
      Load (sampleApplication.input sampleUUID) (plainFile ownProject) =
        .ok prodRes ∧ prodRes.plan = some prodPlan ∧
      plan.services.flatMap (fun sp =>
        createBinds (appDir .preview previewUUID) sp.mounts) =
          [sampleUUID.text ++ ascii "_data:/data"] ∧
      sampleUUID.text ++ ascii "_data" ∈
        mountedVolumes (appDir .application sampleUUID) prodPlan ∧
      ¬ Isolated sampleUUID previewUUID plan prodPlan := by
  obtain ⟨res, plan, hload, hplan⟩ := exists_plan
    (sampleApplication.input previewUUID) (plainFile foreignProject)
    (by decide +kernel)
  obtain ⟨prodRes, prodPlan, hprodLoad, hprodPlan⟩ := exists_plan
    (sampleApplication.input sampleUUID) (plainFile ownProject)
    (by decide +kernel)
  have hbinds := plan_eval (f := fun plan => plan.services.flatMap fun sp =>
      createBinds (appDir .preview previewUUID) sp.mounts)
    (a := [sampleUUID.text ++ ascii "_data:/data"]) hload hplan
    (by decide +kernel)
  have hvolumes := plan_eval
    (f := mountedVolumes (appDir .preview previewUUID))
    (a := [sampleUUID.text ++ ascii "_data"]) hload hplan (by decide +kernel)
  have hprodVolumes := plan_eval
    (f := mountedVolumes (appDir .application sampleUUID))
    (a := [sampleUUID.text ++ ascii "_data"]) hprodLoad hprodPlan
    (by decide +kernel)
  have hmem : sampleUUID.text ++ ascii "_data" ∈
      mountedVolumes (appDir .application sampleUUID) prodPlan := by
    rw [hprodVolumes]
    exact mem_singleton_self _
  refine ⟨res, plan, prodRes, prodPlan, hload, hplan, hprodLoad, hprodPlan, hbinds, hmem, ?_⟩
  intro h
  apply h.mounts (sampleUUID.text ++ ascii "_data")
  · rw [hvolumes]
    exact mem_singleton_self _
  · exact mem_append_left _ hmem

end Akerdock.Compose
