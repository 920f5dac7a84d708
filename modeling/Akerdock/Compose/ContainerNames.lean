import Akerdock.Compose.Confinement

/-!
# The container names of a stack

`buildServicePlan` puts a name together from the identifier of the stack and
the name of the service, and the candidate of a service gets the suffix `-next`
on top of that.  A resource with one container uses the identifier alone, and
the same suffix.

* `containers` are the containers that a deployment of the plan gives a name,
  each with its `Role`.
* `serving_eq_candidate` is the one way in which the names of two services
  meet: one service is called as the candidate of the other.
* `names_apart_iff` settles when no two containers share a name.
-/

namespace Akerdock.Compose

open List
open Crypto (Bytes)
open Secrets (ascii)

/-- What a container of a resource is there for.  The first two are those of a
resource without services. -/
inductive Role where
  | only | onlyCandidate
  | serving (service : Bytes) | candidate (service : Bytes)
  deriving DecidableEq

/-- The suffix of a candidate. -/
def nextSuffix : Bytes := ascii "-next"

/-- The containers that a deployment of the plan names: `<uuid>`,
`<uuid>-next`, and two of each service. -/
def containers (plan : Plan) : List (Role × Bytes) :=
  (.only, plan.stackUUID) :: (.onlyCandidate, plan.stackUUID ++ nextSuffix) ::
    plan.services.flatMap fun sp =>
      [(.serving sp.name, sp.containerName), (.candidate sp.name, sp.candidateName)]

/-- Two containers with one name are the same container. -/
def NamesApart (plan : Plan) : Prop :=
  ∀ c ∈ containers plan, ∀ c' ∈ containers plan, c.2 = c'.2 → c = c'

/-- The name of a service, after the identifier of the stack. -/
def Role.suffix : Role → Bytes
  | .only => []
  | .onlyCandidate => nextSuffix
  | .serving s => ascii "-" ++ s
  | .candidate s => ascii "-" ++ s ++ nextSuffix

section

variable (h : (buildPlan input project).1 = some plan)

include h

theorem buildPlan_stackUUID : plan.stackUUID = input.stackUUID.text := by
  unfold buildPlan at h
  simp only at h
  split at h
  · rw [← Option.some.inj h]
  · cases h

theorem exists_service :
    (∃ sp ∈ plan.services, sp.name = s) ↔ s ∈ project.services.map Prod.fst := by
  rw [mem_map]
  constructor
  · rintro ⟨sp, hsp, rfl⟩
    obtain ⟨s, svc, hmem, rfl⟩ := (mem_plan_services h).mp hsp
    exact ⟨(s, svc), hmem, rfl⟩
  · rintro ⟨⟨s, svc⟩, hmem, rfl⟩
    exact ⟨_, (mem_plan_services h).mpr ⟨s, svc, hmem, rfl⟩, rfl⟩

theorem service_names (hsp : sp ∈ plan.services) :
    sp.containerName = input.stackUUID.text ++ (Role.serving sp.name).suffix ∧
      sp.candidateName = input.stackUUID.text ++ (Role.candidate sp.name).suffix := by
  obtain ⟨s, svc, -, rfl⟩ := (mem_plan_services h).mp hsp
  simp [buildServicePlan, Role.suffix, nextSuffix, append_assoc]

/-- A container of a plan is named after its role, and its service is one of
the project. -/
theorem mem_containers :
    (r, n) ∈ containers plan ↔ n = input.stackUUID.text ++ r.suffix ∧
      ∀ s, r = .serving s ∨ r = .candidate s → s ∈ project.services.map Prod.fst := by
  simp only [containers, buildPlan_stackUUID h, mem_cons,
    mem_flatMap, Prod.mk.injEq, not_mem_nil, or_false,
    ← exists_service h]
  have hnames := fun sp (hsp : sp ∈ plan.services) => service_names h hsp
  cases r <;> grind [Role.suffix]

end

/-- A service has the name of a candidate exactly if it is called so. -/
theorem serving_eq_candidate {a b : Bytes} :
    (Role.serving b).suffix = (Role.candidate a).suffix ↔ b = a ++ nextSuffix := by
  simp only [Role.suffix, append_assoc, append_cancel_left_eq]

/-- A service has the name of the only candidate exactly if it is `next`. -/
theorem serving_eq_onlyCandidate {b : Bytes} :
    (Role.serving b).suffix = Role.onlyCandidate.suffix ↔ b = ascii "next" := by
  show ascii "-" ++ b = ascii "-" ++ ascii "next" ↔ _
  rw [append_cancel_left_eq]

/-- Otherwise roles are told apart by the suffix. -/
theorem Role.suffix_inj {r r' : Role} (h : r.suffix = r'.suffix)
    (hcandidate : ∀ a, r = .serving (a ++ nextSuffix) → r' ≠ .candidate a)
    (hcandidate' : ∀ a, r' = .serving (a ++ nextSuffix) → r ≠ .candidate a)
    (hnext : r = .serving (ascii "next") → r' ≠ .onlyCandidate)
    (hnext' : r' = .serving (ascii "next") → r ≠ .onlyCandidate) : r = r' := by
  have hlength : r.suffix.length = r'.suffix.length := by rw [h]
  have hdash : (ascii "-").length = 1 := rfl
  have hsuffix : nextSuffix.length = 5 := rfl
  cases r <;> cases r' <;>
    simp only [Role.suffix, length_append, length_nil] at hlength <;>
    first
    | rfl
    | omega
    | simpa [Role.suffix] using h
    | exact absurd rfl (hnext (by rw [serving_eq_onlyCandidate.mp h]))
    | exact absurd rfl (hnext' (by rw [serving_eq_onlyCandidate.mp h.symm]))
    | exact absurd rfl (hcandidate _ (by rw [serving_eq_candidate.mp h]))
    | exact absurd rfl (hcandidate' _ (by rw [serving_eq_candidate.mp h.symm]))

/-- No container of a plan that is accepted shares its name with another one
exactly if no service is called as the candidate of another, and none is
called `next`. -/
theorem names_apart_iff (input : Input) (file : File) (project : Project)
    (res : Result) (plan : Plan) (hproject : file.project = .ok project)
    (hload : Load input file = .ok res) (hplan : res.plan = some plan) :
    NamesApart plan ↔
      (∀ a ∈ project.services.map Prod.fst, a ++ nextSuffix ∉ project.services.map Prod.fst) ∧
      ascii "next" ∉ project.services.map Prod.fst := by
  obtain ⟨project', hproject', -, hbuild⟩ := Load_plan hload hplan
  obtain rfl : project = project' :=
    Except.ok.inj (hproject.symm.trans hproject')
  constructor
  · intro hapart
    constructor
    · intro a ha hnext
      have heq := hapart (.serving (a ++ nextSuffix), _)
        ((mem_containers hbuild).mpr ⟨rfl, by simpa using hnext⟩)
        (.candidate a, _)
        ((mem_containers hbuild).mpr ⟨rfl, by simpa using ha⟩)
        (congrArg (input.stackUUID.text ++ ·) (serving_eq_candidate.mpr rfl))
      cases heq
    · intro hnext
      have heq := hapart (.serving (ascii "next"), _)
        ((mem_containers hbuild).mpr ⟨rfl, by simpa using hnext⟩)
        (.onlyCandidate, _)
        ((mem_containers hbuild).mpr ⟨rfl, by simp⟩)
        (congrArg (input.stackUUID.text ++ ·) (serving_eq_onlyCandidate.mpr rfl))
      cases heq
  · rintro ⟨hcandidate, hnext⟩ ⟨r, n⟩ hc ⟨r', n'⟩ hc' hname
    obtain ⟨rfl, hr⟩ := (mem_containers hbuild).mp hc
    obtain ⟨rfl, hr'⟩ := (mem_containers hbuild).mp hc'
    have hsuffix : r.suffix = r'.suffix := append_cancel_left hname
    obtain rfl : r = r' := by
      refine Role.suffix_inj hsuffix ?_ ?_ ?_ ?_
      · rintro a rfl rfl
        exact hcandidate a (hr' a (.inr rfl)) (hr _ (.inl rfl))
      · rintro a rfl rfl
        exact hcandidate a (hr a (.inr rfl)) (hr' _ (.inl rfl))
      · rintro rfl rfl
        exact hnext (hr _ (.inl rfl))
      · rintro rfl rfl
        exact hnext (hr' _ (.inl rfl))
    rfl

/-- A project of two services that say nothing but their image. -/
def pairProject (a b : Bytes) (h : a ≠ b) : Project :=
  { services := [(a, plainService []), (b, plainService [])]
    volumes := [], networks := [], configs := [], secrets := []
    services_nodup := by simpa using h
    volumes_nodup := List.nodup_nil
    volumes_name := volumes_nil }

def pairFile (a b : Bytes) (h : a ≠ b) : File :=
  { document := .ok (some ⟨[ascii "services"],
      [(a, some [ascii "image"]), (b, some [ascii "image"])]⟩)
    undefined := []
    project := .ok (pairProject a b h) }

theorem names_apart_webApi : ∃ res plan,
    Load ⟨sampleUUID, {}, false⟩
      (pairFile (ascii "web") (ascii "api") (by decide)) = .ok res ∧
      res.plan = some plan ∧ NamesApart plan := by
  obtain ⟨res, plan, hload, hplan⟩ := exists_plan ⟨sampleUUID, {}, false⟩
    (pairFile (ascii "web") (ascii "api") (by decide)) (by decide +kernel)
  refine ⟨res, plan, hload, hplan, ?_⟩
  rw [names_apart_iff _ _ _ res plan rfl hload hplan]
  decide

/-- A service `web` next to a service `web-next`: the file is accepted, and the
candidate of the one has the name of the other. -/
theorem names_shared : ∃ res plan,
    Load ⟨sampleUUID, {}, false⟩
      (pairFile (ascii "web") (ascii "web-next") (by decide)) = .ok res ∧
      res.plan = some plan ∧ ¬ NamesApart plan := by
  obtain ⟨res, plan, hload, hplan⟩ := exists_plan ⟨sampleUUID, {}, false⟩
    (pairFile (ascii "web") (ascii "web-next") (by decide)) (by decide +kernel)
  have hcandidate : (.candidate (ascii "web"),
      sampleUUID.text ++ ascii "-web-next") ∈ containers plan :=
    of_decide_eq_true (plan_eval hload hplan
      (f := fun plan => decide (_ ∈ containers plan)) (by decide +kernel))
  have hserving : (.serving (ascii "web-next"),
      sampleUUID.text ++ ascii "-web-next") ∈ containers plan :=
    of_decide_eq_true (plan_eval hload hplan
      (f := fun plan => decide (_ ∈ containers plan)) (by decide +kernel))
  refine ⟨res, plan, hload, hplan, fun hapart => ?_⟩
  cases hapart _ hcandidate _ hserving rfl

end Akerdock.Compose
