import Akerdock.Access.Route
import Akerdock.Lib.Segments

/-!
# What a public route lets through

* `Route.Valid` is what `Validate` establishes about the path of a route, and
  `publishable_iff` which paths can be published as they are.
* `accepts_cases` says what a request that a route accepts begins with, whatever
  the matching mode: the part of the path before the first placeholder.
* `Covers.cases` compares it with the route of the resource.  A request is below
  that route, unless the route ends in a slash: then the path without the slash
  is let through as well.
* `matched_iff` compares the matcher with what a route declares.
-/

namespace Akerdock.Access

open List Segments
open Crypto (Bytes)
open Secrets (ascii)
open Bool (not_eq_true' or_eq_true and_eq_true eq_false_iff)

/-! ## What passes `Validate` -/

/-- What `Validate` establishes about the path of a route. -/
structure Route.Valid (route : Route) : Prop where
  path : validatePath route.path = .ok ()
  segments : ∀ s ∈ route.path.splitOn slash,
    (hasPrefix s [colon] = true ∧ route.mode = .matchTemplate) ∨ colon ∉ s

variable {p x q base : Bytes} {route : Route}

theorem validatePath_iff : validatePath p = .ok () ↔
    p ≠ [] ∧ p.length ≤ maxPathBytes ∧ [slash] <+: p ∧
      (∀ c ∈ p, c ∉ ascii "?#%`*\\") ∧ (∀ c ∈ p, ¬ (c ≤ 0x20 ∨ c = 0x7f)) ∧
      doubleSlash p = false ∧
      ∀ s ∈ p.splitOn slash, ¬ (s = [dot] ∨ s = [dot, dot]) := by
  unfold validatePath
  split_ifs with h₁ h₂ h₃ h₄ h₅ h₆ h₇
  · simp [h₁]
  · simp [Nat.not_le.mpr h₂]
  · simp only [not_eq_true'] at h₃
    simp [← hasPrefix_iff, h₃]
  · simp only [any_eq_true, contains_iff_mem] at h₄
    obtain ⟨c, hc, hbad⟩ := h₄
    simp only [false_iff, not_and]
    intro _ _ _ h
    exact absurd hbad (h c hc)
  · simp only [any_eq_true, or_eq_true, decide_eq_true_eq] at h₅
    obtain ⟨c, hc, hbad⟩ := h₅
    simp only [false_iff, not_and]
    intro _ _ _ _ h
    exact absurd hbad (h c hc)
  · simp [h₆]
  · simp only [any_eq_true, or_eq_true, decide_eq_true_eq] at h₇
    obtain ⟨s, hs, hbad⟩ := h₇
    simp only [false_iff, not_and]
    intro _ _ _ _ _ _ h
    exact absurd hbad (h s hs)
  · simp only [not_eq_true', Bool.not_eq_false, hasPrefix_iff] at h₃
    simp only [any_eq_true, contains_iff_mem, not_exists, not_and] at h₄
    simp only [any_eq_true, or_eq_true, decide_eq_true_eq, not_exists, not_and] at h₅ h₇
    exact iff_of_true rfl ⟨h₁, Nat.not_lt.mp h₂, h₃, h₄, h₅, Bool.not_eq_true _ ▸ h₆, h₇⟩

/-- The path starts with a slash, so its first segment is empty. -/
theorem validatePath_cons (h : validatePath p = .ok ()) : ∃ s, p = slash :: s := by
  obtain ⟨s, hs⟩ := (validatePath_iff.mp h).2.2.1
  exact ⟨s, hs.symm⟩

theorem placeholdersOf_ok (h : placeholdersOf mode segments = .ok names) :
    ∀ s ∈ segments, (hasPrefix s [colon] = true ∧ mode = .matchTemplate) ∨ colon ∉ s := by
  induction segments generalizing names with
  | nil => simp
  | cons segment rest ih =>
    unfold placeholdersOf at h
    split at h
    · split at h
      · simp at h
      · rename_i hc
        intro s hs
        rcases mem_cons.mp hs with rfl | hs
        · right
          simpa using hc
        · exact ih h s hs
    · rename_i hp
      split at h
      · simp at h
      · rename_i hm
        split at h
        · simp at h
        · cases hrest : placeholdersOf mode rest with
          | error e => simp [hrest, Except.map] at h
          | ok names' =>
            intro s hs
            rcases mem_cons.mp hs with rfl | hs
            · left
              simp only [not_eq_true', Bool.not_eq_false] at hp
              simp only [ne_eq, not_not] at hm
              exact ⟨hp, hm⟩
            · exact ih hrest s hs

theorem valid_of_Validate (h : Validate raw = .ok route) : route.Valid := by
  obtain ⟨mode, -, h⟩ := bind_ok h
  obtain ⟨_, hpath, h⟩ := bind_ok h
  obtain ⟨_, -, h⟩ := bind_ok h
  obtain ⟨methods, -, h⟩ := bind_ok h
  obtain ⟨placeholders, hmatch, h⟩ := bind_ok h
  obtain ⟨_, -, h⟩ := bind_ok h
  obtain ⟨parameters, -, h⟩ := bind_ok h
  cases h
  obtain ⟨names, hnames, -⟩ := bind_ok hmatch
  obtain ⟨s, hs⟩ := validatePath_cons hpath
  refine ⟨hpath, ?_⟩
  intro segment hseg
  simp only [hs] at hseg hnames
  rw [splitOn_cons_self] at hseg
  rcases mem_cons.mp hseg with rfl | hseg
  · right
    simp
  · exact placeholdersOf_ok (by simpa [hasPrefix] using hnames) segment hseg

/-! ## The part before the first placeholder -/

/-- The text has no placeholder, or is cut where the first one begins. -/
theorem beforePlaceholder_cases (p : Bytes) :
    beforePlaceholder p = p ∨ ∃ rest, p = beforePlaceholder p ++ slash :: colon :: rest := by
  fun_induction beforePlaceholder p with
  | case1 c d s h =>
    right
    simp only [and_eq_true, decide_eq_true_eq] at h
    exact ⟨s, by simp [h.1, h.2]⟩
  | case2 c d s h ih =>
    rcases ih with ih | ⟨rest, ih⟩
    · left
      rw [ih]
    · right
      refine ⟨rest, ?_⟩
      rw [cons_append, ← ih]
  | case3 s h => exact .inl rfl

theorem splitOn_placeholder (h : p = beforePlaceholder p ++ slash :: colon :: rest) :
    p.splitOn slash = (beforePlaceholder p).splitOn slash ++ (colon :: rest).splitOn slash := by
  conv => lhs; rw [h]
  exact splitOn_append_cons_self _ _

/-- If a colon is found at the start of a segment only, there is none before
the first placeholder. -/
theorem colon_notMem_beforePlaceholder (p : Bytes)
    (hp : p.splitOn slash = a :: l) (ha : colon ∉ a)
    (hl : ∀ s ∈ l, hasPrefix s [colon] = true ∨ colon ∉ s) :
    colon ∉ beforePlaceholder p := by
  fun_induction beforePlaceholder p generalizing a l with
  | case1 c d s h => simp
  | case2 c d s h ih =>
    by_cases hc : c = slash
    · -- the next segment is no placeholder, and so is free of colons
      rw [hc, splitOn_cons_self] at hp
      obtain ⟨rfl, rfl⟩ := cons.inj hp
      have hd : d ≠ colon := by
        intro hd
        simp [hc, hd] at h
      cases hds : (d :: s).splitOn slash with
      | nil => exact absurd hds (splitOn_ne_nil _ _)
      | cons b m =>
        have hb : colon ∉ b := by
          rcases hl b (by simp [hds]) with hb | hb
          · obtain ⟨t, rfl⟩ := hasPrefix_iff.mp hb
            exfalso
            by_cases hdslash : d = slash
            · rw [hdslash, splitOn_cons_self] at hds
              simp at hds
            · obtain ⟨e, n, -, hdn⟩ := splitOn_cons_ne hdslash s
              rw [hdn] at hds
              simp at hds
              exact hd hds.1.1
          · exact hb
        have := ih hds hb (fun s hs => hl s (by simp [hds, hs]))
        have hne : colon ≠ c := by rw [hc]; decide
        simp [hne, this]
    · obtain ⟨b, m, hds, hcds⟩ := splitOn_cons_ne hc (d :: s)
      rw [hcds] at hp
      obtain ⟨rfl, rfl⟩ := cons.inj hp
      simp only [mem_cons, not_or] at ha
      have := ih hds ha.2 hl
      simp [ha.1, this]
  | case3 s h =>
    match s, h with
    | [], _ => simp
    | [c], _ =>
      by_cases hc : c = slash
      · rw [hc]
        decide
      · obtain ⟨b, m, hb, hcb⟩ := splitOn_cons_ne hc []
        obtain ⟨rfl, rfl⟩ := cons.inj ((splitOn_nil _).symm.trans hb)
        rw [hcb] at hp
        obtain ⟨rfl, -⟩ := cons.inj hp
        exact ha
    | c :: d :: s, h => exact absurd rfl (h c d s)

namespace Route.Valid

/-- The part of the path before the first placeholder has no colon. -/
theorem colon_notMem (h : route.Valid) : colon ∉ beforePlaceholder route.path := by
  obtain ⟨s, hs⟩ := validatePath_cons h.path
  have hseg := h.segments
  rw [hs, splitOn_cons_self] at hseg
  rw [hs]
  apply colon_notMem_beforePlaceholder _ (splitOn_cons_self s)
  · simp
  · intro t ht
    rcases hseg t (by simp [ht]) with ht | ht
    · exact .inl ht.1
    · exact .inr ht

theorem beforePlaceholder_eq (h : route.Valid) (hmode : route.mode ≠ .matchTemplate) :
    beforePlaceholder route.path = route.path := by
  rcases beforePlaceholder_cases route.path with hp | ⟨rest, hp⟩
  · exact hp
  · -- the segment after the slash would begin with a colon
    exfalso
    obtain ⟨a, l, -, hcl⟩ := splitOn_cons_ne (show colon ≠ slash by decide) rest
    have hmem : colon :: a ∈ route.path.splitOn slash := by
      rw [splitOn_placeholder hp, hcl]
      simp
    rcases h.segments _ hmem with ht | ht
    · exact hmode ht.2
    · simp at ht

end Route.Valid

/-! ## What a public route accepts -/

theorem acceptsSegments_append (h : acceptsSegments (ps ++ qs) l = true) :
    ∃ l₁ l₂, l = l₁ ++ l₂ ∧ acceptsSegments ps l₁ = true ∧ acceptsSegments qs l₂ = true := by
  induction ps generalizing l with
  | nil => exact ⟨[], l, rfl, rfl, h⟩
  | cons p ps ih =>
    cases l with
    | nil => simp [acceptsSegments] at h
    | cons s l =>
      simp only [cons_append, acceptsSegments, and_eq_true] at h
      obtain ⟨l₁, l₂, rfl, h₁, h₂⟩ := ih h.2
      refine ⟨s :: l₁, l₂, rfl, ?_, h₂⟩
      simp [acceptsSegments, h.1, h₁]

theorem acceptsSegments_literal (hc : ∀ s ∈ segments, colon ∉ s)
    (h : acceptsSegments (segments.map (segmentPattern parameters)) l = true) :
    l = segments := by
  induction segments generalizing l with
  | nil =>
    cases l with
    | nil => rfl
    | cons s l => simp [acceptsSegments] at h
  | cons s segments ih =>
    cases l with
    | nil => simp [acceptsSegments] at h
    | cons x l =>
      simp only [map_cons, acceptsSegments, and_eq_true] at h
      have hs : hasPrefix s [colon] = false := by
        rw [eq_false_iff, ne_eq, hasPrefix_iff]
        rintro ⟨t, rfl⟩
        exact hc ([colon] ++ t) (by simp) (by simp)
      have hx : x = s := by
        have := h.1
        simp [segmentPattern, hs, SegmentPattern.accepts] at this
        exact this
      rw [hx, ih (fun t ht => hc t (by simp [ht])) h.2]

/-- What a request that a public route accepts looks like, for each matching
mode. -/
theorem accepts_cases (h : route.Valid) (hx : (PathExpression route).accepts x = true) :
    (beforePlaceholder route.path = route.path ∧ x = route.path) ∨
      beforePlaceholder route.path ++ [slash] <+: x ∨
      ((beforePlaceholder route.path).getLast? = some slash ∧
        beforePlaceholder route.path <+: x) := by
  unfold PathExpression at hx
  split at hx
  · rename_i hm
    rw [h.beforePlaceholder_eq (by simp [hm])]
    split at hx
    · rename_i hslash
      right
      right
      refine ⟨?_, hasPrefix_iff.mp hx⟩
      rcases hslash with hs | hs
      · rw [hs]
        rfl
      · exact hs
    · simp only [PathMatcher.accepts, or_eq_true, decide_eq_true_eq] at hx
      rcases hx with hx | hx
      · exact .inl ⟨rfl, hx⟩
      · exact .inr (.inl (hasPrefix_iff.mp hx))
  · simp only [PathMatcher.accepts] at hx
    have hcolon : ∀ s ∈ (beforePlaceholder route.path).splitOn slash, colon ∉ s := by
      intro s hs hc
      exact h.colon_notMem (mem_of_mem_splitOn hs hc)
    rcases beforePlaceholder_cases route.path with hp | ⟨rest, hp⟩
    · rw [hp] at hcolon ⊢
      left
      exact ⟨rfl, splitOn_inj (acceptsSegments_literal hcolon hx)⟩
    · right
      left
      rw [splitOn_placeholder hp, map_append] at hx
      obtain ⟨l₁, l₂, hl, h₁, h₂⟩ := acceptsSegments_append hx
      obtain rfl := acceptsSegments_literal hcolon h₁
      apply prefix_of_splitOn _ hl
      rintro rfl
      obtain ⟨a, l, -, hcl⟩ := splitOn_cons_ne (show colon ≠ slash by decide) rest
      simp [acceptsSegments] at h₂
  · rename_i hm
    rw [h.beforePlaceholder_eq (by simp [hm])]
    left
    exact ⟨rfl, by simpa [PathMatcher.accepts] using hx⟩

/-! ## What a route of the resource covers -/

/-- The path without a slash at its end, and the root as it is: what a public
route has to begin with. -/
def stem (base : Bytes) : Bytes :=
  if base = [] || base = [slash] then [slash] else trimSlash base

theorem trimSlash_cases (base : Bytes) :
    trimSlash base = base ∨ base = trimSlash base ++ [slash] := by
  unfold trimSlash
  split
  · rename_i h
    right
    exact (dropLast_append_getLast? _ h).symm
  · exact .inl rfl

theorem stem_append_slash (hq : q ≠ []) : stem (q ++ [slash]) = q := by
  unfold stem trimSlash
  rw [if_neg (by simp [hq]), if_pos (by simp)]
  simp

/-- A path that can be published: an exact route for it passes `Validate`. -/
def Publishable (q : Bytes) : Prop :=
  (Validate ⟨q, ascii "exact", [ascii "GET"], []⟩).isOk = true

instance (q : Bytes) : Decidable (Publishable q) :=
  inferInstanceAs (Decidable (_ = true))

theorem placeholdersOf_nil (h : ∀ s ∈ segments, colon ∉ s) :
    placeholdersOf mode segments = .ok [] := by
  induction segments with
  | nil => rfl
  | cons s segments ih =>
    have hs : hasPrefix s [colon] = false := by
      rw [eq_false_iff, ne_eq, hasPrefix_iff]
      rintro ⟨t, rfl⟩
      exact h ([colon] ++ t) (by simp) (by simp)
    have hc : s.contains colon = false := by
      simpa using h s (by simp)
    rw [placeholdersOf, hs, hc]
    exact ih (fun t ht => h t (by simp [ht]))

/-- A publishable path, once for each mode without placeholders. -/
theorem validate_plain (hm : parseMatch mode = .ok m) (hmt : m ≠ .matchTemplate)
    (hpath : validatePath q = .ok ()) (hcolon : colon ∉ q) :
    Validate ⟨q, mode, [ascii "GET"], []⟩ = .ok ⟨q, m, [ascii "GET"], []⟩ := by
  obtain ⟨s, rfl⟩ := validatePath_cons hpath
  have hseg : ∀ t ∈ s.splitOn slash, colon ∉ t := by
    intro t ht hc
    exact hcolon (mem_cons_of_mem _ (mem_of_mem_splitOn ht hc))
  have hmatch : validateMatchPath (slash :: s) m = .ok [] := by
    simp [validateMatchPath, hasPrefix, placeholdersOf_nil hseg, refuse, hmt,
      bind, Except.bind, pure, Except.pure]
  have hmethods : validateMethods [ascii "GET"] = .ok [ascii "GET"] := by
    decide +kernel
  simp only [Validate, hm, hpath, hmethods, hmatch, bind, Except.bind, pure,
    Except.pure, refuse, validateParameters]
  rfl

theorem publishable_iff : Publishable q ↔ validatePath q = .ok () ∧ colon ∉ q := by
  constructor
  · intro h
    cases hv : Validate ⟨q, ascii "exact", [ascii "GET"], []⟩ with
    | error e => simp [Publishable, hv, Except.isOk, Except.toBool] at h
    | ok route =>
      have hvalid := valid_of_Validate hv
      have hroute : route.path = q ∧ route.mode = .matchExact := by
        obtain ⟨mode, hmode, hv⟩ := bind_ok hv
        obtain ⟨_, -, hv⟩ := bind_ok hv
        obtain ⟨_, -, hv⟩ := bind_ok hv
        obtain ⟨_, -, hv⟩ := bind_ok hv
        obtain ⟨_, -, hv⟩ := bind_ok hv
        cases hv
        exact ⟨rfl, (Except.ok.inj hmode).symm⟩
      have hcolon := hvalid.colon_notMem
      rw [hvalid.beforePlaceholder_eq (by simp [hroute.2]), hroute.1] at hcolon
      exact ⟨hroute.1 ▸ hvalid.path, hcolon⟩
  · rintro ⟨hpath, hcolon⟩
    rw [Publishable, validate_plain rfl (by simp) hpath hcolon]
    rfl

/-- The text is the other one, or goes on from it with a new segment. -/
def Extends (q p : Bytes) : Prop :=
  p = q ∨ q ++ [slash] <+: p

theorem doubleSlash_append (r : Bytes) (h : doubleSlash q = true) :
    doubleSlash (q ++ r) = true := by
  fun_induction doubleSlash q with
  | case1 c d s ih =>
    simp only [or_eq_true, cons_append, doubleSlash] at h ih ⊢
    exact h.imp_right ih
  | case2 s h' => simp at h

/-- The checks of `validatePath` for a path hold for the paths above it. -/
theorem validatePath_of_extends (hq : q ≠ []) (hpq : Extends q p)
    (h : validatePath p = .ok ()) : validatePath q = .ok () := by
  rcases hpq with rfl | ⟨r, rfl⟩
  · exact h
  obtain ⟨-, hlen, hslash, hchars, hctl, hdouble, hdots⟩ :=
    validatePath_iff.mp h
  rw [append_assoc] at hlen hslash hchars hctl hdouble hdots
  apply validatePath_iff.mpr
  refine ⟨hq, ?_, ?_, ?_, ?_, ?_, ?_⟩
  · rw [length_append] at hlen
    omega
  · obtain ⟨c, q, rfl⟩ := exists_cons_of_ne_nil hq
    obtain ⟨t, ht⟩ := hslash
    obtain ⟨rfl, -⟩ := cons.inj ht
    exact ⟨q, rfl⟩
  · intro c hc
    exact hchars c (by simp [hc])
  · intro c hc
    exact hctl c (by simp [hc])
  · rw [eq_false_iff]
    intro hd
    cases (doubleSlash_append _ hd).symm.trans hdouble
  · intro s hs
    apply hdots s
    rw [singleton_append, splitOn_append_cons_self]
    simp [hs]

/-- What a route of the resource covers begins with the stem of its path, so
that the stem can be published. -/
theorem Covers.publishable (h : route.Valid) (hc : Covers base route = true) :
    Publishable (stem base) := by
  unfold Covers at hc
  unfold stem
  split at hc
  · rename_i hbase
    rw [if_pos hbase]
    decide +kernel
  · rename_i hbase
    rw [if_neg hbase]
    simp only [or_eq_true, decide_eq_true_eq, not_or] at hbase
    simp only [or_eq_true, decide_eq_true_eq, hasPrefix_iff] at hc
    have hne : trimSlash base ≠ [] := by
      intro h0
      rcases trimSlash_cases base with hb | hb
      · exact hbase.1 (hb ▸ h0)
      · rw [h0] at hb
        exact hbase.2 hb
    have hcolon : colon ∉ trimSlash base := by
      intro hmem
      apply h.colon_notMem
      rcases hc with hc | ⟨r, hc⟩
      · rw [hc]
        exact hmem
      · rw [← hc]
        simp [hmem]
    have hext : Extends (trimSlash base) route.path := by
      rcases beforePlaceholder_cases route.path with hp | ⟨rest, hp⟩
      · rw [hp] at hc
        exact hc
      · right
        rcases hc with hc | ⟨r, hc⟩
        · refine ⟨colon :: rest, ?_⟩
          rw [hp, hc]
          simp
        · refine ⟨r ++ slash :: colon :: rest, ?_⟩
          rw [hp, ← hc]
          simp
    exact publishable_iff.mpr ⟨validatePath_of_extends hne hext h.path, hcolon⟩

/-- The paths that a public route at `q` accepts and that are not below the
directory `q/`. -/
def Strays (q x : Bytes) : Prop :=
  x = q ∨ (q.getLast? = some slash ∧ q <+: x ∧ ¬ q ++ [slash] <+: x)

/-- A request that a covered public route accepts is below the route of the
resource, unless that ends in a slash and the request strays from it. -/
theorem Covers.cases (h : route.Valid) (hc : Covers base route = true)
    (hx : (PathExpression route).accepts x = true) :
    base <+: x ∨ ∃ q, base = q ++ [slash] ∧ q ≠ [] ∧ Strays q x := by
  obtain ⟨s, hs⟩ := validatePath_cons h.path
  have hstat : beforePlaceholder route.path = [] ∨
      [slash] <+: beforePlaceholder route.path := by
    rcases beforePlaceholder_cases route.path with hp | ⟨rest, hp⟩
    · right
      exact ⟨s, by rw [hp, hs]; rfl⟩
    · cases hb : beforePlaceholder route.path with
      | nil => exact .inl rfl
      | cons c t =>
        right
        rw [hb, hs] at hp
        obtain ⟨rfl, -⟩ := cons.inj hp
        exact ⟨t, rfl⟩
  have hroot : [slash] <+: x := by
    rcases accepts_cases h hx with ⟨-, hx⟩ | hx | ⟨hlast, hx⟩
    · exact ⟨s, by rw [hx, hs]; rfl⟩
    · rcases hstat with hstat | hstat
      · rwa [hstat] at hx
      · exact hstat.trans ((prefix_append _ _).trans hx)
    · rcases hstat with hstat | hstat
      · rw [hstat] at hlast
        cases hlast
      · exact hstat.trans hx
  unfold Covers at hc
  split at hc
  · rename_i hbase
    left
    simp only [or_eq_true, decide_eq_true_eq] at hbase
    rcases hbase with rfl | rfl
    · exact nil_prefix
    · exact hroot
  · rename_i hbase
    simp only [or_eq_true, decide_eq_true_eq, not_or] at hbase
    simp only [or_eq_true, decide_eq_true_eq, hasPrefix_iff] at hc
    have hstatic : beforePlaceholder route.path <+: x := by
      rcases accepts_cases h hx with ⟨hp, hx⟩ | hx | ⟨-, hx⟩
      · exact ⟨[], by rw [hp, hx]; simp⟩
      · exact (prefix_append _ _).trans hx
      · exact hx
    rcases hc with hc | hc
    · rcases trimSlash_cases base with hb | hb
      · left
        rw [← hb, ← hc]
        exact hstatic
      · -- the public route is the directory itself, without its slash
        by_cases hbelow : base <+: x
        · exact .inl hbelow
        · right
          refine ⟨trimSlash base, hb, ?_, ?_⟩
          · intro h0
            rw [h0] at hb
            exact hbase.2 hb
          · rw [hb] at hbelow
            rw [hc] at hstatic
            rcases accepts_cases h hx with ⟨hp, hx⟩ | hx | ⟨hlast, -⟩
            · left
              rw [hx, ← hp, hc]
            · rw [hc] at hx
              exact absurd hx hbelow
            · rw [hc] at hlast
              exact .inr ⟨hlast, hstatic, hbelow⟩
    · -- the public route is below the directory
      left
      rcases trimSlash_cases base with hb | hb
      · rw [hb] at hc
        exact ((prefix_append _ _).trans hc).trans hstatic
      · rw [← hb] at hc
        exact hc.trans hstatic

/-- Where the route of the resource does not end in a slash, a request that a
covered public route accepts is the route or goes on with a new segment. -/
theorem Covers.extends (h : route.Valid) (hc : Covers base route = true)
    (hne : base ≠ []) (hlast : base.getLast? ≠ some slash)
    (hx : (PathExpression route).accepts x = true) : Extends base x := by
  have hslash : base ≠ [slash] := by
    rintro rfl
    exact hlast rfl
  have htrim : trimSlash base = base := by
    rw [trimSlash, if_neg hlast]
  unfold Covers at hc
  rw [if_neg (by simp [hne, hslash])] at hc
  simp only [htrim, or_eq_true, decide_eq_true_eq, hasPrefix_iff] at hc
  rcases hc with hc | hc
  · have hcases := accepts_cases h hx
    rw [hc] at hcases
    rcases hcases with ⟨hp, hx⟩ | hx | ⟨hl, -⟩
    · exact .inl (hx.trans hp.symm)
    · exact .inr hx
    · exact absurd hl hlast
  · right
    rcases accepts_cases h hx with ⟨hp, hx⟩ | hx | ⟨-, hx⟩
    · rw [hx, ← hp]
      exact hc
    · exact hc.trans ((prefix_append _ _).trans hx)
    · exact hc.trans hx

/-! ## Routes without placeholders -/

theorem beforePlaceholder_self (h : colon ∉ p) : beforePlaceholder p = p := by
  rcases beforePlaceholder_cases p with hp | ⟨rest, hp⟩
  · exact hp
  · exfalso
    apply h
    rw [hp]
    simp

theorem covers_stem (hpath : route.path = stem base)
    (hcolon : colon ∉ stem base) : Covers base route = true := by
  rw [Covers, hpath, beforePlaceholder_self hcolon]
  unfold stem
  split <;> simp

/-- A subtree is the path itself and what is below it. -/
theorem subtree_accepts (hmode : route.mode = .matchPrefix)
    (hx : x = route.path ∨ route.path ++ [slash] <+: x ∨
      (route.path.getLast? = some slash ∧ route.path <+: x)) :
    (PathExpression route).accepts x = true := by
  rw [PathExpression, hmode]
  dsimp only
  split
  · apply hasPrefix_iff.mpr
    rcases hx with rfl | hx | ⟨-, hx⟩
    · exact prefix_rfl
    · exact (prefix_append _ _).trans hx
    · exact hx
  · rename_i hslash
    simp only [PathMatcher.accepts, or_eq_true, decide_eq_true_eq, hasPrefix_iff]
    rcases hx with hx | hx | ⟨hlast, -⟩
    · exact .inl hx
    · exact .inr hx
    · exact absurd (.inr hlast) hslash

/-- A subtree at `q` lets through what strays from `q/`. -/
theorem subtree_strays (hmode : route.mode = .matchPrefix)
    (hx : Strays route.path x) : (PathExpression route).accepts x = true := by
  apply subtree_accepts hmode
  rcases hx with hx | ⟨hlast, hx, -⟩
  · exact .inl hx
  · exact .inr (.inr ⟨hlast, hx⟩)

/-- A subtree at the stem of a path lets the path through, with a slash more
at its end. -/
theorem subtree_stem (hmode : route.mode = .matchPrefix) (hpath : route.path = stem base) :
    (PathExpression route).accepts (base ++ [slash]) = true := by
  apply subtree_accepts hmode
  rw [hpath]
  by_cases h0 : base = []
  · left
    rw [h0]
    rfl
  by_cases h1 : base = [slash]
  · right
    right
    rw [h1]
    exact ⟨rfl, [slash], rfl⟩
  · right
    left
    rw [stem, if_neg (by simp [h0, h1])]
    rcases trimSlash_cases base with hb | hb
    · refine ⟨[], ?_⟩
      rw [append_nil, hb]
    · conv => rhs; rw [hb]
      exact prefix_append _ _

/-! ## What a public route declares -/

/-- The path, or what continues it at the boundary of a segment. -/
def Below (q p : Bytes) : Prop :=
  Extends q p ∨ (q.getLast? = some slash ∧ q <+: p)

/-- What a segment of a template stands for. -/
def DeclaresSegment (parameters : List (Bytes × List Bytes)) (segment x : Bytes) : Prop :=
  if hasPrefix segment [colon] then
    match parameters.lookup (segment.drop 1) with
    | some (v :: values) => x ∈ v :: values
    | _ => segmentValue x = true ∧ x ≠ [dot] ∧ x ≠ [dot, dot]
  else x = segment

def Declares (route : Route) (p : Bytes) : Prop :=
  match route.mode with
  | .matchExact => p = route.path
  | .matchPrefix => Below route.path p
  | .matchTemplate =>
    Forall₂ (DeclaresSegment route.parameters) (route.path.splitOn slash) (p.splitOn slash)

/-- A placeholder without values is given as `.` or `..`. -/
def GivenDots (parameters : List (Bytes × List Bytes)) (segment x : Bytes) : Prop :=
  hasPrefix segment [colon] = true ∧ (parameters.lookup (segment.drop 1)).getD [] = [] ∧
    (x = [dot] ∨ x = [dot, dot])

/-- The path fits the template, but that a placeholder is given as dots. -/
def Dotted (route : Route) (p : Bytes) : Prop :=
  route.mode = .matchTemplate ∧
    Forall₂ (fun s x => DeclaresSegment route.parameters s x ∨ GivenDots route.parameters s x)
      (route.path.splitOn slash) (p.splitOn slash) ∧
    ∃ sx ∈ (route.path.splitOn slash).zip (p.splitOn slash), GivenDots route.parameters sx.1 sx.2

theorem segmentPattern_iff : (segmentPattern parameters s).accepts x = true ↔
    DeclaresSegment parameters s x ∨ GivenDots parameters s x := by
  unfold DeclaresSegment GivenDots segmentPattern
  cases hasPrefix s [colon] with
  | false => simp [SegmentPattern.accepts]
  | true =>
    have hdots : (x = [dot] ∨ x = [dot, dot]) → segmentValue x = true := by
      rintro (rfl | rfl) <;> decide
    rcases parameters.lookup (s.drop 1) with _ | _ | ⟨v, values⟩ <;>
      simp [SegmentPattern.accepts] <;> tauto

theorem DeclaresSegment.not_dots (h : DeclaresSegment parameters s x) :
    ¬GivenDots parameters s x := by
  rintro ⟨hcolon, hvalues, hx⟩
  unfold DeclaresSegment at h
  rw [if_pos hcolon] at h
  generalize parameters.lookup (s.drop 1) = values at h hvalues
  rcases values with _ | _ | ⟨v, values⟩ <;> simp_all

theorem acceptsSegments_iff : acceptsSegments (segments.map (segmentPattern parameters)) l = true ↔
    Forall₂ (fun s x => (segmentPattern parameters s).accepts x = true) segments l := by
  induction segments generalizing l with
  | nil => cases l <;> simp [acceptsSegments]
  | cons s segments ih => cases l <;> simp [acceptsSegments, ih]

/-- A route accepts what it declares, and `.` and `..`. -/
theorem accepts_iff (h : route.Valid) : (PathExpression route).accepts p = true ↔
    Declares route p ∨ Dotted route p := by
  cases hmode : route.mode with
  | matchExact => simp [Declares, Dotted, PathExpression, hmode, PathMatcher.accepts]
  | matchPrefix =>
    simp only [Declares, Dotted, hmode, reduceCtorEq, false_and, or_false]
    constructor
    · intro hp
      have hcases := accepts_cases h hp
      rw [h.beforePlaceholder_eq (by simp [hmode])] at hcases
      rcases hcases with ⟨-, hp⟩ | hp | hp
      · exact .inl (.inl hp)
      · exact .inl (.inr hp)
      · exact .inr hp
    · intro hp
      apply subtree_accepts hmode
      rcases hp with (hp | hp) | hp
      · exact .inl hp
      · exact .inr (.inl hp)
      · exact .inr (.inr hp)
  | matchTemplate =>
    simp only [Declares, Dotted, PathExpression, hmode, PathMatcher.accepts,
      acceptsSegments_iff, forall₂_iff_zip, segmentPattern_iff, true_and]
    grind

theorem Dotted.not_declares (h : Dotted route p) : ¬Declares route p := by
  obtain ⟨hmode, -, sx, hmem, hdots⟩ := h
  simp only [Declares, hmode, forall₂_iff_zip]
  exact fun hall => (hall.2 hmem).not_dots hdots

/-- What a covered route accepts is below the route of the resource, but for
what strays from it. -/
theorem Covers.below_iff (h : route.Valid) (habs : [slash] <+: p) (hc : Covers base route = true)
    (hp : (PathExpression route).accepts p = true) :
    Below base p ↔ ¬∃ q, base = q ++ [slash] ∧ q ≠ [] ∧ Strays q p := by
  by_cases hlast : base.getLast? = some slash
  · have hbelow : Below base p ↔ base <+: p := by
      refine ⟨?_, fun hp => .inr ⟨hlast, hp⟩⟩
      rintro ((rfl | hp) | hp)
      · exact prefix_rfl
      · exact (prefix_append _ _).trans hp
      · exact hp.2
    rw [hbelow]
    constructor
    · rintro hp ⟨q, rfl, -, rfl | ⟨-, -, hno⟩⟩
      · exact absurd hp.length_le (by simp)
      · exact hno hp
    · exact (Covers.cases h hc hp).resolve_right
  · refine iff_of_true (.inl ?_) ?_
    · by_cases hne : base = []
      · subst hne
        exact .inr habs
      · exact Covers.extends h hc hne hlast hp
    · rintro ⟨q, rfl, -⟩
      simp at hlast

/-- The matcher of a route accepts what the route declares, and below what
covers it, unless a placeholder is given as `.` or `..`, or a request strays
from a covering route that ends in a slash. -/
theorem matched_iff {raw : RawRoute} {route : Route} (h : Validate raw = .ok route)
    (base p : Bytes) (habs : [slash] <+: p) :
    (((PathExpression route).accepts p = true ↔ Declares route p) ∧
      (Covers base route = true → (PathExpression route).accepts p = true → Below base p)) ↔
    (¬Dotted route p ∧ (Covers base route = true → Declares route p →
      ¬∃ q, base = q ++ [slash] ∧ q ≠ [] ∧ Strays q p)) := by
  have hvalid := valid_of_Validate h
  rw [accepts_iff hvalid]
  have hbelow : Covers base route = true → Declares route p → (Below base p ↔ _) :=
    fun hc hp => Covers.below_iff hvalid habs hc ((accepts_iff hvalid).2 (.inl hp))
  constructor
  · rintro ⟨hdeclares, hin⟩
    refine ⟨fun hdotted => hdotted.not_declares (hdeclares.1 (.inr hdotted)), ?_⟩
    exact fun hc hp => (hbelow hc hp).1 (hin hc (.inl hp))
  · rintro ⟨hdotted, hstrays⟩
    simp only [hdotted, or_false, true_and]
    exact fun hc hp => (hbelow hc hp).2 (hstrays hc hp)

/-- The pages of the users. -/
def usersRoute : Route :=
  ⟨ascii "/users/:id", .matchTemplate, [ascii "GET"], []⟩

theorem validate_usersRoute :
    Validate ⟨ascii "/users/:id", ascii "template", [ascii "GET"], []⟩ = .ok usersRoute := by
  decide +kernel

theorem matched_users : (PathExpression usersRoute).accepts (ascii "/users/7") = true ↔
    Declares usersRoute (ascii "/users/7") := by
  refine ((matched_iff validate_usersRoute [] (ascii "/users/7") (by decide)).2
    ⟨?_, fun _ _ ⟨q, hq, _⟩ => by simp at hq⟩).1
  rintro ⟨-, -, sx, hmem, -, -, hx⟩
  have hplain : ∀ sx ∈ (usersRoute.path.splitOn slash).zip ((ascii "/users/7").splitOn slash),
      ¬(sx.2 = [dot] ∨ sx.2 = [dot, dot]) := by decide +kernel
  exact hplain _ hmem hx

/-- The page of a user that is called `..`. -/
theorem dotted_accepted : (PathExpression usersRoute).accepts (ascii "/users/..") = true ∧
    ¬Declares usersRoute (ascii "/users/..") := by
  refine ⟨by decide +kernel, fun h => ?_⟩
  simp only [Declares, usersRoute, forall₂_iff_zip] at h
  have hid : DeclaresSegment [] (ascii ":id") (ascii "..") := h.2 (by decide +kernel)
  exact hid.not_dots ⟨rfl, rfl, .inr rfl⟩

end Akerdock.Access
