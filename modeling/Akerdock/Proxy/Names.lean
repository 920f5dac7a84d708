import Akerdock.Proxy.Dynamic

/-!
# The names in the dynamic file

The generator numbers its routers and services, after the identifier of the
resource.  No two of a file have the same name.

* `decimal_append_inj` takes a number off the front of a text.
* `nodup_routerNames`, `nodup_serviceNames` and `nodup_middlewareNames`.
-/

namespace Akerdock.Proxy

open List
open Crypto (Bytes)
open Secrets (ascii)
open Access (isDigit Covers)

/-! ## Numbers -/

theorem decimal_eq (n : Nat) :
    decimal n = (Nat.toDigits 10 n).map fun d => UInt8.ofNat d.toNat := by
  unfold decimal ascii
  rw [Nat.toString_eq_ofList_toDigits, String.toList_ofList]

theorem toNat_of_mem_toDigits (h : d ∈ Nat.toDigits 10 n) : 48 ≤ d.toNat ∧ d.toNat ≤ 57 := by
  have hdigit := Nat.isDigit_of_mem_toDigits (by omega) (by omega) h
  simp only [Char.isDigit, Bool.and_eq_true, decide_eq_true_eq] at hdigit
  exact ⟨UInt32.le_iff_toNat_le.1 hdigit.1, UInt32.le_iff_toNat_le.1 hdigit.2⟩

theorem toNat_digit (h : d ∈ Nat.toDigits 10 n) : (UInt8.ofNat d.toNat).toNat = d.toNat := by
  have hd := toNat_of_mem_toDigits h
  rw [UInt8.toNat_ofNat']
  omega

theorem isDigit_of_mem_decimal (h : c ∈ decimal n) : isDigit c = true := by
  rw [decimal_eq] at h
  obtain ⟨d, hd, rfl⟩ := mem_map.1 h
  simp only [isDigit, Bool.and_eq_true, decide_eq_true_eq,
    UInt8.le_iff_toNat_le, toNat_digit hd]
  exact toNat_of_mem_toDigits hd

theorem decimal_ne_nil (n : Nat) : decimal n ≠ [] := by
  rw [decimal_eq]
  intro h
  exact Nat.toDigits_ne_nil (map_eq_nil_iff.1 h)

theorem map_decimal (n : Nat) :
    (decimal n).map (fun c => Char.ofNat c.toNat) = Nat.toDigits 10 n := by
  have hback : ∀ d ∈ Nat.toDigits 10 n, Char.ofNat (UInt8.ofNat d.toNat).toNat = d := by
    intro d hd
    rw [toNat_digit hd, Char.ofNat_toNat]
  rw [decimal_eq, map_map]
  exact (map_congr_left hback).trans (map_id _)

theorem decimal_injective (h : decimal m = decimal n) : m = n := by
  have hdigits : Nat.toDigits 10 m = Nat.toDigits 10 n := by
    rw [← map_decimal, h, map_decimal]
  calc
    m = Nat.ofDigitChars 10 (Nat.toDigits 10 m) 0 :=
      Nat.ofDigitChars_ten_toDigits.symm
    _ = Nat.ofDigitChars 10 (Nat.toDigits 10 n) 0 := by rw [hdigits]
    _ = n := Nat.ofDigitChars_ten_toDigits

/-- A number ends where the digits end. -/
theorem decimal_append_inj (hs : s.head?.all (fun c => !isDigit c) = true)
    (ht : t.head?.all (fun c => !isDigit c) = true)
    (h : decimal m ++ s = decimal n ++ t) : m = n ∧ s = t := by
  have htake : ∀ (k : Nat) (s : Bytes),
      s.head?.all (fun c => !isDigit c) = true →
      (decimal k ++ s).takeWhile isDigit = decimal k := by
    intro k s hs
    rw [takeWhile_append_of_pos fun c hc => isDigit_of_mem_decimal hc]
    cases s with
    | nil => simp
    | cons c s =>
      have hc : isDigit c = false := by simpa using hs
      simp [hc]
  have hdecimal : decimal m = decimal n := by
    rw [← htake m s hs, h, htake n t ht]
  rw [hdecimal] at h
  exact ⟨decimal_injective hdecimal, append_cancel_left h⟩

/-! ## Routers -/

inductive RouteRole where
  | web
  | secure
  | publicRoute (publicN : Nat)

/-- The routers of a file. -/
inductive RouterId where
  | route (n : Nat) (role : RouteRole)
  | callback (n : Nat)
  | attach (n : Nat)

def RouteRole.suffix : RouteRole → Bytes
  | .web => ascii "-web"
  | .secure => []
  | .publicRoute publicN => ascii "-public-" ++ decimal publicN

def RouterId.suffix : RouterId → Bytes
  | .route n role => ascii "-r" ++ (decimal n ++ role.suffix)
  | .callback n => ascii "-access-callback-" ++ decimal n
  | .attach n => ascii "-ingress-attach-" ++ decimal n

theorem RouteRole.suffix_injective {i j : RouteRole} (h : i.suffix = j.suffix) : i = j := by
  -- The second character tells the roles apart.
  have hsecond : (i.suffix.drop 1).head? = (j.suffix.drop 1).head? := by rw [h]
  cases i with
  | web =>
    cases j with
    | web => rfl
    | secure => cases h
    | publicRoute k => exact absurd hsecond (by decide : some _ ≠ some _)
  | secure =>
    cases j with
    | web | publicRoute k => cases h
    | secure => rfl
  | publicRoute k =>
    cases j with
    | web => exact absurd hsecond (by decide : some _ ≠ some _)
    | secure => cases h
    | publicRoute l =>
      have hnumber : decimal k = decimal l := append_cancel_left h
      rw [decimal_injective hnumber]

theorem RouteRole.suffix_head (role : RouteRole) :
    role.suffix.head?.all (fun c => !isDigit c) = true := by
  cases role <;> rfl

theorem RouterId.suffix_injective {i j : RouterId} (h : i.suffix = j.suffix) : i = j := by
  have hsecond : (i.suffix.drop 1).head? = (j.suffix.drop 1).head? := by rw [h]
  cases i with
  | route n role =>
    cases j with
    | route n' role' =>
      obtain ⟨hn, hrole⟩ := decimal_append_inj role.suffix_head
        role'.suffix_head (append_cancel_left h)
      rw [hn, RouteRole.suffix_injective hrole]
    | callback n' | attach n' =>
      exact absurd hsecond (by decide : some _ ≠ some _)
  | callback n =>
    cases j with
    | route n' role' | attach n' =>
      exact absurd hsecond (by decide : some _ ≠ some _)
    | callback n' =>
      rw [decimal_injective (append_cancel_left h)]
  | attach n =>
    cases j with
    | route n' role' | callback n' =>
      exact absurd hsecond (by decide : some _ ≠ some _)
    | attach n' =>
      rw [decimal_injective (append_cancel_left h)]

/-- The routers of the route at index `n`. -/
def routeIds (rg : RouteGroup) (n : Nat) (route : Route) : List RouterId :=
  [.route n .web, .route n .secure] ++
    if rg.access.isSome then
      (route.publicRoutes.zipIdx.filter fun p => Covers route.path p.1).map
        fun p => .route n (.publicRoute p.2)
    else []

def callbackIds (rg : RouteGroup) : List RouterId :=
  if rg.callback?.isSome then
    (distinctHosts (sortedRoutes rg)).zipIdx.map fun p => .callback p.2
  else []

def attachIds (rg : RouteGroup) : List RouterId :=
  (ingressAttachTargets rg (sortedRoutes rg)).zipIdx.map fun p => .attach p.2

/-- The routers of the file. -/
def routerIds (rg : RouteGroup) : List RouterId :=
  ((sortedRoutes rg).zipIdx.flatMap fun p => routeIds rg p.2 p.1) ++
    callbackIds rg ++ attachIds rg

theorem pairwise_zipIdx (l : List α) : l.zipIdx.Pairwise fun p q => p.2 ≠ q.2 := by
  have hnodup : (l.zipIdx.map Prod.snd).Nodup := by
    rw [zipIdx_map_snd]
    exact nodup_range'
  exact pairwise_map.1 hnodup

theorem nodup_map_zipIdx (hf : Function.Injective f) (l : List α) :
    (l.zipIdx.map fun p => f p.2).Nodup := by
  apply pairwise_map.2
  exact (pairwise_zipIdx l).imp fun hne heq => hne (hf heq)

theorem mem_routeIds (h : i ∈ routeIds rg n route) : ∃ role, i = .route n role := by
  unfold routeIds at h
  simp only [mem_append, mem_cons, not_mem_nil, or_false] at h
  rcases h with (rfl | rfl) | h
  · exact ⟨_, rfl⟩
  · exact ⟨_, rfl⟩
  · split at h
    · obtain ⟨p, -, rfl⟩ := mem_map.1 h
      exact ⟨_, rfl⟩
    · cases h

theorem nodup_routeIds (rg : RouteGroup) (n : Nat) (route : Route) :
    (routeIds rg n route).Nodup := by
  unfold routeIds
  split
  · apply nodup_append.2
    refine ⟨by simp, ?_, ?_⟩
    · apply pairwise_map.2
      refine ((pairwise_zipIdx _).filter _).imp ?_
      intro p q hne heq
      simp only [RouterId.route.injEq, RouteRole.publicRoute.injEq] at heq
      exact hne heq.2
    · intro i hi j hj heq
      obtain ⟨p, -, rfl⟩ := mem_map.1 hj
      subst heq
      simp at hi
  · simp

theorem mem_callbackIds (h : i ∈ callbackIds rg) : ∃ n, i = .callback n := by
  unfold callbackIds at h
  split at h
  · obtain ⟨p, -, rfl⟩ := mem_map.1 h
    exact ⟨p.2, rfl⟩
  · cases h

theorem nodup_callbackIds (rg : RouteGroup) : (callbackIds rg).Nodup := by
  unfold callbackIds
  split
  · exact nodup_map_zipIdx (fun _ _ => RouterId.callback.inj) _
  · exact nodup_nil

theorem nodup_routerIds (rg : RouteGroup) : (routerIds rg).Nodup := by
  have hroutes : ((sortedRoutes rg).zipIdx.flatMap fun p =>
      routeIds rg p.2 p.1).Nodup := by
    apply nodup_flatMap.2
    refine ⟨fun p _ => nodup_routeIds rg p.2 p.1, ?_⟩
    refine (pairwise_zipIdx _).imp ?_
    intro p q hne i hp hq
    obtain ⟨role, rfl⟩ := mem_routeIds hp
    obtain ⟨role', heq⟩ := mem_routeIds hq
    exact hne (RouterId.route.inj heq).1
  have hmem : ∀ i ∈ (sortedRoutes rg).zipIdx.flatMap fun p =>
      routeIds rg p.2 p.1, ∃ n role, i = .route n role := by
    intro i hi
    obtain ⟨p, -, hp⟩ := mem_flatMap.1 hi
    exact ⟨p.2, mem_routeIds hp⟩
  have hattach : (attachIds rg).Nodup :=
    nodup_map_zipIdx (fun _ _ => RouterId.attach.inj) _
  apply nodup_append.2
  refine ⟨nodup_append.2 ⟨hroutes, nodup_callbackIds rg, ?_⟩, hattach, ?_⟩
  · intro i hi j hj heq
    obtain ⟨n, role, rfl⟩ := hmem i hi
    obtain ⟨m, rfl⟩ := mem_callbackIds hj
    cases heq
  · intro i hi j hj heq
    obtain ⟨p, -, rfl⟩ := mem_map.1 hj
    rcases mem_append.1 hi with hi | hi
    · obtain ⟨n, role, rfl⟩ := hmem i hi
      cases heq
    · obtain ⟨m, rfl⟩ := mem_callbackIds hi
      cases heq

theorem filterMap_ite (p : α → Bool) (f : α → β) (l : List α) :
    (l.filterMap fun x => if p x then some (f x) else none) = (l.filter p).map f := by
  induction l with
  | nil => rfl
  | cons x l ih =>
    by_cases hx : p x = true
    · rw [filterMap_cons, filter_cons, if_pos hx, if_pos hx]
      simp [ih]
    · rw [filterMap_cons, filter_cons, if_neg hx, if_neg hx, ih]

theorem routeNames_eq (rg : RouteGroup) (n : Nat) (route : Route) :
    (routeRouters rg n route).map Router.name =
      (routeIds rg n route).map fun i => rg.appUUID ++ i.suffix := by
  unfold routeRouters routeIds
  split
  · have hpublic := filterMap_ite (fun p : Access.Route × Nat =>
      Covers route.path p.1) (fun p => publicRouter rg n p.2 route p.1)
      route.publicRoutes.zipIdx
    rw [hpublic]
    simp [webRouter, secureRouter, publicRouter, routerName, RouterId.suffix,
      RouteRole.suffix, Function.comp_def]
  · simp [webRouter, secureRouter, routerName, RouterId.suffix, RouteRole.suffix]

theorem routerNames_eq (rg : RouteGroup) :
    (GenerateDynamic rg).routers.map Router.name =
      (routerIds rg).map fun i => rg.appUUID ++ i.suffix := by
  have hcallbacks : (callbackRouters rg (sortedRoutes rg)).map Router.name =
      (callbackIds rg).map fun i => rg.appUUID ++ i.suffix := by
    unfold callbackRouters callbackIds
    cases rg.callback? with
    | none => rfl
    | some p => simp [callbackRouter, RouterId.suffix, Function.comp_def]
  have hattach : (attachRouters rg (sortedRoutes rg)).map Router.name =
      (attachIds rg).map fun i => rg.appUUID ++ i.suffix := by
    simp [attachRouters, attachIds, attachRouter, RouterId.suffix, Function.comp_def]
  unfold GenerateDynamic routerIds
  simp only [map_append, hcallbacks, hattach, map_flatMap, routeNames_eq]

theorem nodup_routerNames (rg : RouteGroup) :
    ((GenerateDynamic rg).routers.map Router.name).Nodup := by
  rw [routerNames_eq]
  refine (nodup_routerIds rg).map ?_
  intro i j h
  exact RouterId.suffix_injective (append_cancel_left h)

/-! ## Services and middlewares -/

/-- What tells the services of a file apart. -/
inductive ServiceId where
  | route (n : Nat)
  | attach (n : Nat)
  | callback

def ServiceId.suffix : ServiceId → Bytes
  | .route n => ascii "-s" ++ decimal n
  | .attach n => ascii "-ingress-attach-" ++ decimal n
  | .callback => ascii "-access-callback"

theorem ServiceId.suffix_injective {i j : ServiceId} (h : i.suffix = j.suffix) : i = j := by
  have hsecond : (i.suffix.drop 1).head? = (j.suffix.drop 1).head? := by rw [h]
  cases i with
  | route n =>
    cases j with
    | route n' => rw [decimal_injective (append_cancel_left h)]
    | attach n' | callback => exact absurd hsecond (by decide : some _ ≠ some _)
  | attach n =>
    cases j with
    | route n' | callback => exact absurd hsecond (by decide : some _ ≠ some _)
    | attach n' => rw [decimal_injective (append_cancel_left h)]
  | callback =>
    cases j with
    | route n' | attach n' => exact absurd hsecond (by decide : some _ ≠ some _)
    | callback => rfl

def serviceIds (rg : RouteGroup) : List ServiceId :=
  (sortedRoutes rg).zipIdx.map (fun p => .route p.2) ++
    (ingressAttachTargets rg (sortedRoutes rg)).zipIdx.map (fun p => .attach p.2) ++
    if rg.callback?.isSome then [.callback] else []

theorem nodup_serviceIds (rg : RouteGroup) : (serviceIds rg).Nodup := by
  have hroutes := nodup_map_zipIdx (fun _ _ => ServiceId.route.inj) (sortedRoutes rg)
  have hattach := nodup_map_zipIdx (fun _ _ => ServiceId.attach.inj)
    (ingressAttachTargets rg (sortedRoutes rg))
  apply nodup_append.2
  refine ⟨nodup_append.2 ⟨hroutes, hattach, ?_⟩, ?_, ?_⟩
  · intro i hi j hj heq
    obtain ⟨p, -, rfl⟩ := mem_map.1 hi
    obtain ⟨q, -, rfl⟩ := mem_map.1 hj
    cases heq
  · split <;> simp
  · intro i hi j hj heq
    subst heq
    split at hj
    · obtain rfl := mem_singleton.1 hj
      simp at hi
    · cases hj

theorem serviceNames_eq (rg : RouteGroup) :
    (GenerateDynamic rg).services.map Service.name =
      (serviceIds rg).map fun i => rg.appUUID ++ i.suffix := by
  unfold GenerateDynamic services serviceIds
  cases rg.callback? with
  | none | some p => simp [serviceName, ServiceId.suffix, Function.comp_def]

theorem nodup_serviceNames (rg : RouteGroup) :
    ((GenerateDynamic rg).services.map Service.name).Nodup := by
  rw [serviceNames_eq]
  refine (nodup_serviceIds rg).map ?_
  intro i j h
  exact ServiceId.suffix_injective (append_cancel_left h)

def middlewareSuffixes (redirects access noindex : Bool) : List Bytes :=
  (if redirects then [ascii "-https-redirect"] else []) ++
    (if access then [ascii "-access"] else []) ++
    if noindex then [ascii "-noindex"] else []

theorem middlewareNames_eq (rg : RouteGroup) :
    (GenerateDynamic rg).middlewares.map Prod.fst =
      (middlewareSuffixes rg.redirects rg.access.isSome rg.noindex).map
        fun suffix => rg.appUUID ++ suffix := by
  have haccess : (accessMiddleware rg).map Prod.fst =
      (if rg.access.isSome then [ascii "-access"] else []).map
        fun suffix => rg.appUUID ++ suffix := by
    unfold accessMiddleware
    cases rg.access with
    | none => rfl
    | some p =>
      obtain ⟨mode, _, _, _, _⟩ := p
      cases mode <;> rfl
  unfold GenerateDynamic middlewares middlewareSuffixes
  simp only [map_append, haccess]
  cases rg.redirects <;> cases rg.noindex <;> rfl

theorem nodup_middlewareNames (rg : RouteGroup) :
    ((GenerateDynamic rg).middlewares.map Prod.fst).Nodup := by
  have hnodup : ∀ redirects access noindex,
      (middlewareSuffixes redirects access noindex).Nodup := by decide
  rw [middlewareNames_eq]
  refine (hnodup _ _ _).map ?_
  intro s t h
  exact append_cancel_left h

end Akerdock.Proxy
