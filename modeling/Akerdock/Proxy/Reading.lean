import Akerdock.Proxy.File
import Akerdock.Proxy.Names

/-!
# Reading the dynamic file back

The proxy reads the file as YAML, and the rule of each router with its own
grammar.  Hosts are checked by `parseDomain`; paths are not, and they are copied
into a plain scalar of YAML and there into a literal between backticks.

* `Dynamic.layout_ok` and `Dynamic.block_ok`: apart from the paths, everything
  in the file can be written the way it is.
* `clean_plains_iff`: the plain scalars are clean if the paths are.
* `asDeclared_iff`: the file is read as declared exactly if the paths are clean
  and have no backtick.
-/

namespace Akerdock.Proxy

open List Yaml
open Crypto (Bytes)
open Secrets (ascii)
open Access (pathExpression methodExpression isDigit matcher text_matcher dot matcher_ok)
open Rules (tick)

/-! ## What is declared, and what else is set -/

/-- A hexadecimal digit or a hyphen. -/
def isUUIDByte (c : UInt8) : Bool :=
  isDigit c || (97 ≤ c && c ≤ 102) || c = 45

/-- The text of a UUID. -/
def isUUID (s : Bytes) : Bool :=
  (s.splitOn 45).map List.length = [8, 4, 4, 4, 12] && s.all isUUIDByte

/-- The settings of a group other than its domains: the identifier is a UUID,
and what the instance, the server and the components contribute can be written
into the file. -/
structure RouteGroup.Settled (rg : RouteGroup) : Prop where
  appUUID : isUUID rg.appUUID = true
  wildcardDomain : rg.wildcardDomain.all (fun c => isQuotable c && isWordByte c) = true
  dnsProvider : rg.dnsProvider.all isWordByte = true
  endpoint : Quotable rg.endpoint
  endpoints : ∀ route ∈ rg.routes, Quotable route.endpoint
  access : ∀ p ∈ rg.access, p.Quotable ∧ Clean p.callbackPath
  ingressAttachPath : Clean rg.ingressAttachPath
  publicRoutes : ∀ route ∈ rg.routes, ∀ pub ∈ route.publicRoutes,
    Clean (pathExpression pub ++ ascii " && " ++ methodExpression pub.methods)

/-- The host and the path of a route are those of a domain that `parseDomain`
accepts. -/
def Route.Declared (route : Route) : Prop :=
  ∃ lower raw spec, parseDomain lower raw = .ok spec ∧
    route.fqdn = spec.fqdn ∧ route.path = spec.path

/-- What the rule of a route is meant to say. -/
def Route.expr (route : Route) : Rules.Expr :=
  .and (matcher "Host" route.fqdn) (matcher "PathPrefix" route.path)

/-- The file is read as the routers, middlewares and services of the group and
nothing else, and the rule of each route as its host and its path. -/
structure RouteGroup.AsDeclared (rg : RouteGroup) (revision : Nat) : Prop where
  document : Yaml.parse (dynamicFile rg revision) =
    some (GenerateDynamic rg).layout.block
  rules : ∀ route ∈ rg.routes,
    Rules.parse (routeRule route) = some route.expr

/-! ## Words -/

theorem word_append (ha : Word a) (hb : b.all isWordByte = true) : Word (a ++ b) := by
  obtain ⟨c, s, rfl⟩ : ∃ c s, a = c :: s := by
    cases a with
    | nil => cases ha.1
    | cons c s => exact ⟨c, s, rfl⟩
  refine ⟨ha.1, ?_⟩
  rw [all_append, ha.2, hb]
  rfl

theorem forall_byte {P Q : UInt8 → Bool}
    (h : ∀ n < 256, P (UInt8.ofNat n) = true → Q (UInt8.ofNat n) = true)
    (hc : P c = true) : Q c = true :=
  Crypto.forall_byte (P := fun c => P c = true → Q c = true) h c hc

theorem decimal_word (n : Nat) : (decimal n).all isWordByte = true := by
  apply all_eq_true.2
  intro c hc
  exact forall_byte (by decide +kernel) (isDigit_of_mem_decimal hc)

theorem word_decimal (n : Nat) : Word (decimal n) := by
  refine ⟨?_, decimal_word n⟩
  cases hn : decimal n with
  | nil => exact absurd hn (decimal_ne_nil n)
  | cons c s =>
    have hc : c ∈ decimal n := by simp [hn]
    exact forall_byte (Q := isPlainStart) (by decide +kernel) (isDigit_of_mem_decimal hc)

theorem quotable_append (ha : Quotable a) (hb : Quotable b) : Quotable (a ++ b) := by
  unfold Quotable at ha hb ⊢
  rw [all_append, ha, hb]
  rfl

theorem quotable_decimal (n : Nat) : Quotable (decimal n) := by
  apply all_eq_true.2
  intro c hc
  exact forall_byte (by decide +kernel) (isDigit_of_mem_decimal hc)

theorem uuid_spec (h : isUUID s = true) : Word s ∧ Quotable s := by
  simp only [isUUID, Bool.and_eq_true, decide_eq_true_eq, all_eq_true] at h
  have hword : ∀ c ∈ s, (isWordByte c && isQuotable c) = true := by
    intro c hc
    exact forall_byte (P := isUUIDByte)
      (Q := fun c => isWordByte c && isQuotable c) (by decide +kernel) (h.2 c hc)
  have hstart : ∀ c ∈ s, (c = 45 || isPlainStart c) = true := by
    intro c hc
    exact forall_byte (P := isUUIDByte)
      (Q := fun c => c = 45 || isPlainStart c) (by decide +kernel) (h.2 c hc)
  simp only [Bool.and_eq_true, Bool.or_eq_true, decide_eq_true_eq] at hword hstart
  refine ⟨⟨?_, all_eq_true.2 fun c hc => (hword c hc).1⟩,
    all_eq_true.2 fun c hc => (hword c hc).2⟩
  cases s with
  | nil => exact absurd h.1 (by decide)
  | cons c s =>
    have hc : c ≠ 45 := by
      intro hc
      have hlengths := h.1
      rw [hc, ← nil_append (45 :: s), splitOn_append_cons_self] at hlengths
      simp at hlengths
    exact (hstart c mem_cons_self).resolve_left hc

theorem clean_host (h : fqdnFormat s = true) : Clean s ∧ tick ∉ s := by
  have hchar : ∀ c ∈ s, (isWordByte c && c ≠ tick) = true := by
    intro c hc
    have hhost : (isHostByte c || c = 45 || c = dot) = true := by
      simpa [or_assoc] using mem_fqdn h c hc
    exact forall_byte (P := fun c => isHostByte c || c = 45 || c = dot)
      (Q := fun c => isWordByte c && c ≠ tick) (by decide +kernel) hhost
  simp only [Bool.and_eq_true, decide_eq_true_eq] at hchar
  refine ⟨clean_of_word ?_, ?_⟩
  · exact all_eq_true.2 fun c hc => (hchar c hc).1
  · intro ht
    exact (hchar tick ht).2 rfl

/-! ## Rules -/

theorem getLast_matcher (name : String) (s : Bytes) :
    ((matcher name s).text 2).getLast? = some 41 := by
  rw [text_matcher, getLast?_append]
  rfl

theorem getLast_expr (m : Access.PathMatcher) : (m.expr.text 2).getLast? = some 41 := by
  cases m with
  | path p | pathPrefix p | pathRegexp segments => exact getLast_matcher _ _
  | or m₁ m₂ =>
    rw [Access.PathMatcher.expr, Access.text_or_operand, getLast?_append]
    rfl

theorem getLast_methodExpression (methods : List Bytes) :
    (methodExpression methods).getLast? = some 41 := by
  unfold methodExpression
  split
  · rw [getLast?_append]
    rfl
  · rw [getLast?_append]
    rfl

/-- A rule starts with the name of a matcher and ends with a parenthesis. -/
theorem Rule.framed (rule : Rule) : Framed rule.text := by
  have hlast : rule.text.getLast? = some 41 := by
    unfold Rule.text
    cases rule.methods with
    | none => simp [getLast?_append, getLast_expr]
    | some methods => simp [getLast?_append, getLast_methodExpression]
  refine ⟨rfl, ?_⟩
  intro c hc
  cases hlast.symm.trans hc
  decide

theorem clean_tick (a b : Bytes) : Clean (a ++ tick :: b) ↔ Clean a ∧ Clean b :=
  clean_append_cons (by decide) (by decide) a b

/-- After a host that is clean, the rest of a rule decides. -/
theorem clean_host_append (h : Clean host) (rest : Bytes) :
    Clean (ascii "Host(`" ++ host ++ ascii "`) && " ++ rest) ↔
      Clean (ascii ") && " ++ rest) := by
  have hsplit : ascii "Host(`" ++ host ++ ascii "`) && " ++ rest =
      ascii "Host(" ++ tick :: (host ++ tick :: (ascii ") && " ++ rest)) := by
    simp
    rfl
  have hstart : Clean (ascii "Host(") := by decide +kernel
  rw [hsplit, clean_tick, clean_tick]
  exact ⟨fun h' => h'.2.2, fun h' => ⟨hstart, h, h'⟩⟩

theorem clean_rule_iff {rule : Rule} {name : String} {path : Bytes}
    (hhost : Clean rule.host) (hexpr : rule.path.expr = matcher name path)
    (hname : Clean (ascii ") && " ++ ascii name ++ [40]))
    (hmethods : rule.methods = none) : Clean rule.text ↔ Clean path := by
  have hsplit : ascii ") && " ++ (matcher name path).text 2 =
      (ascii ") && " ++ ascii name ++ [40]) ++ tick :: (path ++ tick :: [41]) := by
    rw [text_matcher]
    simp
  have hend : Clean [41] := by decide
  rw [Rule.text, hmethods, List.append_nil, hexpr, clean_host_append hhost, hsplit, clean_tick,
    clean_tick]
  exact ⟨fun h => h.2.1, fun h => ⟨hname, h, hend⟩⟩

theorem pathExpression_start (pub : Access.Route) :
    ∃ start ∈ [ascii "Path(", ascii "PathPrefix(", ascii "PathRegexp(",
      ascii "(Path("], ∃ rest, pathExpression pub = start ++ tick :: rest := by
  unfold pathExpression
  cases pub.mode with
  | matchExact => exact ⟨ascii "Path(", by simp, _, rfl⟩
  | matchTemplate =>
    refine ⟨ascii "PathRegexp(", by simp, ?_⟩
    exact ⟨_, rfl⟩
  | matchPrefix =>
    dsimp only
    split
    · exact ⟨ascii "PathPrefix(", by simp, _, rfl⟩
    · exact ⟨ascii "(Path(", by simp, _, rfl⟩

theorem clean_publicRule (hhost : Clean host)
    (hpub : Clean (pathExpression pub ++ ascii " && " ++ methodExpression pub.methods)) :
    Clean (Rule.text ⟨host, Access.PathExpression pub, some pub.methods⟩) := by
  have hstarts : ∀ start ∈ [ascii "Path(", ascii "PathPrefix(",
      ascii "PathRegexp(", ascii "(Path("],
      Clean (ascii ") && " ++ start) := by decide +kernel
  obtain ⟨start, hstart, rest, hrest⟩ := pathExpression_start pub
  unfold Rule.text
  rw [← Access.pathExpression_eq_text, append_assoc _ (pathExpression pub),
    clean_host_append hhost]
  rw [append_assoc, hrest, append_assoc, cons_append] at hpub
  rw [hrest, append_assoc, cons_append, ← append_assoc]
  exact (clean_tick _ _).2 ⟨hstarts start hstart, ((clean_tick _ _).1 hpub).2⟩

/-! ## Records -/

/-- What YAML asks of a `tls` section. -/
def TLS.Ok (t : TLS) : Prop :=
  Word t.certResolver ∧ ∀ d ∈ t.domain, d.all (fun c => isQuotable c && isWordByte c) = true

theorem TLS.layout_ok {t : TLS} (h : t.Ok) : t.layout.Ok := by
  have hresolver : Framed t.certResolver := h.1.framed
  refine ⟨by decide, ⟨by decide, hresolver, ?_⟩, trivial⟩
  cases hd : t.domain with
  | none => trivial
  | some d =>
    have hd := h.2 d hd
    have hsans : Yaml.FlowOk (.quoted (ascii "*." ++ d)) := by
      show all _ _ = true
      rw [all_append, hd]
      decide
    refine ⟨by decide, ⟨by decide, quotable_of_both hd, ?_, trivial⟩, trivial⟩
    exact ⟨by decide, by simp, by simpa using hsans, trivial⟩

theorem TLS.plains_layout (t : TLS) : t.layout.plains = [t.certResolver] := by
  unfold TLS.layout
  cases t.domain <;> rfl

/-- What YAML asks of a router, apart from the inside of its rule. -/
structure Router.Ok (w : Router) : Prop where
  name : Word w.name
  middlewares : ∀ m ∈ w.middlewares, Word m
  service : Word w.service
  tls : ∀ t ∈ w.tls, t.Ok

theorem namesLayout_ok {rest : Layout} (hl : ∀ m ∈ l, Word m) (hrest : rest.Ok) :
    (namesLayout (ascii "middlewares") l rest).Ok := by
  unfold namesLayout
  split
  · exact hrest
  · rename_i hne
    refine ⟨by decide, by simpa using hne, ?_, hrest⟩
    intro v hv
    obtain ⟨m, hm, rfl⟩ := mem_map.1 hv
    exact hl m hm

theorem Router.fields_ok {w : Router} (h : w.Ok) : w.fields.Ok := by
  refine ⟨by decide, by simp, ?_, by decide, w.rule.framed, by decide,
    (word_decimal _).framed, namesLayout_ok h.middlewares ⟨by decide, h.service.framed, ?_⟩⟩
  · cases w.entryPoint <;> simp [Yaml.FlowOk] <;> decide
  · cases ht : w.tls with
    | none => trivial
    | some t => exact TLS.layout_ok (h.tls t ht)

theorem Router.plains_fields (w : Router) : w.fields.plains =
    [w.rule.text, decimal w.priority, w.service] ++
      match w.tls with
      | none => []
      | some t => [t.certResolver] := by
  unfold Router.fields namesLayout
  split <;> cases w.tls <;> simp [Layout.plains, TLS.plains_layout]

/-- Only the rule may be unclean. -/
theorem Router.plains_clean {w : Router} (h : w.Ok) :
    (∀ s ∈ w.fields.plains, Clean s) ↔ Clean w.rule.text := by
  have hpriority : Clean (decimal w.priority) :=
    clean_of_word (decimal_word _)
  have hservice : Clean w.service := clean_of_word h.service.2
  rw [Router.plains_fields]
  cases ht : w.tls with
  | none => simp [hpriority, hservice]
  | some t =>
    have hresolver : Clean t.certResolver :=
      clean_of_word (h.tls t ht).1.2
    simp [hpriority, hservice, hresolver]

theorem Router.block_ok (w : Router) : w.fields.block.ok = true := by
  unfold Router.fields namesLayout
  split
  · cases w.tls with
    | none => rfl
    | some t =>
      obtain ⟨resolver, domain⟩ := t
      cases domain <;> rfl
  · cases w.tls with
    | none =>
      simp only [Layout.block, Yaml.Block.ok, Yaml.Block.heads,
        Yaml.Block.inner, levelOk_ofItems, inner_ofItems]
      rfl
    | some t =>
      simp only [TLS.layout, Layout.block, Yaml.Block.ok, Yaml.Block.heads,
        Yaml.Block.inner, levelOk_ofItems, inner_ofItems]
      cases t.domain <;> rfl

theorem Service.fields_ok {s : Service} (h : Quotable s.url) : s.fields.Ok := by
  refine ⟨by decide, ?_, trivial⟩
  cases s.passHostHeader with
  | true => exact ⟨by decide, ⟨by decide, h, trivial, trivial⟩, trivial⟩
  | false =>
    exact ⟨by decide, (by decide : Word (ascii "false")).framed, by decide,
      ⟨by decide, h, trivial, trivial⟩, trivial⟩

theorem Service.plains_clean (s : Service) : ∀ t ∈ s.fields.plains, Clean t := by
  have hplains : s.fields.plains =
      if s.passHostHeader then [] else [ascii "false"] := by
    unfold Service.fields
    cases s.passHostHeader <;> rfl
  have hfalse : Clean (ascii "false") := by decide
  rw [hplains]
  cases s.passHostHeader <;> simp [hfalse]

theorem Service.block_ok (s : Service) : s.fields.block.ok = true := by
  unfold Service.fields
  cases s.passHostHeader <;> rfl

/-- What YAML asks of a middleware. -/
structure Middleware.Ok (m : Middleware) : Prop where
  fields : m.fields.Ok
  plains : ∀ s ∈ m.fields.plains, Clean s
  block : m.fields.block.ok = true

theorem redirect_ok : (Middleware.redirectScheme (ascii "https") true).Ok := by
  have hhttps : Word (ascii "https") := by decide
  have htrue : Word (ascii "true") := by decide
  refine ⟨?_, by decide +kernel, by decide⟩
  exact ⟨by decide, ⟨by decide, hhttps.framed, by decide, htrue.framed,
    trivial⟩, trivial⟩

theorem noindex_ok : (Middleware.headers
    [(ascii "X-Robots-Tag", ascii "noindex, nofollow")]).Ok := by
  refine ⟨?_, by decide +kernel, by decide⟩
  exact ⟨by decide, ⟨by decide, ⟨by decide, by decide, trivial⟩, trivial⟩,
    trivial⟩

section Lists

variable {α : Type}

theorem records_ok (h : ∀ x ∈ l, Word (name x) ∧ (fields x).Ok) : (records name fields l).Ok := by
  induction l with
  | nil => trivial
  | cons x l ih =>
    have hx := h x mem_cons_self
    exact ⟨hx.1, hx.2, ih fun y hy => h y (mem_cons_of_mem x hy)⟩

theorem plains_records : (records name fields l).plains = l.flatMap fun x => (fields x).plains := by
  induction l with
  | nil => rfl
  | cons x l ih =>
    rw [flatMap_cons, ← ih]
    rfl

theorem heads_records : (records name fields l).block.heads = (l.map name).map .key := by
  induction l with
  | nil => rfl
  | cons x l ih =>
    rw [map_cons, map_cons, ← ih]
    rfl

theorem inner_records (h : ∀ x ∈ l, (fields x).block.ok = true) :
    (records name fields l).block.inner = true := by
  induction l with
  | nil => rfl
  | cons x l ih =>
    have hx := h x mem_cons_self
    have hl := ih fun y hy => h y (mem_cons_of_mem x hy)
    show ((fields x).block.ok && (records name fields l).block.inner) = true
    rw [hx, hl]
    rfl

theorem records_block_ok (hnames : (l.map name).Nodup)
    (h : ∀ x ∈ l, (fields x).block.ok = true) :
    (records name fields l).block.ok = true := by
  rw [Yaml.Block.ok, heads_records, levelOk_keys hnames, inner_records h]
  rfl

end Lists

/-! ## The file -/

theorem RouterId.suffix_word (i : RouterId) : i.suffix.all isWordByte = true := by
  have hrole : ∀ role : RouteRole, role.suffix.all isWordByte = true := by
    intro role
    cases role with
    | web | secure => decide
    | publicRoute k =>
      rw [RouteRole.suffix, all_append, decimal_word]
      decide
  cases i with
  | route n role =>
    rw [RouterId.suffix, all_append, all_append, decimal_word, hrole]
    decide
  | callback n | attach n =>
    rw [RouterId.suffix, all_append, decimal_word]
    decide

theorem ServiceId.suffix_word (i : ServiceId) : i.suffix.all isWordByte = true := by
  cases i with
  | route n | attach n =>
    rw [ServiceId.suffix, all_append, decimal_word]
    decide
  | callback => decide

section File

variable {rg : RouteGroup} (hrg : rg.Settled)

include hrg

theorem word_name (h : suffix.all isWordByte = true) : Word (rg.appUUID ++ suffix) :=
  word_append (uuid_spec hrg.appUUID).1 h

theorem quotable_target (h : route ∈ rg.routes) : Quotable (routeTarget rg route) := by
  unfold routeTarget
  split
  · exact hrg.endpoints route h
  · split
    · exact hrg.endpoint
    · exact (uuid_spec hrg.appUUID).2

omit hrg in
theorem mem_ingressAttachTargets (h : route ∈ ingressAttachTargets rg (sortedRoutes rg)) :
    route ∈ rg.routes := by
  unfold ingressAttachTargets at h
  split at h
  · cases h
  · exact mem_sortedRoutes.1 (distinctHosts_subset h)

theorem writeTLS_ok (fqdn : Bytes) : (writeTLS rg fqdn).Ok := by
  unfold writeTLS
  split
  · refine ⟨word_append (by decide) hrg.dnsProvider, ?_⟩
    intro d hd
    cases hd
    exact hrg.wildcardDomain
  · exact ⟨by decide, by simp⟩

theorem writeMiddlewares_ok (h : suffixes ⊆ ["https-redirect", "access", "noindex"]) :
    ∀ m ∈ writeMiddlewares rg suffixes, Word m := by
  have hword : ∀ s ∈ ["https-redirect", "access", "noindex"],
      (ascii s).all isWordByte = true := by decide +kernel
  intro m hm
  obtain ⟨s, hs, rfl⟩ := mem_map.1 hm
  rw [append_assoc]
  apply word_name hrg
  rw [all_append, hword s (h hs)]
  decide

theorem word_serviceName (n : Nat) : Word (serviceName rg n) := by
  rw [serviceName, append_assoc]
  apply word_name hrg
  rw [all_append, decimal_word]
  decide

theorem word_routerName (h : w ∈ (GenerateDynamic rg).routers) : Word w.name := by
  have hname := mem_map_of_mem (f := Router.name) h
  rw [routerNames_eq] at hname
  obtain ⟨i, -, hi⟩ := mem_map.1 hname
  rw [← hi]
  exact word_name hrg i.suffix_word

theorem router_ok {w : Router} (h : w ∈ (GenerateDynamic rg).routers) : w.Ok := by
  have htls : ∀ fqdn, ∀ t ∈ some (writeTLS rg fqdn), t.Ok := by
    intro fqdn t ht
    cases ht
    exact writeTLS_ok hrg fqdn
  have hname := word_routerName hrg h
  rcases mem_routers h with ⟨n, r, -, rfl | rfl | ⟨k, pub, -, -, rfl⟩⟩ |
    ⟨n, r, -, p, -, rfl⟩ | ⟨n, r, -, -, rfl⟩
  · refine ⟨hname, ?_, word_serviceName hrg n, by simp [webRouter]⟩
    apply writeMiddlewares_ok hrg
    split
    · simp
    · split <;> simp
  · refine ⟨hname, ?_, word_serviceName hrg n, htls r.fqdn⟩
    apply writeMiddlewares_ok hrg
    unfold secureMiddlewares
    split <;> split <;> simp
  · refine ⟨hname, ?_, word_serviceName hrg n, htls r.fqdn⟩
    apply writeMiddlewares_ok hrg
    split <;> simp
  · exact ⟨hname, by simp [callbackRouter], word_name hrg (by decide), htls r.fqdn⟩
  · refine ⟨hname, by simp [attachRouter], ?_, htls r.fqdn⟩
    show Word (rg.appUUID ++ ascii "-ingress-attach-" ++ decimal n)
    rw [append_assoc]
    exact word_name hrg (RouterId.attach n).suffix_word

theorem clean_rules_iff (hroutes : ∀ route ∈ rg.routes, route.Declared) :
    (∀ w ∈ (GenerateDynamic rg).routers, Clean w.rule.text) ↔
      ∀ route ∈ rg.routes, Clean route.path := by
  have hhost : ∀ route ∈ rg.routes, Clean route.fqdn := by
    intro route hr
    obtain ⟨lower, raw, spec, hspec, hfqdn, -⟩ := hroutes route hr
    rw [hfqdn]
    exact (clean_host (fqdnFormat_of_parseDomain hspec)).1
  have hroute : ∀ route ∈ rg.routes,
      (Clean (Rule.text ⟨route.fqdn, .pathPrefix route.path, none⟩) ↔ Clean route.path) := by
    intro route hr
    exact clean_rule_iff (hhost route hr) rfl (by decide +kernel) rfl
  have hpath : ∀ route ∈ rg.routes, ∀ path, Clean path →
      Clean (Rule.text ⟨route.fqdn, .path path, none⟩) := by
    intro route hr path hp
    exact (clean_rule_iff (hhost route hr) rfl (by decide +kernel) rfl).2 hp
  constructor
  · intro h route hr
    obtain ⟨n, hn⟩ := secureRouter_mem hr
    exact (hroute route hr).1 (h _ hn)
  · intro h w hw
    rcases mem_routers hw with ⟨n, r, hr, rfl | rfl | ⟨k, pub, hpub, -, rfl⟩⟩ |
      ⟨n, r, hr, p, hp, rfl⟩ | ⟨n, r, hr, -, rfl⟩
    · exact (hroute r hr).2 (h r hr)
    · exact (hroute r hr).2 (h r hr)
    · exact clean_publicRule (hhost r hr) (hrg.publicRoutes r hr pub hpub)
    · have haccess : p ∈ rg.access := (Option.filter_eq_some_iff.1 hp).1
      apply hpath r hr
      unfold AccessPolicy.accessCallbackPath
      split
      · decide +kernel
      · exact (hrg.access p haccess).2
    · exact hpath r hr _ hrg.ingressAttachPath

theorem access_ok (h : m ∈ accessMiddleware rg) : m.2.Ok := by
  unfold accessMiddleware at h
  cases hp : rg.access with
  | none =>
    rw [hp] at h
    cases h
  | some p =>
    have hquotable := (hrg.access p hp).1
    rw [hp] at h
    obtain ⟨mode, hash, forwardAuthURL, _, _⟩ := p
    cases mode with
    | basicAuth =>
      obtain rfl := mem_singleton.1 h
      refine ⟨⟨by decide, ⟨by decide, ?_, trivial⟩, trivial⟩, ?_, rfl⟩
      · exact ⟨hquotable.basicAuthHash, trivial⟩
      · intro s hs
        cases hs
    | sso =>
      obtain rfl := mem_singleton.1 h
      refine ⟨⟨by decide, ⟨by decide, ?_, trivial⟩, trivial⟩, ?_, rfl⟩
      · exact hquotable.forwardAuthURL
      · intro s hs
        cases hs

theorem middleware_ok {m : Bytes × Middleware} (h : m ∈ middlewares rg) : Word m.1 ∧ m.2.Ok := by
  constructor
  · have hsuffixes : ∀ redirects access noindex,
        ∀ s ∈ middlewareSuffixes redirects access noindex,
          s.all isWordByte = true := by decide +kernel
    have hname := mem_map_of_mem (f := Prod.fst) h
    rw [show (middlewares rg).map Prod.fst = _ from middlewareNames_eq rg] at hname
    obtain ⟨suffix, hsuffix, hm⟩ := mem_map.1 hname
    rw [← hm]
    exact word_name hrg (hsuffixes _ _ _ suffix hsuffix)
  · unfold middlewares at h
    simp only [mem_append] at h
    rcases h with (h | h) | h
    · split at h
      · obtain rfl := mem_singleton.1 h
        exact redirect_ok
      · cases h
    · exact access_ok hrg h
    · split at h
      · obtain rfl := mem_singleton.1 h
        exact noindex_ok
      · cases h

theorem service_ok (h : s ∈ (GenerateDynamic rg).services) : Word s.name ∧ Quotable s.url := by
  have hname : Word s.name := by
    have hname := mem_map_of_mem (f := Service.name) h
    rw [serviceNames_eq] at hname
    obtain ⟨i, -, hi⟩ := mem_map.1 hname
    rw [← hi]
    exact word_name hrg i.suffix_word
  have htarget : ∀ scheme, Quotable scheme → ∀ route ∈ rg.routes,
      Quotable (scheme ++ routeTarget rg route ++ ascii ":" ++ decimal route.targetPort) := by
    intro scheme hscheme route hr
    have hcolon : Quotable (ascii ":") := by decide
    exact quotable_append (quotable_append (quotable_append hscheme
      (quotable_target hrg hr)) hcolon) (quotable_decimal _)
  refine ⟨hname, ?_⟩
  simp only [GenerateDynamic, services, mem_append] at h
  rcases h with (h | h) | h
  · obtain ⟨⟨route, n⟩, hr, rfl⟩ := mem_map.1 h
    exact htarget _ (by decide) route (mem_sortedRoutes.1 (fst_mem_of_mem_zipIdx hr))
  · obtain ⟨⟨route, n⟩, hr, rfl⟩ := mem_map.1 h
    exact htarget _ (by decide) route (mem_ingressAttachTargets (fst_mem_of_mem_zipIdx hr))
  · cases hp : rg.callback? with
    | none =>
      rw [hp] at h
      cases h
    | some p =>
      rw [hp] at h
      obtain rfl := mem_singleton.1 h
      exact (hrg.access p (Option.filter_eq_some_iff.1 hp).1).1.callbackURL

theorem Dynamic.layout_ok : (GenerateDynamic rg).layout.Ok := by
  have hrouters : (records Router.name Router.fields (GenerateDynamic rg).routers).Ok :=
    records_ok fun w hw => ⟨(router_ok hrg hw).name, Router.fields_ok (router_ok hrg hw)⟩
  have hmiddlewares : (records Prod.fst (fun m => m.2.fields)
      (GenerateDynamic rg).middlewares).Ok :=
    records_ok fun m hm =>
      ⟨(middleware_ok hrg hm).1, (middleware_ok hrg hm).2.fields⟩
  have hservices : (records Service.name Service.fields (GenerateDynamic rg).services).Ok :=
    records_ok fun s hs =>
      ⟨(service_ok hrg hs).1, Service.fields_ok (service_ok hrg hs).2⟩
  refine ⟨by decide, ⟨by decide, hrouters, ?_⟩, trivial⟩
  split
  · exact ⟨by decide, hservices, trivial⟩
  · exact ⟨by decide, hmiddlewares, by decide, hservices, trivial⟩

theorem Dynamic.block_ok : (GenerateDynamic rg).layout.block.ok = true := by
  have hrouters : (records Router.name Router.fields
      (GenerateDynamic rg).routers).block.ok = true :=
    records_block_ok (nodup_routerNames rg) fun w _ => w.block_ok
  have hmiddlewares : (records Prod.fst (fun m => m.2.fields)
      (GenerateDynamic rg).middlewares).block.ok = true :=
    records_block_ok (nodup_middlewareNames rg) fun m hm =>
      (middleware_ok hrg hm).2.block
  have hservices : (records Service.name Service.fields
      (GenerateDynamic rg).services).block.ok = true :=
    records_block_ok (nodup_serviceNames rg) fun s _ => s.block_ok
  have hlevel : ∀ b : Yaml.Block, b.ok = true → levelOk b.heads = true ∧ b.inner = true := by
    intro b hb
    rwa [Yaml.Block.ok, Bool.and_eq_true] at hb
  obtain ⟨hr, hr'⟩ := hlevel _ hrouters
  obtain ⟨hm, hm'⟩ := hlevel _ hmiddlewares
  obtain ⟨hs, hs'⟩ := hlevel _ hservices
  unfold Dynamic.layout
  split
  · simp only [Layout.block, id, Yaml.Block.ok, Yaml.Block.heads,
      Yaml.Block.inner, hr, hr', hs, hs']
    rfl
  · simp only [Layout.block, Yaml.Block.ok, Yaml.Block.heads,
      Yaml.Block.inner, hr, hr', hm, hm', hs, hs']
    rfl

theorem clean_plains_iff (hroutes : ∀ route ∈ rg.routes, route.Declared) :
    (∀ s ∈ (GenerateDynamic rg).layout.plains, Clean s) ↔
      ∀ route ∈ rg.routes, Clean route.path := by
  have hrouters : (∀ s ∈ (records Router.name Router.fields
      (GenerateDynamic rg).routers).plains, Clean s) ↔
        ∀ w ∈ (GenerateDynamic rg).routers, Clean w.rule.text := by
    rw [plains_records, forall_mem_flatMap]
    exact forall₂_congr fun w hw => Router.plains_clean (router_ok hrg hw)
  have hmiddlewares : ∀ s ∈ (records Prod.fst (fun m => m.2.fields)
      (GenerateDynamic rg).middlewares).plains, Clean s := by
    rw [plains_records, forall_mem_flatMap]
    exact fun m hm => (middleware_ok hrg hm).2.plains
  have hservices : ∀ s ∈ (records Service.name Service.fields
      (GenerateDynamic rg).services).plains, Clean s := by
    rw [plains_records, forall_mem_flatMap]
    exact fun s _ => s.plains_clean
  rw [← clean_rules_iff hrg hroutes, ← hrouters]
  unfold Dynamic.layout
  split
  · simp only [Layout.plains, id, append_nil, forall_mem_append]
    exact and_iff_left hservices
  · simp only [Layout.plains, append_nil, forall_mem_append]
    exact and_iff_left ⟨hmiddlewares, hservices⟩

end File

theorem header_comment (revision : Nat) : Yaml.Comment (header revision) := by
  let before := ascii "# generated by AkerDock " ++ [0xE2, 0x80, 0x94] ++ ascii " revision"
  let after := [0xE2, 0x80, 0x94] ++ ascii " DO NOT EDIT"
  have hsplit : header revision = before ++ 32 :: (decimal revision ++ 32 :: after) := by
    simp [header, before, after]
    rfl
  have hdecimal : (decimal revision).all isPrintable = true :=
    printable_of_word (decimal_word revision)
  refine ⟨rfl, ?_, ?_⟩
  · have hbefore : readable before = true := by decide +kernel
    have hafter : readable (32 :: after) = true := by decide +kernel
    rw [hsplit, readable_append_of_readable hbefore,
      readable_cons (by decide), readable_append hdecimal, hafter]
  · have hspace : ∀ w ∈ breaks, (32 : UInt8) ∉ w := by decide
    have hbefore : Yaml.Lacks breaks before := by decide +kernel
    have hafter : Yaml.Lacks breaks after := by decide +kernel
    rw [hsplit, lacks_append_cons hspace, lacks_append_cons hspace]
    exact ⟨hbefore, lacks_breaks_of_printable hdecimal, hafter⟩

/-! ## Reading the rules -/

theorem routeRule_eq_text (route : Route) : routeRule route = route.expr.text 0 := by
  have htext : route.expr.text 0 = (matcher "Host" route.fqdn).text 2 ++
      [32, 38, 38, 32] ++ (matcher "PathPrefix" route.path).text 2 := by
    simp [Route.expr, Rules.Expr.text, Rules.Expr.tokens, Rules.wrap, Rules.Token.text, matcher]
  rw [htext, text_matcher, text_matcher]
  simp [routeRule]
  rfl

/-- The rule of a route is read as it is meant exactly if its path has no
backtick. -/
theorem parse_routeRule_iff (hfqdn : tick ∉ route.fqdn) :
    Rules.parse (routeRule route) = some route.expr ↔ tick ∉ route.path := by
  constructor
  · intro h
    have hmem : route.path ∈ route.expr.literals := by
      simp [Route.expr, Rules.Expr.literals, matcher]
    exact Rules.not_mem_of_parse h hmem
  · intro hpath
    rw [routeRule_eq_text]
    refine Rules.parse_text ?_ (Nat.zero_le 2)
    exact ⟨matcher_ok (by decide) hfqdn, matcher_ok (by decide) hpath⟩

/-- The file of a group with declared domains is read as declared, if and only
if the paths are clean and have no backtick. -/
theorem asDeclared_iff {rg : RouteGroup} (hrg : rg.Settled)
    (hroutes : ∀ route ∈ rg.routes, route.Declared) (revision : Nat) :
    rg.AsDeclared revision ↔ ∀ route ∈ rg.routes, Clean route.path ∧ tick ∉ route.path := by
  have hlines := fileLines_eq (fun p hp => (hrg.access p hp).1)
    (quotable_of_both hrg.wildcardDomain) revision
  have hdocument : parse (dynamicFile rg revision) =
      some (GenerateDynamic rg).layout.block ↔ ∀ route ∈ rg.routes, Clean route.path := by
    rw [dynamicFile, hlines, parse_text_iff (header_comment revision)
      (Dynamic.layout_ok hrg) (Dynamic.block_ok hrg)]
    exact clean_plains_iff hrg hroutes
  have hrules : ∀ route ∈ rg.routes,
      (Rules.parse (routeRule route) = some route.expr ↔ tick ∉ route.path) := by
    intro route hr
    obtain ⟨lower, raw, spec, hspec, hfqdn, -⟩ := hroutes route hr
    apply parse_routeRule_iff
    rw [hfqdn]
    exact (clean_host (fqdnFormat_of_parseDomain hspec)).2
  constructor
  · intro h route hr
    exact ⟨hdocument.1 h.document route hr, (hrules route hr).1 (h.rules route hr)⟩
  · intro h
    exact ⟨hdocument.2 fun route hr => (h route hr).1,
      fun route hr => (hrules route hr).2 (h route hr).2⟩

/-- A resource behind an access wall, with two domains and a public route. -/
def shopGroup : RouteGroup where
  appUUID := ascii "6f1c2a9e-04b7-4d2e-9a51-c3d8e7f60b12"
  wildcardDomain := ascii "example.com"
  dnsProvider := ascii "cloudflare"
  endpoint := []
  routes := [
    ⟨ascii "shop.example.com", ascii "/", 8080, [],
      [⟨ascii "/hooks", .matchPrefix, [ascii "GET", ascii "POST"], []⟩]⟩,
    ⟨ascii "shop.example.com", ascii "/caf" ++ [0xC3, 0xA9], 8081, ascii "6f1c2a9e-cafe", []⟩]
  forceHTTPS := false
  access := some ⟨.sso, [], ascii "http://akerdock:3000/verify",
    ascii "http://akerdock:3000", []⟩
  noindex := true
  ingressAttachPath := []

theorem asDeclared_shopGroup :
    (∀ route ∈ shopGroup.routes, Clean route.path ∧ tick ∉ route.path) ∧
      shopGroup.AsDeclared 7 := by
  have hpaths : ∀ route ∈ shopGroup.routes,
      Clean route.path ∧ tick ∉ route.path := by decide +kernel
  have hsettled : shopGroup.Settled := by
    refine ⟨by decide +kernel, by decide +kernel, by decide +kernel,
      by decide +kernel, by decide +kernel, ?_, by decide +kernel,
      by decide +kernel⟩
    intro p hp
    cases hp
    exact ⟨⟨by decide +kernel, by decide +kernel, by decide +kernel⟩,
      by decide +kernel⟩
  have hdeclared : ∀ route ∈ shopGroup.routes, route.Declared := by
    intro route hr
    simp only [shopGroup, mem_cons, not_mem_nil, or_false] at hr
    rcases hr with rfl | rfl
    · exact ⟨id, ascii "https://Shop.example.com",
        ⟨ascii "shop.example.com", ascii "/", none⟩, by decide +kernel, rfl, rfl⟩
    · exact ⟨id, ascii "shop.example.com/caf" ++ [0xC3, 0xA9],
        ⟨ascii "shop.example.com", ascii "/caf" ++ [0xC3, 0xA9], none⟩,
        by decide +kernel, rfl, rfl⟩
  exact ⟨hpaths, (asDeclared_iff hsettled hdeclared 7).2 hpaths⟩

/-- The route of a domain whose path ends its literal. -/
def strayRoute : Route where
  fqdn := ascii "a.example.com"
  path := ascii "/x`) || host(`victim.example.com"
  targetPort := 80
  endpoint := []
  publicRoutes := []

def strayGroup : RouteGroup where
  appUUID := ascii "6f1c2a9e-04b7-4d2e-9a51-c3d8e7f60b12"
  wildcardDomain := []
  dnsProvider := []
  endpoint := []
  routes := [strayRoute]
  forceHTTPS := true
  access := none
  noindex := false
  ingressAttachPath := []

/-- The domain is accepted, and the rule of its route matches every request for
another host. -/
theorem strayGroup_matches_victim :
    parseDomain id (ascii "a.example.com/x`) || host(`victim.example.com") =
        .ok ⟨strayRoute.fqdn, strayRoute.path, none⟩ ∧
      strayGroup.Settled ∧
      Rules.parse (routeRule strayRoute) = some (.or
        (.and (matcher "Host" (ascii "a.example.com")) (matcher "PathPrefix" (ascii "/x")))
        (matcher "host" (ascii "victim.example.com"))) ∧
      ¬strayGroup.AsDeclared 1 := by
  refine ⟨by decide +kernel, ?_, by decide +kernel, ?_⟩
  · refine ⟨by decide +kernel, by decide +kernel, by decide +kernel,
      by decide +kernel, by decide +kernel, ?_, by decide +kernel,
      by decide +kernel⟩
    intro p hp
    cases hp
  · intro h
    have hrule := h.rules strayRoute mem_cons_self
    exact absurd hrule (by decide +kernel)

end Akerdock.Proxy
