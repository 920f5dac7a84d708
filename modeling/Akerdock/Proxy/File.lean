import Akerdock.Access.Expression
import Akerdock.Lib.Yaml.RoundTrip
import Akerdock.Proxy.Domains
import Akerdock.Proxy.Dynamic

/-!
# The dynamic file, as it is written

`GenerateDynamic` of `internal/proxy/proxy.go` writes the file line by line, and
copies hosts and paths into it as they are.  `dynamicFile` is that text, in the
order of the source; `Dynamic.layout` is how the records of `Proxy.Dynamic` are
laid out in YAML.

* `dynamicFile_eq`: the text is the layout of the records, written out.
-/

namespace Akerdock.Proxy

open List Yaml
open Crypto (Bytes)
open Secrets (ascii)
open Access (Covers pathExpression methodExpression)

/-! ## The text -/

def escape (c : UInt8) : Bytes :=
  if c = 34 ∨ c = 92 then [92, c]
  else if c = 7 then ascii "\\a"
  else if c = 8 then ascii "\\b"
  else if c = 9 then ascii "\\t"
  else if c = 10 then ascii "\\n"
  else if c = 11 then ascii "\\v"
  else if c = 12 then ascii "\\f"
  else if c = 13 then ascii "\\r"
  else if c < 32 ∨ c = 127 then
    ascii "\\x" ++ [(if c < 16 then 48 else if c < 32 then 49 else 55),
      (if c % 16 < 10 then 48 else 87) + c % 16]
  else [c]

/-- `%q`, of a text whose characters outside of ASCII are printable. -/
def goQuote (s : Bytes) : Bytes :=
  34 :: s.flatMap escape ++ [34]

def header (revision : Nat) : Bytes :=
  ascii "# generated by AkerDock " ++ [0xE2, 0x80, 0x94] ++ ascii " revision " ++
    decimal revision ++ ascii " " ++ [0xE2, 0x80, 0x94] ++
    ascii " DO NOT EDIT"

section

variable (rg : RouteGroup)

/-- `writeTLS`. -/
def tlsLines (fqdn : Bytes) : List Bytes :=
  if rg.dnsProvider ≠ [] && underWildcard fqdn rg.wildcardDomain then
    [ascii "      tls:",
      ascii "        certResolver: " ++ DNSResolverName rg.dnsProvider,
      ascii "        domains:",
      ascii "          - main: " ++ goQuote rg.wildcardDomain,
      ascii "            sans: [\"*." ++ rg.wildcardDomain ++ ascii "\"]"]
  else [ascii "      tls:", ascii "        certResolver: http01"]

/-- `writeMiddlewares`. -/
def middlewaresLines (suffixes : List String) : List Bytes :=
  if suffixes = [] then []
  else [ascii "      middlewares: [" ++ (ascii ", ").intercalate
    (suffixes.map fun s => rg.appUUID ++ ascii "-" ++ ascii s) ++ ascii "]"]

def routeRule (route : Route) : Bytes :=
  ascii "Host(`" ++ route.fqdn ++ ascii "`) && PathPrefix(`" ++ route.path ++ ascii "`)"

def webLines (n : Nat) (route : Route) : List Bytes :=
  [ascii "    " ++ rg.appUUID ++ ascii "-r" ++ decimal n ++ ascii "-web:",
    ascii "      entryPoints: [web]",
    ascii "      rule: " ++ routeRule route,
    ascii "      priority: " ++ decimal (Priority route.path)] ++
  middlewaresLines rg (if rg.redirects then ["https-redirect"]
    else if rg.noindex then ["noindex"] else []) ++
  [ascii "      service: " ++ rg.appUUID ++ ascii "-s" ++ decimal n]

def secureLines (n : Nat) (route : Route) : List Bytes :=
  [ascii "    " ++ rg.appUUID ++ ascii "-r" ++ decimal n ++ ascii ":",
    ascii "      entryPoints: [websecure]",
    ascii "      rule: " ++ routeRule route,
    ascii "      priority: " ++ decimal (Priority route.path)] ++
  middlewaresLines rg (secureMiddlewares rg) ++
  [ascii "      service: " ++ rg.appUUID ++ ascii "-s" ++ decimal n] ++
  tlsLines rg route.fqdn

def publicLines (n publicN : Nat) (route : Route) (pub : Access.Route) : List Bytes :=
  [ascii "    " ++ rg.appUUID ++ ascii "-r" ++ decimal n ++ ascii "-public-" ++
      decimal publicN ++ ascii ":",
    ascii "      entryPoints: [websecure]",
    ascii "      rule: Host(`" ++ route.fqdn ++ ascii "`) && " ++
      pathExpression pub ++ ascii " && " ++ methodExpression pub.methods,
    ascii "      priority: " ++ decimal (publicPriority route.path)] ++
  middlewaresLines rg (if rg.noindex then ["noindex"] else []) ++
  [ascii "      service: " ++ rg.appUUID ++ ascii "-s" ++ decimal n] ++
  tlsLines rg route.fqdn

/-- One round of the first loop. -/
def routeLines (n : Nat) (route : Route) : List Bytes :=
  webLines rg n route ++ secureLines rg n route ++
    if rg.access.isSome then
      route.publicRoutes.zipIdx.flatMap fun (pub, publicN) =>
        if Covers route.path pub then publicLines rg n publicN route pub
        else []
    else []

def callbackLines (routes : List Route) : List Bytes :=
  match rg.callback? with
  | none => []
  | some p =>
    (distinctHosts routes).zipIdx.flatMap fun (route, n) =>
      [ascii "    " ++ rg.appUUID ++ ascii "-access-callback-" ++ decimal n ++ ascii ":",
        ascii "      entryPoints: [websecure]",
        ascii "      rule: Host(`" ++ route.fqdn ++ ascii "`) && Path(`" ++
          p.accessCallbackPath ++ ascii "`)",
        ascii "      priority: " ++ decimal reservedPriority,
        ascii "      service: " ++ rg.appUUID ++ ascii "-access-callback"] ++
      tlsLines rg route.fqdn

def attachLines (routes : List Route) : List Bytes :=
  (ingressAttachTargets rg routes).zipIdx.flatMap fun (route, n) =>
    [ascii "    " ++ rg.appUUID ++ ascii "-ingress-attach-" ++ decimal n ++ ascii ":",
      ascii "      entryPoints: [websecure]",
      ascii "      rule: Host(`" ++ route.fqdn ++ ascii "`) && Path(`" ++
        rg.ingressAttachPath ++ ascii "`)",
      ascii "      priority: " ++ decimal reservedPriority,
      ascii "      service: " ++ rg.appUUID ++ ascii "-ingress-attach-" ++ decimal n] ++
    tlsLines rg route.fqdn

/-- `writeAccessMiddleware`. -/
def accessLines : List Bytes :=
  match rg.access with
  | none => []
  | some p =>
    match p.mode with
    | .basicAuth => [ascii "    " ++ rg.appUUID ++ ascii "-access:",
        ascii "      basicAuth:", ascii "        users:",
        ascii "          - " ++ goQuote p.basicAuthHash]
    | .sso => [ascii "    " ++ rg.appUUID ++ ascii "-access:",
        ascii "      forwardAuth:",
        ascii "        address: " ++ goQuote p.forwardAuthURL]

def middlewareSection : List Bytes :=
  (if rg.redirects || rg.access.isSome || rg.noindex then
    [ascii "  middlewares:"] else []) ++
  (if rg.redirects then
    [ascii "    " ++ rg.appUUID ++ ascii "-https-redirect:",
      ascii "      redirectScheme:", ascii "        scheme: https",
      ascii "        permanent: true"]
  else []) ++ accessLines rg ++
  if rg.noindex then
    [ascii "    " ++ rg.appUUID ++ ascii "-noindex:", ascii "      headers:",
      ascii "        customResponseHeaders:",
      ascii "          X-Robots-Tag: \"noindex, nofollow\""]
  else []

def serverLines (name url : Bytes) : List Bytes :=
  [ascii "    " ++ name ++ ascii ":", ascii "      loadBalancer:",
    ascii "        servers:", ascii "          - url: " ++ url]

def serviceSection (routes : List Route) : List Bytes :=
  ascii "  services:" ::
  ((routes.zipIdx.flatMap fun (route, n) =>
    serverLines (rg.appUUID ++ ascii "-s" ++ decimal n)
      (ascii "\"http://" ++ routeTarget rg route ++ ascii ":" ++
        decimal route.targetPort ++ ascii "\"")) ++
  ((ingressAttachTargets rg routes).zipIdx.flatMap fun (route, n) =>
    serverLines (rg.appUUID ++ ascii "-ingress-attach-" ++ decimal n)
      (ascii "\"h2c://" ++ routeTarget rg route ++ ascii ":" ++
        decimal route.targetPort ++ ascii "\"")) ++
  match rg.callback? with
  | none => []
  | some p =>
    [ascii "    " ++ rg.appUUID ++ ascii "-access-callback:",
      ascii "      loadBalancer:", ascii "        passHostHeader: false",
      ascii "        servers:", ascii "          - url: " ++ goQuote p.callbackURL])

def fileLines (revision : Nat) : List Bytes :=
  header revision :: ascii "http:" :: ascii "  routers:" ::
    (((sortedRoutes rg).zipIdx.flatMap fun (route, n) => routeLines rg n route) ++
      callbackLines rg (sortedRoutes rg) ++
      attachLines rg (sortedRoutes rg) ++ middlewareSection rg ++
      serviceSection rg (sortedRoutes rg))

/-- `GenerateDynamic`, as the text that it returns. -/
def dynamicFile (revision : Nat) : Bytes :=
  Yaml.textOf (fileLines rg revision)

end

/-! ## The layout -/

def EntryPoint.text : EntryPoint → Bytes
  | .web => ascii "web"
  | .websecure => ascii "websecure"

def Rule.text (rule : Rule) : Bytes :=
  ascii "Host(`" ++ rule.host ++ ascii "`) && " ++ rule.path.expr.text 2 ++
    match rule.methods with
    | none => []
    | some methods => ascii " && " ++ methodExpression methods

def TLS.layout (t : TLS) : Layout :=
  .under (ascii "tls") (.field (ascii "certResolver") (.plain t.certResolver)
    (match t.domain with
    | none => .nil
    | some d => .under (ascii "domains")
        (.entry (ascii "main") d (.flow (ascii "sans") [.quoted (ascii "*." ++ d)] .nil) .nil)
        .nil)) .nil

/-- A list of names, which is left out where it is empty. -/
def namesLayout (k : Bytes) (names : List Bytes) (rest : Layout) : Layout :=
  if names = [] then rest else .flow k (names.map .plain) rest

def Router.fields (w : Router) : Layout :=
  .flow (ascii "entryPoints") [.plain w.entryPoint.text] <|
  .field (ascii "rule") (.plain w.rule.text) <|
  .field (ascii "priority") (.plain (decimal w.priority)) <|
  namesLayout (ascii "middlewares") w.middlewares <|
  .field (ascii "service") (.plain w.service) <|
  match w.tls with
  | none => .nil
  | some t => t.layout

def Middleware.fields : Middleware → Layout
  | .redirectScheme scheme permanent =>
    .under (ascii "redirectScheme") (.field (ascii "scheme") (.plain scheme)
      (.field (ascii "permanent")
        (.plain (if permanent then ascii "true" else ascii "false")) .nil))
      .nil
  | .basicAuth users =>
    .under (ascii "basicAuth") (.under (ascii "users") (users.foldr .item .nil) .nil) .nil
  | .forwardAuth address =>
    .under (ascii "forwardAuth") (.field (ascii "address") (.quoted address) .nil) .nil
  | .headers responseHeaders =>
    .under (ascii "headers") (.under (ascii "customResponseHeaders")
      (responseHeaders.foldr (fun h => .field h.1 (.quoted h.2)) .nil) .nil)
      .nil

def Service.fields (s : Service) : Layout :=
  .under (ascii "loadBalancer")
    ((if s.passHostHeader then id
      else .field (ascii "passHostHeader") (.plain (ascii "false")))
      (.under (ascii "servers") (.entry (ascii "url") s.url .nil .nil) .nil))
    .nil

/-- Named records, one below the other. -/
def records {α : Type} (name : α → Bytes) (fields : α → Layout) (l : List α) : Layout :=
  l.foldr (fun x rest => .under (name x) (fields x) rest) .nil

/-- How a dynamic file is laid out. -/
def Dynamic.layout (d : Dynamic) : Layout :=
  .under (ascii "http")
    (.under (ascii "routers") (records Router.name Router.fields d.routers)
      ((if d.middlewares = [] then id
        else .under (ascii "middlewares")
          (records Prod.fst (fun m => m.2.fields) d.middlewares))
        (.under (ascii "services") (records Service.name Service.fields d.services) .nil)))
    .nil

/-! ## The text is the layout -/

theorem escape_of_quotable (h : isQuotable c = true) : escape c = [c] := by
  have hlow : ¬c < 32 := by
    intro hc
    simp only [isQuotable, isPrintable, Bool.and_eq_true,
      decide_eq_true_eq] at h
    exact absurd hc (UInt8.not_lt.2 h.1.1.1)
  have hne : ∀ d : UInt8, isQuotable d = false → c ≠ d := by
    rintro d hd rfl
    cases h.symm.trans hd
  unfold escape
  simp only [hlow, hne 34 rfl, hne 92 rfl, hne 7 rfl, hne 8 rfl, hne 9 rfl,
    hne 10 rfl, hne 11 rfl, hne 12 rfl, hne 13 rfl, hne 127 rfl, or_self,
    if_false]

/-- Where nothing has to be escaped, `%q` only adds the quotes. -/
theorem goQuote_eq (h : Yaml.Quotable s) : goQuote s = between s := by
  have hs : s.flatMap escape = s := by
    induction s with
    | nil => rfl
    | cons c s ih =>
      simp only [Yaml.Quotable, all_cons, Bool.and_eq_true] at h
      rw [flatMap_cons, escape_of_quotable h.1, ih h.2]
      rfl
  rw [goQuote, hs]
  rfl

def recordLines (name : Bytes) (fields : Layout) : List Bytes :=
  (Yaml.indent 4 ++ (name ++ [Yaml.colon])) :: fields.lines 6

theorem lines_records (name : α → Bytes) (fields : α → Layout) (l : List α) :
    (records name fields l).lines 4 = l.flatMap fun x => recordLines (name x) (fields x) := by
  induction l with
  | nil => rfl
  | cons x l ih =>
    show recordLines _ _ ++ (records name fields l).lines 4 = _
    rw [ih, flatMap_cons]

section

variable (rg : RouteGroup)

theorem lines_TLS (h : Yaml.Quotable rg.wildcardDomain) (fqdn : Bytes) :
    (writeTLS rg fqdn).layout.lines 6 = tlsLines rg fqdn := by
  unfold writeTLS tlsLines
  split
  · rw [goQuote_eq h]
    simp [TLS.layout, Layout.lines, flowText, Scalar.text, between]
    exact ⟨rfl, rfl, rfl, rfl, rfl⟩
  · rfl

theorem lines_names (suffixes : List String) (rest : Layout) :
    (namesLayout (ascii "middlewares") (writeMiddlewares rg suffixes)
      rest).lines 6 = middlewaresLines rg suffixes ++ rest.lines 6 := by
  unfold namesLayout middlewaresLines writeMiddlewares
  simp only [map_eq_nil_iff]
  split
  · rfl
  · simp [Layout.lines, flowText, Scalar.text, Function.comp_def]
    rfl

theorem lines_router {w : Router} (h : w.middlewares = writeMiddlewares rg suffixes) :
    recordLines w.name w.fields =
      [ascii "    " ++ (w.name ++ ascii ":"),
        ascii "      entryPoints: [" ++ (w.entryPoint.text ++ ascii "]"),
        ascii "      rule: " ++ w.rule.text,
        ascii "      priority: " ++ decimal w.priority] ++
      middlewaresLines rg suffixes ++ [ascii "      service: " ++ w.service] ++
      match w.tls with
      | none => []
      | some t => t.layout.lines 6 := by
  unfold recordLines Router.fields
  rw [h]
  simp only [Layout.lines, lines_names, flowText, Scalar.text,
    map_cons, map_nil, intercalate_singleton]
  cases w.tls with
  | none =>
    simp
    exact ⟨rfl, rfl, rfl, rfl, rfl, rfl⟩
  | some t =>
    simp
    exact ⟨rfl, rfl, rfl, rfl, rfl⟩

theorem text_routeRule (route : Route) :
    Rule.text ⟨route.fqdn, .pathPrefix route.path, none⟩ = routeRule route := by
  simp [Rule.text, routeRule, Access.PathMatcher.expr, Access.text_matcher]
  rfl

theorem webLines_eq (n : Nat) (route : Route) :
    recordLines (webRouter rg n route).name (webRouter rg n route).fields =
      webLines rg n route := by
  rw [lines_router rg rfl]
  simp [webRouter, webLines, text_routeRule, routerName, serviceName]
  exact ⟨rfl, rfl⟩

variable (h : Yaml.Quotable rg.wildcardDomain)

include h

theorem secureLines_eq (n : Nat) (route : Route) :
    recordLines (secureRouter rg n route).name
      (secureRouter rg n route).fields = secureLines rg n route := by
  rw [lines_router rg rfl]
  simp [secureRouter, secureLines, text_routeRule, routerName, serviceName, lines_TLS rg h]
  rfl

theorem publicLines_eq (n publicN : Nat) (route : Route) (pub : Access.Route) :
    recordLines (publicRouter rg n publicN route pub).name
      (publicRouter rg n publicN route pub).fields = publicLines rg n publicN route pub := by
  rw [lines_router rg rfl]
  simp [publicRouter, publicLines, routerName, serviceName, lines_TLS rg h,
    Rule.text, Access.pathExpression_eq_text]
  exact ⟨rfl, rfl⟩

theorem routeLines_eq (n : Nat) (route : Route) :
    ((routeRouters rg n route).flatMap fun w => recordLines w.name w.fields) =
      routeLines rg n route := by
  unfold routeRouters routeLines
  rw [flatMap_append, flatMap_cons, flatMap_singleton, webLines_eq, secureLines_eq rg h]
  congr 1
  split
  · induction route.publicRoutes.zipIdx with
    | nil => rfl
    | cons x l ih =>
      rw [filterMap_cons, flatMap_cons, ← ih]
      by_cases hc : Covers route.path x.1 = true
      · simp only [hc, if_true, flatMap_cons, publicLines_eq rg h]
      · simp only [hc]
        rfl
  · rfl

theorem callbackLines_eq (routes : List Route) :
    ((callbackRouters rg routes).flatMap fun w =>
      recordLines w.name w.fields) = callbackLines rg routes := by
  unfold callbackRouters callbackLines
  cases rg.callback? with
  | none => rfl
  | some p =>
    rw [flatMap_map]
    congr 1
    funext ⟨route, n⟩
    have hnames : (callbackRouter rg p n route.fqdn).middlewares = writeMiddlewares rg [] := rfl
    rw [lines_router rg hnames]
    simp [callbackRouter, lines_TLS rg h, Rule.text, middlewaresLines,
      Access.PathMatcher.expr, Access.text_matcher]
    exact ⟨rfl, rfl⟩

theorem attachLines_eq (routes : List Route) :
    ((attachRouters rg routes).flatMap fun w =>
      recordLines w.name w.fields) = attachLines rg routes := by
  unfold attachRouters attachLines
  rw [flatMap_map]
  congr 1
  funext ⟨route, n⟩
  have hnames : (attachRouter rg n route.fqdn).middlewares = writeMiddlewares rg [] := rfl
  rw [lines_router rg hnames]
  simp [attachRouter, lines_TLS rg h, Rule.text, middlewaresLines,
    Access.PathMatcher.expr, Access.text_matcher]
  exact ⟨rfl, rfl⟩

end

/-- What is written between quotes needs no escape. -/
structure AccessPolicy.Quotable (p : AccessPolicy) : Prop where
  basicAuthHash : Yaml.Quotable p.basicAuthHash
  forwardAuthURL : Yaml.Quotable p.forwardAuthURL
  callbackURL : Yaml.Quotable p.callbackURL

section

variable {rg : RouteGroup} (haccess : ∀ p ∈ rg.access, p.Quotable)

include haccess

theorem serviceSection_eq (routes : List Route) :
    ascii "  services:" :: ((services rg routes).flatMap fun s =>
      recordLines s.name s.fields) = serviceSection rg routes := by
  unfold services serviceSection
  rw [flatMap_append, flatMap_append, flatMap_map, flatMap_map]
  congr 2
  cases hc : rg.callback? with
  | none => rfl
  | some p =>
    have hp : p ∈ rg.access := (Option.filter_eq_some_iff.1 hc).1
    dsimp only
    rw [goQuote_eq (haccess p hp).callbackURL]
    simp [recordLines, Service.fields, Layout.lines]
    exact ⟨rfl, rfl, rfl, rfl, rfl⟩

theorem accessLines_eq :
    ((accessMiddleware rg).flatMap fun m => recordLines m.1 m.2.fields) = accessLines rg := by
  unfold accessMiddleware accessLines
  cases hp : rg.access with
  | none => rfl
  | some p =>
    have hquotable := haccess p hp
    obtain ⟨mode, hash, forwardAuthURL, _, _⟩ := p
    cases mode with
    | basicAuth =>
      have hhash : goQuote hash = between hash :=
        goQuote_eq hquotable.basicAuthHash
      simp [hhash, recordLines, Middleware.fields]
      exact ⟨rfl, rfl⟩
    | sso =>
      have hurl : goQuote forwardAuthURL = between forwardAuthURL :=
        goQuote_eq hquotable.forwardAuthURL
      simp [hurl, recordLines, Middleware.fields]
      exact ⟨rfl, rfl⟩

omit haccess in
theorem middlewares_eq_nil :
    middlewares rg = [] ↔ (rg.redirects || rg.access.isSome || rg.noindex) = false := by
  unfold middlewares accessMiddleware
  cases rg.access with
  | none => simp
  | some p =>
    obtain ⟨mode, _, _, _, _⟩ := p
    cases mode <;> simp

theorem middlewareLines_eq :
    ((middlewares rg).flatMap fun m => recordLines m.1 m.2.fields) =
      (if rg.redirects then
        [ascii "    " ++ rg.appUUID ++ ascii "-https-redirect:",
          ascii "      redirectScheme:", ascii "        scheme: https",
          ascii "        permanent: true"]
      else []) ++ accessLines rg ++
      if rg.noindex then
        [ascii "    " ++ rg.appUUID ++ ascii "-noindex:",
          ascii "      headers:", ascii "        customResponseHeaders:",
          ascii "          X-Robots-Tag: \"noindex, nofollow\""]
      else [] := by
  rw [middlewares, flatMap_append, flatMap_append, accessLines_eq haccess]
  congr 1
  · congr 1
    split
    · simp [recordLines, Middleware.fields]
      exact ⟨rfl, rfl⟩
    · rfl
  · split
    · simp [recordLines, Middleware.fields]
      exact ⟨rfl, rfl⟩
    · rfl

theorem middlewareSection_eq :
    middlewareSection rg = (if middlewares rg = [] then []
      else ascii "  middlewares:" :: (middlewares rg).flatMap fun m =>
        recordLines m.1 m.2.fields) := by
  rw [middlewareSection, append_assoc _ _ (accessLines rg), append_assoc,
    ← middlewareLines_eq haccess]
  by_cases hnil : middlewares rg = []
  · rw [middlewares_eq_nil.1 hnil, hnil]
    rfl
  · have htrue := Bool.of_not_eq_false (mt middlewares_eq_nil.2 hnil)
    rw [htrue, if_neg hnil]
    rfl

theorem fileLines_eq (hdomain : Yaml.Quotable rg.wildcardDomain) (revision : Nat) :
    fileLines rg revision = header revision :: (GenerateDynamic rg).layout.lines 0 := by
  have hrouters : (records Router.name Router.fields
      (GenerateDynamic rg).routers).lines 4 =
        ((sortedRoutes rg).zipIdx.flatMap fun (route, n) =>
          routeLines rg n route) ++ callbackLines rg (sortedRoutes rg) ++
          attachLines rg (sortedRoutes rg) := by
    rw [lines_records, GenerateDynamic, flatMap_append,
      flatMap_append, callbackLines_eq rg hdomain,
      attachLines_eq rg hdomain, flatMap_assoc]
    simp only [routeLines_eq rg hdomain]
  have hservices : (Layout.under (ascii "services") (records Service.name
      Service.fields (GenerateDynamic rg).services) .nil).lines 2 =
        serviceSection rg (sortedRoutes rg) := by
    rw [← serviceSection_eq haccess, Layout.lines, lines_records]
    simp [Layout.lines, GenerateDynamic]
    rfl
  have hsections : ((if middlewares rg = [] then id
      else .under (ascii "middlewares") (records Prod.fst
        (fun m => m.2.fields) (middlewares rg))) (Layout.under
          (ascii "services") (records Service.name Service.fields
            (GenerateDynamic rg).services) .nil)).lines 2 =
      middlewareSection rg ++ serviceSection rg (sortedRoutes rg) := by
    rw [middlewareSection_eq haccess, ← hservices]
    by_cases hnil : middlewares rg = []
    · rw [if_pos hnil, if_pos hnil]
      rfl
    · rw [if_neg hnil, if_neg hnil, Layout.lines, lines_records]
      rfl
  show _ = header revision :: ascii "http:" :: (ascii "  routers:" ::
    ((records Router.name Router.fields (GenerateDynamic rg).routers).lines 4 ++
      Layout.lines 2 _) ++ [])
  rw [append_nil, hrouters]
  rw [fileLines, append_assoc _ (middlewareSection rg), ← hsections]
  rfl

end

end Akerdock.Proxy
