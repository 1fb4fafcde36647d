import ApiGateway.Core.Http

/-!
# Gateway configuration

The configuration record and its validation.  Structure defaults are the serde
defaults of the source.  Listen addresses and health-check settings are not read
by anything modelled here and are left out.

`validate_eq_ok_iff` states exactly which configurations validation accepts; the
rest of the development uses `Valid` and never unfolds `validate`.
-/

namespace ApiGateway
namespace Core

open Library

inductive Strategy where
  | roundRobin
  | leastConnections
  deriving DecidableEq, Repr

/-- Per-route authentication policy. -/
inductive AuthPolicy where
  | none
  | apiKey (keys : List String)
  | jwt (secret : String) (requiredClaims : StringMap String)

inductive RateScope where
  | ip
  | apiKey
  | route
  deriving DecidableEq, Repr

structure RateLimitConfig where
  scope : RateScope := .ip
  limit : UInt32
  windowSecs : UInt64 := 60

structure CacheConfig where
  ttlSecs : UInt64
  maxEntries : Nat := 1024

structure CircuitBreakerConfig where
  failureThreshold : UInt32 := 5
  openSecs : UInt64 := 10

/-- Header add/remove transforms. -/
structure HeaderTransforms where
  add : StringMap String := ∅
  remove : List String := []

structure UpstreamConfig where
  url : String
  weight : UInt32 := 1

/-- What a request must look like to match a route. -/
structure MatchConfig where
  host : Option String := none
  pathPrefix : String := "/"

structure RouteConfig where
  name : String
  «matches» : MatchConfig := {}
  upstreams : List UpstreamConfig
  strategy : Strategy := .roundRobin
  stripPathPrefix : Bool := false
  timeoutMs : Option UInt64 := none
  retries : UInt32 := 0
  auth : AuthPolicy := .none
  rateLimit : Option RateLimitConfig := none
  cache : Option CacheConfig := none
  circuitBreaker : CircuitBreakerConfig := {}
  requestHeaders : HeaderTransforms := {}
  responseHeaders : HeaderTransforms := {}

structure ServerConfig where
  maxBodyBytes : Nat := 8 * 1024 * 1024
  defaultTimeoutMs : UInt64 := 30000
  redisUrl : Option String := none

structure GatewayConfig where
  server : ServerConfig := {}
  routes : List RouteConfig := []

inductive ConfigError where
  | io (message : String)
  | parse (message : String)
  | invalid (message : String)
  deriving DecidableEq, Repr

/-- The checks on one upstream of the named route. -/
def validateUpstream (name : String) (upstream : UpstreamConfig) : Except ConfigError Unit :=
  if ¬ (Text.startsWith upstream.url "http://" ∨ Text.startsWith upstream.url "https://") then
    .error (.invalid ("route '" ++ name ++
      "' upstream url must start with http:// or https://: " ++ upstream.url))
  else if upstream.weight = 0 then
    .error (.invalid ("route '" ++ name ++ "' upstream weight must be >= 1"))
  else
    .ok ()

/-- The upstreams of a route, in order; the first failure is reported. -/
def validateUpstreams (name : String) : List UpstreamConfig → Except ConfigError Unit
  | [] => .ok ()
  | upstream :: upstreams => do
      validateUpstream name upstream
      validateUpstreams name upstreams

/-- The checks on one route; `names` are the names of the routes before it. -/
def validateRoute (names : List String) (route : RouteConfig) : Except ConfigError Unit :=
  if route.name ∈ names then
    .error (.invalid ("duplicate route name: " ++ route.name))
  else if route.upstreams.isEmpty then
    .error (.invalid ("route '" ++ route.name ++ "' has no upstreams"))
  else do
    -- The upstreams are checked before the prefix: the first failure is reported.
    validateUpstreams route.name route.upstreams
    if ¬ Text.startsWith route.matches.pathPrefix "/" then
      .error (.invalid ("route '" ++ route.name ++ "' path_prefix must start with '/'"))
    else
      match route.auth with
      | .apiKey [] => .error (.invalid ("route '" ++ route.name ++ "' api_key auth has no keys"))
      | _ => .ok ()

def validateRoutes (names : List String) : List RouteConfig → Except ConfigError Unit
  | [] => .ok ()
  | route :: routes => do
      validateRoute names route
      validateRoutes (route.name :: names) routes

/-- Validate structural invariants. -/
def GatewayConfig.validate (config : GatewayConfig) : Except ConfigError Unit :=
  if config.routes.isEmpty then
    .error (.invalid "no routes configured")
  else
    validateRoutes [] config.routes

/-! ## What validation accepts -/

structure UpstreamConfig.Valid (upstream : UpstreamConfig) : Prop where
  scheme : Text.startsWith upstream.url "http://" ∨ Text.startsWith upstream.url "https://"
  weight : upstream.weight ≠ 0

structure RouteConfig.Valid (route : RouteConfig) : Prop where
  hasUpstream : route.upstreams ≠ []
  upstreams : ∀ upstream ∈ route.upstreams, upstream.Valid
  pathPrefix : Text.startsWith route.matches.pathPrefix "/" = true
  keys : route.auth ≠ .apiKey []

/-- The configurations that pass validation: at least one route, no route name
used twice, and every route valid by itself. -/
structure GatewayConfig.Valid (config : GatewayConfig) : Prop where
  hasRoute : config.routes ≠ []
  names : (config.routes.map RouteConfig.name).Nodup
  routes : ∀ route ∈ config.routes, route.Valid

theorem bind_eq_ok_iff (first second : Except ConfigError Unit) :
    (first >>= fun _ => second) = .ok () ↔ first = .ok () ∧ second = .ok () := by
  cases first with
  | error message => simp [bind, Except.bind]
  | ok value => simp [bind, Except.bind]

theorem validateUpstream_eq_ok_iff (name : String) (upstream : UpstreamConfig) :
    validateUpstream name upstream = .ok () ↔ upstream.Valid := by
  unfold validateUpstream
  split
  · rename_i hscheme
    exact ⟨nofun, fun h => absurd h.scheme hscheme⟩
  · rename_i hscheme
    split
    · rename_i hweight
      exact ⟨nofun, fun h => absurd hweight h.weight⟩
    · rename_i hweight
      exact ⟨fun _ => ⟨not_not.mp hscheme, hweight⟩, fun _ => rfl⟩

theorem validateUpstreams_eq_ok_iff (name : String) (upstreams : List UpstreamConfig) :
    validateUpstreams name upstreams = .ok () ↔ ∀ upstream ∈ upstreams, upstream.Valid := by
  induction upstreams with
  | nil => simp [validateUpstreams]
  | cons upstream upstreams ih =>
      rw [validateUpstreams, bind_eq_ok_iff, validateUpstream_eq_ok_iff, ih]
      simp

theorem validateRoute_eq_ok_iff (names : List String) (route : RouteConfig) :
    validateRoute names route = .ok () ↔ route.name ∉ names ∧ route.Valid := by
  unfold validateRoute
  split
  · rename_i hname
    exact ⟨nofun, fun h => absurd hname h.1⟩
  · rename_i hname
    split
    · rename_i hempty
      exact ⟨nofun, fun h => absurd (List.isEmpty_iff.mp hempty) h.2.hasUpstream⟩
    · rename_i hempty
      rw [bind_eq_ok_iff, validateUpstreams_eq_ok_iff]
      have hnonempty : route.upstreams ≠ [] := fun h => hempty (List.isEmpty_iff.mpr h)
      split
      · rename_i hslash
        exact ⟨fun h => (nomatch h.2), fun h => absurd h.2.pathPrefix hslash⟩
      · rename_i hslash
        split
        · rename_i hauth
          exact ⟨fun h => (nomatch h.2), fun h => absurd hauth h.2.keys⟩
        · rename_i hauth
          exact ⟨fun h => ⟨hname, hnonempty, h.1, not_not.mp hslash, hauth⟩,
            fun h => ⟨h.2.upstreams, rfl⟩⟩

theorem validateRoutes_eq_ok_iff (names : List String) (routes : List RouteConfig) :
    validateRoutes names routes = .ok () ↔
      (∀ route ∈ routes, route.name ∉ names) ∧ (routes.map RouteConfig.name).Nodup ∧
        ∀ route ∈ routes, route.Valid := by
  -- The names seen so far grow along the list.
  induction routes generalizing names with
  | nil => simp [validateRoutes]
  | cons route routes ih =>
      rw [validateRoutes, bind_eq_ok_iff, validateRoute_eq_ok_iff, ih]
      simp only [List.mem_cons, forall_eq_or_imp, not_or, List.map_cons, List.nodup_cons,
        List.mem_map, not_exists, not_and]
      constructor
      · rintro ⟨⟨hname, hvalid⟩, hfresh, hnodup, hrest⟩
        exact ⟨⟨hname, fun other hother => (hfresh other hother).2⟩,
          ⟨fun other hother => (hfresh other hother).1, hnodup⟩, hvalid, hrest⟩
      · rintro ⟨⟨hname, hold⟩, ⟨hfresh, hnodup⟩, hvalid, hrest⟩
        exact ⟨⟨hname, hvalid⟩, fun other hother => ⟨hfresh other hother, hold other hother⟩,
          hnodup, hrest⟩

/-- Validation accepts exactly the valid configurations. -/
theorem validate_eq_ok_iff (config : GatewayConfig) :
    config.validate = .ok () ↔ config.Valid := by
  unfold GatewayConfig.validate
  split
  · rename_i hempty
    exact ⟨nofun, fun h => absurd (List.isEmpty_iff.mp hempty) h.hasRoute⟩
  · rename_i hempty
    rw [validateRoutes_eq_ok_iff]
    exact ⟨fun h => ⟨fun hnil => hempty (List.isEmpty_iff.mpr hnil), h.2.1, h.2.2⟩,
      fun h => ⟨fun _ _ => List.not_mem_nil, h.names, h.routes⟩⟩

end Core
end ApiGateway
