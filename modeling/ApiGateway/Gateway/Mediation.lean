import ApiGateway.Gateway.Stages
import ApiGateway.Gateway.World

/-!
# Complete mediation

Every call by which a request reaches an upstream, reads a cache or fills one is
made on the runtime of the route that the matcher selects for this request, after
the policy of that very route has accepted its headers.

`Justified` says what must have happened before such a call.  The stage lemmas give
`handle_guarded`: along every trace of a handler, whatever is answered, each call is
justified by the calls before it.  `complete_mediation` carries this to every
interleaving of any number of requests.
-/

namespace ApiGateway
namespace Gateway

open Library Core Program

section Handler

variable (decode : TokenDecoder) (config : GatewayConfig) (redisReachable : Bool)
  (incoming : Incoming)

/-- The route at the position `id` is the one that the matcher selects for the
request, its name leads to the runtime built from it, and its policy has accepted
the headers of the request. -/
structure AdmittedBy (history : List (Event effects)) (route : RouteConfig) (id : RouteId) :
    Prop where
  configured : config.routes[id]? = some route
  matched : matchRoute config (some (requestHost incoming.request)) incoming.request.uri.path =
    some route
  runtime : (GatewayState.build config redisReachable).route route.name =
    some (.fromConfig id route)
  authorized : ∃ clock, (⟨.systemTime, clock⟩ : Event effects) ∈ history ∧
    authorize decode clock route.auth incoming.request.headers = .ok ()

/-- The exchange is that of an admitted request. -/
structure Mediated (history : List (Event effects)) (route : RouteConfig) (id : RouteId)
    (exchange : Exchange) : Prop where
  admitted : AdmittedBy decode config redisReachable incoming history route id
  exchange_eq : exchange = .new (.build config redisReachable) incoming route.name
    (.fromConfig id route) exchange.correlation exchange.started

/-- What must have happened before a call that hands something of a route out. -/
def Justified (history : List (Event effects)) (op : Op) : Prop :=
  match op with
  | .send upstream request =>
      ∃ route exchange,
        Mediated decode config redisReachable incoming history route upstream.route exchange ∧
        upstream.index < route.upstreams.length ∧
        ∃ bodyBytes, request = exchange.outgoing
          ((Balancer.fromRoute route).upstreamAt upstream.index) bodyBytes
  | .cacheGet id key =>
      ∃ route exchange, Mediated decode config redisReachable incoming history route id exchange ∧
        exchange.cacheEnabled = true ∧ key = exchange.cacheKey
  | .cachePut id _ _ _ _ _ =>
      ∃ route exchange, Mediated decode config redisReachable incoming history route id exchange ∧
        ∃ index request resp,
          (⟨.send ⟨id, index⟩ request, .ok resp⟩ : Event effects) ∈ history ∧
            exchange.IsStoreCall resp op
  | _ => True

end Handler

variable {decode : TokenDecoder} {config : GatewayConfig} {redisReachable : Bool}
  {incoming : Incoming}

/-- What a request was admitted for stays so as it goes on. -/
theorem AdmittedBy.later {history : List (Event effects)} {route : RouteConfig} {id : RouteId}
    (h : AdmittedBy decode config redisReachable incoming history route id)
    (more : List (Event effects)) :
    AdmittedBy decode config redisReachable incoming (history ++ more) route id := by
  obtain ⟨clock, hclock, haccepted⟩ := h.authorized
  exact { h with authorized := ⟨clock, List.mem_append_left _ hclock, haccepted⟩ }

theorem Mediated.later {history : List (Event effects)} {route : RouteConfig} {id : RouteId}
    {exchange : Exchange}
    (h : Mediated decode config redisReachable incoming history route id exchange)
    (more : List (Event effects)) :
    Mediated decode config redisReachable incoming (history ++ more) route id exchange :=
  ⟨h.admitted.later more, h.exchange_eq⟩

theorem Mediated.runtime_eq {history : List (Event effects)} {route : RouteConfig} {id : RouteId}
    {exchange : Exchange}
    (h : Mediated decode config redisReachable incoming history route id exchange) :
    exchange.runtime = .fromConfig id route := by
  rw [h.exchange_eq]
  rfl

/-- The kinds of calls that need a justification. -/
def handsOut : List OpKind := [.send, .cacheGet, .cachePut]

theorem justified_of_kind {history : List (Event effects)} {op : Op} (h : op.kind ∉ handsOut) :
    Justified decode config redisReachable incoming history op := by
  cases op with
  | send _ _ | cacheGet _ _ | cachePut _ _ _ _ _ _ => simp [handsOut] at h
  | _ => trivial

/-- A stage that hands nothing out needs no justification. -/
theorem guarded_of_makesKinds {α : Type} {kinds : List OpKind} {program : GatewayProgram α}
    {history : List (Event effects)} (h : MakesKinds kinds program)
    (hkinds : ∀ kind ∈ kinds, kind ∉ handsOut) :
    program.Guarded (Justified decode config redisReachable incoming) history :=
  Makes.guarded h fun _ op hop => justified_of_kind (hkinds op.kind hop)

namespace Exchange

variable {history : List (Event effects)} {route : RouteConfig} {id : RouteId}
  {exchange : Exchange}

/-- A response may be stored once the upstream has been heard. -/
theorem settle_guarded
    (h : Mediated decode config redisReachable incoming history route id exchange)
    (attempt index : Nat) (upstream : Upstream) (request : OutgoingRequest)
    (result : SendResult)
    (hsent : (⟨.send ⟨id, index⟩ request, result⟩ : Event effects) ∈ history) :
    (exchange.settle attempt index upstream result).Guarded
      (Justified decode config redisReachable incoming) history := by
  refine (settle_makes exchange attempt index upstream result).guarded fun more op hop => ?_
  rcases hop with hkind | ⟨resp, rfl, hstore⟩
  · have hnone : ∀ kind ∈ [OpKind.outcome, .ambient, .metric, .body], kind ∉ handsOut := by decide
    exact justified_of_kind (hnone op.kind hkind)
  · have hput := hstore
    obtain ⟨-, -, cache, -, rfl⟩ := hput
    rw [h.runtime_eq] at hstore ⊢
    exact ⟨route, exchange, h.later more, index, request, resp,
      List.mem_append_left _ hsent, hstore⟩

theorem tryUpstream_guarded
    (h : Mediated decode config redisReachable incoming history route id exchange)
    (bodyBytes : Bytes) (attempt index : Nat) (hindex : index < route.upstreams.length) :
    (exchange.tryUpstream bodyBytes attempt index
        (exchange.runtime.balancer.upstreamAt index)).Guarded
      (Justified decode config redisReachable incoming) history := by
  have hruntime := h.runtime_eq
  have hid : exchange.runtime.id = id := by rw [hruntime]; rfl
  have hbalancer : exchange.runtime.balancer = .fromRoute route := by rw [hruntime]; rfl
  refine guarded_perform trivial fun start => guarded_perform ?_ fun result => ?_
  · rw [hid, hbalancer]
    exact ⟨route, exchange, h.later _, hindex, bodyBytes, rfl⟩
  · rw [hid]
    refine guarded_perform trivial fun _ => guarded_perform trivial fun _ =>
      guarded_perform trivial fun _ => ?_
    refine guarded_bind ?_ fun _ _ _ => guarded_perform trivial fun _ => trivial
    refine settle_guarded (h.later _ |>.later _ |>.later _ |>.later _ |>.later _) attempt index _
      (exchange.outgoing (exchange.runtime.balancer.upstreamAt index) bodyBytes) result ?_
    simp

theorem attemptLoop_guarded
    (h : Mediated decode config redisReachable incoming history route id exchange)
    (hupstreams : route.upstreams ≠ []) (bodyBytes : Bytes) (remaining attempt : Nat)
    (excluded : List Nat) :
    (exchange.attemptLoop bodyBytes remaining attempt excluded).Guarded
      (Justified decode config redisReachable incoming) history := by
  have hlength := length_upstreams_of_runtime h.runtime_eq
  have hbalancer := upstreams_ne_nil_of_runtime h.runtime_eq hupstreams
  -- Admission is kept as the history grows, so it carries the induction by itself.
  induction remaining generalizing history attempt excluded with
  | zero =>
      exact guarded_bind (guarded_of_makesKinds (exchange.record_makesKinds _) (by decide))
        fun _ _ _ => trivial
  | succ remaining ih =>
      refine guarded_bind (guarded_of_makesKinds (Balancer.pick_makesKinds _ _ _) (by decide))
        fun trace picked hpick => ?_
      cases picked with
      | none =>
          exact guarded_bind (guarded_of_makesKinds (exchange.record_makesKinds _) (by decide))
            fun _ _ _ => trivial
      | some picked =>
          obtain ⟨index, upstream⟩ := picked
          obtain ⟨hlt, -, rfl⟩ :=
            Balancer.pick_ensures _ hbalancer _ _ trace _ hpick index upstream rfl
          refine guarded_bind (tryUpstream_guarded (h.later trace) bodyBytes attempt index
            (hlength ▸ hlt)) fun tried settled _ => ?_
          cases settled with
          | none => exact ih ((h.later trace).later tried) (attempt + 1) (excluded ++ [index])
          | some response => trivial

theorem proxy_guarded
    (h : Mediated decode config redisReachable incoming history route id exchange)
    (hupstreams : route.upstreams ≠ []) :
    exchange.proxy.Guarded (Justified decode config redisReachable incoming) history := by
  refine guarded_perform trivial fun _ => ?_
  split
  · exact guarded_bind (guarded_of_makesKinds (exchange.record_makesKinds _) (by decide))
      fun _ _ _ => trivial
  · exact attemptLoop_guarded (h.later _) hupstreams _ _ _ _

theorem lookupCache_guarded
    (h : Mediated decode config redisReachable incoming history route id exchange) :
    exchange.lookupCache.Guarded (Justified decode config redisReachable incoming) history := by
  refine exchange.lookupCache_makes.guarded fun more op hop => ?_
  rcases hop with hmetric | ⟨henabled, rfl⟩
  · exact justified_of_kind (hmetric ▸ by decide)
  · have hid : exchange.runtime.id = id := by rw [h.runtime_eq]; rfl
    rw [hid]
    exact ⟨route, exchange, h.later more, henabled, rfl⟩

/-- The stages after the two lookups.  Authentication comes first, and with it the
exchange is mediated for all stages that follow. -/
theorem serve_guarded (hvalid : config.Valid)
    (hconfigured : config.routes[id]? = some route)
    (hmatched : matchRoute config (some (requestHost incoming.request))
      incoming.request.uri.path = some route)
    (correlation : String) (started : Instant) :
    ((new (.build config redisReachable) incoming route.name (.fromConfig id route) correlation
        started).serve decode).Guarded
      (Justified decode config redisReachable incoming) history := by
  have hupstreams := (hvalid.routes route (List.mem_of_getElem? hconfigured)).hasUpstream
  -- Once authentication has let it pass, the request is admitted, whatever the later stages
  -- are answered.
  have hmediated : ∀ auth, Returns (authenticate decode (new (.build config redisReachable)
      incoming route.name (.fromConfig id route) correlation started)) auth none →
      Mediated decode config redisReachable incoming (history ++ auth) route id
        (new (.build config redisReachable) incoming route.name (.fromConfig id route)
          correlation started) := by
    intro auth hauth
    obtain ⟨clock, hclock, haccepted⟩ := authenticate_ensures decode _ auth none hauth rfl
    exact
      { admitted :=
          { configured := hconfigured
            matched := hmatched
            runtime := GatewayState.route_build hvalid redisReachable hconfigured
            authorized := ⟨clock, List.mem_append_right _ hclock, haccepted⟩ }
        exchange_eq := rfl }
  apply serve_guarded_of_stages
  · exact guarded_of_makesKinds (authenticate_makesKinds decode _) (by decide)
  · intro auth hauth
    exact guarded_of_makesKinds (limitRate_makesKinds _) (by decide)
  · intro auth limited hauth _
    exact lookupCache_guarded ((hmediated auth hauth).later limited)
  · intro auth limited looked hauth _ _
    exact proxy_guarded (((hmediated auth hauth).later limited).later looked) hupstreams

end Exchange

/-- The route selected for a request is configured at some position, and its name
leads to the runtime built from it. -/
theorem route_of_matchRoute (redisReachable : Bool) (hvalid : config.Valid)
    {host : Option String} {path : String} {route : RouteConfig}
    (hmatched : matchRoute config host path = some route) :
    ∃ id, config.routes[id]? = some route ∧
      (GatewayState.build config redisReachable).route route.name =
        some (.fromConfig id route) := by
  obtain ⟨id, hid⟩ := List.mem_iff_getElem?.mp (matchRoute_spec hmatched).1
  exact ⟨id, hid, GatewayState.route_build hvalid redisReachable hid⟩

/-- Every call of a handler is justified by the calls before it, whatever they were
answered. -/
theorem handle_guarded (hvalid : config.Valid) :
    (handle decode (.build config redisReachable) incoming).Guarded
      (Justified decode config redisReachable incoming) [] := by
  apply handle_guarded_of_serve
  · intro history op hop
    have hnone : ∀ kind ∈ frameKinds, kind ∉ handsOut := by decide
    exact justified_of_kind (hnone op.kind hop)
  · intro route runtime correlation started history hmatched hruntime _ _
    obtain ⟨id, hconfigured, hroute⟩ := route_of_matchRoute redisReachable hvalid hmatched
    obtain rfl := Option.some.inj (hroute.symm.trans hruntime)
    exact Exchange.serve_guarded hvalid hconfigured hmatched correlation started

/-- In every reachable pool, each call a thread has made was justified when it was
made. -/
theorem justified_after (decode : TokenDecoder) (config : GatewayConfig) (hvalid : config.Valid)
    (redisReachable : Bool) (actions : List GatewayAction) {index : Nat}
    {thread : Thread effects Incoming Response}
    (hthread : (gatewayAfter decode config redisReachable actions).threads[index]? = some thread)
    {before after : List (Event effects)} {event : Event effects}
    (hhistory : thread.history = before ++ event :: after) :
    Justified decode config redisReachable thread.request before event.1 := by
  have hsteps := (gatewayAfter_coherent decode config redisReachable actions).steps index thread
    hthread
  simpa using (handle_guarded hvalid).allowed_of_mem hsteps hhistory

/-- **Complete mediation.**  In every run of the gateway built from an accepted
configuration, a request is sent to an upstream, or answered from a cache, only
after the policy of the route that the matcher selects for it has accepted its
headers, and the upstream or the cache belongs to the runtime built from that very
route.  A matched route always has its own runtime in the table. -/
theorem complete_mediation (decode : TokenDecoder) (config : GatewayConfig)
    (hvalid : config.validate = .ok ()) (redisReachable : Bool) (actions : List GatewayAction) :
    (∀ (index : Nat) (thread : Thread effects Incoming Response)
        (before after : List (Event effects)) (event : Event effects),
      (gatewayAfter decode config redisReachable actions).threads[index]? = some thread →
      thread.history = before ++ event :: after →
        (∀ upstream request result, event = ⟨.send upstream request, result⟩ →
          ∃ route, AdmittedBy decode config redisReachable thread.request before route
              upstream.route ∧
            upstream.index < route.upstreams.length ∧
            ∃ target, request.url =
              ((Balancer.fromRoute route).upstreamAt upstream.index).url ++ target) ∧
        (∀ id key hit, event = ⟨.cacheGet id key, some hit⟩ →
          ∃ route, AdmittedBy decode config redisReachable thread.request before route id ∧
            (RouteRuntime.fromConfig id route).cache.isSome = true)) ∧
      ∀ host path route, matchRoute config host path = some route →
        ∃ id, config.routes[id]? = some route ∧
          (GatewayState.build config redisReachable).route route.name =
            some (.fromConfig id route) := by
  have hconfig := (validate_eq_ok_iff config).mp hvalid
  refine ⟨fun index thread before after event hthread hhistory => ?_,
    fun _ _ _ hmatched => route_of_matchRoute redisReachable hconfig hmatched⟩
  have hjustified := justified_after decode config hconfig redisReachable actions hthread hhistory
  constructor
  · rintro upstream request result rfl
    obtain ⟨route, exchange, hmediated, hlt, bodyBytes, rfl⟩ := hjustified
    exact ⟨route, hmediated.admitted, hlt, _, rfl⟩
  · rintro id key hit rfl
    obtain ⟨route, exchange, hmediated, henabled, -⟩ := hjustified
    refine ⟨route, hmediated.admitted, ?_⟩
    rw [← hmediated.runtime_eq]
    simp only [Exchange.cacheEnabled, Bool.and_eq_true] at henabled
    exact henabled.1.1

def echoRoute : RouteConfig :=
  { name := "echo", upstreams := [{ url := "http://echo:8081" }], auth := .apiKey ["k1"] }

def echoIncoming : Incoming where
  request :=
    { method := .get
      uri := .ofPath "/echo" (by decide)
      headers := setHeader [] "x-api-key" "k1"
      body := ⟨[], true⟩ }
  peer := "10.0.0.1"

/-- No token is valid. -/
def noTokens : TokenDecoder := fun _ _ _ => none

/-- One request, up to the result of its call to the upstream. -/
def echoRun : List GatewayAction := .arrive echoIncoming :: List.replicate 13 (.advance 0 {})

theorem echoRun_sends :
    ∃ thread, (gatewayAfter noTokens { routes := [echoRoute] } false echoRun).threads[0]? =
        some thread ∧
      ∃ request result, thread.history[11]? = some ⟨.send ⟨0, 0⟩ request, result⟩ :=
  ⟨_, rfl, _, _, rfl⟩

/-- A request with the right key gets as far as its upstream, and was admitted. -/
theorem complete_mediation_echo :
    ∃ thread before after request result,
      (gatewayAfter noTokens { routes := [echoRoute] } false echoRun).threads[0]? = some thread ∧
      thread.history = before ++ ⟨.send ⟨0, 0⟩ request, result⟩ :: after ∧
      ∃ route,
        AdmittedBy noTokens { routes := [echoRoute] } false thread.request before route 0 := by
  obtain ⟨thread, hthread, request, result, hsend⟩ := echoRun_sends
  obtain ⟨before, after, hhistory⟩ := List.append_of_mem (List.mem_of_getElem? hsend)
  obtain ⟨hsends, -⟩ := (complete_mediation noTokens { routes := [echoRoute] } rfl false
    echoRun).1 0 thread before after _ hthread hhistory
  obtain ⟨route, hadmitted, -⟩ := hsends ⟨0, 0⟩ request result rfl
  exact ⟨thread, before, after, request, result, hthread, hhistory, route, hadmitted⟩

end Gateway
end ApiGateway
