import ApiGateway.Gateway.Mediation

/-!
# The rate-limit stage of the handler

Two facts about every trace of a handler, whatever is answered to its calls.  The only
call it makes on the windows of the in-memory limiter is the one for the bucket that
`rateKey` selects on the matched route; and nothing is sent to an upstream, read from a
cache or stored in one before the limiter of the matched route has let the request pass.
-/

namespace ApiGateway
namespace Gateway

open Library Core Program

/-- The client address that a request is counted under. -/
def Incoming.clientIp (incoming : Incoming) : String :=
  Gateway.clientIp incoming.request.headers incoming.peer

/-- The route that the matcher selects for a request. -/
def Incoming.routeOf (config : GatewayConfig) (incoming : Incoming) : Option RouteConfig :=
  matchRoute config (some (requestHost incoming.request)) incoming.request.uri.path

/-- The bucket of a request on a route. -/
def Incoming.bucketOf (incoming : Incoming) (route : RouteConfig) (rl : RateLimitConfig) :
    String :=
  rateKey rl.scope route.name incoming.clientIp incoming.request.headers

section Handler

variable (decode : TokenDecoder) (config : GatewayConfig) (redisReachable : Bool)
  (incoming : Incoming)

/-- A check of the in-memory limiter is that of the matched route. -/
def ChecksOwnBucket (op : Op) : Prop :=
  match op with
  | .windowCheck key limit window _ =>
      ∃ route rl, incoming.routeOf config = some route ∧ route.rateLimit = some rl ∧
        key = incoming.bucketOf route rl ∧ limit = rl.limit ∧
        window = Duration.fromSecs rl.windowSecs.toNat
  | _ => True

/-- The limiter of the route, if there is one, has been asked for the request and has
allowed it. -/
def PassedLimit (route : RouteConfig) (history : List (Event effects)) : Prop :=
  ∀ rl, route.rateLimit = some rl → ∃ before checked rest decision,
    history = before ++ checked ++ rest ∧
    Returns (Exchange.checkLimit (GatewayState.build config redisReachable).limiter
      (incoming.bucketOf route rl) rl.limit (Duration.fromSecs rl.windowSecs.toNat))
      checked decision ∧
    decision.allowed = true

/-- A call that hands something out is made after the limiter has let the request
pass. -/
def LimitedBefore (history : List (Event effects)) (op : Op) : Prop :=
  op.kind ∈ handsOut →
    ∃ route, incoming.routeOf config = some route ∧
      PassedLimit config redisReachable incoming route history

end Handler

variable {decode : TokenDecoder} {config : GatewayConfig} {redisReachable : Bool}
  {incoming : Incoming}

theorem PassedLimit.later {route : RouteConfig} {history : List (Event effects)}
    (h : PassedLimit config redisReachable incoming route history)
    (more : List (Event effects)) :
    PassedLimit config redisReachable incoming route (history ++ more) := by
  intro rl hlimit
  obtain ⟨before, checked, rest, decision, rfl, hreturns, hallowed⟩ := h rl hlimit
  exact ⟨before, checked, rest ++ more, decision, by simp, hreturns, hallowed⟩

theorem checksOwnBucket_of_kind {op : Op} (h : op.kind ≠ .limiter) :
    ChecksOwnBucket config incoming op := by
  cases op with
  | windowCheck _ _ _ _ => exact absurd rfl h
  | _ => trivial

/-- Every stage but one makes no call on the limiter. -/
theorem checksOwnBucket_of_makesKinds {α : Type} {kinds : List OpKind}
    {program : GatewayProgram α} (h : MakesKinds kinds program) (hkinds : .limiter ∉ kinds) :
    program.Makes (ChecksOwnBucket config incoming) :=
  Makes.mono h fun _ hop => checksOwnBucket_of_kind fun hkind => hkinds (hkind ▸ hop)

theorem limitedBefore_of_makesKinds {α : Type} {kinds : List OpKind}
    {program : GatewayProgram α} {history : List (Event effects)} (h : MakesKinds kinds program)
    (hkinds : ∀ kind ∈ kinds, kind ∉ handsOut) :
    program.Guarded (LimitedBefore config redisReachable incoming) history :=
  Makes.guarded h fun _ op hop hhands => absurd hhands (hkinds op.kind hop)

theorem limitedBefore_of_passed {α : Type} {program : GatewayProgram α} {route : RouteConfig}
    {history : List (Event effects)} (hroute : incoming.routeOf config = some route)
    (h : PassedLimit config redisReachable incoming route history) :
    program.Guarded (LimitedBefore config redisReachable incoming) history :=
  guarded_of_forall fun later _ _ => ⟨route, hroute, h.later later⟩

namespace Exchange

/-- The check of a limiter on a bucket. -/
theorem checkLimit_makes {kind : Op → Prop} (limiter : RateLimiter) (key : String)
    (limit : UInt32) (window : Duration)
    (hwindow : ∀ now, kind (.windowCheck key limit window now))
    (hother : ∀ op : Op, (∀ key limit window now, op ≠ .windowCheck key limit window now) →
      kind op) : (checkLimit limiter key limit window).Makes kind := by
  cases limiter with
  | inMemory => exact makes_perform (hother _ nofun) fun now => ⟨hwindow now, fun _ => trivial⟩
  | redis =>
      unfold checkLimit RedisLimiter.check
      refine makes_perform (hother _ nofun) fun count => ?_
      cases count with
      | none => trivial
      | some count =>
          simp only
          split
          · exact makes_perform (hother _ nofun) fun _ => makes_perform (hother _ nofun)
              fun _ => trivial
          · exact makes_perform (hother _ nofun) fun _ => trivial

/-- The exchange of a request on the route the matcher selects for it. -/
structure OnRoute (config : GatewayConfig) (redisReachable : Bool) (incoming : Incoming)
    (route : RouteConfig) (exchange : Exchange) : Prop where
  matched : incoming.routeOf config = some route
  state : exchange.state = .build config redisReachable
  config : exchange.runtime.config = route
  name : exchange.routeName = route.name
  client : exchange.clientIp = incoming.clientIp
  headers : exchange.headers = incoming.request.headers

variable {route : RouteConfig} {exchange : Exchange}

theorem limitRate_makes (h : OnRoute config redisReachable incoming route exchange) :
    exchange.limitRate.Makes (ChecksOwnBucket config incoming) := by
  unfold limitRate
  split
  · trivial
  · rename_i rl hlimit
    rw [h.config] at hlimit
    refine makes_bind (checkLimit_makes _ _ _ _ (fun now => ?_) fun op hop => ?_)
      fun _ decision _ => ?_
    · refine ⟨route, rl, h.matched, hlimit, ?_, rfl, rfl⟩
      rw [h.name, h.client, h.headers]
      rfl
    · cases op with
      | windowCheck key limit window now => exact absurd rfl (hop key limit window now)
      | _ => trivial
    · split
      · refine makes_perform trivial fun _ => ?_
        exact makes_bind (checksOwnBucket_of_makesKinds (exchange.record_makesKinds _) (by decide))
          fun _ _ _ => trivial
      · trivial

/-- A request that is not rejected here has passed the limiter of its route. -/
theorem limitRate_passed (h : OnRoute config redisReachable incoming route exchange) :
    Ensures exchange.limitRate fun trace rejection =>
      rejection = none → PassedLimit config redisReachable incoming route trace := by
  unfold limitRate
  split
  · rename_i hlimit
    rw [h.config] at hlimit
    refine ensures_done fun _ rl hsome => ?_
    rw [hlimit] at hsome
    cases hsome
  · rename_i rl hlimit
    rw [h.config] at hlimit
    refine ensures_bind (fun trace decision hreturns => hreturns) fun checked decision hcheck => ?_
    split
    · refine ensures_perform fun _ => ?_
      have hrecord : Ensures (exchange.record .tooManyRequests) fun _ _ => True :=
        fun _ _ _ => trivial
      exact ensures_bind hrecord fun _ _ _ => ensures_done nofun
    · rename_i hallowed
      refine ensures_done fun _ rl' hlimit' => ?_
      obtain rfl := Option.some.inj (hlimit.symm.trans hlimit')
      refine ⟨[], checked, [], decision, by simp, ?_, by simpa using hallowed⟩
      rw [h.state, h.name, h.client, h.headers] at hcheck
      exact hcheck

theorem serve_checksOwnBucket (h : OnRoute config redisReachable incoming route exchange) :
    (exchange.serve decode).Makes (ChecksOwnBucket config incoming) := by
  refine makes_bind (checksOwnBucket_of_makesKinds (exchange.authenticate_makesKinds decode)
    (by decide)) fun _ rejection _ => ?_
  cases rejection with
  | some rejection => trivial
  | none =>
      refine makes_bind (limitRate_makes h) fun _ rejection _ => ?_
      cases rejection with
      | some rejection => trivial
      | none =>
          refine makes_bind (checksOwnBucket_of_makesKinds exchange.lookupCache_makesKinds
            (by decide)) fun _ hit _ => ?_
          cases hit with
          | some hit => trivial
          | none => exact checksOwnBucket_of_makesKinds exchange.proxy_makesKinds (by decide)

theorem serve_limitedBefore (h : OnRoute config redisReachable incoming route exchange)
    (history : List (Event effects)) :
    (exchange.serve decode).Guarded (LimitedBefore config redisReachable incoming) history := by
  -- Once the stage has found no fault, everything after it is allowed.
  have hpassed : ∀ earlier limited, Returns exchange.limitRate limited none →
      PassedLimit config redisReachable incoming route (earlier ++ limited) := by
    intro earlier limited hlimited rl hlimit
    obtain ⟨before, checked, rest, decision, rfl, hreturns, hallowed⟩ :=
      limitRate_passed h limited none hlimited rfl rl hlimit
    exact ⟨earlier ++ before, checked, rest, decision, by simp, hreturns, hallowed⟩
  apply serve_guarded_of_stages
  · exact limitedBefore_of_makesKinds (exchange.authenticate_makesKinds decode) (by decide)
  · intro auth _
    exact limitedBefore_of_makesKinds exchange.limitRate_makesKinds (by decide)
  · intro auth limited _ hlimited
    exact limitedBefore_of_passed h.matched (hpassed _ limited hlimited)
  · intro auth limited looked _ hlimited _
    exact limitedBefore_of_passed h.matched ((hpassed _ limited hlimited).later looked)

end Exchange

/-- The runtime found under the name of the matched route carries that very route. -/
theorem onRoute_new (hvalid : config.Valid) {route : RouteConfig} {runtime : RouteRuntime}
    (hmatched : incoming.routeOf config = some route)
    (hruntime : (GatewayState.build config redisReachable).route route.name = some runtime)
    (correlation : String) (started : Instant) :
    Exchange.OnRoute config redisReachable incoming route
      (.new (.build config redisReachable) incoming route.name runtime correlation started) := by
  obtain ⟨id, -, hroute⟩ := route_of_matchRoute redisReachable hvalid hmatched
  obtain rfl := Option.some.inj (hroute.symm.trans hruntime)
  exact
    { matched := hmatched, state := rfl, config := rfl, name := rfl, client := rfl, headers := rfl }

/-- The handler checks no bucket but that of its request. -/
theorem handle_checksOwnBucket (hvalid : config.Valid) :
    (handle decode (.build config redisReachable) incoming).Makes
      (ChecksOwnBucket config incoming) := by
  refine makes_perform trivial fun _ => ?_
  refine makes_bind ?_ fun _ _ _ => makes_perform trivial fun _ => trivial
  refine makes_perform trivial fun started => ?_
  refine makes_bind (checksOwnBucket_of_makesKinds (correlationId_makesKinds _) (by decide))
    fun _ correlation _ => ?_
  split
  · exact makes_perform trivial fun _ => trivial
  · rename_i route hmatched
    split
    · trivial
    · rename_i runtime hruntime
      exact Exchange.serve_checksOwnBucket (onRoute_new hvalid hmatched hruntime _ _)

/-- The handler hands nothing out before the limiter has let the request pass. -/
theorem handle_limitedBefore (hvalid : config.Valid) :
    (handle decode (.build config redisReachable) incoming).Guarded
      (LimitedBefore config redisReachable incoming) [] := by
  apply handle_guarded_of_serve
  · intro history op hop hhands
    have hnone : ∀ kind ∈ frameKinds, kind ∉ handsOut := by decide
    exact absurd hhands (hnone op.kind hop)
  · intro route runtime correlation started history hmatched hruntime _ _
    exact Exchange.serve_limitedBefore (onRoute_new hvalid hmatched hruntime _ _) _

/-! ## In every interleaving -/

section Pool

variable (decode : TokenDecoder) (config : GatewayConfig) (hvalid : config.Valid)
  (redisReachable : Bool) (actions : List GatewayAction)

include hvalid

theorem checksOwnBucket_after {index : Nat} {thread : Thread effects Incoming Response}
    (hthread : (gatewayAfter decode config redisReachable actions).threads[index]? = some thread)
    {event : Event effects} (hevent : event ∈ thread.history) :
    ChecksOwnBucket config thread.request event.1 := by
  have hsteps := (gatewayAfter_coherent decode config redisReachable actions).steps index thread
    hthread
  exact (handle_checksOwnBucket hvalid).of_mem hsteps hevent

theorem limitedBefore_after {index : Nat} {thread : Thread effects Incoming Response}
    (hthread : (gatewayAfter decode config redisReachable actions).threads[index]? = some thread)
    {before after : List (Event effects)} {event : Event effects}
    (hhistory : thread.history = before ++ event :: after) :
    LimitedBefore config redisReachable thread.request before event.1 := by
  have hsteps := (gatewayAfter_coherent decode config redisReachable actions).steps index thread
    hthread
  simpa using (handle_limitedBefore hvalid).allowed_of_mem hsteps hhistory

end Pool

end Gateway
end ApiGateway
