import ApiGateway.Gateway.Proxy
import ApiGateway.Library.Interleaving

/-!
# The shared state and the running gateway

`World` holds every cell that the operations of the request path touch.  `answer`
says what one operation does to it; whatever comes from outside, that is the time
that has passed, random identifiers, the replies of upstreams and of Redis, and the
iteration order of a hash map, is taken from the `Input` of that operation.

`server` puts the pieces together: requests arrive, handlers make their calls in any
order, a waiting handler may be dropped with the guard it holds, and health probes
write health flags at any time.
-/

namespace ApiGateway
namespace Gateway

open Library Core

/-- The mutable part of an upstream. -/
structure UpstreamCell where
  active : Int
  healthy : Bool
  breaker : Inner

/-- The mutable part of a route runtime. -/
structure RouteCell where
  rrCursor : UInt64
  upstreams : Nat → UpstreamCell
  cache : CacheMap

structure Metrics where
  counters : Counter → Nat
  activeConnections : Int
  circuitState : String → String → Int
  observations : List (Histogram × Duration)

structure World where
  now : Instant
  routes : RouteId → RouteCell
  windows : Windows
  metrics : Metrics

/-- What the outside contributes to one operation. -/
structure Input where
  elapsed : Duration := 0
  /-- Time that passes between the two clock reads of one cache store. -/
  held : Duration := 0
  uuid : String := ""
  unixTime : UnixTime := 0
  upstream : UpstreamId → OutgoingRequest → SendResult := fun _ _ => .error ⟨true⟩
  redisCount : Option Int := none
  redisExpire : Bool := false
  redisTtl : Option Int := none
  iterationHint : List String := []

def UpstreamCell.initial : UpstreamCell where
  active := 0
  healthy := true
  breaker := CircuitBreaker.initialInner

def RouteCell.initial : RouteCell where
  rrCursor := 0
  upstreams := fun _ => .initial
  cache := ∅

def Metrics.new : Metrics where
  counters := fun _ => 0
  activeConnections := 0
  circuitState := fun _ _ => 0
  observations := []

namespace World

/-- The cells of a freshly built gateway. -/
def initial : World where
  now := 0
  routes := fun _ => .initial
  windows := ∅
  metrics := .new

def route (world : World) (id : RouteId) : RouteCell := world.routes id

def upstream (world : World) (id : UpstreamId) : UpstreamCell :=
  (world.routes id.route).upstreams id.index

def setRoute (world : World) (id : RouteId) (cell : RouteCell) : World :=
  { world with routes := Function.update world.routes id cell }

def setUpstream (world : World) (id : UpstreamId) (cell : UpstreamCell) : World :=
  world.setRoute id.route
    { world.routes id.route with
      upstreams := Function.update (world.routes id.route).upstreams id.index cell }

def tick (world : World) (elapsed : Duration) : World :=
  { world with now := world.now + elapsed }

def inc (metrics : Metrics) (counter : Counter) : Metrics :=
  { metrics with
    counters := Function.update metrics.counters counter (metrics.counters counter + 1) }

/-- One operation at the time of the world. -/
def answerNow (input : Input) (world : World) : (op : Op) → op.Res × World
  | .newUuid => (input.uuid, world)
  | .instantNow => (world.now, world)
  | .systemTime => (input.unixTime, world)
  | .inc counter => ((), { world with metrics := inc world.metrics counter })
  | .connectionsInc =>
      ((), { world with metrics :=
        { world.metrics with activeConnections := world.metrics.activeConnections + 1 } })
  | .connectionsDec =>
      ((), { world with metrics :=
        { world.metrics with activeConnections := world.metrics.activeConnections - 1 } })
  | .observe histogram since =>
      ((), { world with metrics :=
        { world.metrics with
          observations := world.metrics.observations ++ [(histogram, world.now - since)] } })
  | .setCircuitState route url code =>
      ((), { world with metrics :=
        { world.metrics with
          circuitState := Function.update world.metrics.circuitState route
            (Function.update (world.metrics.circuitState route) url code) } })
  | .windowCheck key limit window now =>
      let checked := InMemoryLimiter.check world.windows key limit window now
      (checked.1, { world with windows := checked.2 })
  | .redisIncr _ => (input.redisCount, world)
  | .redisExpire _ _ => (input.redisExpire, world)
  | .redisTtl _ => (input.redisTtl, world)
  | .cacheGet id key =>
      let found := ResponseCache.get (world.route id).cache key world.now
      (found.1, world.setRoute id { world.route id with cache := found.2 })
  | .cachePut id cache key status headers body =>
      let map := cache.put (world.route id).cache input.iterationHint key status headers body
        world.now (world.now + input.held)
      ((), (world.tick input.held).setRoute id { world.route id with cache := map })
  | .readRequestBody => ((), world)
  | .rrFetchAdd id =>
      ((world.route id).rrCursor,
        world.setRoute id { world.route id with rrCursor := (world.route id).rrCursor + 1 })
  | .isHealthy id => ((world.upstream id).healthy, world)
  -- One critical section: the answer and the move to half-open belong together.
  | .allowAt id now =>
      let answer := CircuitBreaker.allowAt (world.upstream id).breaker now
      (answer.1, world.setUpstream id { world.upstream id with breaker := answer.2 })
  | .active id => ((world.upstream id).active, world)
  | .guardNew id =>
      ((), world.setUpstream id
        { world.upstream id with active := (world.upstream id).active + 1 })
  | .guardDrop id =>
      ((), world.setUpstream id
        { world.upstream id with active := (world.upstream id).active - 1 })
  | .send id request => (input.upstream id request, world)
  | .breakerState id => ((world.upstream id).breaker.state, world)
  | .recordSuccess id =>
      ((), world.setUpstream id
        { world.upstream id with
          breaker := CircuitBreaker.recordSuccess (world.upstream id).breaker })
  | .recordFailureAt id breaker now =>
      ((), world.setUpstream id
        { world.upstream id with
          breaker := breaker.recordFailureAt (world.upstream id).breaker now })
  | .readResponseBody => ((), world)

/-- Time passes, then the operation happens. -/
def answer (input : Input) (world : World) (op : Op) : op.Res × World :=
  answerNow input (world.tick input.elapsed) op

/-! ## Caches under one operation -/

@[simp] theorem setRoute_routes_self (world : World) (id : RouteId) (cell : RouteCell) :
    (world.setRoute id cell).routes id = cell :=
  Function.update_self ..

theorem setRoute_routes_ne (world : World) {id other : RouteId} (cell : RouteCell)
    (h : other ≠ id) : (world.setRoute id cell).routes other = world.routes other :=
  Function.update_of_ne h ..

@[simp] theorem setUpstream_cache (world : World) (upstream : UpstreamId) (cell : UpstreamCell)
    (id : RouteId) :
    ((world.setUpstream upstream cell).routes id).cache = (world.routes id).cache := by
  by_cases h : id = upstream.route
  · rw [h, setUpstream, setRoute_routes_self]
  · rw [setUpstream, setRoute_routes_ne _ _ h]

/-- Every cache entry after an operation was there before, or is the one that the
operation stored. -/
theorem lookup_cache_answerNow {input : Input} {world : World} {op : Op} {id : RouteId}
    {key : String} {entry : CachedResponse}
    (h : ((answerNow input world op).2.routes id).cache.lookup key = some entry) :
    (world.routes id).cache.lookup key = some entry ∨
      ∃ cache, op = .cachePut id cache key entry.status entry.headers entry.body := by
  cases op with
  | cacheGet route key' =>
      left
      by_cases hroute : id = route
      · subst hroute
        simp only [answerNow, setRoute_routes_self] at h
        exact ResponseCache.lookup_get h
      · simpa only [answerNow, setRoute_routes_ne _ _ hroute] using h
  | cachePut route cache key' status headers body =>
      by_cases hroute : id = route
      · subst hroute
        simp only [answerNow, setRoute_routes_self] at h
        rcases ResponseCache.lookup_put h with hold | ⟨rfl, rfl⟩
        · exact Or.inl hold
        · exact Or.inr ⟨cache, rfl⟩
      · left
        simp only [answerNow, setRoute_routes_ne _ _ hroute] at h
        exact h
  | rrFetchAdd route =>
      left
      by_cases hroute : id = route
      · subst hroute
        simp only [answerNow, setRoute_routes_self] at h
        exact h
      · simpa only [answerNow, setRoute_routes_ne _ _ hroute] using h
  | allowAt _ _ | guardNew _ | guardDrop _ | recordSuccess _ | recordFailureAt _ _ _ =>
      left
      simpa only [answerNow, setUpstream_cache] using h
  | _ => exact Or.inl h

theorem lookup_cache_answer {input : Input} {world : World} {op : Op} {id : RouteId}
    {key : String} {entry : CachedResponse}
    (h : ((answer input world op).2.routes id).cache.lookup key = some entry) :
    (world.routes id).cache.lookup key = some entry ∨
      ∃ cache, op = .cachePut id cache key entry.status entry.headers entry.body := by
  have hnow : ((answerNow input (world.tick input.elapsed) op).2.routes id).cache.lookup key =
      some entry := h
  have hcases := lookup_cache_answerNow hnow
  exact hcases

/-- A hit is an entry of the cache. -/
theorem lookup_of_hit {input : Input} {world : World} {id : RouteId} {key : String}
    {hit : CachedResponse} (h : (answer input world (.cacheGet id key)).1 = some hit) :
    (world.routes id).cache.lookup key = some hit :=
  (ResponseCache.get_eq_some (Prod.ext h rfl)).1

/-! ## Upstreams under one operation -/

theorem upstream_setUpstream_self (world : World) (id : UpstreamId) (cell : UpstreamCell) :
    (world.setUpstream id cell).upstream id = cell := by
  simp [upstream, setUpstream]

theorem upstream_setUpstream_ne (world : World) {id other : UpstreamId} (cell : UpstreamCell)
    (h : other ≠ id) : (world.setUpstream id cell).upstream other = world.upstream other := by
  obtain ⟨route, index⟩ := id
  obtain ⟨route', index'⟩ := other
  by_cases hroute : route' = route
  · subst hroute
    have hindex : index' ≠ index := fun heq => h (heq ▸ rfl)
    simp [upstream, setUpstream, Function.update_of_ne hindex]
  · simp only [upstream, setUpstream, setRoute_routes_ne _ _ hroute]

theorem upstream_setRoute (world : World) (id : RouteId) (cell : RouteCell)
    (h : cell.upstreams = (world.routes id).upstreams) (other : UpstreamId) :
    (world.setRoute id cell).upstream other = world.upstream other := by
  by_cases hroute : other.route = id
  · subst hroute
    simp [upstream, h]
  · simp only [upstream, setRoute_routes_ne _ _ hroute]

/-- What an operation does to the cell of an upstream. -/
def cellAfter (upstream : UpstreamId) (cell : UpstreamCell) : Op → UpstreamCell
  | .guardNew id => if id = upstream then { cell with active := cell.active + 1 } else cell
  | .guardDrop id => if id = upstream then { cell with active := cell.active - 1 } else cell
  | .allowAt id now =>
      if id = upstream then
        { cell with breaker := (CircuitBreaker.allowAt cell.breaker now).2 }
      else cell
  | .recordSuccess id =>
      if id = upstream then { cell with breaker := CircuitBreaker.recordSuccess cell.breaker }
      else cell
  | .recordFailureAt id breaker now =>
      if id = upstream then { cell with breaker := breaker.recordFailureAt cell.breaker now }
      else cell
  | _ => cell

theorem upstream_setUpstream (world : World) (id other : UpstreamId) (cell : UpstreamCell) :
    (world.setUpstream id cell).upstream other =
      if id = other then cell else world.upstream other := by
  split
  · rename_i heq
    rw [heq, upstream_setUpstream_self]
  · rename_i hne
    exact upstream_setUpstream_ne world cell (Ne.symm hne)

theorem upstream_answer (input : Input) (world : World) (op : Op) (upstream : UpstreamId) :
    (answer input world op).2.upstream upstream = cellAfter upstream (world.upstream upstream) op := by
  show (answerNow input (world.tick input.elapsed) op).2.upstream upstream = _
  have htick : (world.tick input.elapsed).upstream upstream = world.upstream upstream := rfl
  cases op with
  | cacheGet id key | rrFetchAdd id =>
      refine (upstream_setRoute (world.tick input.elapsed) id _ ?_ upstream).trans htick
      rfl
  | cachePut id cache key status headers body =>
      refine (upstream_setRoute ((world.tick input.elapsed).tick input.held) id _ ?_
        upstream).trans htick
      rfl
  | guardNew id | guardDrop id | allowAt id _ | recordSuccess id | recordFailureAt id _ _ =>
      simp only [answerNow, upstream_setUpstream, cellAfter, htick]
      split
      · rename_i heq
        rw [heq, htick]
      · rfl
  | _ => rfl

/-! ## Time before an operation -/

theorem now_le_answerNow (input : Input) (world : World) (op : Op) :
    world.now ≤ (answerNow input world op).2.now := by
  cases op with
  | cachePut _ _ _ _ _ _ => exact Nat.le_add_right _ _
  | _ => exact Nat.le_refl _

theorem answerNow_elapsed (input : Input) (elapsed : Duration) (world : World) (op : Op) :
    answerNow { input with elapsed := elapsed } world op =
      answerNow input world op := by
  cases op <;> rfl

theorem tick_tick (world : World) (first second : Duration) :
    (world.tick first).tick second = world.tick (first + second) := by
  simp only [tick, Nat.add_assoc]

/-- Waiting before a call is part of the call. -/
theorem answer_tick (input : Input) (elapsed : Duration) (world : World) (op : Op) :
    answer input (world.tick elapsed) op =
      answer { input with elapsed := elapsed + input.elapsed } world op := by
  simp only [answer, answerNow_elapsed, tick_tick]

end World

/-- The interpreter of the request path. -/
@[reducible] def interpreter : Program.Interpreter effects Input World := ⟨World.answer⟩

/-- A health probe reports the state of an upstream. -/
structure Probe where
  upstream : UpstreamId
  healthy : Bool

def Probe.report (probe : Probe) (world : World) : World :=
  world.setUpstream probe.upstream { world.upstream probe.upstream with healthy := probe.healthy }

/-- The guard a handler holds after the given calls, if any. -/
def liveGuard (history : List (Event effects)) : Option UpstreamId :=
  history.foldl
    (fun held event =>
      match event.1 with
      | .guardNew id => some id
      | .guardDrop _ => none
      | _ => held) none

/-- A dropped handler drops the guard it holds, and nothing else. -/
def dropHandler (history : List (Event effects)) (world : World) : World :=
  match liveGuard history with
  | some id => (World.answerNow {} world (.guardDrop id)).2
  | none => world

/-- The running gateway. -/
def server (decode : TokenDecoder) (state : GatewayState) :
    Server effects Incoming Input Probe World Response where
  interp := interpreter
  start := handle decode state
  awaits := Op.awaits
  onDrop := dropHandler
  disturb := Probe.report

abbrev GatewayPool := Pool effects Incoming World Response

abbrev GatewayAction := Action Incoming Input Probe

/-- The gateway built from a configuration, after a run of any length. -/
def gatewayAfter (decode : TokenDecoder) (config : GatewayConfig) (redisReachable : Bool)
    (actions : List GatewayAction) : GatewayPool :=
  Pool.after (server decode (.build config redisReachable)) World.initial actions

theorem gatewayAfter_coherent (decode : TokenDecoder) (config : GatewayConfig)
    (redisReachable : Bool) (actions : List GatewayAction) :
    Pool.Coherent (server decode (.build config redisReachable))
      (gatewayAfter decode config redisReachable actions) :=
  Pool.coherent_after (server decode (.build config redisReachable)) World.initial actions

end Gateway
end ApiGateway
