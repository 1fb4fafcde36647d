import ApiGateway.Gateway.Mediation

/-!
# Who a cached response was obtained for

The cache key holds method, host, path and query, and nothing of the credential.  A
hit therefore hands out a response that was obtained for some request of the same
route with the same key, which the policy of the route accepted with a credential of
its own.

`LoggedCache` is the invariant behind this: every entry of every cache was stored by a
call in the log.
-/

namespace ApiGateway
namespace Gateway

open Library Core Program

/-- The call that stored an entry. -/
def storeEvent (id : RouteId) (cache : ResponseCache) (key : String) (entry : CachedResponse) :
    Event effects :=
  ⟨.cachePut id cache key entry.status entry.headers entry.body, ()⟩

/-- Every entry of every cache was stored by a logged call. -/
def LoggedCache (pool : GatewayPool) : Prop :=
  ∀ id key entry, (pool.state.routes id).cache.lookup key = some entry →
    ∃ writer cache, (writer, storeEvent id cache key entry) ∈ pool.log

/-- Dropping a handler does not touch a cache. -/
theorem dropHandler_cache (history : List (Event effects)) (world : World) (id : RouteId) :
    ((dropHandler history world).routes id).cache = (world.routes id).cache := by
  unfold dropHandler
  split
  · exact World.setUpstream_cache ..
  · rfl

theorem loggedCache_step (decode : TokenDecoder) (state : GatewayState) (pool : GatewayPool)
    (action : GatewayAction) (h : LoggedCache pool) :
    LoggedCache (pool.step (server decode state) action) := by
  rcases Pool.step_cases (server decode state) pool action with ⟨_, hpool⟩ |
    ⟨caller, _, op, _, input, -, -, hpool⟩ | ⟨_, thread, -, hpool⟩ | ⟨probe, hpool⟩ | hpool
  · rw [hpool]
    exact h
  · rw [hpool]
    intro id key entry hentry
    -- An entry is an old one, or it was stored by the call that is logged now.
    rcases World.lookup_cache_answer hentry with hold | ⟨cache, rfl⟩
    · obtain ⟨writer, cache, hlogged⟩ := h id key entry hold
      exact ⟨writer, cache, List.mem_append_left _ hlogged⟩
    · exact ⟨caller, cache, List.mem_append_right _ List.mem_cons_self⟩
  · rw [hpool]
    intro id key entry hentry
    refine h id key entry ?_
    rwa [← dropHandler_cache thread.history pool.state id]
  · rw [hpool]
    intro id key entry hentry
    refine h id key entry ?_
    rwa [← World.setUpstream_cache pool.state probe.upstream _ id]
  · rw [hpool]
    exact h

/-- A hit returns an entry that an earlier call stored. -/
def HitStored (before : List (Nat × Event effects)) (entry : Nat × Event effects) : Prop :=
  ∀ id key hit, entry.2 = ⟨.cacheGet id key, some hit⟩ →
    ∃ writer cache, (writer, storeEvent id cache key hit) ∈ before

theorem hit_stored (decode : TokenDecoder) (config : GatewayConfig) (redisReachable : Bool)
    (actions : List GatewayAction) :
    ∀ before entry rest,
      (gatewayAfter decode config redisReachable actions).log = before ++ entry :: rest →
        HitStored before entry := by
  refine Pool.log_after_induction _ _ LoggedCache HitStored ?_ ?_ ?_ actions
  · intro id key entry hentry
    cases hentry
  · exact fun pool action h => loggedCache_step decode _ pool action h
  · intro pool index op input h id key hit hevent
    obtain ⟨rfl, hanswer⟩ := Sigma.mk.inj hevent
    exact h id key hit (World.lookup_of_hit (eq_of_heq hanswer))

/-- A hit in the log, and the call before it that stored the entry. -/
theorem hit_logged (decode : TokenDecoder) (config : GatewayConfig) (redisReachable : Bool)
    (actions : List GatewayAction) {before rest : List (Nat × Event effects)} {reader : Nat}
    {id : RouteId} {key : String} {hit : CachedResponse}
    (hlog : (gatewayAfter decode config redisReachable actions).log =
      before ++ (reader, ⟨.cacheGet id key, some hit⟩) :: rest) :
    (reader, (⟨.cacheGet id key, some hit⟩ : Event effects)) ∈
        (gatewayAfter decode config redisReachable actions).log ∧
      ∃ writer cache, (writer, storeEvent id cache key hit) ∈ before ∧
        (writer, storeEvent id cache key hit) ∈
          (gatewayAfter decode config redisReachable actions).log := by
  obtain ⟨writer, cache, hstored⟩ :=
    hit_stored decode config redisReachable actions before _ rest hlog id key hit rfl
  rw [hlog]
  exact ⟨List.mem_append_right _ List.mem_cons_self, writer, cache, hstored,
    List.mem_append_left _ hstored⟩

/-! ## Provenance of a hit -/

/-- The cache key of a request. -/
def requestKey (request : Request) : String :=
  ResponseCache.key request.method.asStr (requestHost request)
    ((request.uri.pathAndQuery.map PathAndQuery.asStr).getD "/")

theorem Mediated.cacheKey_eq {decode : TokenDecoder} {config : GatewayConfig}
    {redisReachable : Bool} {incoming : Incoming} {history : List (Event effects)}
    {route : RouteConfig} {id : RouteId} {exchange : Exchange}
    (h : Mediated decode config redisReachable incoming history route id exchange) :
    exchange.cacheKey = requestKey incoming.request := by
  rw [h.exchange_eq]
  rfl

/-- The policy accepts only keys of its list. -/
theorem mem_of_authorize_apiKey {decode : TokenDecoder} {now : UnixTime} {keys : List String}
    {headers : HeaderMap} (h : authorize decode now (.apiKey keys) headers = .ok ()) :
    ∃ key ∈ keys, extractApiKey headers = some key := by
  unfold authorize at h
  simp only at h
  split at h
  · cases h
  · rename_i presented hpresented
    split at h
    · rename_i hmem
      obtain ⟨key, hkey, heq⟩ := List.any_eq_true.mp hmem
      rw [beq_iff_eq.mp heq] at hkey
      exact ⟨presented, hkey, hpresented⟩
    · cases h

section Pool

variable (decode : TokenDecoder) (config : GatewayConfig) (hvalid : config.Valid)
  (redisReachable : Bool) (actions : List GatewayAction)

include hvalid

/-- The thread behind a logged call, and why the call was justified. -/
theorem justified_of_logged {index : Nat} {event : Event effects}
    (h : (index, event) ∈ (gatewayAfter decode config redisReachable actions).log) :
    ∃ thread,
      (gatewayAfter decode config redisReachable actions).threads[index]? = some thread ∧
      ∃ before after, thread.history = before ++ event :: after ∧
        Justified decode config redisReachable thread.request before event.1 := by
  have hcoherent := gatewayAfter_coherent decode config redisReachable actions
  obtain ⟨thread, hthread, hevent⟩ := hcoherent.mem_history h
  obtain ⟨before, after, hhistory⟩ := List.append_of_mem hevent
  exact ⟨thread, hthread, before, after, hhistory,
    justified_after decode config hvalid redisReachable actions hthread hhistory⟩

theorem admitted_of_hit {index : Nat} {id : RouteId} {key : String}
    {answer : Option CachedResponse}
    (h : (index, (⟨.cacheGet id key, answer⟩ : Event effects)) ∈
      (gatewayAfter decode config redisReachable actions).log) :
    ∃ thread,
      (gatewayAfter decode config redisReachable actions).threads[index]? = some thread ∧
      ∃ route, AdmittedBy decode config redisReachable thread.request thread.history route id ∧
        key = requestKey thread.request.request := by
  obtain ⟨thread, hthread, before, after, hhistory, route, exchange, hmediated, -, hkey⟩ :=
    justified_of_logged decode config hvalid redisReachable actions h
  refine ⟨thread, hthread, route, ?_, hkey.trans hmediated.cacheKey_eq⟩
  rw [hhistory]
  exact hmediated.admitted.later _

/-- A stored response was received in full, for an admitted request of its own key. -/
theorem admitted_of_store {index : Nat} {id : RouteId} {cache : ResponseCache} {key : String}
    {entry : CachedResponse}
    (h : (index, storeEvent id cache key entry) ∈
      (gatewayAfter decode config redisReachable actions).log) :
    ∃ thread,
      (gatewayAfter decode config redisReachable actions).threads[index]? = some thread ∧
      ∃ route, AdmittedBy decode config redisReachable thread.request thread.history route id ∧
        key = requestKey thread.request.request ∧
        ∃ position request resp,
          (⟨.send ⟨id, position⟩ request, .ok resp⟩ : Event effects) ∈ thread.history ∧
          resp.status.code = entry.status ∧ resp.body = ⟨entry.body, true⟩ := by
  obtain ⟨thread, hthread, before, after, hhistory, route, exchange, hmediated, position, request,
    resp, hsent, -, hcomplete, cache', -, hop⟩ :=
    justified_of_logged decode config hvalid redisReachable actions h
  obtain ⟨-, -, hkey, hstatus, -, hbody⟩ := Op.cachePut.inj hop
  refine ⟨thread, hthread, route, ?_, hkey.trans hmediated.cacheKey_eq, position, request, resp,
    ?_, hstatus.symm, ?_⟩
  · rw [hhistory]
    exact hmediated.admitted.later _
  · rw [hhistory]
    exact List.mem_append_left _ hsent
  · rw [hbody, ← hcomplete]

end Pool

/-- **Provenance of a cache hit.**  Whenever a request is answered from the cache of
a route, the response was stored earlier by a handler whose own request was matched
to the same route, was accepted by the policy of that route and has the same cache
key, and which had received the response in full from an upstream of the route.  The
two credentials need not agree; they do when the policy has a single key. -/
theorem cache_hit_provenance (decode : TokenDecoder) (config : GatewayConfig)
    (hvalid : config.validate = .ok ()) (redisReachable : Bool) (actions : List GatewayAction)
    (before rest : List (Nat × Event effects)) (reader : Nat) (id : RouteId) (key : String)
    (hit : CachedResponse)
    (hlog : (gatewayAfter decode config redisReachable actions).log =
      before ++ (reader, ⟨.cacheGet id key, some hit⟩) :: rest) :
    ∃ writer cache route answered stored,
      (gatewayAfter decode config redisReachable actions).threads[reader]? = some answered ∧
      (gatewayAfter decode config redisReachable actions).threads[writer]? = some stored ∧
      (writer, storeEvent id cache key hit) ∈ before ∧
      AdmittedBy decode config redisReachable answered.request answered.history route id ∧
      AdmittedBy decode config redisReachable stored.request stored.history route id ∧
      key = requestKey answered.request.request ∧ key = requestKey stored.request.request ∧
      (∃ index request resp, (⟨.send ⟨id, index⟩ request, .ok resp⟩ : Event effects) ∈
          stored.history ∧ resp.status.code = hit.status ∧ resp.body = ⟨hit.body, true⟩) ∧
      ∀ only, route.auth = .apiKey [only] →
        extractApiKey stored.request.request.headers =
          extractApiKey answered.request.request.headers := by
  have hconfig := (validate_eq_ok_iff config).mp hvalid
  obtain ⟨hmem, writer, cache, hstored, hput⟩ :=
    hit_logged decode config redisReachable actions hlog
  obtain ⟨answered, hanswered, route, hreader, hkey⟩ :=
    admitted_of_hit decode config hconfig redisReachable actions hmem
  obtain ⟨stored, hthread, route', hwriter, hkey', hupstream⟩ :=
    admitted_of_store decode config hconfig redisReachable actions hput
  -- Both requests belong to the route at the position that names the cache.
  obtain rfl : route = route' :=
    Option.some.inj (hreader.configured.symm.trans hwriter.configured)
  refine ⟨writer, cache, route, answered, stored, hanswered, hthread, hstored, hreader, hwriter,
    hkey, hkey', hupstream, fun only hauth => ?_⟩
  obtain ⟨_, -, haccepted⟩ := hreader.authorized
  obtain ⟨_, -, haccepted'⟩ := hwriter.authorized
  rw [hauth] at haccepted haccepted'
  obtain ⟨presented, honly, hpresented⟩ := mem_of_authorize_apiKey haccepted
  obtain ⟨presented', honly', hpresented'⟩ := mem_of_authorize_apiKey haccepted'
  rw [hpresented, hpresented', List.mem_singleton.mp honly, List.mem_singleton.mp honly']

/-! ## Two credentials on one route -/

/-- The two requests present the same credential to the policy. -/
def SameCredential (policy : AuthPolicy) (stored answered : HeaderMap) : Prop :=
  match policy with
  | .none => True
  | .apiKey _ => extractApiKey stored = extractApiKey answered
  | .jwt _ _ => bearerToken stored = bearerToken answered

/-- Every hit of a run hands out a response that was stored for the same credential. -/
def CacheKeepsCredentials (config : GatewayConfig) (pool : GatewayPool) : Prop :=
  ∀ (before rest : List (Nat × Event effects)) (reader : Nat) (id : RouteId) (key : String)
    (hit : CachedResponse) (route : RouteConfig) (answered : Thread effects Incoming Response),
    pool.log = before ++ (reader, ⟨.cacheGet id key, some hit⟩) :: rest →
    config.routes[id]? = some route → pool.threads[reader]? = some answered →
    ∃ writer cache stored, pool.threads[writer]? = some stored ∧
      (writer, storeEvent id cache key hit) ∈ before ∧
      SameCredential route.auth stored.request.request.headers answered.request.request.headers

/-- A cached route with two keys. -/
def profileRoute : RouteConfig :=
  { name := "profile", upstreams := [{ url := "http://profile:8081" }]
    auth := .apiKey ["k-alice", "k-bob"], cache := some { ttlSecs := 10 } }

def profileConfig : GatewayConfig := { routes := [profileRoute] }

def profileIncoming (key : String) : Incoming where
  request :=
    { method := .get
      uri := .ofPath "/me" (by decide)
      headers := setHeader [] "x-api-key" key
      body := ⟨[], true⟩ }
  peer := "10.0.0.1"

def profileResponse : UpstreamResponse where
  status := .ok
  headers := []
  body := ⟨Text.asBytes "alice", true⟩

/-- One holder of a key is served by the upstream, then the holder of the other key
asks for the same path. -/
def profileRun : List GatewayAction :=
  .arrive (profileIncoming "k-alice") ::
    List.replicate 24 (.advance 0 { upstream := fun _ _ => .ok profileResponse }) ++
    .arrive (profileIncoming "k-bob") :: List.replicate 9 (.advance 1 {})

def profilePool : GatewayPool := gatewayAfter noTokens profileConfig false profileRun

set_option maxRecDepth 4000 in
/-- The second request is answered from the cache with the first one's body. -/
theorem profilePool_hit :
    ∃ key hit, profilePool.log[28]? = some (1, ⟨.cacheGet 0 key, some hit⟩) ∧
      hit.body = Text.asBytes "alice" :=
  ⟨_, _, rfl, rfl⟩

theorem profilePool_stores :
    ∀ entry ∈ profilePool.log, (match entry.2.1 with | .cachePut .. => true | _ => false) = true →
      entry.1 = 0 := by
  decide +kernel

set_option maxRecDepth 4000 in
/-- The two threads present different keys. -/
theorem profilePool_keys :
    (∃ thread, profilePool.threads[0]? = some thread ∧
        extractApiKey thread.request.request.headers = some "k-alice") ∧
      ∃ thread, profilePool.threads[1]? = some thread ∧
        extractApiKey thread.request.request.headers = some "k-bob" :=
  ⟨⟨_, rfl, by decide⟩, ⟨_, rfl, by decide⟩⟩

/-- The hit is justified by the first request, which the route accepted with its own
key. -/
theorem profilePool_provenance :
    ∃ (writer : Nat) (stored : Thread effects Incoming Response),
      profilePool.threads[writer]? = some stored ∧
      AdmittedBy noTokens profileConfig false stored.request stored.history profileRoute 0 := by
  obtain ⟨key, hit, hhit, -⟩ := profilePool_hit
  obtain ⟨before, rest, hlog⟩ := List.append_of_mem (List.mem_of_getElem? hhit)
  obtain ⟨writer, cache, route, answered, stored, -, hthread, -, -, hadmitted, -⟩ :=
    cache_hit_provenance noTokens profileConfig rfl false profileRun before rest 1 0 key hit hlog
  obtain rfl : profileRoute = route := Option.some.inj hadmitted.configured
  exact ⟨writer, stored, hthread, hadmitted⟩

/-- The response obtained for one key is handed to the holder of the other. -/
theorem cache_crosses_credentials :
    profileConfig.validate = .ok () ∧ ¬ CacheKeepsCredentials profileConfig profilePool := by
  refine ⟨rfl, fun hkeeps => ?_⟩
  obtain ⟨key, hit, hhit, -⟩ := profilePool_hit
  obtain ⟨before, rest, hlog⟩ := List.append_of_mem (List.mem_of_getElem? hhit)
  obtain ⟨⟨alice, halice, hkey⟩, bob, hbob, hkey'⟩ := profilePool_keys
  obtain ⟨writer, cache, stored, hthread, hstored, hsame⟩ :=
    hkeeps before rest 1 0 key hit profileRoute bob hlog rfl hbob
  obtain rfl : writer = 0 := by
    refine profilePool_stores (writer, storeEvent 0 cache key hit) ?_ rfl
    rw [hlog]
    exact List.mem_append_left _ hstored
  obtain rfl := Option.some.inj (hthread.symm.trans halice)
  change extractApiKey _ = extractApiKey _ at hsame
  rw [hkey, hkey'] at hsame
  exact absurd hsame (by decide)

end Gateway
end ApiGateway
