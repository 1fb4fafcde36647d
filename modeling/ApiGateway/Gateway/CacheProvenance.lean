import ApiGateway.Gateway.CacheSharing
import ApiGateway.Gateway.RateStage

/-!
# What a cached answer is the answer to

The key of a cache joins method, host and target with spaces.  A host may contain spaces,
but a target does not, so the two can be told apart from the last space on, and two GET
requests with the same key have the same host and the same target.

With the log of the pool this gives the provenance of every cached answer: the request it
was obtained for, and the stages that this request had passed.
-/

namespace ApiGateway
namespace Gateway

open Library Core Program

/-- Path and query of a request as the cache key has them; a target that has none counts
as the root. -/
def requestTarget (request : Request) : String :=
  (request.uri.pathAndQuery.map PathAndQuery.asStr).getD "/"

theorem requestKey_eq (request : Request) :
    requestKey request =
      request.method.asStr ++ " " ++ requestHost request ++ " " ++ requestTarget request := rfl

theorem notMem_of_all {text : String} {allowed : Char → Bool} {char : Char}
    (h : text.toList.all allowed = true) (hchar : allowed char = false) : char ∉ text.toList := by
  intro hmem
  have := List.all_eq_true.mp h char hmem
  rw [hchar] at this
  cases this

/-- A path and query has no space. -/
theorem space_notMem_asStr (target : PathAndQuery) : ' ' ∉ target.asStr.toList := by
  have hpath : ' ' ∉ target.path.toList := notMem_of_all target.pathChars (by decide)
  unfold PathAndQuery.asStr
  split
  · rename_i query hquery
    have hchars := target.queryChars
    rw [hquery] at hchars
    have hspace : ' ' ∉ query.toList := notMem_of_all hchars (by decide)
    simp [hpath, hspace]
  · exact hpath

theorem space_notMem_requestTarget (request : Request) : ' ' ∉ (requestTarget request).toList := by
  unfold requestTarget
  cases request.uri.pathAndQuery with
  | none => decide
  | some target => exact space_notMem_asStr target

/-- **The cache key can be decoded**, whatever the host is. -/
theorem requestKey_inj {request request' : Request} (hmethod : request.method = request'.method)
    (h : requestKey request = requestKey request') :
    requestHost request = requestHost request' ∧
      requestTarget request = requestTarget request' := by
  rw [requestKey_eq, requestKey_eq, hmethod] at h
  obtain ⟨hfront, htarget⟩ := Text.join_space_inj (space_notMem_requestTarget request)
    (space_notMem_requestTarget request') h
  have hlists := congrArg String.toList hfront
  simp only [String.toList_append] at hlists
  exact ⟨String.toList_injective (List.append_cancel_left hlists), htarget⟩

/-! ## The flags of an exchange -/

/-- The cache is used for a GET that did not ask to bypass it. -/
theorem Mediated.cacheable {decode : TokenDecoder} {config : GatewayConfig}
    {redisReachable : Bool} {incoming : Incoming} {history : List (Event effects)}
    {route : RouteConfig} {id : RouteId} {exchange : Exchange}
    (h : Mediated decode config redisReachable incoming history route id exchange)
    (henabled : exchange.cacheEnabled = true) :
    incoming.request.method = .get ∧ cacheBypass incoming.request.headers = false := by
  rw [h.exchange_eq] at henabled
  simp only [Exchange.cacheEnabled, Bool.and_eq_true, Bool.not_eq_true'] at henabled
  exact ⟨beq_iff_eq.mp henabled.1.2, henabled.2⟩

theorem Exchange.stores_eq_true {exchange : Exchange} {resp : UpstreamResponse}
    (h : exchange.stores resp = true) :
    exchange.cacheEnabled = true ∧ resp.status = .ok ∧ responseCacheable resp.headers = true := by
  simp only [Exchange.stores, Bool.and_eq_true] at h
  exact ⟨h.1.1.1, beq_iff_eq.mp h.1.1.2, h.2⟩

/-- What a request that stores a response has done by then. -/
structure StoredFor (decode : TokenDecoder) (config : GatewayConfig) (redisReachable : Bool)
    (incoming : Incoming) (history : List (Event effects)) (route : RouteConfig) (id : RouteId)
    (entry : CachedResponse) (resp : UpstreamResponse) : Prop where
  isGet : incoming.request.method = .get
  noBypass : cacheBypass incoming.request.headers = false
  admitted : AdmittedBy decode config redisReachable incoming history route id
  limited : PassedLimit config redisReachable incoming route history
  received : ∃ index request,
    (⟨.send ⟨id, index⟩ request, .ok resp⟩ : Event effects) ∈ history
  cacheable : responseCacheable resp.headers = true
  status : resp.status = .ok ∧ entry.status = 200
  body : resp.body = ⟨entry.body, true⟩

section Pool

variable (decode : TokenDecoder) (config : GatewayConfig) (hvalid : config.Valid)
  (redisReachable : Bool) (actions : List GatewayAction)

include hvalid

/-- A request that looks into a cache is a GET that did not ask to bypass it. -/
theorem reader_of_logged {index : Nat} {id : RouteId} {key : String}
    {answer : Option CachedResponse}
    (h : (index, (⟨.cacheGet id key, answer⟩ : Event effects)) ∈
      (gatewayAfter decode config redisReachable actions).log) :
    ∃ thread route,
      (gatewayAfter decode config redisReachable actions).threads[index]? = some thread ∧
      AdmittedBy decode config redisReachable thread.request thread.history route id ∧
      key = requestKey thread.request.request ∧ thread.request.request.method = .get ∧
      cacheBypass thread.request.request.headers = false := by
  obtain ⟨thread, hthread, before, after, hhistory, route, exchange, hmediated, henabled, hkey⟩ :=
    justified_of_logged decode config hvalid redisReachable actions h
  obtain ⟨hget, hbypass⟩ := hmediated.cacheable henabled
  refine ⟨thread, route, hthread, ?_, hkey.trans hmediated.cacheKey_eq, hget, hbypass⟩
  rw [hhistory]
  exact hmediated.admitted.later _

theorem writer_of_logged {index : Nat} {id : RouteId} {cache : ResponseCache} {key : String}
    {entry : CachedResponse}
    (h : (index, storeEvent id cache key entry) ∈
      (gatewayAfter decode config redisReachable actions).log) :
    ∃ thread route resp earlier later,
      (gatewayAfter decode config redisReachable actions).threads[index]? = some thread ∧
      thread.history = earlier ++ storeEvent id cache key entry :: later ∧
      key = requestKey thread.request.request ∧
      StoredFor decode config redisReachable thread.request earlier route id entry resp := by
  obtain ⟨thread, hthread, before, after, hhistory, route, exchange, hmediated, position, request,
    resp, hsent, hstores, hcomplete, cache', -, hop⟩ :=
    justified_of_logged decode config hvalid redisReachable actions h
  obtain ⟨-, -, hkey, hstatus, -, hbody⟩ := Op.cachePut.inj hop
  obtain ⟨henabled, hok, hcacheable⟩ := Exchange.stores_eq_true hstores
  obtain ⟨hget, hbypass⟩ := hmediated.cacheable henabled
  obtain ⟨route', hroute', hlimited⟩ := limitedBefore_after decode config hvalid redisReachable
    actions hthread hhistory (by simp [storeEvent, handsOut])
  obtain rfl : route = route' := Option.some.inj (hmediated.admitted.matched.symm.trans hroute')
  refine ⟨thread, route, resp, before, after, hthread, hhistory,
    hkey.trans hmediated.cacheKey_eq, ?_⟩
  exact
    { isGet := hget
      noBypass := hbypass
      admitted := hmediated.admitted
      limited := hlimited
      received := ⟨position, request, hsent⟩
      cacheable := hcacheable
      status := ⟨hok, by rw [hstatus, hok]; rfl⟩
      body := by rw [hbody, ← hcomplete] }

end Pool

/-- **Provenance of a cached answer.**  In every run of a gateway with a validated
configuration, a request that is answered from the cache of a route is a GET that did not
ask to bypass the cache, and the entry was stored earlier, by a GET that was matched to
the same route, had passed its policy and its limiter, has the same host and the same
target, and had received the entry's body in full from an upstream, with status 200 and
headers that allow it to be cached. -/
theorem cached_answer_provenance (decode : TokenDecoder) (config : GatewayConfig)
    (hvalid : config.validate = .ok ()) (redisReachable : Bool) (actions : List GatewayAction)
    (before rest : List (Nat × Event effects)) (reader : Nat) (id : RouteId) (key : String)
    (hit : CachedResponse)
    (hlog : (gatewayAfter decode config redisReachable actions).log =
      before ++ (reader, ⟨.cacheGet id key, some hit⟩) :: rest) :
    ∃ answered stored writer cache route resp earlier later,
      (gatewayAfter decode config redisReachable actions).threads[reader]? = some answered ∧
      AdmittedBy decode config redisReachable answered.request answered.history route id ∧
      answered.request.request.method = .get ∧
      cacheBypass answered.request.request.headers = false ∧
      (gatewayAfter decode config redisReachable actions).threads[writer]? = some stored ∧
      (writer, storeEvent id cache key hit) ∈ before ∧
      stored.history = earlier ++ storeEvent id cache key hit :: later ∧
      StoredFor decode config redisReachable stored.request earlier route id hit resp ∧
      requestHost stored.request.request = requestHost answered.request.request ∧
      requestTarget stored.request.request = requestTarget answered.request.request := by
  have hconfig := (validate_eq_ok_iff config).mp hvalid
  obtain ⟨hread, writer, cache, hstored, hput⟩ :=
    hit_logged decode config redisReachable actions hlog
  obtain ⟨answered, route, hanswered, hadmitted, hkey, hget, hbypass⟩ :=
    reader_of_logged decode config hconfig redisReachable actions hread
  obtain ⟨stored, route', resp, earlier, later, hthread, hhistory, hkey', hfor⟩ :=
    writer_of_logged decode config hconfig redisReachable actions hput
  -- The position that names the cache names the route.
  obtain rfl : route = route' :=
    Option.some.inj (hadmitted.configured.symm.trans hfor.admitted.configured)
  obtain ⟨hhost, htarget⟩ := requestKey_inj (hfor.isGet.trans hget.symm) (hkey'.symm.trans hkey)
  exact ⟨answered, stored, writer, cache, route, resp, earlier, later, hanswered, hadmitted, hget,
    hbypass, hthread, hstored, hhistory, hfor, hhost, htarget⟩

/-- A run with a hit, and the request the response was obtained for. -/
theorem cached_answer_provenance_profile :
    ∃ answered stored : Thread effects Incoming Response,
      profilePool.threads[1]? = some answered ∧ answered.request.request.method = .get ∧
      requestTarget stored.request.request = requestTarget answered.request.request := by
  obtain ⟨key, hit, hhit, -⟩ := profilePool_hit
  obtain ⟨before, rest, hlog⟩ := List.append_of_mem (List.mem_of_getElem? hhit)
  obtain ⟨answered, stored, -, -, -, -, -, -, hanswered, -, hget, -, -, -, -, -, -, htarget⟩ :=
    cached_answer_provenance noTokens profileConfig rfl false profileRun before rest 1 0 key hit
      hlog
  exact ⟨answered, stored, hanswered, hget, htarget⟩

end Gateway
end ApiGateway
