import ApiGateway.Gateway.CacheProvenance

/-!
# Cache-Control over the whole header

A header may come in several field lines, and a line may hold bytes that are not text.
`cacheBypass` and `responseCacheable` look at the first line only, and take a line that is
not text for an absent one.  So a directive is seen when the first line is text and
carries one; `cache_control_honoured` says that nothing else goes wrong, in any run.
-/

namespace ApiGateway
namespace Gateway

open Library Core Program

/-- The bytes of a field line, each read as the character of its number. -/
def lineText (value : HeaderValue) : String :=
  String.ofList (value.bytes.map fun byte => Char.ofNat byte.toNat)

/-- The line contains one of the directives, in any letter case. -/
def mentions (directives : List String) (value : HeaderValue) : Bool :=
  directives.any fun directive =>
    Text.contains (Text.toAsciiLowercase (lineText value)) directive

/-- Some line of the header contains one of the directives. -/
def anyLineMentions (directives : List String) (headers : HeaderMap) : Bool :=
  (headers.getAll .cacheControl).any (mentions directives)

/-- The first line of the header is text and contains one of the directives. -/
def firstLineMentions (directives : List String) (headers : HeaderMap) : Bool :=
  (headers.get .cacheControl).any fun value => value.toStr.isSome && mentions directives value

/-- If any line contains a directive, then the first one does, and is text. -/
def firstLineTells (directives : List String) (headers : HeaderMap) : Bool :=
  !anyLineMentions directives headers || firstLineMentions directives headers

/-- The directives by which a request refuses the cache. -/
def requestDirectives : List String := ["no-cache", "no-store"]

/-- The directives by which a response refuses to be stored. -/
def responseDirectives : List String := ["no-store", "private", "no-cache"]

theorem eq_lineText_of_toStr {value : HeaderValue} {text : String} (h : value.toStr = some text) :
    text = lineText value := by
  unfold HeaderValue.toStr at h
  split at h
  · exact (Option.some.inj h).symm
  · cases h

/-- What the two predicates of the proxy see of the header. -/
theorem firstLineMentions_eq (directives : List String) (headers : HeaderMap) :
    firstLineMentions directives headers =
      match headers.getStr .cacheControl with
      | some text => directives.any (Text.contains (Text.toAsciiLowercase text))
      | none => false := by
  unfold firstLineMentions HeaderMap.getStr
  cases headers.get .cacheControl with
  | none => rfl
  | some value =>
      cases htext : value.toStr with
      | none => simp [htext]
      | some text => simp [htext, mentions, eq_lineText_of_toStr htext]

theorem cacheBypass_eq (headers : HeaderMap) :
    cacheBypass headers = firstLineMentions requestDirectives headers := by
  rw [firstLineMentions_eq]
  unfold cacheBypass
  cases headers.getStr .cacheControl with
  | none => rfl
  | some text => simp [requestDirectives]

theorem responseCacheable_eq (headers : HeaderMap) :
    responseCacheable headers = !firstLineMentions responseDirectives headers := by
  rw [firstLineMentions_eq]
  unfold responseCacheable
  cases headers.getStr .cacheControl with
  | none => rfl
  | some text => simp [responseDirectives, Bool.or_assoc]

/-- When the first line tells, a header whose first line mentions nothing mentions
nothing. -/
theorem anyLineMentions_eq_false {directives : List String} {headers : HeaderMap}
    (htells : firstLineTells directives headers = true)
    (hfirst : firstLineMentions directives headers = false) :
    anyLineMentions directives headers = false := by
  simpa [firstLineTells, hfirst] using htells

/-! ## The response that is stored -/

/-- The response that a call brought. -/
def received : Event effects → Option UpstreamResponse
  | ⟨.send _ _, .ok resp⟩ => some resp
  | _ => none

/-- The response that a handler received last. -/
def lastReceived (history : List (Event effects)) : Option UpstreamResponse :=
  (history.filterMap received).getLast?

theorem received_eq_none {event : Event effects} (h : event.1.kind ≠ .send) :
    received event = none := by
  obtain ⟨op, answer⟩ := event
  cases op with
  | send upstream request => exact absurd rfl h
  | _ => rfl

/-- Calls that are not sent to an upstream bring no response. -/
theorem lastReceived_append {history later : List (Event effects)}
    (h : ∀ event ∈ later, event.1.kind ≠ .send) :
    lastReceived (history ++ later) = lastReceived history := by
  have hnone : later.filterMap received = [] := by
    rw [List.filterMap_eq_nil_iff]
    exact fun event hevent => received_eq_none (h event hevent)
  rw [lastReceived, List.filterMap_append, hnone, List.append_nil]
  rfl

theorem lastReceived_concat {history : List (Event effects)} {event : Event effects}
    (h : event.1.kind ≠ .send) : lastReceived (history ++ [event]) = lastReceived history :=
  lastReceived_append (by simpa using h)

theorem lastReceived_send (history : List (Event effects)) (upstream : UpstreamId)
    (request : OutgoingRequest) (resp : UpstreamResponse) :
    lastReceived (history ++ [⟨.send upstream request, .ok resp⟩]) = some resp := by
  have hsent : List.filterMap received [⟨.send upstream request, .ok resp⟩] = [resp] := rfl
  rw [lastReceived, List.filterMap_append, hsent, List.getLast?_concat]

/-- A store is made for the response received last, and that response has status 200 and
a first line without a directive. -/
def StoresLast (history : List (Event effects)) (op : Op) : Prop :=
  op.kind = .cachePut → ∃ resp, lastReceived history = some resp ∧ resp.status = .ok ∧
    responseCacheable resp.headers = true

theorem storesLast_of_makesKinds {α : Type} {kinds : List OpKind} {program : GatewayProgram α}
    {history : List (Event effects)} (h : MakesKinds kinds program)
    (hkinds : OpKind.cachePut ∉ kinds) : program.Guarded StoresLast history :=
  Makes.guarded h fun _ _ hop hput => absurd (hput ▸ hop) hkinds

namespace Exchange

theorem settle_storesLast (exchange : Exchange) (attempt index : Nat) (upstream : Upstream)
    (result : SendResult) {history : List (Event effects)}
    (hlast : ∀ resp, result = .ok resp → lastReceived history = some resp) :
    (exchange.settle attempt index upstream result).Guarded StoresLast history := by
  refine (settle_makes exchange attempt index upstream result).guarded_of_made
    fun later op hlater hop hput => ?_
  have hquiet : ∀ event ∈ later, event.1.kind ≠ .send := by
    intro event hevent
    rcases hlater event hevent with hkind | ⟨_, -, -, -, cache, -, hstore⟩
    · intro hsend
      rw [hsend] at hkind
      exact absurd hkind (by decide)
    · rw [hstore]
      simp
  rcases hop with hkind | ⟨resp, hresp, hstores, -⟩
  · rw [hput] at hkind
    exact absurd hkind (by decide)
  · obtain ⟨-, hok, hcacheable⟩ := stores_eq_true hstores
    exact ⟨resp, by rw [lastReceived_append hquiet, hlast resp hresp], hok, hcacheable⟩

theorem tryUpstream_storesLast (exchange : Exchange) (bodyBytes : Bytes) (attempt index : Nat)
    (upstream : Upstream) (history : List (Event effects)) :
    (exchange.tryUpstream bodyBytes attempt index upstream).Guarded StoresLast history := by
  refine guarded_perform nofun fun _ => guarded_perform nofun fun result =>
    guarded_perform nofun fun _ => guarded_perform nofun fun _ => guarded_perform nofun
      fun _ => ?_
  refine guarded_bind (exchange.settle_storesLast attempt index upstream result ?_)
    fun _ _ _ => guarded_perform nofun fun _ => trivial
  rintro resp rfl
  rw [lastReceived_concat (by simp), lastReceived_concat (by simp), lastReceived_concat (by simp),
    lastReceived_send]

theorem attemptLoop_storesLast (exchange : Exchange) (bodyBytes : Bytes)
    (remaining attempt : Nat) (excluded : List Nat) (history : List (Event effects)) :
    (exchange.attemptLoop bodyBytes remaining attempt excluded).Guarded StoresLast history := by
  have hrecord : ∀ status (history : List (Event effects)),
      (exchange.record status).Guarded StoresLast history :=
    fun status _ => storesLast_of_makesKinds (exchange.record_makesKinds status) (by decide)
  induction remaining generalizing attempt excluded history with
  | zero => exact guarded_bind (hrecord _ _) fun _ _ _ => trivial
  | succ remaining ih =>
      refine guarded_bind (storesLast_of_makesKinds (Balancer.pick_makesKinds _ _ _) (by decide))
        fun _ picked _ => ?_
      cases picked with
      | none => exact guarded_bind (hrecord _ _) fun _ _ _ => trivial
      | some picked =>
          refine guarded_bind (exchange.tryUpstream_storesLast _ _ _ _ _) fun _ settled _ => ?_
          cases settled with
          | none => exact ih (attempt + 1) (excluded ++ [picked.1]) _
          | some response => trivial

theorem proxy_storesLast (exchange : Exchange) (history : List (Event effects)) :
    exchange.proxy.Guarded StoresLast history := by
  refine guarded_perform nofun fun _ => ?_
  split
  · exact guarded_bind (storesLast_of_makesKinds (exchange.record_makesKinds _) (by decide))
      fun _ _ _ => trivial
  · exact exchange.attemptLoop_storesLast _ _ _ _ _

theorem serve_storesLast (decode : TokenDecoder) (exchange : Exchange)
    (history : List (Event effects)) :
    (exchange.serve decode).Guarded StoresLast history := by
  apply serve_guarded_of_stages
  · exact storesLast_of_makesKinds (exchange.authenticate_makesKinds decode) (by decide)
  · intro auth _
    exact storesLast_of_makesKinds exchange.limitRate_makesKinds (by decide)
  · intro auth limited _ _
    exact storesLast_of_makesKinds exchange.lookupCache_makesKinds (by decide)
  · intro auth limited looked _ _ _
    exact exchange.proxy_storesLast _

end Exchange

theorem handle_storesLast (decode : TokenDecoder) (state : GatewayState) (incoming : Incoming) :
    (handle decode state incoming).Guarded StoresLast [] := by
  apply handle_guarded_of_serve
  · intro history op hop hput
    rw [hput] at hop
    exact absurd hop (by decide)
  · intro route runtime correlation started history _ _ _ _
    exact Exchange.serve_storesLast decode _ history

/-! ## In every run -/

/-- No response with a directive on any line is stored or served, and no request with one
is answered from a cache or has its response stored. -/
structure HonoursCacheControl (pool : GatewayPool) : Prop where
  stored : ∀ (index : Nat) (thread : Thread effects Incoming Response)
    (earlier later : List (Event effects)) (id : RouteId) (cache : ResponseCache) (key : String)
    (entry : CachedResponse),
    pool.threads[index]? = some thread →
    thread.history = earlier ++ storeEvent id cache key entry :: later →
      anyLineMentions requestDirectives thread.request.request.headers = false ∧
      ∃ resp, lastReceived earlier = some resp ∧
        anyLineMentions responseDirectives resp.headers = false
  served : ∀ (before rest : List (Nat × Event effects)) (reader : Nat)
    (thread : Thread effects Incoming Response) (id : RouteId) (key : String)
    (hit : CachedResponse),
    pool.log = before ++ (reader, ⟨.cacheGet id key, some hit⟩) :: rest →
    pool.threads[reader]? = some thread →
      anyLineMentions requestDirectives thread.request.request.headers = false ∧
      ∃ writer cache stored earlier later resp,
        (writer, storeEvent id cache key hit) ∈ before ∧
        pool.threads[writer]? = some stored ∧
        stored.history = earlier ++ storeEvent id cache key hit :: later ∧
        lastReceived earlier = some resp ∧
        anyLineMentions responseDirectives resp.headers = false

/-- A GET whose route has a cache. -/
def Incoming.MayUseCache (config : GatewayConfig) (incoming : Incoming) : Prop :=
  incoming.request.method = .get ∧
    ∃ route, incoming.routeOf config = some route ∧ route.cache.isSome = true

/-- Every request for which a cache may be used, and every response with status 200 that
such a request receives, tells on its first line. -/
def TellsFirst (config : GatewayConfig) (pool : GatewayPool) : Prop :=
  ∀ (index : Nat) (thread : Thread effects Incoming Response),
    pool.threads[index]? = some thread → thread.request.MayUseCache config →
      firstLineTells requestDirectives thread.request.request.headers = true ∧
      ∀ event ∈ thread.history, ∀ resp, received event = some resp → resp.status = .ok →
        firstLineTells responseDirectives resp.headers = true

theorem Mediated.mayUseCache {decode : TokenDecoder} {config : GatewayConfig}
    {redisReachable : Bool} {incoming : Incoming} {history : List (Event effects)}
    {route : RouteConfig} {id : RouteId} {exchange : Exchange}
    (h : Mediated decode config redisReachable incoming history route id exchange)
    (henabled : exchange.cacheEnabled = true) : incoming.MayUseCache config := by
  refine ⟨(h.cacheable henabled).1, route, h.admitted.matched, ?_⟩
  simp only [Exchange.cacheEnabled, Bool.and_eq_true, h.runtime_eq] at henabled
  have hcache := henabled.1.1
  rwa [RouteRuntime.fromConfig, Option.isSome_map] at hcache

section Pool

variable (decode : TokenDecoder) (config : GatewayConfig) (redisReachable : Bool)
  (actions : List GatewayAction)

/-- A request that reads or fills a cache has no line with a directive. -/
theorem request_mentions_nothing {index : Nat} {thread : Thread effects Incoming Response}
    (htells : TellsFirst config (gatewayAfter decode config redisReachable actions))
    (hthread : (gatewayAfter decode config redisReachable actions).threads[index]? = some thread)
    {history : List (Event effects)} {route : RouteConfig} {id : RouteId} {exchange : Exchange}
    (hmediated : Mediated decode config redisReachable thread.request history route id exchange)
    (henabled : exchange.cacheEnabled = true) :
    anyLineMentions requestDirectives thread.request.request.headers = false := by
  apply anyLineMentions_eq_false (htells index thread hthread (hmediated.mayUseCache henabled)).1
  rw [← cacheBypass_eq]
  exact (hmediated.cacheable henabled).2

/-- What a stored response and the request it was stored for mention. -/
theorem stored_mentions_nothing (hvalid : config.Valid) {index : Nat} {thread : Thread effects Incoming Response}
    (htells : TellsFirst config (gatewayAfter decode config redisReachable actions))
    (hthread : (gatewayAfter decode config redisReachable actions).threads[index]? = some thread)
    {earlier later : List (Event effects)} {id : RouteId} {cache : ResponseCache} {key : String}
    {entry : CachedResponse}
    (hhistory : thread.history = earlier ++ storeEvent id cache key entry :: later) :
    anyLineMentions requestDirectives thread.request.request.headers = false ∧
      ∃ resp, lastReceived earlier = some resp ∧
        anyLineMentions responseDirectives resp.headers = false := by
  obtain ⟨route, exchange, hmediated, _, _, _, -, hstore⟩ :=
    justified_after decode config hvalid redisReachable actions hthread hhistory
  obtain ⟨henabled, -, -⟩ := Exchange.stores_eq_true hstore.1
  refine ⟨request_mentions_nothing decode config redisReachable actions htells hthread
    hmediated henabled, ?_⟩
  have hsteps := (gatewayAfter_coherent decode config redisReachable actions).steps index thread
    hthread
  obtain ⟨resp, hlast, hok, hcacheable⟩ : ∃ resp, lastReceived earlier = some resp ∧
      resp.status = .ok ∧ responseCacheable resp.headers = true := by
    simpa using (handle_storesLast decode _ thread.request).allowed_of_mem hsteps hhistory rfl
  refine ⟨resp, hlast, ?_⟩
  -- The response was received by this request, so its first line tells.
  obtain ⟨event, hevent, hreceived⟩ := List.mem_filterMap.mp (List.mem_of_getLast? hlast)
  have hmem : event ∈ thread.history := by
    rw [hhistory]
    exact List.mem_append_left _ hevent
  apply anyLineMentions_eq_false
    ((htells index thread hthread (hmediated.mayUseCache henabled)).2 event hmem resp hreceived hok)
  rw [responseCacheable_eq] at hcacheable
  simpa using hcacheable

end Pool

/-- **Cache-Control is honoured when the first line tells.**  In every run of a gateway with
a validated configuration in which each request that may use a cache, and each response
with status 200 to it, carries a directive on its first line, as text, if it carries one
at all: no response with a directive on any line is stored or served from a cache, and no
request with one is answered from a cache or has its response stored. -/
theorem cache_control_honoured (decode : TokenDecoder) (config : GatewayConfig)
    (hvalid : config.validate = .ok ()) (redisReachable : Bool) (actions : List GatewayAction)
    (htells : TellsFirst config (gatewayAfter decode config redisReachable actions)) :
    HonoursCacheControl (gatewayAfter decode config redisReachable actions) := by
  have hconfig := (validate_eq_ok_iff config).mp hvalid
  have hcoherent := gatewayAfter_coherent decode config redisReachable actions
  constructor
  · intro index thread earlier later id cache key entry hthread hhistory
    exact stored_mentions_nothing decode config redisReachable actions hconfig htells hthread
      hhistory
  · intro before rest reader thread id key hit hlog hthread
    obtain ⟨hread, writer, cache, hstored, hput⟩ :=
      hit_logged decode config redisReachable actions hlog
    obtain ⟨thread', hthread', _, _, -, route, exchange, hmediated, henabled, -⟩ :=
      justified_of_logged decode config hconfig redisReachable actions hread
    obtain rfl := Option.some.inj (hthread.symm.trans hthread')
    refine ⟨request_mentions_nothing decode config redisReachable actions htells hthread
      hmediated henabled, ?_⟩
    -- The entry was stored by an earlier call, for a response that mentions nothing.
    obtain ⟨stored, hwriter, hevent⟩ := hcoherent.mem_history hput
    obtain ⟨earlier, later, hhistory⟩ := List.append_of_mem hevent
    obtain ⟨-, resp, hlast, hnothing⟩ :=
      stored_mentions_nothing decode config redisReachable actions hconfig htells hwriter hhistory
    exact ⟨writer, cache, stored, earlier, later, resp, hstored, hwriter, hhistory, hlast, hnothing⟩

/-- A run with a hit, on a route and with headers that mention nothing. -/
theorem cache_control_honoured_profile :
    TellsFirst profileConfig profilePool ∧ HonoursCacheControl profilePool := by
  have htells : TellsFirst profileConfig profilePool := by
    have hthreads : ∀ thread ∈ profilePool.threads,
        firstLineTells requestDirectives thread.request.request.headers = true ∧
        ∀ event ∈ thread.history, (match received event with
          | some resp => firstLineTells responseDirectives resp.headers
          | none => true) = true := by
      decide +kernel
    intro index thread hthread _
    obtain ⟨hrequest, hresponses⟩ := hthreads thread (List.mem_of_getElem? hthread)
    refine ⟨hrequest, ?_⟩
    intro event hevent resp hresp _
    have := hresponses event hevent
    rwa [hresp] at this
  exact ⟨htells, cache_control_honoured noTokens profileConfig rfl false profileRun htells⟩

/-- An upstream response that is private, on its second line. -/
def privateResponse : UpstreamResponse where
  status := .ok
  headers := setHeader [] "cache-control" "max-age=60" ++ setHeader [] "cache-control" "private"
  body := ⟨Text.asBytes "alice", true⟩

def privateRun : List GatewayAction :=
  .arrive (profileIncoming "k-alice") ::
    List.replicate 24 (.advance 0 { upstream := fun _ _ => .ok privateResponse })

def privatePool : GatewayPool := gatewayAfter noTokens profileConfig false privateRun

set_option maxRecDepth 4000 in
/-- The response is received, and stored. -/
theorem privatePool_stores :
    ∃ thread, privatePool.threads[0]? = some thread ∧ ∃ cache key entry,
      thread.history.drop 21 = storeEvent 0 cache key entry :: thread.history.drop 22 ∧
      lastReceived (thread.history.take 21) = some privateResponse :=
  ⟨_, rfl, _, _, ⟨_, _, _, 0⟩, rfl, rfl⟩

/-- A response that is private on its second line only is stored. -/
theorem private_second_line_is_stored :
    profileConfig.validate = .ok () ∧ ¬ HonoursCacheControl privatePool := by
  refine ⟨rfl, fun h => ?_⟩
  obtain ⟨thread, hthread, cache, key, entry, hstore, hlast⟩ := privatePool_stores
  have hhistory := (List.take_append_drop 21 thread.history).symm
  rw [hstore] at hhistory
  obtain ⟨-, resp, hresp, hnothing⟩ := h.stored 0 thread _ _ 0 cache key entry hthread hhistory
  obtain rfl := Option.some.inj (hlast.symm.trans hresp)
  have hprivate : anyLineMentions responseDirectives privateResponse.headers = true := by decide
  rw [hprivate] at hnothing
  cases hnothing

end Gateway
end ApiGateway
