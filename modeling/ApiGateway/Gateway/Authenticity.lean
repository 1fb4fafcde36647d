import ApiGateway.Gateway.Answers
import ApiGateway.Gateway.CacheProvenance

/-!
# Where answers come from

An answer is one of the gateway's own, or it has the status and the body of a response that an
upstream gave in this run: to the last attempt of the same request, or, through the cache, to an
attempt of an earlier request of the same route for the same host and target.  So no client is
ever handed a response that was obtained for a different route or a different resource, and none
that no upstream has given, whatever requests run side by side.

`Origin` says this of one handler, in terms of its own calls; the log of the pool leads from a
hit to the upstream behind it.
-/

namespace ApiGateway
namespace Gateway

open Library Core Program

/-- The statuses under which the gateway answers by itself. -/
def ownStatuses : List StatusCode :=
  [.unauthorized, .notFound, .payloadTooLarge, .tooManyRequests, .badGateway, .serviceUnavailable]

/-- The answer is one of the gateway's own. -/
def OwnAnswer (response : Response) : Prop :=
  ∃ message correlation, response.status ∈ ownStatuses ∧
    response.body = (error response.status message correlation).body

/-- The answer has the status and the body of the response of an upstream: the body is passed
on as it comes in, or it has come in completely. -/
def Relays (response : Response) (resp : UpstreamResponse) : Prop :=
  response.status = resp.status ∧
    (response.body = .streamed resp.body ∨
      (resp.body.complete = true ∧ response.body = .buffered resp.body.bytes))

/-- Where the answer of a handler comes from, in terms of its calls. -/
inductive Origin (trace : List (Event effects)) (response : Response) : Prop
  | own (h : OwnAnswer response)
  | hit {id : RouteId} {key : String} {entry : CachedResponse}
      (hread : (⟨.cacheGet id key, some entry⟩ : Event effects) ∈ trace)
      (hstatus : response.status = (StatusCode.fromU16 entry.status).getD .ok)
      (hbody : response.body = .buffered entry.body)
  | relay {upstream : UpstreamId} {resp : UpstreamResponse}
      (hlast : (sends trace).getLast? = some (upstream, .ok resp)) (hrelays : Relays response resp)

theorem Origin.later {trace : List (Event effects)} {response : Response}
    (h : Origin trace response) (before : List (Event effects)) :
    Origin (before ++ trace) response := by
  cases h with
  | own h => exact .own h
  | hit hread hstatus hbody => exact .hit (List.mem_append_right _ hread) hstatus hbody
  | relay hlast hrelays =>
      have hlast' : (sends (before ++ trace)).getLast? = (sends trace).getLast? := by
        rw [sends_append, List.getLast?_append, hlast]
        rfl
      exact .relay (hlast'.trans hlast) hrelays

theorem Origin.before {trace : List (Event effects)} {response : Response}
    (h : Origin trace response) {after : List (Event effects)} (hsends : sends after = []) :
    Origin (trace ++ after) response := by
  cases h with
  | own h => exact .own h
  | hit hread hstatus hbody => exact .hit (List.mem_append_left _ hread) hstatus hbody
  | relay hlast hrelays =>
      have hsame : sends (trace ++ after) = sends trace := by
        rw [sends_append, hsends, List.append_nil]
      exact .relay (hsame ▸ hlast) hrelays

namespace Exchange

variable (exchange : Exchange)

theorem ownAnswer_errorResponse {status : StatusCode} (h : status ∈ ownStatuses)
    (message : String) : OwnAnswer (exchange.errorResponse status message) :=
  ⟨message, exchange.correlation, h, rfl⟩

/-- What is relayed has the status and the body of what came in, unless the body was to be
stored and broke off. -/
theorem relays_or_own (resp : UpstreamResponse) :
    Relays (exchange.relayed resp) resp ∨ OwnAnswer (exchange.relayed resp) := by
  unfold relayed
  split
  · split
    · exact Or.inr (exchange.ownAnswer_errorResponse (by decide) _)
    · rename_i hcomplete
      exact Or.inl ⟨rfl, Or.inr ⟨not_not.mp hcomplete, rfl⟩⟩
  · exact Or.inl ⟨rfl, Or.inl rfl⟩

/-- The answer for the result of the last attempt. -/
theorem origin_answerFor {trace : List (Event effects)} {upstream : UpstreamId}
    {result : SendResult} (hlast : (sends trace).getLast? = some (upstream, result)) :
    Origin trace (exchange.answerFor result) := by
  cases result with
  | error e => exact .own (exchange.ownAnswer_errorResponse (by decide) _)
  | ok resp =>
      rcases exchange.relays_or_own resp with hrelays | hown
      · exact .relay hlast hrelays
      · exact .own hown

theorem attemptLoop_origin (bodyBytes : Bytes) (remaining attempt : Nat) (excluded : List Nat) :
    Ensures (exchange.attemptLoop bodyBytes remaining attempt excluded) Origin := by
  have hown : ∀ {status : StatusCode} (message : String), status ∈ ownStatuses →
      Ensures (do exchange.record status; return exchange.errorResponse status message :
        GatewayProgram Response) Origin := by
    intro status message hstatus
    refine ensures_perform fun _ => ensures_perform fun _ => ensures_done (.own ?_)
    exact exchange.ownAnswer_errorResponse hstatus message
  induction remaining generalizing attempt excluded with
  | zero => exact hown _ (by decide)
  | succ remaining ih =>
      refine ensures_bind (fun _ _ _ => trivial) fun picking picked _ => ?_
      cases picked with
      | none => exact (hown _ (by decide)).mono fun _ _ h => h.later picking
      | some picked =>
          refine ensures_bind (exchange.tryUpstream_answers bodyBytes attempt picked.1 picked.2)
            fun trying settled h => ?_
          obtain ⟨result, hsent, ⟨rfl, -, -⟩ | ⟨rfl, -⟩⟩ := h
          · exact (ih (attempt + 1) (excluded ++ [picked.1])).mono fun _ _ h =>
              (h.later trying).later picking
          · refine ensures_done ?_
            have hlast : (sends trying).getLast? = some (⟨exchange.runtime.id, picked.1⟩, result) := by
              rw [hsent]
              rfl
            have horigin := (exchange.origin_answerFor hlast).later picking
            simpa using horigin

theorem proxy_origin : Ensures exchange.proxy Origin := by
  refine ensures_perform fun answer => ?_
  split
  · refine ensures_perform fun _ => ensures_perform fun _ => ensures_done (.own ?_)
    exact exchange.ownAnswer_errorResponse (by decide) _
  · exact (exchange.attemptLoop_origin _ _ _ _).mono fun _ _ h =>
      h.later [⟨.readRequestBody, answer⟩]

theorem lookupCache_origin :
    Ensures exchange.lookupCache fun trace hit => ∀ response, hit = some response →
      Origin trace response := by
  unfold lookupCache
  split
  · exact ensures_done nofun
  · refine ensures_perform fun found => ?_
    split
    · refine ensures_perform fun _ => ensures_perform fun _ => ensures_perform fun _ =>
        ensures_done ?_
      rintro _ ⟨⟩
      exact .hit List.mem_cons_self rfl rfl
    · exact ensures_perform fun _ => ensures_done nofun

theorem serve_origin (decode : TokenDecoder) : Ensures (exchange.serve decode) Origin := by
  refine ensures_bind (exchange.authenticate_answers decode) fun auth rejection h => ?_
  rcases h with ⟨rfl, -⟩ | ⟨reason, rfl, -⟩
  · refine ensures_bind exchange.limitRate_answers fun limited rejection h => ?_
    rcases h with ⟨rfl, -⟩ | ⟨decision, rfl, -⟩
    · refine ensures_bind exchange.lookupCache_origin fun looked hit h => ?_
      cases hit with
      | some hit =>
          refine ensures_done ?_
          simpa using ((h hit rfl).later limited).later auth
      | none =>
          exact exchange.proxy_origin.mono fun _ _ h => ((h.later looked).later limited).later auth
    · refine ensures_done (.own ?_)
      have hstatus : StatusCode.tooManyRequests ∈ ownStatuses := by decide
      exact ⟨"rate limit exceeded", exchange.correlation, hstatus, rfl⟩
  · exact ensures_done (.own (exchange.ownAnswer_errorResponse (by decide) reason))

end Exchange

/-- Where the answer of a handler comes from. -/
theorem handle_origin {decode : TokenDecoder} {config : GatewayConfig} (hvalid : config.Valid)
    {redisReachable : Bool} {incoming : Incoming} {trace : List (Event effects)}
    {response : Response}
    (h : Returns (handle decode (.build config redisReachable) incoming) trace response) :
    Origin trace response := by
  obtain ⟨opening, inner, correlation, started, rfl, -, -, hcases⟩ := handle_returns h
  rcases hcases with ⟨-, -, rfl⟩ | ⟨route, hmatched, ⟨hmissing, -, -⟩ | ⟨runtime, -, hserved⟩⟩
  · have hstatus : StatusCode.notFound ∈ ownStatuses := by decide
    exact .own ⟨_, _, hstatus, rfl⟩
  · obtain ⟨id, -, hbuilt⟩ := route_of_matchRoute redisReachable hvalid hmatched
    rw [hbuilt] at hmissing
    cases hmissing
  · have horigin := Exchange.serve_origin _ decode inner response hserved
    exact (horigin.later opening).before rfl

/-! ## Every run -/

/-- The response was given by an upstream of the route to an attempt of the thread. -/
structure ReceivedBy (config : GatewayConfig) (pool : GatewayPool) (sender : Nat)
    (source : Thread effects Incoming Response) (route : RouteConfig) (upstream : UpstreamId)
    (resp : UpstreamResponse) : Prop where
  thread : pool.threads[sender]? = some source
  logged : ∃ request, (sender, (⟨.send upstream request, .ok resp⟩ : Event effects)) ∈ pool.log
  configured : config.routes[upstream.route]? = some route
  inRange : upstream.index < route.upstreams.length
  matched : source.request.routeOf config = some route

theorem receivedBy_of_send (decode : TokenDecoder) {config : GatewayConfig} (hvalid : config.Valid)
    (redisReachable : Bool) (actions : List GatewayAction) {sender : Nat}
    {source : Thread effects Incoming Response}
    (hsource : (gatewayAfter decode config redisReachable actions).threads[sender]? = some source)
    {upstream : UpstreamId} {request : OutgoingRequest} {resp : UpstreamResponse}
    (hsent : (⟨.send upstream request, .ok resp⟩ : Event effects) ∈ source.history) :
    ∃ route, ReceivedBy config (gatewayAfter decode config redisReachable actions) sender source
      route upstream resp := by
  have hlogged := (gatewayAfter_coherent decode config redisReachable actions).mem_log hsource hsent
  obtain ⟨thread, hthread, before, after, -, route, exchange, hmediated, hindex, -⟩ :=
    justified_of_logged decode config hvalid redisReachable actions hlogged
  obtain rfl : source = thread := Option.some.inj (hsource.symm.trans hthread)
  exact ⟨route, hsource, ⟨request, hlogged⟩, hmediated.admitted.configured, hindex,
    hmediated.admitted.matched⟩

set_option maxRecDepth 4000 in
/-- The second request of the run is answered with the status 200. -/
theorem profilePool_answers :
    ∃ thread response, profilePool.threads[1]? = some thread ∧ thread.rest = .done response ∧
      response.status = .ok :=
  ⟨_, _, rfl, rfl, rfl⟩

end Gateway
end ApiGateway
