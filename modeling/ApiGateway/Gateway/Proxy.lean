import ApiGateway.Core.Router
import ApiGateway.Gateway.Auth
import ApiGateway.Gateway.State
import ApiGateway.Gateway.Transform

/-!
# The reverse-proxy request handler

`handle` is the program one request runs.  It is written stage by stage in the
order of the source: match a route, find its runtime, authenticate, limit the rate,
look into the cache, buffer the body, and try upstreams.  A stage that answers the
request early yields its response; the next stage runs otherwise.

The attempt loop recurses on the number of attempts left.  The guard of an attempt
is dropped at the end of its round, and when a round returns, after the response
has been built.
-/

namespace ApiGateway
namespace Gateway

open Library Core

/-- A request together with the address of its peer. -/
structure Incoming where
  request : Request
  peer : String

/-! ## Pure parts -/

/-- The host header as text, empty when it is missing or not text. -/
def requestHost (request : Request) : String := (request.headers.getStr .host).getD ""

def correlationHeader : String := "x-request-id"

def buildResponse (status : StatusCode) (headers : HeaderMap) (body : Body) : Response :=
  { status := status, headers := headers, body := body }

/-- A small JSON body and a correlation id.  The content type set here replaces the
one that a text body comes with. -/
def error (status : StatusCode) (message correlation : String) : Response :=
  let body := "\x7b\"error\":\"" ++ message ++ "\"\x7d"
  let headers := setHeader [] "content-type" "application/json"
  buildResponse status (setHeader headers correlationHeader correlation)
    (.buffered (Text.asBytes body))

def clientIp (headers : HeaderMap) (peer : String) : String :=
  match headers.getStr .xForwardedFor with
  | some chain =>
      -- Only the first address of the chain counts, and the header is trusted.
      let first := Text.trim (Text.splitFirst chain ',')
      if ¬ first.isEmpty then first else peer
  | none => peer

def rateKey (scope : RateScope) (route clientIp : String) (headers : HeaderMap) : String :=
  match scope with
  | .ip => route ++ ":ip:" ++ clientIp
  | .route => route ++ ":route"
  | .apiKey =>
      -- Not `extractApiKey`: an empty header is a key here.
      let key := match headers.getStr .xApiKey with
        | some key => key
        | none =>
            match headers.getStr .authorization with
            | some auth => Text.trim (stripBearer auth)
            | none => "anon"
      route ++ ":key:" ++ key

def isIdempotent : Method → Bool
  | .get | .head | .put | .delete | .options | .trace => true
  | _ => false

def cacheBypass (headers : HeaderMap) : Bool :=
  match headers.getStr .cacheControl with
  | some value =>
      let lower := Text.toAsciiLowercase value
      Text.contains lower "no-cache" || Text.contains lower "no-store"
  | none => false

def responseCacheable (headers : HeaderMap) : Bool :=
  match headers.getStr .cacheControl with
  | some value =>
      let lower := Text.toAsciiLowercase value
      !(Text.contains lower "no-store" || Text.contains lower "private" ||
        Text.contains lower "no-cache")
  | none => true

def addRatelimitHeaders (headers : HeaderMap) (limit remaining : UInt32) (reset : UInt64) :
    HeaderMap :=
  let headers := setHeader headers "x-ratelimit-limit" (Text.ofNat limit.toNat)
  let headers := setHeader headers "x-ratelimit-remaining" (Text.ofNat remaining.toNat)
  let headers := setHeader headers "x-ratelimit-reset" (Text.ofNat reset.toNat)
  setHeader headers "retry-after" (Text.ofNat reset.toNat)

/-- `axum::body::to_bytes`: the whole body, when it ends properly and fits. -/
def toBytes (body : ByteStream) (limit : Nat) : Option Bytes :=
  if body.complete ∧ body.bytes.length ≤ limit then some body.bytes else none

/-- The response for a cache hit. -/
def cachedResponse (hit : CachedResponse) (runtime : RouteRuntime) (correlation : String) :
    Response :=
  let headers := hit.headers.foldl (fun out field => setHeader out field.1 field.2) []
  let headers := applyTransforms headers runtime.config.responseHeaders
  let headers := setHeader headers "x-cache" "HIT"
  let headers := setHeader headers correlationHeader correlation
  -- A stored status that is no status code is answered as 200.
  buildResponse ((StatusCode.fromU16 hit.status).getD .ok) headers (.buffered hit.body)

/-! ## Stages -/

/-- The local variables of `route_and_proxy` once a route is found. -/
structure Exchange where
  state : GatewayState
  incoming : Incoming
  runtime : RouteRuntime
  routeName : String
  host : String
  clientIp : String
  correlation : String
  started : Instant

namespace Exchange

/-- The exchange of a request for the runtime of a route. -/
def new (state : GatewayState) (incoming : Incoming) (routeName : String)
    (runtime : RouteRuntime) (correlation : String) (started : Instant) : Exchange where
  state := state
  incoming := incoming
  runtime := runtime
  routeName := routeName
  host := requestHost incoming.request
  clientIp := Gateway.clientIp incoming.request.headers incoming.peer
  correlation := correlation
  started := started

def headers (exchange : Exchange) : HeaderMap := exchange.incoming.request.headers

def method (exchange : Exchange) : Method := exchange.incoming.request.method

def uri (exchange : Exchange) : Uri := exchange.incoming.request.uri

/-- Whether the cache is consulted and filled: GET only, when configured and not
bypassed. -/
def cacheEnabled (exchange : Exchange) : Bool :=
  exchange.runtime.cache.isSome && exchange.method == .get && !cacheBypass exchange.headers

def cacheKey (exchange : Exchange) : String :=
  ResponseCache.key exchange.method.asStr exchange.host
    ((exchange.uri.pathAndQuery.map PathAndQuery.asStr).getD "/")

/-- The forwarded path with the query of the request. -/
def pathAndQuery (exchange : Exchange) : String :=
  let fwdPath := forwardPath exchange.uri.path exchange.runtime.config
  match exchange.uri.query with
  | some query => fwdPath ++ "?" ++ query
  | none => fwdPath

def timeout (exchange : Exchange) : Duration :=
  Duration.fromMillis (exchange.runtime.config.timeoutMs.getD
    exchange.state.config.server.defaultTimeoutMs).toNat

def fwdHeaders (exchange : Exchange) : HeaderMap :=
  let headers := forwardedRequestHeaders exchange.headers exchange.clientIp exchange.host "http"
  let headers := applyTransforms headers exchange.runtime.config.requestHeaders
  setHeader headers correlationHeader exchange.correlation

/-- `retries.saturating_add(1).max(1)` on `u32`. -/
def maxAttempts (exchange : Exchange) : Nat :=
  max (min (exchange.runtime.config.retries.toNat + 1) (2 ^ 32 - 1)) 1

def idempotent (exchange : Exchange) : Bool := isIdempotent exchange.method

/-- The request for one upstream. -/
def outgoing (exchange : Exchange) (upstream : Upstream) (bodyBytes : Bytes) :
    OutgoingRequest where
  method := exchange.method
  url := upstream.url ++ exchange.pathAndQuery
  headers := exchange.fwdHeaders
  body := bodyBytes
  timeout := exchange.timeout

def errorResponse (exchange : Exchange) (status : StatusCode) (message : String) : Response :=
  error status message exchange.correlation

/-- Count the answer and observe the time it took. -/
def record (exchange : Exchange) (status : StatusCode) : GatewayProgram Unit := do
  perform (.inc (.requests exchange.routeName exchange.method.asStr status.asStr))
  perform (.observe (.gatewayLatency exchange.routeName) exchange.started)

/-- Authentication.  A response means that the request was rejected. -/
def authenticate (decode : TokenDecoder) (exchange : Exchange) :
    GatewayProgram (Option Response) := do
  let clock ← perform .systemTime
  match authorize decode clock exchange.runtime.config.auth exchange.headers with
  | .ok _ => return none
  | .error reason => do
      perform (.inc (.authRejections exchange.routeName))
      exchange.record .unauthorized
      return some (exchange.errorResponse .unauthorized reason)

/-- The check of the configured limiter. -/
def checkLimit (limiter : RateLimiter) (key : String) (limit : UInt32) (window : Duration) :
    GatewayProgram RateDecision :=
  match limiter with
  | .inMemory => do
      let now ← perform .instantNow
      perform (.windowCheck key limit window now)
  | .redis => RedisLimiter.check redisCommands key limit window

/-- Rate limiting.  A response means that the request was rejected. -/
def limitRate (exchange : Exchange) : GatewayProgram (Option Response) :=
  match exchange.runtime.config.rateLimit with
  | none => return none
  | some rl => do
      let key := rateKey rl.scope exchange.routeName exchange.clientIp exchange.headers
      let decision ← checkLimit exchange.state.limiter key rl.limit
        (Duration.fromSecs rl.windowSecs.toNat)
      if ¬ decision.allowed then do
        perform (.inc (.rateLimitRejections exchange.routeName))
        exchange.record .tooManyRequests
        -- A rejection reports that nothing is left, whatever the decision says.
        let resp := exchange.errorResponse .tooManyRequests "rate limit exceeded"
        return some { resp with
          headers := addRatelimitHeaders resp.headers decision.limit 0 decision.resetSecs }
      else
        return none

/-- Cache lookup.  A response is a hit. -/
def lookupCache (exchange : Exchange) : GatewayProgram (Option Response) :=
  if ¬ exchange.cacheEnabled then
    return none
  else do
    let hit ← perform (.cacheGet exchange.runtime.id exchange.cacheKey)
    match hit with
    | some hit => do
        perform (.inc (.cacheHits exchange.routeName))
        exchange.record ((StatusCode.fromU16 hit.status).getD .ok)
        return some (cachedResponse hit exchange.runtime exchange.correlation)
    | none => do
        perform (.inc (.cacheMisses exchange.routeName))
        return none

/-! ## Attempts -/

/-- Whether the body of a response is buffered and stored. -/
def stores (exchange : Exchange) (resp : UpstreamResponse) : Bool :=
  exchange.cacheEnabled && resp.status == .ok && exchange.runtime.cache.isSome &&
    responseCacheable resp.headers

/-- The headers of a relayed response, before the cache mark. -/
def outHeaders (exchange : Exchange) (resp : UpstreamResponse) : HeaderMap :=
  let headers := filteredResponseHeaders resp.headers
  let headers := applyTransforms headers exchange.runtime.config.responseHeaders
  setHeader headers correlationHeader exchange.correlation

/-- The headers that can be stored: those whose value is text. -/
def headerPairs (headers : HeaderMap) : List (String × String) :=
  headers.filterMap fun field => field.2.toStr.map fun value => (field.1.text, value)

/-- Relay an upstream response, and store it when it may be stored. -/
def finishResponse (exchange : Exchange) (resp : UpstreamResponse) :
    GatewayProgram Response := do
  exchange.record resp.status
  if exchange.stores resp then do
    -- The outcome has been reported by now: a body that breaks off is no failure to
    -- the breaker, and no reason to try another upstream.
    perform .readResponseBody
    if ¬ resp.body.complete then
      return exchange.errorResponse .badGateway "upstream read failed"
    else do
      match exchange.runtime.cache with
      | some cache =>
          perform (.cachePut exchange.runtime.id cache exchange.cacheKey resp.status.code
            (headerPairs (exchange.outHeaders resp)) resp.body.bytes)
      | none => pure ()
      return buildResponse resp.status (setHeader (exchange.outHeaders resp) "x-cache" "MISS")
        (.buffered resp.body.bytes)
  else
    let headers := if exchange.cacheEnabled then
        setHeader (exchange.outHeaders resp) "x-cache" "MISS"
      else
        exchange.outHeaders resp
    return buildResponse resp.status headers (.streamed resp.body)

/-- What one attempt does with the result of its call: no response means that the
next upstream is tried. -/
def settle (exchange : Exchange) (attempt index : Nat) (upstream : Upstream)
    (result : SendResult) : GatewayProgram (Option Response) :=
  let id : UpstreamId := ⟨exchange.runtime.id, index⟩
  match result with
  | .ok resp => do
      if resp.status.isServerError then do
        -- Passive failure detection: 5xx counts against the breaker.
        let failedAt ← perform .instantNow
        perform (.recordFailureAt id upstream.breaker failedAt)
        perform (.inc (.upstreamErrors exchange.routeName))
        if exchange.idempotent && decide (attempt + 1 < exchange.maxAttempts) then
          return none
        else do
          let response ← exchange.finishResponse resp
          return some response
      else do
        -- Everything below 500 is a success, client errors and redirects too.
        perform (.recordSuccess id)
        let response ← exchange.finishResponse resp
        return some response
  | .error e => do
      let failedAt ← perform .instantNow
      perform (.recordFailureAt id upstream.breaker failedAt)
      perform (.inc (.upstreamErrors exchange.routeName))
      -- A connect error is retried for every method: nothing was delivered.
      if (exchange.idempotent || e.isConnect) && decide (attempt + 1 < exchange.maxAttempts) then
        return none
      else do
        exchange.record .badGateway
        return some (exchange.errorResponse .badGateway "upstream unavailable")

/-- One attempt on a picked upstream, to the drop of its guard. -/
def tryUpstream (exchange : Exchange) (bodyBytes : Bytes) (attempt index : Nat)
    (upstream : Upstream) : GatewayProgram (Option Response) := do
  let id : UpstreamId := ⟨exchange.runtime.id, index⟩
  let upstreamStart ← perform .instantNow
  let result ← perform (.send id (exchange.outgoing upstream bodyBytes))
  perform (.observe (.upstreamLatency exchange.routeName) upstreamStart)
  -- Reflect the breaker state in the gauge.
  let breakerState ← perform (.breakerState id)
  perform (.setCircuitState exchange.routeName upstream.url breakerState.code)
  let settled ← exchange.settle attempt index upstream result
  perform (.guardDrop id)
  return settled

/-- The attempt loop, with `remaining` rounds to go. -/
def attemptLoop (exchange : Exchange) (bodyBytes : Bytes) :
    Nat → Nat → List Nat → GatewayProgram Response
  -- The code after the loop.
  | 0, _, _ => do
      exchange.record .badGateway
      return exchange.errorResponse .badGateway "all upstream attempts failed"
  | remaining + 1, attempt, excluded => do
      let picked ← exchange.runtime.balancer.pick exchange.runtime.id excluded
      match picked with
      | none => do
          exchange.record .serviceUnavailable
          return exchange.errorResponse .serviceUnavailable "no healthy upstream"
      | some (index, upstream) => do
          let settled ← exchange.tryUpstream bodyBytes attempt index upstream
          match settled with
          -- The failed upstream stays excluded for the rest of the request.
          | none => attemptLoop exchange bodyBytes remaining (attempt + 1) (excluded ++ [index])
          | some response => return response

/-- Buffer the body and try upstreams. -/
def proxy (exchange : Exchange) : GatewayProgram Response := do
  perform .readRequestBody
  match toBytes exchange.incoming.request.body exchange.state.config.server.maxBodyBytes with
  | none => do
      exchange.record .payloadTooLarge
      return exchange.errorResponse .payloadTooLarge "request body too large"
  | some bodyBytes => exchange.attemptLoop bodyBytes exchange.maxAttempts 0 []

/-- Run the stages of a request whose route has been found. -/
def serve (decode : TokenDecoder) (exchange : Exchange) : GatewayProgram Response := do
  match ← exchange.authenticate decode with
  | some rejection => return rejection
  | none => do
      match ← exchange.limitRate with
      | some rejection => return rejection
      | none => do
          match ← exchange.lookupCache with
          | some hit => return hit
          | none => exchange.proxy

end Exchange

/-! ## The handler -/

/-- The correlation id of a request, a new one when it has none that is text. -/
def correlationId (request : Request) : GatewayProgram String :=
  match request.headers.getStr .xRequestId with
  | some id => return id
  | none => perform .newUuid

def routeAndProxy (decode : TokenDecoder) (state : GatewayState) (incoming : Incoming) :
    GatewayProgram Response := do
  let request := incoming.request
  let started ← perform .instantNow
  let correlation ← correlationId request
  match matchRoute state.config (some (requestHost request)) request.uri.path with
  | none => do
      -- Counted under the route `none`; no latency is observed.
      perform (.inc (.requests "none" request.method.asStr "404"))
      return error .notFound "no matching route" correlation
  | some routeCfg =>
      match state.route routeCfg.name with
      | none => return error .internalServerError "route runtime missing" correlation
      | some runtime =>
          (Exchange.new state incoming routeCfg.name runtime correlation started).serve decode

/-- The handler every request flows through. -/
def handle (decode : TokenDecoder) (state : GatewayState) (incoming : Incoming) :
    GatewayProgram Response := do
  perform .connectionsInc
  let response ← routeAndProxy decode state incoming
  -- Not reached when the handler is dropped: the gauge is set by hand, not by a guard.
  perform .connectionsDec
  return response

end Gateway
end ApiGateway
