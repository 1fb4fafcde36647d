import ApiGateway.Core.Config
import ApiGateway.Gateway.Breaker
import ApiGateway.Gateway.Cache
import ApiGateway.Gateway.RateLimit
import ApiGateway.Library.EffectProgram

/-!
# What the request path does to shared state

The operations by which a request handler touches anything it does not own: the
clocks, the metrics, the rate limiter, the caches, the cells of the upstreams, and
the network.  Each operation is atomic in the source: it is one atomic instruction,
or one critical section of a mutex, or one message exchange.  Where the source reads the
clock before it takes a lock, the read is an operation of its own.

A route runtime is shared by reference.  It is named by the position of its route
in the configuration, and its upstreams by their position in the route.
-/

namespace ApiGateway
namespace Gateway

open Library Core

/-- The position of the route a runtime was built from. -/
abbrev RouteId := Nat

structure UpstreamId where
  route : RouteId
  index : Nat
  deriving DecidableEq, Repr

/-- A request as it is handed to the HTTP client. -/
structure OutgoingRequest where
  method : Method
  url : String
  headers : HeaderMap
  body : Bytes
  timeout : Duration

/-- A failed call of the client: no response head was received. -/
structure SendError where
  /-- The connection was not established, so nothing was delivered. -/
  isConnect : Bool
  deriving DecidableEq, Repr

/-- A response whose head has arrived. -/
structure UpstreamResponse where
  status : StatusCode
  headers : HeaderMap
  body : ByteStream

abbrev SendResult := Except SendError UpstreamResponse

inductive Counter where
  | requests (route method status : String)
  | rateLimitRejections (route : String)
  | authRejections (route : String)
  | upstreamErrors (route : String)
  | cacheHits (route : String)
  | cacheMisses (route : String)
  deriving DecidableEq, Repr

inductive Histogram where
  | upstreamLatency (route : String)
  | gatewayLatency (route : String)
  deriving DecidableEq, Repr

inductive Op where
  | newUuid
  | instantNow
  | systemTime
  | inc (counter : Counter)
  | connectionsInc
  | connectionsDec
  /-- Observe the time elapsed since an instant. -/
  | observe (histogram : Histogram) (since : Instant)
  | setCircuitState (route url : String) (code : Int)
  | windowCheck (key : String) (limit : UInt32) (window : Duration) (now : Instant)
  | redisIncr (key : String)
  | redisExpire (key : String) (secs : Int)
  | redisTtl (key : String)
  | cacheGet (route : RouteId) (key : String)
  | cachePut (route : RouteId) (cache : ResponseCache) (key : String) (status : Nat)
      (headers : List (String × String)) (body : Bytes)
  | readRequestBody
  | rrFetchAdd (route : RouteId)
  | isHealthy (upstream : UpstreamId)
  | allowAt (upstream : UpstreamId) (now : Instant)
  | active (upstream : UpstreamId)
  | guardNew (upstream : UpstreamId)
  | guardDrop (upstream : UpstreamId)
  | send (upstream : UpstreamId) (request : OutgoingRequest)
  | breakerState (upstream : UpstreamId)
  | recordSuccess (upstream : UpstreamId)
  | recordFailureAt (upstream : UpstreamId) (breaker : CircuitBreaker) (now : Instant)
  | readResponseBody

/-- The answer of each operation. -/
@[reducible] def Op.Res : Op → Type
  | .newUuid => String
  | .instantNow => Instant
  | .systemTime => Nat
  | .windowCheck _ _ _ _ => RateDecision
  | .redisIncr _ => Option Int
  | .redisExpire _ _ => Bool
  | .redisTtl _ => Option Int
  | .cacheGet _ _ => Option CachedResponse
  | .rrFetchAdd _ => UInt64
  | .isHealthy _ => Bool
  | .allowAt _ _ => Bool
  | .active _ => Int
  | .send _ _ => SendResult
  | .breakerState _ => BreakerState
  | _ => Unit

/-- What an operation is about.  The stages of a handler differ in the kinds of
operations they use. -/
inductive OpKind where
  /-- Clocks and random identifiers. -/
  | ambient
  | metric
  | limiter
  | cacheGet
  | cachePut
  /-- Reading a request or a response body. -/
  | body
  /-- Choosing an upstream and counting a request on it. -/
  | pick
  | guardDrop
  | send
  /-- Telling a breaker or the error counter how a call ended. -/
  | outcome
  deriving DecidableEq, Repr

@[simp] def Op.kind : Op → OpKind
  | .newUuid | .instantNow | .systemTime => .ambient
  | .inc (.upstreamErrors _) => .outcome
  | .inc _ | .connectionsInc | .connectionsDec | .observe _ _ => .metric
  | .breakerState _ | .setCircuitState _ _ _ => .metric
  | .windowCheck _ _ _ _ | .redisIncr _ | .redisExpire _ _ | .redisTtl _ => .limiter
  | .cacheGet _ _ => .cacheGet
  | .cachePut _ _ _ _ _ _ => .cachePut
  | .readRequestBody | .readResponseBody => .body
  | .rrFetchAdd _ | .isHealthy _ | .allowAt _ _ | .active _ | .guardNew _ => .pick
  | .guardDrop _ => .guardDrop
  | .send _ _ => .send
  | .recordSuccess _ | .recordFailureAt _ _ _ => .outcome

/-- The interface of the request path. -/
@[reducible] def effects : Signature := ⟨Op, Op.Res⟩

abbrev GatewayProgram (α : Type) := Program effects α

/-- Make one call. -/
abbrev perform (op : Op) : GatewayProgram op.Res := Program.perform (S := effects) op

/-- Every call of the program is of one of the given kinds. -/
def MakesKinds {α : Type} (kinds : List OpKind) (program : GatewayProgram α) : Prop :=
  program.Makes fun op : Op => op.kind ∈ kinds

theorem MakesKinds.mono {α : Type} {kinds more : List OpKind} {program : GatewayProgram α}
    (h : MakesKinds kinds program) (hsubset : kinds ⊆ more) : MakesKinds more program :=
  Program.Makes.mono h fun _ hop => hsubset hop

/-- The operations at which a handler waits; it may be dropped there. -/
def Op.awaits : Op → Bool
  | .windowCheck _ _ _ _ | .redisIncr _ | .redisExpire _ _ | .redisTtl _ => true
  | .readRequestBody | .send _ _ | .readResponseBody => true
  | _ => false

/-- The Redis commands as calls of the request path. -/
def redisCommands : RedisCommands GatewayProgram where
  incr key := perform (.redisIncr key)
  expire key secs := perform (.redisExpire key secs)
  ttl key := perform (.redisTtl key)

end Gateway
end ApiGateway
