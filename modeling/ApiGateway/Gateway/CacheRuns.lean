import ApiGateway.Gateway.CacheRefinement
import ApiGateway.Gateway.CacheSharing
import ApiGateway.Library.SharedObject

/-!
# The caches of the running gateway

Any number of handlers look into the cache of a route and fill it, in any interleaving.  The
cache of a route is a shared object: the handlers reach it by two operations only, both hold
its lock and read the clock under it, and both bring the time to live and the capacity of the
route.  So what is known of a cache by itself holds of the caches of the gateway, whatever the
handlers, their clients and the other routes do.
-/

namespace ApiGateway
namespace Gateway

open Library Core Program

/-- The operations on the cache of a route. -/
def usesCache (id : RouteId) : Op → Bool
  | .cacheGet route _ => route == id
  | .cachePut route _ _ _ _ _ => route == id
  | _ => false

/-- How the log shows a call on the cache of a route and its reply. -/
def ShowsCacheCall (id : RouteId) (event : Event effects) (made : ResponseCache.Call)
    (reply : Option CachedResponse) : Prop :=
  match made with
  | .get key _ => event = ⟨.cacheGet id key, reply⟩
  | .put args =>
      ∃ cache, event = ⟨.cachePut id cache args.key args.status args.headers args.body, ()⟩

/-- A store on the route brings the given cache parameters. -/
def StoresWith (id : RouteId) (cache : ResponseCache) : Op → Prop
  | .cachePut route stored _ _ _ _ => route = id → stored = cache
  | _ => True

/-- The cache parameters of a route. -/
def cacheOf (cached : CacheConfig) : ResponseCache :=
  .new (Duration.fromSecs cached.ttlSecs.toNat) cached.maxEntries

theorem handle_storesWith (decode : TokenDecoder) {config : GatewayConfig} (hvalid : config.Valid)
    (redisReachable : Bool) {id : RouteId} {route : RouteConfig} {cached : CacheConfig}
    (hroute : config.routes[id]? = some route) (hcached : route.cache = some cached)
    (incoming : Incoming) :
    (handle decode (.build config redisReachable) incoming).Makes
      (StoresWith id (cacheOf cached)) := by
  refine Makes.mono (handle_guarded hvalid).makes fun op hop => ?_
  obtain ⟨history, hjustified⟩ := hop
  cases op with
  | cachePut stored cache key status headers body =>
      rintro rfl
      obtain ⟨route', exchange, hmediated, -, -, resp, -, -, -, cache', hcache', hput⟩ := hjustified
      obtain rfl : cache = cache' := (Op.cachePut.inj hput).2.1
      obtain rfl : route = route' :=
        Option.some.inj (hroute.symm.trans hmediated.admitted.configured)
      rw [hmediated.runtime_eq, RouteRuntime.fromConfig, hcached] at hcache'
      exact (Option.some.inj hcache').symm
  | _ => trivial

/-- The cache of a route as a shared object. -/
def cacheObject (decode : TokenDecoder) {config : GatewayConfig} (hvalid : config.Valid)
    (redisReachable : Bool) {id : RouteId} {route : RouteConfig} {cached : CacheConfig}
    (hroute : config.routes[id]? = some route) (hcached : route.cache = some cached) :
    SharedObject (server decode (.build config redisReachable)) CacheMap ResponseCache.Call
      (Option CachedResponse) where
  cell world := (world.routes id).cache
  step := ResponseCache.step (cacheOf cached)
  touches := usesCache id
  shows := ShowsCacheCall id
  instants := ResponseCache.Call.instants
  clock world := world.now
  permitted := StoresWith id (cacheOf cached)
  makes incoming := handle_storesWith decode hvalid redisReachable hroute hcached incoming
  called input world op hpermitted htouches := by
    cases op with
    | cacheGet route key =>
        obtain rfl : route = id := eq_of_beq htouches
        refine ⟨.get key (world.now + input.elapsed), ?_, rfl, ?_⟩
        · exact congrArg RouteCell.cache (World.setRoute_routes_self _ _ _)
        · show [world.now, world.now + input.elapsed, world.now + input.elapsed].Pairwise (· ≤ ·)
          simp
    | cachePut route stored key status headers body =>
        obtain rfl : route = id := eq_of_beq htouches
        obtain rfl : stored = cacheOf cached := hpermitted rfl
        refine ⟨.put ⟨key, status, headers, body, input.iterationHint, world.now + input.elapsed,
          world.now + input.elapsed + input.held⟩, ?_, ⟨_, rfl⟩, ?_⟩
        · exact congrArg RouteCell.cache (World.setRoute_routes_self _ _ _)
        · show [world.now, world.now + input.elapsed, world.now + input.elapsed + input.held,
            world.now + input.elapsed + input.held].Pairwise (· ≤ ·)
          simp [Nat.add_assoc]
    | _ => cases htouches
  untouched input world op _ htouches := by
    refine ⟨?_, Nat.le_trans (Nat.le_add_right _ _)
      (World.now_le_answerNow input (world.tick input.elapsed) op)⟩
    cases op with
    | cacheGet route key =>
        have hne : id ≠ route := fun heq => by simp [usesCache, heq] at htouches
        exact congrArg RouteCell.cache (World.setRoute_routes_ne _ _ hne)
    | cachePut route stored key status headers body =>
        have hne : id ≠ route := fun heq => by simp [usesCache, heq] at htouches
        exact congrArg RouteCell.cache (World.setRoute_routes_ne _ _ hne)
    | rrFetchAdd route =>
        by_cases heq : id = route
        · subst heq
          show (((world.tick input.elapsed).setRoute id _).routes id).cache = _
          rw [World.setRoute_routes_self]
          rfl
        · exact congrArg RouteCell.cache (World.setRoute_routes_ne _ _ heq)
    | allowAt upstream _ | guardNew upstream | guardDrop upstream | recordSuccess upstream
    | recordFailureAt upstream _ _ =>
        exact World.setUpstream_cache (world.tick input.elapsed) upstream _ id
    | _ => rfl
  drop history world := by
    show ((dropHandler history world).routes id).cache = _ ∧ _ ≤ (dropHandler history world).now
    unfold dropHandler
    split
    · exact ⟨World.setUpstream_cache _ _ _ id, Nat.le_refl _⟩
    · exact ⟨rfl, Nat.le_refl _⟩
  disturb probe world := ⟨World.setUpstream_cache world _ _ id, Nat.le_refl _⟩

end Gateway
end ApiGateway
