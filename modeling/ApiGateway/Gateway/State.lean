import ApiGateway.Gateway.Balancer

/-!
# Gateway state assembled from configuration

`GatewayState.build` fills the table of route runtimes in a loop over the
configured routes, by name.  A later route of the same name would replace an
earlier one; validation excludes that, and `route_build` says that the table then
holds for every configured route the runtime built from it.
-/

namespace ApiGateway
namespace Gateway

open Library Core

/-- Per-route runtime: its config, load balancer and optional response cache.  The
`id` names the cells that were created with it. -/
structure RouteRuntime where
  id : RouteId
  config : RouteConfig
  balancer : Balancer
  cache : Option ResponseCache

def RouteRuntime.fromConfig (id : RouteId) (route : RouteConfig) : RouteRuntime where
  id := id
  config := route
  balancer := .fromRoute route
  cache := route.cache.map fun c => .new (Duration.fromSecs c.ttlSecs.toNat) c.maxEntries

inductive RateLimiter where
  | inMemory
  | redis
  deriving DecidableEq, Repr

structure GatewayState where
  config : GatewayConfig
  routes : StringMap RouteRuntime
  limiter : RateLimiter

namespace GatewayState

/-- The loop that fills the route table. -/
def insertRoutes (routes : List (RouteConfig × Nat)) (table : StringMap RouteRuntime) :
    StringMap RouteRuntime :=
  routes.foldl (fun table entry => table.insert entry.1.name (.fromConfig entry.2 entry.1)) table

/-- Build the state.  Redis is used when it is configured and can be reached. -/
def build (config : GatewayConfig) (redisReachable : Bool) : GatewayState where
  config := config
  routes := insertRoutes config.routes.zipIdx ∅
  limiter :=
    match config.server.redisUrl with
    -- Redis is tried once, at start-up.
    | some _ => if redisReachable then .redis else .inMemory
    | none => .inMemory

def route (state : GatewayState) (name : String) : Option RouteRuntime :=
  state.routes.lookup name

/-- Names that no later route carries are not touched by the rest of the loop. -/
theorem lookup_insertRoutes_of_notMem (routes : List (RouteConfig × Nat))
    (table : StringMap RouteRuntime) {name : String}
    (hname : name ∉ routes.map fun entry => entry.1.name) :
    (insertRoutes routes table).lookup name = table.lookup name := by
  induction routes generalizing table with
  | nil => rfl
  | cons entry routes ih =>
      simp only [List.map_cons, List.mem_cons, not_or] at hname
      calc (insertRoutes (entry :: routes) table).lookup name
          = (table.insert entry.1.name (.fromConfig entry.2 entry.1)).lookup name :=
            ih _ hname.2
        _ = table.lookup name := AList.lookup_insert_ne hname.1

theorem lookup_insertRoutes (routes : List (RouteConfig × Nat)) (table : StringMap RouteRuntime)
    (hnames : (routes.map fun entry => entry.1.name).Nodup) {route : RouteConfig} {id : RouteId}
    (hroute : (route, id) ∈ routes) :
    (insertRoutes routes table).lookup route.name = some (.fromConfig id route) := by
  -- The route is inserted in its round, and the rounds after it use other names.
  induction routes generalizing table with
  | nil => cases hroute
  | cons entry routes ih =>
      rw [List.map_cons, List.nodup_cons] at hnames
      rcases List.mem_cons.mp hroute with rfl | hlater
      · calc (insertRoutes ((route, id) :: routes) table).lookup route.name
            = (table.insert route.name (.fromConfig id route)).lookup route.name :=
              lookup_insertRoutes_of_notMem routes _ hnames.1
          _ = some (.fromConfig id route) := AList.lookup_insert _
      · exact ih _ hnames.2 hlater

/-- In a state built from a valid configuration the name of a configured route
leads to the runtime built from that very route. -/
theorem route_build {config : GatewayConfig} (hvalid : config.Valid) (redisReachable : Bool)
    {route : RouteConfig} {id : RouteId} (hroute : config.routes[id]? = some route) :
    (build config redisReachable).route route.name = some (.fromConfig id route) := by
  refine lookup_insertRoutes _ _ ?_ (List.mem_zipIdx_iff_getElem?.mpr hroute)
  have hnames := hvalid.names
  have hmap : config.routes.zipIdx.map (fun entry => entry.1.name) =
      config.routes.map RouteConfig.name := by
    conv_rhs => rw [← List.zipIdx_map_fst 0 config.routes, List.map_map]
    rfl
  rwa [hmap]

end GatewayState
end Gateway
end ApiGateway
