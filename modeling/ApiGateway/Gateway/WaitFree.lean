import ApiGateway.Gateway.Mediation
import ApiGateway.Library.StepBound

/-!
# Handlers are wait-free

Every loop of a handler is bounded by the configuration of its route: a search of the balancer
by the weights and the number of upstreams, and the attempts by the configured retries and
again by the number of upstreams, since a failed upstream is excluded for the rest of the
request.  So there is a bound on the calls of a handler that no other handler, no answer and
no size of `retries` can change, and a handler that is scheduled that often has answered.
-/

namespace ApiGateway
namespace Gateway

open Library Core Program

namespace Balancer

/-- The calls of one search for an upstream and of the guard on it. -/
def pickBound (balancer : Balancer) : Nat :=
  match balancer.strategy with
  | .roundRobin => 4 * balancer.rrOrder.length + 3 * balancer.upstreams.length + 1
  | .leastConnections => 4 * balancer.upstreams.length + 1

theorem candidate_endsWithin (id : RouteId) (exclude : List Nat) (index : Nat) :
    (candidate id exclude index).EndsWithin 3 := by
  unfold candidate
  split
  · trivial
  · refine endsWithin_perform fun healthy => ?_
    cases healthy with
    | true => exact endsWithin_perform fun now => ⟨Nat.one_pos, fun _ => trivial⟩
    | false => trivial

theorem firstEligible_endsWithin (id : RouteId) (exclude positions : List Nat) :
    (firstEligible id exclude positions).EndsWithin (3 * positions.length) := by
  induction positions with
  | nil => trivial
  | cons index rest ih =>
      refine endsWithin_bind 3 (3 * rest.length) (candidate_endsWithin id exclude index)
        (fun _ found _ => ?_) (Nat.le_of_eq (Nat.add_comm _ _))
      cases found with
      | true => trivial
      | false => exact ih

theorem roundRobinFrom_endsWithin (balancer : Balancer) (id : RouteId) (exclude : List Nat)
    (rounds : Nat) :
    (roundRobinFrom balancer id exclude rounds).EndsWithin
      (4 * rounds + 3 * balancer.upstreams.length) := by
  induction rounds with
  | zero =>
      have hall := firstEligible_endsWithin id exclude (List.range balancer.upstreams.length)
      rw [List.length_range] at hall
      exact hall.mono (by omega)
  | succ rounds ih =>
      have hround : (roundRobinFrom balancer id exclude (rounds + 1)).EndsWithin
          (3 + (4 * rounds + 3 * balancer.upstreams.length) + 1) := by
        refine endsWithin_perform fun cursor =>
          endsWithin_bind 3 _ (candidate_endsWithin id exclude _) (fun _ found _ => ?_)
            (Nat.le_refl _)
        cases found with
        | true => trivial
        | false => exact ih
      exact hround.mono (by omega)

theorem leastLoaded_endsWithin (id : RouteId) (exclude positions : List Nat)
    (best : Option (Int × Nat)) :
    (leastLoaded id exclude best positions).EndsWithin (4 * positions.length) := by
  induction positions generalizing best with
  | nil => trivial
  | cons index rest ih =>
      have hposition : (leastLoaded id exclude best (index :: rest)).EndsWithin
          (3 + (4 * rest.length + 1)) := by
        refine endsWithin_bind 3 _ (candidate_endsWithin id exclude index) (fun _ found _ => ?_)
          (Nat.le_refl _)
        cases found with
        | true => exact endsWithin_perform fun load => ih _
        | false => exact (ih best).mono (Nat.le_succ _)
      rw [List.length_cons]
      exact hposition.mono (by omega)

/-- The search is all of it but the guard. -/
theorem pickIndex_endsWithin (balancer : Balancer) (id : RouteId) (exclude : List Nat) :
    (pickIndex balancer id exclude).EndsWithin (balancer.pickBound - 1) := by
  cases hstrategy : balancer.strategy with
  | roundRobin =>
      simp only [pickIndex, pickBound, hstrategy]
      exact roundRobinFrom_endsWithin balancer id exclude _
  | leastConnections =>
      simp only [pickIndex, pickBound, hstrategy]
      have hall := leastLoaded_endsWithin id exclude (List.range balancer.upstreams.length) none
      rw [List.length_range] at hall
      exact hall

theorem pick_endsWithin (balancer : Balancer) (id : RouteId) (exclude : List Nat) :
    (pick balancer id exclude).EndsWithin balancer.pickBound := by
  have hpos : 1 ≤ balancer.pickBound := by
    unfold pickBound
    split
    · exact Nat.le_add_left _ _
    · exact Nat.le_add_left _ _
  refine endsWithin_bind _ 1 (pickIndex_endsWithin balancer id exclude) (fun _ choice _ => ?_)
    (Nat.le_of_eq (Nat.sub_add_cancel hpos))
  cases choice with
  | none => trivial
  | some index => exact endsWithin_perform fun _ => trivial

end Balancer

namespace Exchange

variable (exchange : Exchange)

/-- Counting an answer and returning it. -/
theorem recordThen_endsWithin {β : Type} (status : StatusCode) (value : β) :
    (do exchange.record status; return value : GatewayProgram β).EndsWithin 2 :=
  endsWithin_perform fun _ => endsWithin_perform fun _ => trivial

theorem authenticate_endsWithin (decode : TokenDecoder) :
    (exchange.authenticate decode).EndsWithin 4 := by
  refine endsWithin_perform fun clock => ?_
  split
  · trivial
  · exact endsWithin_perform fun _ => exchange.recordThen_endsWithin _ _

theorem checkLimit_endsWithin (limiter : RateLimiter) (key : String) (limit : UInt32)
    (window : Duration) : (checkLimit limiter key limit window).EndsWithin 3 := by
  cases limiter with
  | inMemory => exact endsWithin_perform fun now => ⟨by decide, fun _ => trivial⟩
  | redis =>
      refine endsWithin_perform fun reply => ?_
      cases reply with
      | none => trivial
      | some count =>
          dsimp only
          split
          · exact endsWithin_perform fun _ => endsWithin_perform fun _ => trivial
          · exact endsWithin_perform fun _ => trivial

theorem limitRate_endsWithin : exchange.limitRate.EndsWithin 6 := by
  unfold limitRate
  split
  · trivial
  · refine endsWithin_bind 3 3 (checkLimit_endsWithin exchange.state.limiter _ _ _)
      (fun _ decision _ => ?_) (Nat.le_refl 6)
    split
    · exact endsWithin_perform fun _ => exchange.recordThen_endsWithin _ _
    · trivial

theorem lookupCache_endsWithin : exchange.lookupCache.EndsWithin 4 := by
  unfold lookupCache
  split
  · trivial
  · refine endsWithin_perform fun hit => ?_
    cases hit with
    | none => exact endsWithin_perform fun _ => trivial
    | some hit => exact endsWithin_perform fun _ => exchange.recordThen_endsWithin _ _

theorem finishResponse_endsWithin (resp : UpstreamResponse) :
    (exchange.finishResponse resp).EndsWithin 4 := by
  refine endsWithin_perform fun _ => endsWithin_perform fun _ => ?_
  split
  · refine endsWithin_perform fun _ => ?_
    split
    · trivial
    · split
      · exact endsWithin_perform fun _ => trivial
      · trivial
  · trivial

theorem settle_endsWithin (attempt index : Nat) (upstream : Upstream) (result : SendResult) :
    (exchange.settle attempt index upstream result).EndsWithin 7 := by
  have hfinish : ∀ resp, (do
      let response ← exchange.finishResponse resp
      return some response : GatewayProgram (Option Response)).EndsWithin 4 := by
    intro resp
    exact endsWithin_bind 4 0 (exchange.finishResponse_endsWithin resp) (fun _ _ _ => trivial)
      (Nat.le_refl 4)
  unfold settle
  cases result with
  | ok resp =>
      dsimp only
      split
      · refine endsWithin_perform fun _ => endsWithin_perform fun _ =>
          endsWithin_perform fun _ => ?_
        split
        · trivial
        · exact hfinish resp
      · exact endsWithin_perform fun _ => (hfinish resp).mono (by decide)
  | error e =>
      refine endsWithin_perform fun _ => endsWithin_perform fun _ =>
        endsWithin_perform fun _ => ?_
      split
      · trivial
      · exact (exchange.recordThen_endsWithin _ _).mono (by decide)

theorem tryUpstream_endsWithin (bodyBytes : Bytes) (attempt index : Nat) (upstream : Upstream) :
    (exchange.tryUpstream bodyBytes attempt index upstream).EndsWithin 13 := by
  refine endsWithin_perform fun _ => endsWithin_perform fun _ => endsWithin_perform fun _ =>
    endsWithin_perform fun _ => endsWithin_perform fun _ => ?_
  refine endsWithin_bind 7 1 (exchange.settle_endsWithin attempt index upstream _)
    (fun _ _ _ => ?_) (Nat.le_refl 8)
  exact endsWithin_perform fun _ => trivial

/-- The calls of the attempt loop, when at most `rounds` upstreams can still fail. -/
def loopBound (balancer : Balancer) (rounds : Nat) : Nat :=
  rounds * (balancer.pickBound + 13) + (balancer.pickBound + 2)

/-- Every round that fails excludes one more upstream, so the loop ends with the upstreams,
however many attempts are allowed. -/
theorem attemptLoop_endsWithin (hupstreams : exchange.runtime.balancer.upstreams ≠ [])
    (bodyBytes : Bytes) (remaining attempt : Nat) {excluded : List Nat}
    (hnodup : excluded.Nodup)
    (hrange : ∀ index ∈ excluded, index < exchange.runtime.balancer.upstreams.length) :
    (exchange.attemptLoop bodyBytes remaining attempt excluded).EndsWithin
      (loopBound exchange.runtime.balancer
        (min remaining (exchange.runtime.balancer.upstreams.length - excluded.length))) := by
  set balancer := exchange.runtime.balancer with hbalancer
  induction remaining generalizing attempt excluded with
  | zero =>
      refine (exchange.recordThen_endsWithin _ _).mono ?_
      unfold loopBound
      omega
  | succ remaining ih =>
      set rounds := min (remaining + 1) (balancer.upstreams.length - excluded.length) with hrounds
      refine endsWithin_bind balancer.pickBound (rounds * (balancer.pickBound + 13) + 2)
        (balancer.pick_endsWithin _ excluded) (fun picking picked hpicked => ?_) ?_
      · cases picked with
        | none => exact (exchange.recordThen_endsWithin _ _).mono (Nat.le_add_left _ _)
        | some picked =>
            obtain ⟨index, upstream⟩ := picked
            obtain ⟨hlt, hfresh, -⟩ :=
              Balancer.pick_ensures balancer hupstreams _ _ picking _ hpicked index upstream rfl
            have hnodup' : (excluded ++ [index]).Nodup :=
              List.nodup_append.mpr ⟨hnodup, List.nodup_singleton index, fun other hother _ hmem =>
                fun heq => hfresh (List.mem_singleton.mp hmem ▸ heq ▸ hother)⟩
            have hrange' : ∀ other ∈ excluded ++ [index], other < balancer.upstreams.length := by
              intro other hother
              rcases List.mem_append.mp hother with hold | hnew
              · exact hrange other hold
              · exact List.mem_singleton.mp hnew ▸ hlt
            have hlength : (excluded ++ [index]).length ≤ balancer.upstreams.length := by
              have hsubset : excluded ++ [index] ⊆ List.range balancer.upstreams.length :=
                fun other hother => List.mem_range.mpr (hrange' other hother)
              simpa using (hnodup'.subperm hsubset).length_le
            rw [List.length_append, List.length_singleton] at hlength
            have hnext := ih (attempt + 1) hnodup' hrange'
            rw [List.length_append, List.length_singleton] at hnext
            set left := min remaining (balancer.upstreams.length - (excluded.length + 1)) with hleft
            have hsucc : rounds = left + 1 := by omega
            refine endsWithin_bind 13 (loopBound balancer left)
              (exchange.tryUpstream_endsWithin bodyBytes attempt index upstream)
              (fun _ settled _ => ?_) ?_
            · cases settled with
              | none => exact hnext
              | some response => trivial
            · rw [hsucc, Nat.succ_mul]
              unfold loopBound
              omega
      · unfold loopBound
        omega

theorem proxy_endsWithin (hupstreams : exchange.runtime.balancer.upstreams ≠ []) :
    exchange.proxy.EndsWithin (loopBound exchange.runtime.balancer
      (min exchange.maxAttempts exchange.runtime.balancer.upstreams.length) + 1) := by
  refine endsWithin_perform fun _ => ?_
  split
  · refine (exchange.recordThen_endsWithin _ _).mono ?_
    unfold loopBound
    omega
  · exact exchange.attemptLoop_endsWithin hupstreams _ _ _ List.nodup_nil nofun

theorem serve_endsWithin (decode : TokenDecoder)
    (hupstreams : exchange.runtime.balancer.upstreams ≠ []) :
    (exchange.serve decode).EndsWithin (loopBound exchange.runtime.balancer
      (min exchange.maxAttempts exchange.runtime.balancer.upstreams.length) + 15) := by
  set bound := loopBound exchange.runtime.balancer
    (min exchange.maxAttempts exchange.runtime.balancer.upstreams.length)
  refine endsWithin_bind 4 (bound + 11) (exchange.authenticate_endsWithin decode)
    (fun _ rejection _ => ?_) (by omega)
  cases rejection with
  | some rejection => trivial
  | none =>
      refine endsWithin_bind 6 (bound + 5) exchange.limitRate_endsWithin
        (fun _ rejection _ => ?_) (by omega)
      cases rejection with
      | some rejection => trivial
      | none =>
          refine endsWithin_bind 4 (bound + 1) exchange.lookupCache_endsWithin
            (fun _ hit _ => ?_) (by omega)
          cases hit with
          | some hit => trivial
          | none => exact exchange.proxy_endsWithin hupstreams

/-- The bound in terms of the configured route. -/
theorem serve_endsWithin_of_runtime (decode : TokenDecoder) {exchange : Exchange} {id : RouteId}
    {route : RouteConfig} (hruntime : exchange.runtime = .fromConfig id route)
    (hupstreams : route.upstreams ≠ []) :
    (exchange.serve decode).EndsWithin (loopBound (.fromRoute route)
      (min (route.retries.toNat + 1) route.upstreams.length) + 15) := by
  have hserve := exchange.serve_endsWithin decode (upstreams_ne_nil_of_runtime hruntime hupstreams)
  rw [length_upstreams_of_runtime hruntime] at hserve
  have hbalancer : exchange.runtime.balancer = .fromRoute route := by rw [hruntime]; rfl
  have hattempts : exchange.maxAttempts ≤ route.retries.toNat + 1 := by
    have hretries : exchange.runtime.config.retries = route.retries := by rw [hruntime]; rfl
    rw [maxAttempts, hretries]
    omega
  rw [hbalancer] at hserve
  refine hserve.mono (Nat.add_le_add_right (Nat.add_le_add_right (Nat.mul_le_mul_right _ ?_) _) _)
  exact min_le_min_right _ hattempts

end Exchange

/-- A bound on the calls of the stages of a request, from the configuration of its route
alone. -/
def Incoming.stageBound (config : GatewayConfig) (incoming : Incoming) : Nat :=
  match matchRoute config (some (requestHost incoming.request)) incoming.request.uri.path with
  | none => 1
  | some route =>
      Exchange.loopBound (.fromRoute route)
        (min (route.retries.toNat + 1) route.upstreams.length) + 15

/-- A bound on the calls of a handler. -/
def Incoming.callBound (config : GatewayConfig) (incoming : Incoming) : Nat :=
  incoming.stageBound config + 4

theorem correlationId_endsWithin (request : Request) : (correlationId request).EndsWithin 1 := by
  unfold correlationId
  split
  · trivial
  · exact ⟨Nat.one_pos, fun _ => trivial⟩

theorem routeAndProxy_endsWithin (decode : TokenDecoder) {config : GatewayConfig}
    (hvalid : config.Valid) (redisReachable : Bool) (incoming : Incoming) :
    (routeAndProxy decode (.build config redisReachable) incoming).EndsWithin
      (incoming.stageBound config + 2) := by
  refine endsWithin_perform fun started => endsWithin_bind 1 (incoming.stageBound config)
    (correlationId_endsWithin incoming.request) (fun _ correlation _ => ?_)
    (Nat.le_of_eq (Nat.add_comm _ _))
  unfold Incoming.stageBound
  split
  · rename_i hmatched
    rw [show matchRoute config (some (requestHost incoming.request)) incoming.request.uri.path =
      none from hmatched]
    exact endsWithin_perform fun _ => trivial
  · rename_i route hmatched
    rw [show matchRoute config (some (requestHost incoming.request)) incoming.request.uri.path =
      some route from hmatched]
    obtain ⟨id, hroute, hbuilt⟩ := route_of_matchRoute redisReachable hvalid hmatched
    rw [hbuilt]
    exact Exchange.serve_endsWithin_of_runtime decode rfl
      (hvalid.routes route (List.mem_of_getElem? hroute)).hasUpstream

theorem handle_endsWithin (decode : TokenDecoder) {config : GatewayConfig} (hvalid : config.Valid)
    (redisReachable : Bool) (incoming : Incoming) :
    (handle decode (.build config redisReachable) incoming).EndsWithin
      (incoming.callBound config) := by
  refine endsWithin_perform fun _ => endsWithin_bind (incoming.stageBound config + 2) 1
    (routeAndProxy_endsWithin decode hvalid redisReachable incoming) (fun _ _ _ => ?_)
    (Nat.le_refl _)
  exact endsWithin_perform fun _ => trivial

/-- One upstream, and all the retries there are. -/
def stubbornConfig : GatewayConfig := { routes := [{ echoRoute with retries := 4294967295 }] }

/-- Two handlers take turns, and the upstream refuses every connection. -/
def takingTurns : List GatewayAction :=
  (List.replicate 50 [.advance 1 { upstream := fun _ _ => .error ⟨true⟩ },
    .advance 0 { upstream := fun _ _ => .error ⟨true⟩ }]).flatten

end Gateway
end ApiGateway
