import Mathlib.Algebra.BigOperators.Group.Finset.Piecewise
import Mathlib.Algebra.Order.BigOperators.Group.Finset
import ApiGateway.Gateway.Forwarding
import ApiGateway.Gateway.PeerLimit

/-!
# What a rate limit leaves for the upstreams

A rate limit counts requests, and a request may make several attempts.  So the upstreams of a
route are shielded by the limit and the bound on the attempts together: in one window of one
bucket they are called at most `limit` times the attempts that the route allows, and every call
falls into a window of the bucket of its request, since no request reaches an upstream unless
its bucket has let it through.
-/

namespace ApiGateway
namespace Gateway

open Library Core Program

/-- The entries of some threads in a log, counted thread by thread. -/
theorem countP_of_threads (log : List (Nat × Event effects)) (threads : Finset Nat)
    (counted : Event effects → Bool) :
    log.countP (fun entry => decide (entry.1 ∈ threads) && counted entry.2) =
      ∑ index ∈ threads, (Pool.callsOf log index).countP counted := by
  induction log using List.reverseRecOn with
  | nil => simp [Pool.callsOf]
  | append_singleton log entry ih =>
      obtain ⟨caller, event⟩ := entry
      have hcalls : ∀ index, (Pool.callsOf (log ++ [(caller, event)]) index).countP counted =
          (Pool.callsOf log index).countP counted +
            if caller = index then [event].countP counted else 0 := by
        intro index
        rw [Pool.callsOf_snoc]
        split
        · rw [List.countP_append]
        · rw [List.append_nil, Nat.add_zero]
      simp only [hcalls]
      rw [List.countP_append, ih, Finset.sum_add_distrib, Finset.sum_ite_eq, List.countP_singleton,
        List.countP_singleton]
      by_cases hmem : caller ∈ threads
      · simp [hmem]
      · simp [hmem]

/-- **The load that a rate limit leaves.**  On a route with the in-memory limiter, in every run
and for every bucket and every window of it with fewer than `2 ^ 32` checks: the calls to the
upstreams of the route for requests that were let through in that window are at most the limit
times the attempts that the route allows for a request.  And every call to an upstream of the
route is for a request that its bucket has let through in some window. -/
theorem limited_upstream_load (decode : TokenDecoder) (config : GatewayConfig)
    (hvalid : config.validate = .ok ()) (redisReachable : Bool)
    (hlimiter : (GatewayState.build config redisReachable).limiter = .inMemory) {id : RouteId}
    {route : RouteConfig} (hroute : config.routes[id]? = some route) {rl : RateLimitConfig}
    (hlimit : route.rateLimit = some rl) (actions : List GatewayAction) :
    let pool := gatewayAfter decode config redisReachable actions
    (∀ key window, (∀ visit ∈ visits (InMemoryLimiter.arrivalsOf key (checksOf pool.log)),
        visit.window = window → visit.ordinal < 2 ^ 32) →
      ∀ passed : Finset Nat, (∀ index ∈ passed, PassedIn config pool route rl window
          (fun incoming => incoming.bucketOf route rl = key) index) →
        pool.log.countP (fun entry => decide (entry.1 ∈ passed) && isSendTo id entry.2) ≤
          rl.limit.toNat * attemptLimit route) ∧
      ∀ entry ∈ pool.log, isSendTo id entry.2 = true → ∃ thread window,
        pool.threads[entry.1]? = some thread ∧ PassedIn config pool route rl window
          (fun incoming => incoming.bucketOf route rl = thread.request.bucketOf route rl)
          entry.1 := by
  intro pool
  have hconfig := (validate_eq_ok_iff config).mp hvalid
  have hcoherent : Pool.Coherent _ pool := gatewayAfter_coherent decode config redisReachable actions
  constructor
  · intro key window hfew passed hpassed
    have hcard := passedIn_card_le decode config hconfig redisReachable actions hlimit
      (fun _ hbucket => hbucket) hfew passed hpassed
    -- Each of the threads stays within the attempts of the route.
    have hthreads : ∀ index ∈ passed,
        (Pool.callsOf pool.log index).countP (isSendTo id) ≤ attemptLimit route := by
      intro index hindex
      obtain ⟨thread, -, hthread, -⟩ := hpassed index hindex
      rw [← hcoherent.history index thread hthread]
      refine (countP_isSendTo_le hconfig hroute (List.mem_of_getElem? hthread)).trans ?_
      split
      · exact Nat.le_refl _
      · exact Nat.zero_le _
    rw [countP_of_threads]
    calc ∑ index ∈ passed, (Pool.callsOf pool.log index).countP (isSendTo id)
        ≤ passed.card • attemptLimit route := Finset.sum_le_card_nsmul _ _ _ hthreads
      _ = passed.card * attemptLimit route := nsmul_eq_mul _ _
      _ ≤ rl.limit.toNat * attemptLimit route := Nat.mul_le_mul_right _ hcard
  · rintro ⟨index, event⟩ hentry hsend
    obtain ⟨thread, hthread, hevent⟩ := hcoherent.mem_history hentry
    obtain ⟨op, answer⟩ := event
    cases op with
    | send upstream request =>
        obtain rfl : upstream.route = id := eq_of_beq hsend
        obtain ⟨before, after, hhistory⟩ := List.append_of_mem hevent
        obtain ⟨route', correlation, started, hforwards⟩ :=
          forwards_after hconfig hthread hhistory
        obtain rfl : route = route' :=
          Option.some.inj (hroute.symm.trans hforwards.configured)
        obtain ⟨place, hplace⟩ := passedAt_of_handsOut decode config hconfig redisReachable actions
          hlimit hlimiter hthread hforwards.matched hevent (by simp [handsOut])
        exact ⟨thread, place.window, hthread, thread, place, hthread, hforwards.matched, rfl,
          hplace, rfl⟩
    | _ => cases hsend

set_option maxRecDepth 4000 in
/-- The first of two requests of one address reaches the upstream. -/
theorem callsPool_first_send :
    ∃ request result, (callsPool []).log[13]? =
      some (0, (⟨.send ⟨0, 0⟩ request, result⟩ : Event effects)) :=
  ⟨_, _, rfl⟩

/-- There are only two checks. -/
theorem callsPool_few_checks (key : String) :
    ∀ visit ∈ visits (InMemoryLimiter.arrivalsOf key (checksOf (callsPool []).log)),
      visit.ordinal < 2 ^ 32 := by
  intro visit hvisit
  have hplace := visits_ordinal_le _ visit hvisit
  have hchecks : (checksOf (callsPool []).log).length = 2 := by decide +kernel
  have hlength : (InMemoryLimiter.arrivalsOf key (checksOf (callsPool []).log)).length ≤ 2 :=
    hchecks ▸ List.length_filterMap_le _ _
  omega

theorem limited_upstream_load_calls :
    ∃ key window, PassedIn callsConfig (callsPool []) callsRoute callsLimit window
        (fun incoming => incoming.bucketOf callsRoute callsLimit = key) 0 ∧
      (callsPool []).log.countP
        (fun entry => decide (entry.1 ∈ ({0} : Finset Nat)) && isSendTo 0 entry.2) ≤ 1 := by
  obtain ⟨hload, hcovered⟩ := limited_upstream_load noTokens callsConfig rfl false rfl
    (rfl : callsConfig.routes[0]? = some callsRoute) (rfl : _ = some callsLimit) (callsRun [])
  obtain ⟨request, result, hlogged⟩ := callsPool_first_send
  obtain ⟨thread, window, -, hpassed⟩ := hcovered _ (List.mem_of_getElem? hlogged) rfl
  refine ⟨thread.request.bucketOf callsRoute callsLimit, window, hpassed, ?_⟩
  refine hload (thread.request.bucketOf callsRoute callsLimit) window
    (fun visit hvisit _ => callsPool_few_checks _ visit hvisit) {0} ?_
  intro index hindex
  rw [Finset.mem_singleton.mp hindex]
  exact hpassed

end Gateway
end ApiGateway
