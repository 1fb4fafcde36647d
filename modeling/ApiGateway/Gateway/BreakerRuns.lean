import ApiGateway.Gateway.BreakerGauge
import ApiGateway.Gateway.Mediation
import ApiGateway.Library.SharedObject

/-!
# The breakers of the running gateway

A handler reads the clock before it takes the lock of a breaker.  So the readings that
reach a breaker need not come in order: a late caller may report a failure with a reading
older than the last one, and move the deadline back.  `history_tells` therefore says what a
breaker does after any sequence of calls at all, with no assumption on the readings: from
the threshold on it is half-open if some test since the last failure has read a time at or
past the deadline of that failure, and open otherwise.

The breaker of an upstream is a shared object of the gateway, and every handler reports with
the parameters of the configured route.  `breakers_follow_their_log` carries the law to every
interleaving, and adds the wall clock: no reading lies in the future, so until the cooldown
after the last reported failure is over, nobody is let through.
-/

namespace ApiGateway
namespace Gateway

open Library Core Program

/-! ## A breaker after any sequence of calls -/

namespace CircuitBreaker

/-- The call reports a failure. -/
def Call.isFailure : Call → Bool
  | .recordFailureAt _ => true
  | _ => false

/-- The clock reading of a test. -/
def Call.tested : Call → Option Instant
  | .allowAt now => some now
  | _ => none

/-- The readings of the tests since the last reported failure, the latest first. -/
def testsSinceFailure (calls : List Call) : List Instant :=
  (calls.reverse.takeWhile fun call => !call.isFailure).filterMap Call.tested

@[simp] theorem testsSinceFailure_allowAt (calls : List Call) (now : Instant) :
    testsSinceFailure (calls ++ [.allowAt now]) = now :: testsSinceFailure calls := by
  simp [testsSinceFailure, Call.isFailure, Call.tested]

@[simp] theorem testsSinceFailure_recordFailureAt (calls : List Call) (now : Instant) :
    testsSinceFailure (calls ++ [.recordFailureAt now]) = [] := by
  simp [testsSinceFailure, Call.isFailure]

theorem mem_of_mem_testsSinceFailure {calls : List Call} {now : Instant}
    (h : now ∈ testsSinceFailure calls) : .allowAt now ∈ calls := by
  obtain ⟨call, hcall, htested⟩ := List.mem_filterMap.mp h
  have hmem : call ∈ calls :=
    List.mem_reverse.mp ((List.takeWhile_sublist _).subset hcall)
  cases call with
  | allowAt read =>
      obtain rfl : read = now := Option.some.inj htested
      exact hmem
  | recordSuccess | recordFailureAt _ => cases htested

/-- What a history makes of a breaker from the threshold on: the deadline is that of the last
failure, and a test that read a time at or past it has made the breaker half-open. -/
def HistoryTells (breaker : CircuitBreaker) (calls : List Call) (inner : Inner) : Prop :=
  breaker.threshold.toNat ≤ failuresSinceSuccess calls →
    ∃ failedAt, lastFailure calls = some failedAt ∧
      inner.openUntil = some (failedAt + breaker.openFor) ∧
        inner.state = if ∃ now ∈ testsSinceFailure calls, failedAt + breaker.openFor ≤ now
          then .halfOpen else .opened

theorem historyTells_allowAt {breaker : CircuitBreaker} {calls : List Call} {inner : Inner}
    (h : HistoryTells breaker calls inner) (now : Instant) :
    HistoryTells breaker (calls ++ [.allowAt now]) (allowAt inner now).2 := by
  intro hge
  rw [failuresSinceSuccess_allowAt] at hge
  obtain ⟨failedAt, hlast, huntil, hstate⟩ := h hge
  refine ⟨failedAt, by rw [lastFailure_allowAt, hlast], by rw [allowAt_openUntil, huntil], ?_⟩
  simp only [testsSinceFailure_allowAt, List.exists_mem_cons_iff]
  by_cases hlate : ∃ earlier ∈ testsSinceFailure calls, failedAt + breaker.openFor ≤ earlier
  · rw [if_pos hlate] at hstate
    rw [allowAt_halfOpen hstate, hstate, if_pos (Or.inr hlate)]
  · rw [if_neg hlate] at hstate
    by_cases hnow : failedAt + breaker.openFor ≤ now
    · rw [allowAt_opened_late hstate huntil hnow, if_pos (Or.inl hnow)]
    · rw [allowAt_opened_early hstate huntil (Nat.not_le.mp hnow), hstate,
        if_neg (not_or.mpr ⟨hnow, hlate⟩)]

theorem historyTells_recordFailureAt {breaker : CircuitBreaker} {calls : List Call}
    {inner : Inner} (hcounter : inner.consecutiveFailures.toNat = failuresSinceSuccess calls)
    (now : Instant) (hfew : failuresSinceSuccess calls + 1 < 2 ^ 32) :
    HistoryTells breaker (calls ++ [.recordFailureAt now])
      (breaker.recordFailureAt inner now) := by
  intro hge
  rw [failuresSinceSuccess_recordFailureAt] at hge
  have hopens : breaker.threshold ≤ inner.consecutiveFailures + 1 := by
    rw [UInt32.le_iff_toNat_le, UInt32.toNat_add, hcounter]
    exact le_of_le_of_eq hge (Nat.mod_eq_of_lt hfew).symm
  simp only [recordFailureAt, if_pos (Or.inr hopens : inner.state = .halfOpen ∨ _)]
  exact ⟨now, lastFailure_recordFailureAt calls now, rfl, by simp⟩

/-- **What a history tells of a breaker**, in whatever order its readings are. -/
theorem history_tells (breaker : CircuitBreaker) (hpos : 0 < breaker.threshold.toNat)
    (calls : List Call) (hfew : failuresSinceSuccess calls < 2 ^ 32) :
    HistoryTells breaker calls (breaker.after calls) := by
  induction calls using List.reverseRecOn with
  | nil =>
      intro hge
      rw [failuresSinceSuccess_nil] at hge
      omega
  | append_singleton calls call ih =>
      rw [after_append_singleton]
      cases call with
      | allowAt now =>
          rw [failuresSinceSuccess_allowAt] at hfew
          exact historyTells_allowAt (ih hfew) now
      | recordSuccess =>
          intro hge
          rw [failuresSinceSuccess_recordSuccess] at hge
          omega
      | recordFailureAt now =>
          rw [failuresSinceSuccess_recordFailureAt] at hfew
          exact historyTells_recordFailureAt
            (traceInvariant_after breaker hpos calls (by omega)).counter now hfew

theorem closed_iff (breaker : CircuitBreaker) (hpos : 0 < breaker.threshold.toNat)
    (calls : List Call) (hfew : failuresSinceSuccess calls < 2 ^ 32) :
    (breaker.after calls).state = .closed ↔
      failuresSinceSuccess calls < breaker.threshold.toNat := by
  refine ⟨fun hclosed => ?_, (traceInvariant_after breaker hpos calls hfew).below⟩
  by_contra hge
  obtain ⟨failedAt, -, -, hstate⟩ :=
    history_tells breaker hpos calls hfew (Nat.not_lt.mp hge)
  rw [hclosed] at hstate
  split at hstate
  · cases hstate
  · cases hstate

/-- A breaker refuses exactly when the threshold is reached and no test since the last
failure, this one included, has read a time at or past the deadline of that failure. -/
theorem allowAt_eq_false_iff (breaker : CircuitBreaker) (hpos : 0 < breaker.threshold.toNat)
    (calls : List Call) (hfew : failuresSinceSuccess calls < 2 ^ 32) (now : Instant) :
    (allowAt (breaker.after calls) now).1 = false ↔
      breaker.threshold.toNat ≤ failuresSinceSuccess calls ∧
        ∃ failedAt, lastFailure calls = some failedAt ∧
          ∀ read ∈ now :: testsSinceFailure calls, read < failedAt + breaker.openFor := by
  have hbelow := (traceInvariant_after breaker hpos calls hfew).below
  by_cases hge : breaker.threshold.toNat ≤ failuresSinceSuccess calls
  · obtain ⟨failedAt, hlast, huntil, hstate⟩ := history_tells breaker hpos calls hfew hge
    simp only [hge, true_and, hlast, Option.some.injEq, exists_eq_left', List.forall_mem_cons]
    by_cases hlate : ∃ read ∈ testsSinceFailure calls, failedAt + breaker.openFor ≤ read
    · rw [if_pos hlate] at hstate
      obtain ⟨read, hread, hle⟩ := hlate
      rw [allowAt_halfOpen hstate]
      exact ⟨nofun, fun hearly => absurd (hearly.2 read hread) (Nat.not_lt.mpr hle)⟩
    · rw [if_neg hlate] at hstate
      have hearly : ∀ read ∈ testsSinceFailure calls, read < failedAt + breaker.openFor :=
        fun read hread => Nat.not_le.mp fun hle => hlate ⟨read, hread, hle⟩
      by_cases hnow : failedAt + breaker.openFor ≤ now
      · rw [allowAt_opened_late hstate huntil hnow]
        exact ⟨nofun, fun h => absurd h.1 (Nat.not_lt.mpr hnow)⟩
      · rw [allowAt_opened_early hstate huntil (Nat.not_le.mp hnow)]
        exact ⟨fun _ => ⟨Nat.not_le.mp hnow, hearly⟩, fun _ => rfl⟩
  · rw [allowAt_closed (hbelow (Nat.not_le.mp hge))]
    exact ⟨nofun, fun h => absurd h.1 hge⟩

end CircuitBreaker

/-! ## The calls of the handlers on the breakers -/

/-- The call that an operation makes on the breaker of an upstream. -/
def breakerCall (upstream : UpstreamId) : Op → Option CircuitBreaker.Call
  | .allowAt id now => if id = upstream then some (.allowAt now) else none
  | .recordSuccess id => if id = upstream then some .recordSuccess else none
  | .recordFailureAt id _ now => if id = upstream then some (.recordFailureAt now) else none
  | _ => none

/-- The calls on the breaker of an upstream in a log. -/
def breakerCalls (upstream : UpstreamId) (log : List (Nat × Event effects)) :
    List CircuitBreaker.Call :=
  log.filterMap fun entry => breakerCall upstream entry.2.1

/-- The breaker that a route configures for each of its upstreams. -/
def breakerOf (route : RouteConfig) : CircuitBreaker :=
  .new route.circuitBreaker.failureThreshold route.circuitBreaker.openSecs

/-- The readings that reach a breaker were taken by the same handler, and a failure is
reported with the parameters of the configured route. -/
def ReportsOwn (config : GatewayConfig) (history : List (Event effects)) : Op → Prop
  | .allowAt _ now => (⟨.instantNow, now⟩ : Event effects) ∈ history
  | .recordFailureAt upstream breaker now =>
      (⟨.instantNow, now⟩ : Event effects) ∈ history ∧
        ∃ route, config.routes[upstream.route]? = some route ∧ breaker = breakerOf route
  | _ => True

theorem reportsOwn_of_kind {config : GatewayConfig} {history : List (Event effects)} {op : Op}
    (h : op.kind ∉ [OpKind.pick, .outcome]) : ReportsOwn config history op := by
  cases op with
  | allowAt _ _ | recordFailureAt _ _ _ => simp at h
  | _ => trivial

theorem reportsOwn_of_makesKinds {config : GatewayConfig} {α : Type} {kinds : List OpKind}
    {program : GatewayProgram α} {history : List (Event effects)} (h : MakesKinds kinds program)
    (hkinds : ∀ kind ∈ kinds, kind ∉ [OpKind.pick, .outcome]) :
    program.Guarded (ReportsOwn config) history :=
  Makes.guarded h fun _ op hop => reportsOwn_of_kind (hkinds op.kind hop)

namespace Balancer

variable {config : GatewayConfig} {history : List (Event effects)}

theorem candidate_reportsOwn (id : RouteId) (exclude : List Nat) (index : Nat) :
    (candidate id exclude index).Guarded (ReportsOwn config) history := by
  unfold candidate
  split
  · trivial
  · refine guarded_perform trivial fun healthy => ?_
    cases healthy with
    | true =>
        refine guarded_perform trivial fun now => ⟨?_, fun _ => trivial⟩
        exact List.mem_append_right _ (List.mem_singleton.mpr rfl)
    | false => trivial

theorem firstEligible_reportsOwn (id : RouteId) (exclude positions : List Nat) :
    (firstEligible id exclude positions).Guarded (ReportsOwn config) history := by
  induction positions generalizing history with
  | nil => trivial
  | cons index rest ih =>
      refine guarded_bind (candidate_reportsOwn id exclude index) fun _ found _ => ?_
      cases found with
      | true => trivial
      | false => exact ih

theorem roundRobinFrom_reportsOwn (balancer : Balancer) (id : RouteId) (exclude : List Nat)
    (rounds : Nat) :
    (roundRobinFrom balancer id exclude rounds).Guarded (ReportsOwn config) history := by
  induction rounds generalizing history with
  | zero => exact firstEligible_reportsOwn id exclude _
  | succ rounds ih =>
      refine guarded_perform trivial fun cursor =>
        guarded_bind (candidate_reportsOwn id exclude _) fun _ found _ => ?_
      cases found with
      | true => trivial
      | false => exact ih

theorem leastLoaded_reportsOwn (id : RouteId) (exclude positions : List Nat)
    (best : Option (Int × Nat)) :
    (leastLoaded id exclude best positions).Guarded (ReportsOwn config) history := by
  induction positions generalizing history best with
  | nil => trivial
  | cons index rest ih =>
      refine guarded_bind (candidate_reportsOwn id exclude index) fun _ found _ => ?_
      cases found with
      | true => exact guarded_perform trivial fun _ => ih _
      | false => exact ih best

theorem pick_reportsOwn (balancer : Balancer) (id : RouteId) (exclude : List Nat) :
    (pick balancer id exclude).Guarded (ReportsOwn config) history := by
  have hindex : (pickIndex balancer id exclude).Guarded (ReportsOwn config) history := by
    unfold pickIndex
    split
    · exact roundRobinFrom_reportsOwn balancer id exclude _
    · exact leastLoaded_reportsOwn id exclude _ none
  refine guarded_bind hindex fun _ choice _ => ?_
  cases choice with
  | none => trivial
  | some index => exact guarded_perform trivial fun _ => trivial

/-- Every upstream of a route has the breaker that the route configures. -/
theorem breaker_upstreamAt (route : RouteConfig) {index : Nat}
    (h : index < (fromRoute route).upstreams.length) :
    ((fromRoute route).upstreamAt index).breaker = breakerOf route := by
  rw [upstreamAt, List.getD_eq_getElem?_getD, List.getElem?_eq_getElem h]
  simp [fromRoute, Upstream.fromConfig, breakerOf]

end Balancer

namespace Exchange

variable {config : GatewayConfig} {exchange : Exchange} {route : RouteConfig} {id : RouteId}

theorem settle_reportsOwn (hruntime : exchange.runtime = .fromConfig id route)
    (hroute : config.routes[id]? = some route) (attempt index : Nat) {upstream : Upstream}
    (hbreaker : upstream.breaker = breakerOf route) (result : SendResult)
    (history : List (Event effects)) :
    (exchange.settle attempt index upstream result).Guarded (ReportsOwn config) history := by
  have hid : exchange.runtime.id = id := by rw [hruntime]; rfl
  have hfinish : ∀ resp history, (exchange.finishResponse resp).Guarded (ReportsOwn config)
      history := fun resp _ => reportsOwn_of_makesKinds (exchange.finishResponse_makesKinds resp)
    (by decide)
  have hreport : ∀ (now : Instant) (history : List (Event effects)),
      ReportsOwn config (history ++ [⟨.instantNow, now⟩])
        (.recordFailureAt ⟨exchange.runtime.id, index⟩ upstream.breaker now) :=
    fun now history => ⟨List.mem_append_right _ (List.mem_singleton.mpr rfl), route,
      hid ▸ hroute, hbreaker⟩
  unfold settle
  cases result with
  | ok resp =>
      dsimp only
      split
      · refine guarded_perform trivial fun now => guarded_perform (hreport now _) fun _ =>
          guarded_perform trivial fun _ => ?_
        split
        · trivial
        · exact guarded_bind (hfinish resp _) fun _ _ _ => trivial
      · exact guarded_perform trivial fun _ => guarded_bind (hfinish resp _) fun _ _ _ => trivial
  | error e =>
      refine guarded_perform trivial fun now => guarded_perform (hreport now _) fun _ =>
        guarded_perform trivial fun _ => ?_
      split
      · trivial
      · exact guarded_bind (reportsOwn_of_makesKinds (exchange.record_makesKinds _) (by decide))
          fun _ _ _ => trivial

theorem attemptLoop_reportsOwn (hruntime : exchange.runtime = .fromConfig id route)
    (hroute : config.routes[id]? = some route) (hupstreams : route.upstreams ≠ [])
    (bodyBytes : Bytes) (remaining attempt : Nat) (excluded : List Nat)
    (history : List (Event effects)) :
    (exchange.attemptLoop bodyBytes remaining attempt excluded).Guarded (ReportsOwn config)
      history := by
  have hbalancer : exchange.runtime.balancer = .fromRoute route := by rw [hruntime]; rfl
  have hrecord : ∀ status history, (exchange.record status).Guarded (ReportsOwn config) history :=
    fun status _ => reportsOwn_of_makesKinds (exchange.record_makesKinds status) (by decide)
  induction remaining generalizing attempt excluded history with
  | zero => exact guarded_bind (hrecord _ _) fun _ _ _ => trivial
  | succ remaining ih =>
      refine guarded_bind (Balancer.pick_reportsOwn _ _ _) fun picking picked hpicked => ?_
      cases picked with
      | none => exact guarded_bind (hrecord _ _) fun _ _ _ => trivial
      | some picked =>
          obtain ⟨index, upstream⟩ := picked
          obtain ⟨hlt, -, rfl⟩ := Balancer.pick_ensures _
            (upstreams_ne_nil_of_runtime hruntime hupstreams) _ _ picking _ hpicked index upstream
            rfl
          have hbreaker : (exchange.runtime.balancer.upstreamAt index).breaker =
              breakerOf route := by
            rw [hbalancer] at hlt ⊢
            exact Balancer.breaker_upstreamAt route hlt
          refine guarded_bind (guarded_perform trivial fun _ => guarded_perform trivial fun _ =>
            guarded_perform trivial fun _ => guarded_perform trivial fun _ =>
              guarded_perform trivial fun _ => guarded_bind (settle_reportsOwn hruntime hroute
                attempt index hbreaker _ _) fun _ _ _ => guarded_perform trivial fun _ => trivial)
            fun _ settled _ => ?_
          cases settled with
          | none => exact ih (attempt + 1) (excluded ++ [index]) _
          | some response => trivial

theorem serve_reportsOwn (decode : TokenDecoder)
    (hruntime : exchange.runtime = .fromConfig id route)
    (hroute : config.routes[id]? = some route) (hupstreams : route.upstreams ≠ [])
    (history : List (Event effects)) :
    (exchange.serve decode).Guarded (ReportsOwn config) history := by
  apply serve_guarded_of_stages
  · exact reportsOwn_of_makesKinds (exchange.authenticate_makesKinds decode) (by decide)
  · intro auth _
    exact reportsOwn_of_makesKinds exchange.limitRate_makesKinds (by decide)
  · intro auth limited _ _
    exact reportsOwn_of_makesKinds exchange.lookupCache_makesKinds (by decide)
  · intro auth limited looked _ _ _
    refine guarded_perform trivial fun _ => ?_
    split
    · exact guarded_bind (reportsOwn_of_makesKinds (exchange.record_makesKinds _) (by decide))
        fun _ _ _ => trivial
    · exact attemptLoop_reportsOwn hruntime hroute hupstreams _ _ _ _ _

end Exchange

theorem handle_reportsOwn (decode : TokenDecoder) {config : GatewayConfig}
    (hvalid : config.Valid) (redisReachable : Bool) (incoming : Incoming) :
    (handle decode (.build config redisReachable) incoming).Guarded (ReportsOwn config) [] := by
  apply handle_guarded_of_serve
  · intro history op hop
    have hnone : ∀ kind ∈ frameKinds, kind ∉ [OpKind.pick, .outcome] := by decide
    exact reportsOwn_of_kind (hnone op.kind hop)
  · intro route runtime correlation started history hmatched hruntime _ _
    obtain ⟨id, hroute, hbuilt⟩ := route_of_matchRoute redisReachable hvalid hmatched
    obtain rfl : runtime = .fromConfig id route := Option.some.inj (hruntime.symm.trans hbuilt)
    exact Exchange.serve_reportsOwn decode rfl hroute
      (hvalid.routes route (List.mem_of_getElem? hroute)).hasUpstream history

/-! ## In every interleaving -/

/-- A failure of the upstreams of a route is reported with the breaker of the route. -/
def ReportsTo (upstream : UpstreamId) (breaker : CircuitBreaker) : Op → Prop
  | .recordFailureAt id reported _ => id = upstream → reported = breaker
  | _ => True

theorem handle_reportsTo (decode : TokenDecoder) {config : GatewayConfig} (hvalid : config.Valid)
    (redisReachable : Bool) {upstream : UpstreamId} {route : RouteConfig}
    (hroute : config.routes[upstream.route]? = some route) (incoming : Incoming) :
    (handle decode (.build config redisReachable) incoming).Makes
      (ReportsTo upstream (breakerOf route)) := by
  refine Makes.mono (handle_reportsOwn decode hvalid redisReachable incoming).makes fun op hop => ?_
  obtain ⟨history, howns⟩ := hop
  cases op with
  | recordFailureAt id reported now =>
      rintro rfl
      obtain ⟨-, other, hother, rfl⟩ := howns
      obtain rfl : route = other := Option.some.inj (hroute.symm.trans hother)
      rfl
  | _ => trivial

/-- How the log shows a call on the breaker of an upstream and its reply. -/
def ShowsBreakerCall (upstream : UpstreamId) (event : Event effects) (made : CircuitBreaker.Call)
    (reply : Option Bool) : Prop :=
  breakerCall upstream event.1 = some made ∧
    ∀ now answer, event = ⟨.allowAt upstream now, answer⟩ → reply = some answer

/-- What an operation makes of the breaker of an upstream is the step of its call. -/
theorem breaker_answer (input : Input) (world : World) (op : Op) (upstream : UpstreamId)
    {breaker : CircuitBreaker} (hreports : ReportsTo upstream breaker op) :
    ((World.answer input world op).2.upstream upstream).breaker =
      match breakerCall upstream op with
      | none => (world.upstream upstream).breaker
      | some made => (breaker.step (world.upstream upstream).breaker made).2 := by
  rw [World.upstream_answer]
  cases op with
  | guardNew id | guardDrop id =>
      simp only [World.cellAfter, breakerCall]
      split
      · rfl
      · rfl
  | allowAt id now | recordSuccess id =>
      by_cases heq : id = upstream
      · simp [World.cellAfter, breakerCall, heq, CircuitBreaker.step]
      · simp [World.cellAfter, breakerCall, heq]
  | recordFailureAt id reported now =>
      by_cases heq : id = upstream
      · simp [World.cellAfter, breakerCall, heq, CircuitBreaker.step, hreports heq]
      · simp [World.cellAfter, breakerCall, heq]
  | _ => rfl

/-- The breaker of an upstream as a shared object.  Its readings are not in order. -/
def breakerObject (decode : TokenDecoder) {config : GatewayConfig} (hvalid : config.Valid)
    (redisReachable : Bool) {upstream : UpstreamId} {route : RouteConfig}
    (hroute : config.routes[upstream.route]? = some route) :
    SharedObject (server decode (.build config redisReachable)) Inner CircuitBreaker.Call
      (Option Bool) where
  cell world := (world.upstream upstream).breaker
  step := (breakerOf route).step
  touches op := (breakerCall upstream op).isSome
  shows := ShowsBreakerCall upstream
  instants _ := []
  clock _ := 0
  permitted := ReportsTo upstream (breakerOf route)
  makes incoming := handle_reportsTo decode hvalid redisReachable hroute incoming
  called input world op hpermitted htouches := by
    obtain ⟨made, hmade⟩ := Option.isSome_iff_exists.mp htouches
    have hcell := breaker_answer input world op upstream hpermitted
    rw [hmade] at hcell
    refine ⟨made, hcell, ⟨hmade, fun now answer hevent => ?_⟩, by simp⟩
    obtain ⟨rfl, hanswer⟩ := Sigma.mk.inj hevent
    obtain rfl : .allowAt now = made := by simpa [breakerCall] using hmade
    rw [← eq_of_heq hanswer]
    rfl
  untouched input world op hpermitted htouches := by
    have hcell := breaker_answer input world op upstream hpermitted
    have hnone : breakerCall upstream op = none := by
      simpa using htouches
    rw [hnone] at hcell
    exact ⟨hcell, Nat.le_refl _⟩
  drop history world :=
    ⟨congrArg Dial.breaker (dial_dropHandler history world upstream "" ""), Nat.le_refl _⟩
  disturb probe world :=
    ⟨congrArg Dial.breaker (dial_report probe world upstream "" ""), Nat.le_refl _⟩

/-- The calls that the log shows are those that its operations make. -/
theorem calls_eq_breakerCalls {upstream : UpstreamId} {log : List (Nat × Event effects)}
    {calls : List (CircuitBreaker.Call × Event effects)}
    (hshown : ∀ made ∈ calls, breakerCall upstream made.2.1 = some made.1)
    (hlogged : calls.map Prod.snd =
      (log.map Prod.snd).filter fun event => (breakerCall upstream event.1).isSome) :
    calls.map Prod.fst = breakerCalls upstream log := by
  have hcalls : (calls.map Prod.snd).filterMap (fun event => breakerCall upstream event.1) =
      calls.map Prod.fst := by
    rw [List.filterMap_map, ← List.filterMap_eq_map]
    exact List.filterMap_congr hshown
  rw [← hcalls, hlogged, List.filterMap_filter, List.filterMap_map, breakerCalls]
  refine List.filterMap_congr fun entry _ => ?_
  show (if (breakerCall upstream entry.2.1).isSome then breakerCall upstream entry.2.1 else none) = _
  cases breakerCall upstream entry.2.1 with
  | none => rfl
  | some made => rfl

theorem mem_log_of_mem_breakerCalls {upstream : UpstreamId} {log : List (Nat × Event effects)}
    {now : Instant} (h : .allowAt now ∈ breakerCalls upstream log) :
    ∃ who answer, (who, (⟨.allowAt upstream now, answer⟩ : Event effects)) ∈ log := by
  obtain ⟨⟨who, op, answer⟩, hentry, hcall⟩ := List.mem_filterMap.mp h
  cases op with
  | allowAt id read =>
      obtain ⟨rfl, hread⟩ := Option.ite_none_right_eq_some.mp hcall
      obtain rfl : read = now := CircuitBreaker.Call.allowAt.inj (Option.some.inj hread)
      exact ⟨who, answer, hentry⟩
  | recordSuccess id | recordFailureAt id _ _ => simp [breakerCall] at hcall
  | _ => cases hcall

/-- No clock reading in the log lies in the future. -/
theorem readings_le_now (decode : TokenDecoder) (config : GatewayConfig) (redisReachable : Bool)
    (actions : List GatewayAction) {who : Nat} {read : Instant}
    (hread : (who, (⟨.instantNow, read⟩ : Event effects)) ∈
      (gatewayAfter decode config redisReachable actions).log) :
    read ≤ (gatewayAfter decode config redisReachable actions).state.now := by
  revert who read
  refine Pool.after_induction (server decode (.build config redisReachable)) World.initial
    (fun pool => ∀ {who : Nat} {read : Instant},
      (who, (⟨.instantNow, read⟩ : Event effects)) ∈ pool.log → read ≤ pool.state.now)
    (fun h => nomatch h) ?_ actions
  intro pool action ih who read hread
  rcases Pool.step_cases (server decode (.build config redisReachable)) pool action with
    ⟨_, hpool⟩ | ⟨index, thread, op, next, input, -, -, hpool⟩ | ⟨_, thread, -, hpool⟩ |
    ⟨probe, hpool⟩ | hpool
  · rw [hpool] at hread ⊢
    exact ih hread
  · rw [hpool] at hread ⊢
    have hle : pool.state.now ≤ (World.answer input pool.state op).2.now :=
      Nat.le_trans (Nat.le_add_right _ _)
        (World.now_le_answerNow input (pool.state.tick input.elapsed) op)
    rcases List.mem_append.mp hread with hold | hnew
    · exact (ih hold).trans hle
    · obtain ⟨rfl, hevent⟩ := Prod.mk.inj (List.mem_singleton.mp hnew)
      obtain ⟨rfl, hanswer⟩ := Sigma.mk.inj hevent
      rw [eq_of_heq hanswer]
      exact Nat.le_refl _
  · rw [hpool] at hread ⊢
    have hnow : (dropHandler thread.history pool.state).now = pool.state.now := by
      unfold dropHandler
      split
      · rfl
      · rfl
    exact (ih hread).trans (Nat.le_of_eq hnow.symm)
  · rw [hpool] at hread ⊢
    exact ih hread
  · rw [hpool] at hread ⊢
    exact ih hread

section Runs

variable (decode : TokenDecoder) {config : GatewayConfig} (hvalid : config.Valid)
  (redisReachable : Bool) {upstream : UpstreamId} {route : RouteConfig}
  (hroute : config.routes[upstream.route]? = some route) (actions : List GatewayAction)

include hvalid hroute

/-- The breaker is where the calls in the log bring it, and every test was answered from
where the calls before it had brought it. -/
theorem breaker_follows_log :
    ((gatewayAfter decode config redisReachable actions).state.upstream upstream).breaker =
        (breakerOf route).after
          (breakerCalls upstream (gatewayAfter decode config redisReachable actions).log) ∧
      ∀ before who now answer rest,
        (gatewayAfter decode config redisReachable actions).log =
            before ++ (who, ⟨.allowAt upstream now, answer⟩) :: rest →
          answer = (CircuitBreaker.allowAt
            ((breakerOf route).after (breakerCalls upstream before)) now).1 := by
  obtain ⟨calls, h⟩ := (breakerObject decode hvalid redisReachable hroute).linearized_after
    World.initial actions
  change (breakerObject decode hvalid redisReachable hroute).Linearized
    CircuitBreaker.initialInner (gatewayAfter decode config redisReachable actions) calls at h
  have hshown : ∀ made ∈ calls, breakerCall upstream made.2.1 = some made.1 := by
    intro made hmade
    obtain ⟨earlier, later, rfl⟩ := List.append_of_mem hmade
    exact (h.shows earlier made later rfl).1
  refine ⟨?_, fun before who now answer rest hlog => ?_⟩
  · rw [← calls_eq_breakerCalls hshown h.logged]
    exact h.cell
  · -- The test is one of the calls, and those before it are the calls in the log before it.
    have hlogged := h.logged
    have htouches : (breakerObject decode hvalid redisReachable hroute).touches
        (.allowAt upstream now) = true := by
      show (breakerCall upstream (.allowAt upstream now)).isSome = true
      simp [breakerCall]
    rw [hlog, List.map_append, List.map_cons, List.filter_append, List.filter_cons,
      if_pos htouches] at hlogged
    obtain ⟨earlier, tail, rfl, hearlier, htail⟩ := List.map_eq_append_iff.mp hlogged
    obtain ⟨⟨made, event⟩, later, rfl, rfl, -⟩ := List.map_eq_cons_iff.mp htail
    have hbefore : earlier.map Prod.fst = breakerCalls upstream before :=
      calls_eq_breakerCalls (fun made hmade => hshown made (List.mem_append_left _ hmade)) hearlier
    obtain ⟨hcall, hreply⟩ := h.shows earlier _ later rfl
    have hanswer := hreply now answer rfl
    obtain rfl : .allowAt now = made := by simpa [breakerCall] using hcall
    rw [hbefore] at hanswer
    exact (Option.some.inj hanswer).symm

omit hroute in
/-- No test read a time that has not come. -/
theorem test_le_now {now : Instant}
    (htest : .allowAt now ∈
      breakerCalls upstream (gatewayAfter decode config redisReachable actions).log) :
    now ≤ (gatewayAfter decode config redisReachable actions).state.now := by
  obtain ⟨who, answer, htest⟩ := mem_log_of_mem_breakerCalls htest
  have hcoherent := gatewayAfter_coherent decode config redisReachable actions
  obtain ⟨thread, hthread, htested⟩ := hcoherent.mem_history htest
  obtain ⟨earlier, later, hhistory⟩ := List.append_of_mem htested
  have hsteps := hcoherent.steps who thread hthread
  have hread : (⟨.instantNow, now⟩ : Event effects) ∈ [] ++ earlier :=
    (handle_reportsOwn decode hvalid redisReachable thread.request).allowed_of_mem hsteps hhistory
  have hlogged : (who, (⟨.instantNow, now⟩ : Event effects)) ∈
      (gatewayAfter decode config redisReachable actions).log :=
    hcoherent.mem_log hthread (hhistory ▸ List.mem_append_left _ hread)
  exact readings_le_now decode config redisReachable actions hlogged

end Runs

/-- **The breakers of the gateway follow their log.**  In every run and for every upstream,
with fewer than `2 ^ 32` failures since the last success: a test is refused exactly when the
threshold is reached and no test since the last failure, this one included, has read a time at
or past the end of its cooldown; the breaker is closed exactly when the failures since the
last success are below the threshold; and from there on it is open, and refuses everybody,
until the clock has passed the end of the cooldown of the last reported failure. -/
theorem breakers_follow_their_log (decode : TokenDecoder) {config : GatewayConfig}
    (hvalid : config.validate = .ok ()) (redisReachable : Bool) {upstream : UpstreamId}
    {route : RouteConfig} (hroute : config.routes[upstream.route]? = some route)
    (actions : List GatewayAction) :
    let pool := gatewayAfter decode config redisReachable actions
    let threshold := max route.circuitBreaker.failureThreshold.toNat 1
    let cooldown := Duration.fromSecs (max route.circuitBreaker.openSecs.toNat 1)
    (∀ before who now answer rest,
      pool.log = before ++ (who, ⟨.allowAt upstream now, answer⟩) :: rest →
      CircuitBreaker.failuresSinceSuccess (breakerCalls upstream before) < 2 ^ 32 →
        (answer = false ↔
          threshold ≤ CircuitBreaker.failuresSinceSuccess (breakerCalls upstream before) ∧
            ∃ failedAt, CircuitBreaker.lastFailure (breakerCalls upstream before) = some failedAt ∧
              ∀ read ∈ now :: CircuitBreaker.testsSinceFailure (breakerCalls upstream before),
                read < failedAt + cooldown)) ∧
      (CircuitBreaker.failuresSinceSuccess (breakerCalls upstream pool.log) < 2 ^ 32 →
        ((pool.state.upstream upstream).breaker.state = .closed ↔
          CircuitBreaker.failuresSinceSuccess (breakerCalls upstream pool.log) < threshold) ∧
        ∀ failedAt,
          threshold ≤ CircuitBreaker.failuresSinceSuccess (breakerCalls upstream pool.log) →
          CircuitBreaker.lastFailure (breakerCalls upstream pool.log) = some failedAt →
          pool.state.now < failedAt + cooldown →
            (pool.state.upstream upstream).breaker.state = .opened) := by
  intro pool threshold cooldown
  have hconfig := (validate_eq_ok_iff config).mp hvalid
  obtain ⟨hcell, hanswers⟩ := breaker_follows_log decode hconfig redisReachable hroute actions
  have hpos : 0 < (breakerOf route).threshold.toNat := CircuitBreaker.threshold_new_pos _ _
  have hthreshold : (breakerOf route).threshold.toNat = threshold :=
    CircuitBreaker.threshold_new _ _
  rw [← hthreshold]
  refine ⟨fun before who now answer rest hlog hfew => ?_, fun hfew => ⟨?_, ?_⟩⟩
  · rw [hanswers before who now answer rest hlog]
    exact CircuitBreaker.allowAt_eq_false_iff (breakerOf route) hpos _ hfew now
  · rw [hcell]
    exact CircuitBreaker.closed_iff (breakerOf route) hpos _ hfew
  · intro failedAt hge hlast hearly
    obtain ⟨failedAt', hlast', -, hstate⟩ :=
      CircuitBreaker.history_tells (breakerOf route) hpos _ hfew hge
    obtain rfl : failedAt = failedAt' := Option.some.inj (hlast.symm.trans hlast')
    rw [hcell, hstate, if_neg]
    rintro ⟨read, hread, hlate⟩
    have hnow : read ≤ pool.state.now := test_le_now decode hconfig redisReachable actions
      (CircuitBreaker.mem_of_mem_testsSinceFailure hread)
    exact absurd (hlate.trans hnow) (Nat.not_le.mpr hearly)

/-- One refused connection reaches the threshold of one, and within the cooldown nobody is let
through. -/
theorem breakers_follow_their_log_tripped :
    breakerCalls ⟨0, 0⟩ (trippingPool refusedResult).log = [.allowAt 0, .recordFailureAt 0] ∧
      ((trippingPool refusedResult).state.upstream ⟨0, 0⟩).breaker.state = .opened := by
  have hcalls : breakerCalls ⟨0, 0⟩ (trippingPool refusedResult).log =
      [.allowAt 0, .recordFailureAt 0] := rfl
  have hroute : ([trippingRoute] : List RouteConfig)[UpstreamId.route ⟨0, 0⟩]? =
      some trippingRoute := rfl
  have hlaw := (breakers_follow_their_log noTokens
    (rfl : GatewayConfig.validate { routes := [trippingRoute] } = .ok ()) false hroute
    (trippingRun refusedResult)).2
  have hfew : CircuitBreaker.failuresSinceSuccess
      (breakerCalls ⟨0, 0⟩ (trippingPool refusedResult).log) < 2 ^ 32 := by
    rw [hcalls]
    decide
  refine ⟨hcalls, (hlaw hfew).2 0 ?_ ?_ ?_⟩
  · decide
  · rfl
  · decide

end Gateway
end ApiGateway
