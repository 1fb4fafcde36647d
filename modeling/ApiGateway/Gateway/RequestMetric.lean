import ApiGateway.Gateway.Answers
import ApiGateway.Gateway.CacheControl

/-!
# The request counter and the answer

A handler that runs to its end counts its request once.  The status it is counted under
is read off the head of the upstream response; a response that is to be stored is read to
its end only afterwards, and when its body breaks off the client gets 502.  That is the
one way in which the label and the answer differ.
-/

namespace ApiGateway
namespace Gateway

open Library Core Program

/-- The request was counted exactly once, under the status of its response. -/
def CountedAsAnswered (trace : List (Event effects)) (response : Response) : Prop :=
  ∃ label, requestLabels trace = [label] ∧ label.status = response.status.asStr

/-- The result is a response to be stored whose body breaks off. -/
def Incoming.BreaksOff (config : GatewayConfig) (incoming : Incoming) (result : SendResult) :
    Prop :=
  ∃ resp, result = .ok resp ∧ incoming.MayUseCache config ∧
    cacheBypass incoming.request.headers = false ∧ resp.status = .ok ∧
    responseCacheable resp.headers = true ∧ resp.body.complete = false

namespace Exchange

/-- The same, told by the exchange. -/
def breaksOff (exchange : Exchange) : SendResult → Bool
  | .ok resp => exchange.stores resp && !resp.body.complete
  | .error _ => false

theorem stores_iff {config : GatewayConfig} {incoming : Incoming} {route : RouteConfig}
    (hmatched : incoming.routeOf config = some route) (state : GatewayState) (id : RouteId)
    (correlation : String) (started : Instant) (resp : UpstreamResponse) :
    (Exchange.new state incoming route.name (.fromConfig id route) correlation started).stores
        resp = true ↔
      incoming.MayUseCache config ∧ cacheBypass incoming.request.headers = false ∧
        resp.status = .ok ∧ responseCacheable resp.headers = true := by
  have hcache : (RouteRuntime.fromConfig id route).cache.isSome = route.cache.isSome :=
    Option.isSome_map
  unfold stores cacheEnabled
  simp only [Exchange.new, Exchange.method, Exchange.headers, hcache, Bool.and_eq_true,
    Bool.not_eq_true', beq_iff_eq]
  constructor
  · rintro ⟨⟨⟨⟨⟨hsome, hmethod⟩, hbypass⟩, hstatus⟩, -⟩, hcacheable⟩
    exact ⟨⟨hmethod, route, hmatched, hsome⟩, hbypass, hstatus, hcacheable⟩
  · rintro ⟨⟨hmethod, other, hother, hsome⟩, hbypass, hstatus, hcacheable⟩
    obtain rfl := Option.some.inj (hmatched.symm.trans hother)
    exact ⟨⟨⟨⟨⟨hsome, hmethod⟩, hbypass⟩, hstatus⟩, hsome⟩, hcacheable⟩

theorem breaksOff_iff {config : GatewayConfig} {incoming : Incoming} {route : RouteConfig}
    (hmatched : incoming.routeOf config = some route) (state : GatewayState) (id : RouteId)
    (correlation : String) (started : Instant) (result : SendResult) :
    (Exchange.new state incoming route.name (.fromConfig id route) correlation
        started).breaksOff result = true ↔ incoming.BreaksOff config result := by
  cases result with
  | error e => exact ⟨nofun, fun ⟨_, h, _⟩ => nomatch h⟩
  | ok resp =>
      simp only [breaksOff, Bool.and_eq_true, Bool.not_eq_true',
        stores_iff hmatched state id correlation started resp]
      constructor
      · rintro ⟨⟨hmay, hbypass, hstatus, hcacheable⟩, hcomplete⟩
        exact ⟨resp, rfl, hmay, hbypass, hstatus, hcacheable, hcomplete⟩
      · rintro ⟨_, heq, hmay, hbypass, hstatus, hcacheable, hcomplete⟩
        obtain rfl := Except.ok.inj heq
        exact ⟨⟨hmay, hbypass, hstatus, hcacheable⟩, hcomplete⟩

theorem status_of_stores {exchange : Exchange} {resp : UpstreamResponse}
    (h : exchange.stores resp = true) : resp.status = .ok := by
  simp only [stores, Bool.and_eq_true, beq_iff_eq] at h
  exact h.1.1.2

/-- A response to be stored is no failure, so it is not tried again. -/
theorem breaksOff_of_retryable {exchange : Exchange} {result : SendResult}
    (h : exchange.retryable result = true) : exchange.breaksOff result = false := by
  cases result with
  | error e => rfl
  | ok resp =>
      simp only [retryable, Bool.and_eq_true] at h
      by_contra hbreaks
      simp only [breaksOff, Bool.and_eq_false_iff, not_or, Bool.not_eq_false] at hbreaks
      rw [status_of_stores hbreaks.1] at h
      exact absurd h.1 (by decide)

/-- The status of the answer is the counted one unless a stored body breaks off. -/
theorem status_answerFor (exchange : Exchange) (result : SendResult) :
    (countedFor result).asStr = (exchange.answerFor result).status.asStr ↔
      exchange.breaksOff result = false := by
  cases result with
  | error e => exact ⟨fun _ => rfl, fun _ => rfl⟩
  | ok resp =>
      show resp.status.asStr = (exchange.relayed resp).status.asStr ↔
        (exchange.stores resp && !resp.body.complete) = false
      unfold relayed
      split
      · rename_i hstores
        split
        · rename_i hcomplete
          rw [status_of_stores hstores, hstores]
          simp only [Bool.not_eq_true] at hcomplete
          rw [hcomplete]
          have hdiffer : StatusCode.ok.asStr ≠ StatusCode.badGateway.asStr := by decide
          exact ⟨fun h => absurd h hdiffer, fun h => absurd h (by decide)⟩
        · rename_i hcomplete
          rw [not_not.mp hcomplete, Bool.not_true, Bool.and_false]
          exact ⟨fun _ => rfl, fun _ => rfl⟩
      · rename_i hstores
        rw [Bool.eq_false_iff.mpr hstores, Bool.false_and]
        exact ⟨fun _ => rfl, fun _ => rfl⟩

theorem status_of_served {exchange : Exchange} {made : List (UpstreamId × SendResult)}
    {status : StatusCode} {response : Response} (h : exchange.Served made status response) :
    status.asStr = response.status.asStr ↔
      ∀ attempt ∈ made, exchange.breaksOff attempt.2 = false := by
  cases h with
  | limited decision => exact ⟨fun _ => nofun, fun _ => rfl⟩
  | hit entry => exact ⟨fun _ => nofun, fun _ => rfl⟩
  | attempted h =>
      cases h with
      | refused _ _ message hmade =>
          exact ⟨fun _ attempt hattempt => breaksOff_of_retryable (hmade attempt hattempt),
            fun _ => rfl⟩
      | relayed before last hbefore =>
          rw [status_answerFor]
          constructor
          · intro hlast attempt hattempt
            rcases List.mem_append.mp hattempt with hold | hnew
            · exact breaksOff_of_retryable (hbefore attempt hold)
            · rw [List.mem_singleton.mp hnew]
              exact hlast
          · intro hall
            exact hall last (List.mem_append_right _ (List.mem_singleton.mpr rfl))

end Exchange

/-- **The request counter agrees with the answer.**  For every accepted configuration and
every request, whatever is answered to the calls of its handler: a handler that runs to
its end has counted its request exactly once, under the status of the response it
returns, if and only if no upstream response that was to be stored broke off. -/
theorem countedAsAnswered_iff (decode : TokenDecoder) (config : GatewayConfig)
    (hvalid : config.validate = .ok ()) (redisReachable : Bool) (incoming : Incoming)
    (trace : List (Event effects)) (response : Response)
    (hreturns : Returns (handle decode (.build config redisReachable) incoming) trace response) :
    CountedAsAnswered trace response ↔
      ∀ made ∈ sends trace, ¬ incoming.BreaksOff config made.2 := by
  have hconfig := (validate_eq_ok_iff config).mp hvalid
  obtain ⟨opening, inner, correlation, started, rfl, hopening, -, hcases⟩ := handle_returns hreturns
  unfold CountedAsAnswered
  rw [requestLabels_framed hopening, sends_framed hopening]
  rcases hcases with ⟨-, rfl, rfl⟩ | ⟨route, hmatched, hfound⟩
  · have hnotFound : "404" = StatusCode.notFound.asStr := by decide
    exact ⟨fun _ => nofun, fun _ => ⟨_, rfl, hnotFound⟩⟩
  · obtain ⟨id, -, hroute⟩ := route_of_matchRoute redisReachable hconfig hmatched
    rcases hfound with ⟨hnone, -⟩ | ⟨runtime, hruntime, hserved⟩
    · -- The route of an accepted configuration has its runtime.
      cases hnone.symm.trans hroute
    · obtain rfl := Option.some.inj (hroute.symm.trans hruntime)
      obtain ⟨status, hanswered, hlabel⟩ := Exchange.serve_answers decode _ inner response hserved
      have hbreaks := Exchange.breaksOff_iff hmatched (.build config redisReachable) id
        correlation started
      rw [hlabel]
      constructor
      · rintro ⟨label, heq, hstatus⟩ made hmade hbroken
        obtain rfl := (List.cons.inj heq).1
        have hall := (Exchange.status_of_served hanswered).mp hstatus made hmade
        rw [(hbreaks made.2).mpr hbroken] at hall
        cases hall
      · intro hall
        refine ⟨_, rfl, (Exchange.status_of_served hanswered).mpr fun made hmade => ?_⟩
        exact Bool.eq_false_iff.mpr fun hbroken => hall made hmade ((hbreaks made.2).mp hbroken)

/-- One request to a cached route, whose upstream answers 200 with a body that is complete
or not. -/
def profileExec (complete : Bool) : Execution effects World Response :=
  (handle noTokens (.build profileConfig false) (profileIncoming "k-alice")).exec interpreter
    (fun _ => { upstream := fun _ _ => .ok { profileResponse with body := ⟨[], complete⟩ } })
    .initial

theorem countedAsAnswered_profile :
    CountedAsAnswered (profileExec true).trace (profileExec true).value := by
  refine (countedAsAnswered_iff noTokens profileConfig rfl false (profileIncoming "k-alice")
    (profileExec true).trace (profileExec true).value (exec_returns interpreter _ _ _)).mpr ?_
  have hsends : sends (profileExec true).trace =
      [(⟨0, 0⟩, .ok { profileResponse with body := ⟨[], true⟩ })] := rfl
  rw [hsends]
  rintro made hmade ⟨resp, hresp, -, -, -, -, hcomplete⟩
  rw [List.mem_singleton.mp hmade] at hresp
  obtain rfl := Except.ok.inj hresp
  cases hcomplete

/-- The body of a response that is to be stored breaks off: the request is counted as 200
and the client gets 502. -/
theorem broken_body_counted_as_ok :
    profileConfig.validate = .ok () ∧
      requestLabels (profileExec false).trace = [⟨"profile", "GET", "200"⟩] ∧
      (profileExec false).value.status = .badGateway ∧
      ¬ CountedAsAnswered (profileExec false).trace (profileExec false).value := by
  have hlabels : requestLabels (profileExec false).trace = [⟨"profile", "GET", "200"⟩] := by
    rfl
  have hstatus : (profileExec false).value.status = .badGateway := rfl
  refine ⟨rfl, hlabels, hstatus, ?_⟩
  rintro ⟨label, heq, hlabel⟩
  rw [hlabels] at heq
  obtain rfl := (List.cons.inj heq).1
  rw [hstatus] at hlabel
  exact absurd hlabel (by decide)

end Gateway
end ApiGateway
