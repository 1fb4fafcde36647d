import ApiGateway.Gateway.SoloLoop

/-!
# Retries reach a working upstream

A request with an idempotent method that runs alone is answered by an upstream with a
response outside the server errors whenever some upstream works and the others are
fewer than the attempts allowed.  Every failed attempt uses up one of the others, so a
working upstream is left when the rounds end, and it is admitted, so it can be picked.

The loop decides on the head of a response, on the breakers as they are when it picks,
and on a number of attempts that is capped: `retries_miss_working` has a case for each.
-/

namespace ApiGateway
namespace Gateway

open Library Core Program

/-- A complete response outside the server errors. -/
def SendResult.delivers : SendResult → Bool
  | .ok resp => !resp.status.isServerError && resp.body.complete
  | .error _ => false

theorem SendResult.delivers_iff {result : SendResult} :
    SendResult.delivers result = true ↔
      ∃ resp, result = .ok resp ∧ resp.status.isServerError = false ∧
        resp.body.complete = true := by
  cases result with
  | error e => exact ⟨nofun, fun ⟨_, h, _⟩ => nomatch h⟩
  | ok resp => simp [SendResult.delivers]

namespace Exchange

variable {exchange : Exchange} {world : World} {outcome : Nat → SendResult}

/-- The upstreams that are healthy, are let through by their breaker and would deliver a
complete response outside the server errors. -/
def working (exchange : Exchange) (world : World) (outcome : Nat → SendResult) : List Nat :=
  (List.range exchange.runtime.balancer.upstreams.length).filter fun index =>
    world.admits ⟨exchange.runtime.id, index⟩ world.now && SendResult.delivers (outcome index)

/-- The other upstreams. -/
def failing (exchange : Exchange) (world : World) (outcome : Nat → SendResult) : List Nat :=
  (List.range exchange.runtime.balancer.upstreams.length).filter fun index =>
    index ∉ exchange.working world outcome

theorem mem_working {index : Nat} :
    index ∈ exchange.working world outcome ↔
      index < exchange.runtime.balancer.upstreams.length ∧
        world.admits ⟨exchange.runtime.id, index⟩ world.now = true ∧
        SendResult.delivers (outcome index) = true := by
  simp [working]

theorem mem_failing {index : Nat} :
    index ∈ exchange.failing world outcome ↔
      index < exchange.runtime.balancer.upstreams.length ∧
        index ∉ exchange.working world outcome := by
  simp [failing]

/-- A delivered response is not retried. -/
theorem retryable_of_delivers (exchange : Exchange) {result : SendResult}
    (h : SendResult.delivers result = true) : exchange.retryable result = false := by
  obtain ⟨resp, rfl, hstatus, -⟩ := SendResult.delivers_iff.mp h
  simp [retryable, hstatus]

/-- With an idempotent method, what is not retried is a response outside the server
errors. -/
theorem isSuccess_of_not_retryable (hmethod : exchange.idempotent = true) {result : SendResult}
    (h : exchange.retryable result = false) : SendResult.isSuccess result = true := by
  cases result with
  | ok resp => simpa [retryable, hmethod, SendResult.isSuccess] using h
  | error e => simp [retryable, hmethod] at h

end Exchange

/-- A response of status 200 with the given body. -/
def okResponse (body : ByteStream) : UpstreamResponse := ⟨.ok, [], body⟩

/-- The first upstream cannot be connected and the others deliver. -/
def firstDownOutcome (index : Nat) : SendResult :=
  if index = 0 then .error ⟨true⟩ else .ok (okResponse ⟨[], true⟩)

namespace Exchange

/-- The law without its provisos: a working upstream answers the request. -/
def ReachesWorking (exchange : Exchange) (outcome : Nat → SendResult) (inputs : Nat → Input)
    (world : World) : Prop :=
  exchange.idempotent = true → (∀ n, exchange.Answering outcome (inputs n)) →
    exchange.working world outcome ≠ [] →
    (exchange.failing world outcome).length ≤ exchange.runtime.config.retries.toNat →
    ∃ index ∈ exchange.working world outcome, ∃ resp, outcome index = .ok resp ∧
      ((exchange.attemptLoop [] exchange.maxAttempts 0 []).exec interpreter inputs world).value =
        exchange.relayed resp

end Exchange

/-- The first upstream answers with a head and breaks off in the body. -/
def truncatedOutcome (index : Nat) : SendResult :=
  if index = 0 then .ok (okResponse ⟨[0], false⟩) else .ok (okResponse ⟨[0, 1], true⟩)

/-- The first upstream is open until the fifth nanosecond, and everything else is new. -/
def coolingWorld : World :=
  World.initial.setUpstream ⟨0, 0⟩
    { UpstreamCell.initial with breaker := ⟨.opened, 5, some 5⟩ }

/-- Both upstreams deliver, with bodies of their own. -/
def deliveringOutcome (index : Nat) : SendResult := .ok (okResponse ⟨[index.toUInt8], true⟩)

set_option maxRecDepth 4000 in
theorem truncated_misses : ¬ (pairExchange .get).ReachesWorking truncatedOutcome
    (fun _ => answeringInput truncatedOutcome 0) .initial := by
  intro h
  obtain ⟨index, hindex, resp, hresp, hvalue⟩ := h rfl (fun _ _ _ => rfl) (by decide) (by decide)
  have hworking : (pairExchange .get).working .initial truncatedOutcome = [1] := by decide
  obtain rfl : index = 1 := by simpa [hworking] using hindex
  obtain rfl : okResponse ⟨[0, 1], true⟩ = resp := Except.ok.inj hresp
  have hbody : Body.streamed ⟨[0], false⟩ = .streamed ⟨[0, 1], true⟩ :=
    congrArg Response.body hvalue
  cases hbody

set_option maxRecDepth 4000 in
theorem cooldown_misses : ¬ (pairExchange .get).ReachesWorking deliveringOutcome
    (fun _ => answeringInput deliveringOutcome 5) coolingWorld := by
  intro h
  obtain ⟨index, hindex, resp, hresp, hvalue⟩ := h rfl (fun _ _ _ => rfl) (by decide) (by decide)
  have hworking : (pairExchange .get).working coolingWorld deliveringOutcome = [1] := by decide
  obtain rfl : index = 1 := by simpa [hworking] using hindex
  obtain rfl : okResponse ⟨[1], true⟩ = resp := Except.ok.inj hresp
  have hbody : Body.streamed ⟨[0], true⟩ = .streamed ⟨[1], true⟩ :=
    congrArg Response.body hvalue
  cases hbody

/-- Every upstream answers 500, except possibly one. -/
def onlyOutcome (good : Option Nat) (index : Nat) : SendResult :=
  if good = some index then .ok (okResponse ⟨[], true⟩)
  else .ok ⟨.internalServerError, [], ⟨[], true⟩⟩

/-- Only a send takes anything from the outcomes. -/
theorem answer_answeringInput {outcome outcome' : Nat → SendResult} {op : Op}
    (h : ∀ upstream request, op = .send upstream request →
      outcome' upstream.index = outcome upstream.index) (elapsed : Duration) (world : World) :
    World.answer (answeringInput outcome' elapsed) world op =
      World.answer (answeringInput outcome elapsed) world op := by
  cases op with
  | send upstream request => exact Prod.ext (h upstream request rfl) rfl
  | _ => rfl

namespace Exchange

/-- A response that arrives in full keeps its status. -/
theorem status_relayed (exchange : Exchange) {resp : UpstreamResponse}
    (h : resp.body.complete = true) : (exchange.relayed resp).status = resp.status := by
  unfold relayed
  split
  · rfl
  · rfl

/-- When there are more upstreams than attempts are allowed, the only good one may be left
over, and the client gets an error. -/
theorem exists_leftover (exchange : Exchange) (hmethod : exchange.idempotent = true)
    (world : World)
    (hmany : exchange.maxAttempts < exchange.runtime.balancer.upstreams.length) :
    ∃ good < exchange.runtime.balancer.upstreams.length,
      ((exchange.attemptLoop [] exchange.maxAttempts 0 []).exec interpreter
        (fun _ => answeringInput (onlyOutcome (some good)) 0) world).value.status ≠ .ok := by
  have hupstreams : exchange.runtime.balancer.upstreams ≠ [] :=
    List.length_pos_iff.mp (Nat.zero_lt_of_lt hmany)
  -- First let all of them fail: then some upstream is not attempted.
  have hanswering : ∀ n : Nat, exchange.Answering (onlyOutcome none)
      ((fun _ => answeringInput (onlyOutcome none) 0) n) := fun _ _ _ => rfl
  let run := (exchange.attemptLoop [] exchange.maxAttempts 0 []).exec interpreter
    (fun _ => answeringInput (onlyOutcome none) 0) world
  obtain ⟨attempts, hnodup, hsends, -, hcases⟩ :=
    exchange.soloLoop hupstreams [] hanswering world
  have hrun : attempts.length ≤ exchange.maxAttempts ∧ run.value.status ≠ .ok := by
    rcases hcases with ⟨hvalue, hfew, -⟩ | ⟨_, last, -, hvalue, -, hrounds⟩
    · have hstatus : run.value.status = .serviceUnavailable := congrArg Response.status hvalue
      exact ⟨hfew.le, by rw [hstatus]; decide⟩
    · have hfailed : exchange.retryable (onlyOutcome none last) = true := by
        show (StatusCode.isServerError .internalServerError && exchange.idempotent) = true
        rw [hmethod]
        rfl
      have hrelayed : run.value = exchange.relayed ⟨.internalServerError, [], ⟨[], true⟩⟩ := hvalue
      have hstatus : run.value.status = .internalServerError := by
        rw [hrelayed, exchange.status_relayed rfl]
      exact ⟨(hrounds hfailed).le, by rw [hstatus]; decide⟩
  obtain ⟨good, hlt, hskipped⟩ :
      ∃ good < exchange.runtime.balancer.upstreams.length, good ∉ attempts := by
    by_contra hnone
    have hle := List.nodup_range.length_le_of_subset fun index hindex =>
      not_not.mp fun hskip => hnone ⟨index, List.mem_range.mp hindex, hskip⟩
    rw [List.length_range] at hle
    omega
  refine ⟨good, hlt, ?_⟩
  -- That upstream may as well be good: nobody asks it.
  rw [exec_congr fun event hevent n before => ?_]
  · exact hrun.2
  · refine answer_answeringInput (fun upstream request hop => ?_) 0 before
    obtain ⟨op, result⟩ := event
    obtain rfl : op = .send upstream request := hop
    have hsent := mem_sends_of_mem hevent
    rw [hsends] at hsent
    obtain ⟨index, hindex, hmade⟩ := List.mem_map.mp hsent
    obtain rfl : _ = upstream := congrArg Prod.fst hmade
    have hne : good ≠ index := fun heq => hskipped (heq ▸ hindex)
    simp [onlyOutcome, hne]

theorem leftover_misses (exchange : Exchange) (hmethod : exchange.idempotent = true)
    (world : World)
    (hadmits : ∀ index < exchange.runtime.balancer.upstreams.length,
      world.admits ⟨exchange.runtime.id, index⟩ world.now = true)
    (hmany : exchange.maxAttempts < exchange.runtime.balancer.upstreams.length)
    (hretries : exchange.runtime.balancer.upstreams.length ≤
      exchange.runtime.config.retries.toNat + 1) :
    ∃ good, ¬ exchange.ReachesWorking (onlyOutcome (some good))
      (fun _ => answeringInput (onlyOutcome (some good)) 0) world := by
  obtain ⟨good, hlt, hstatus⟩ := exchange.exists_leftover hmethod world hmany
  refine ⟨good, fun h => ?_⟩
  have hdelivers : ∀ index, SendResult.delivers (onlyOutcome (some good) index) = true ↔
      good = index := by
    intro index
    unfold onlyOutcome
    split
    · rename_i heq
      exact ⟨fun _ => Option.some.inj heq, fun _ => rfl⟩
    · rename_i hne
      exact ⟨nofun, fun heq => absurd (congrArg some heq) hne⟩
  have hgood : good ∈ exchange.working world (onlyOutcome (some good)) :=
    mem_working.mpr ⟨hlt, hadmits good hlt, (hdelivers good).mpr rfl⟩
  have hfailing : (exchange.failing world (onlyOutcome (some good))).length ≤
      exchange.runtime.config.retries.toNat := by
    have hnodup : (good :: exchange.failing world (onlyOutcome (some good))).Nodup :=
      List.nodup_cons.mpr ⟨fun hmem => (mem_failing.mp hmem).2 hgood, List.nodup_range.filter _⟩
    have hle := hnodup.length_le_of_subset fun index hindex => by
      rcases List.mem_cons.mp hindex with rfl | hmem
      · exact List.mem_range.mpr hlt
      · exact List.mem_range.mpr (mem_failing.mp hmem).1
    rw [List.length_range, List.length_cons] at hle
    omega
  obtain ⟨index, hindex, resp, hresp, hvalue⟩ :=
    h hmethod (fun _ _ _ => rfl) (List.ne_nil_of_mem hgood) hfailing
  obtain rfl := (hdelivers index).mp (mem_working.mp hindex).2.2
  have hok : okResponse ⟨[], true⟩ = resp := by
    simpa [onlyOutcome] using hresp
  refine hstatus ?_
  rw [hvalue, ← hok]
  exact exchange.status_relayed rfl

end Exchange
/-- A route with the given number of upstreams and as many retries as can be configured. -/
def crowdedRoute (count : Nat) : RouteConfig :=
  { name := "crowded", upstreams := List.replicate count { url := "http://a" }
    retries := 4294967295 }

def crowdedExchange (count : Nat) : Exchange :=
  .new (.build { routes := [crowdedRoute count] } false) (pairIncoming .get) "crowded"
    (.fromConfig 0 (crowdedRoute count)) "id" 0

theorem length_crowded (count : Nat) :
    (crowdedExchange count).runtime.balancer.upstreams.length = count := by
  simp [crowdedExchange, Exchange.new, RouteRuntime.fromConfig, Balancer.fromRoute, crowdedRoute]

theorem crowded_misses :
    ∃ good, ¬ (crowdedExchange (2 ^ 32)).ReachesWorking (onlyOutcome (some good))
      (fun _ => answeringInput (onlyOutcome (some good)) 0) .initial := by
  have hattempts : (crowdedExchange (2 ^ 32)).maxAttempts = 2 ^ 32 - 1 := rfl
  refine Exchange.leftover_misses _ rfl _ (fun _ _ => rfl) ?_ ?_
  · rw [length_crowded, hattempts]
    omega
  · rw [length_crowded]
    show 2 ^ 32 ≤ (4294967295 : UInt32).toNat + 1
    decide

end Gateway
end ApiGateway
