import ApiGateway.Gateway.SoloLoop

/-!
# The status of a failed request

The documents promise 503 when no upstream is eligible and 502 when the attempts fail.
The loop asks for another upstream whenever a failure may be retried, also when all
upstreams have been tried, and then reports that none is healthy.

`failureLaw_iff` says for which states and outcomes this cannot happen.  The upstreams
that matter are those admitted at one moment: when there are some, but fewer than
attempts, and all of them fail in a way that may be retried, the loop runs out of them.
-/

namespace ApiGateway
namespace Gateway

open Library Core Program

/-! ## Starting later -/

/-- All the time passes before the first call. -/
def delayedInputs (outcome : Nat → SendResult) (delay : Duration) (n : Nat) : Input :=
  answeringInput outcome (if n = 0 then delay else 0)

/-- A run after a delay is a run that starts later. -/
theorem exec_delayedInputs {α : Type} (program : GatewayProgram α) (outcome : Nat → SendResult)
    (delay : Duration) (world : World) :
    let delayed := program.exec interpreter (delayedInputs outcome delay) world
    let started := program.exec interpreter (fun _ => answeringInput outcome 0) (world.tick delay)
    delayed.value = started.value ∧ delayed.trace = started.trace := by
  cases program with
  | done value => exact ⟨rfl, rfl⟩
  | call op next =>
      have hfirst : World.answer (answeringInput outcome delay) world op =
          World.answer (answeringInput outcome 0) (world.tick delay) op := by
        cases op <;> rfl
      -- From the second call on the two input streams are the same.
      have hrest : (fun n => delayedInputs outcome delay (n + 1)) =
          fun _ => answeringInput outcome 0 := rfl
      have hzero : delayedInputs outcome delay 0 = answeringInput outcome delay := rfl
      simp only [exec, hrest, hzero]
      rw [hfirst]
      exact ⟨rfl, rfl⟩

/-- Nothing moves the clock when no time passes. -/
theorem now_exec_still {α : Type} (program : GatewayProgram α) (outcome : Nat → SendResult)
    (world : World) :
    (program.exec interpreter (fun _ => answeringInput outcome 0) world).state.now =
      world.now := by
  refine exec_related (fun before after : World => after.now = before.now) (fun _ => rfl)
    (fun _ _ _ h h' => h'.trans h) fun event _ n before => ?_
  cases event.1 <;> rfl

namespace Exchange

variable {exchange : Exchange} {world : World} {outcome : Nat → SendResult}

/-- The upstreams that are healthy and that their breaker lets through at the instant, as
the cells are in the given world. -/
def admittedAt (exchange : Exchange) (world : World) (now : Instant) : List Nat :=
  (List.range exchange.runtime.balancer.upstreams.length).filter fun index =>
    world.admits ⟨exchange.runtime.id, index⟩ now

theorem mem_admittedAt {now : Instant} {index : Nat} :
    index ∈ exchange.admittedAt world now ↔
      index < exchange.runtime.balancer.upstreams.length ∧
        world.admits ⟨exchange.runtime.id, index⟩ now = true := by
  simp [admittedAt]

/-- The response was received from an upstream, or is the gateway's 502. -/
def Answered (exchange : Exchange) (trace : List (Event effects)) (response : Response) : Prop :=
  (∃ upstream resp, (upstream, .ok resp) ∈ sends trace ∧ response = exchange.relayed resp) ∨
    ∃ message, response = exchange.errorResponse .badGateway message

/-- A request that was sent is answered so, and the gateway's own 503 is returned only when
no upstream was eligible before the first attempt. -/
def FailureLaw (exchange : Exchange) (world : World) (run : Execution effects World Response) :
    Prop :=
  (sends run.trace ≠ [] → exchange.Answered run.trace run.value) ∧
    (run.value = exchange.errorResponse .serviceUnavailable "no healthy upstream" →
      exchange.admittedAt world world.now = [])

theorem answered_answerFor {trace : List (Event effects)} (upstream : UpstreamId)
    {result : SendResult} (h : (upstream, result) ∈ sends trace) :
    exchange.Answered trace (exchange.answerFor result) := by
  cases result with
  | ok resp => exact Or.inl ⟨upstream, resp, h, rfl⟩
  | error e => exact Or.inr ⟨"upstream unavailable", rfl⟩

/-- Whatever is answered to its calls, so in every interleaving, the loop fails to answer a
request in this way only after failures that may be retried, with rounds left to go. -/
theorem attemptLoop_answered (exchange : Exchange)
    (hupstreams : exchange.runtime.balancer.upstreams ≠ []) (bodyBytes : Bytes) :
    Ensures (exchange.attemptLoop bodyBytes exchange.maxAttempts 0 []) fun trace response =>
      exchange.Answered trace response ∨
        (response = exchange.errorResponse .serviceUnavailable "no healthy upstream" ∧
          (sends trace).length < exchange.maxAttempts ∧
          ∀ made ∈ sends trace, exchange.retryable made.2 = true) := by
  intro trace response hreturns
  obtain ⟨attempts, hrun, hnotes⟩ :=
    exchange.attemptLoop_ensures hupstreams bodyBytes _ 0 [] trace response hreturns
  have hsends := sends_of_notes hnotes
  rcases hrun.response_cases (Nat.zero_add _) exchange.maxAttempts_pos with
    ⟨hresponse, hfew, hretry⟩ | ⟨before, last, rfl, hresponse, -⟩
  · right
    refine ⟨hresponse, by simpa [hsends] using hfew, fun made hmade => ?_⟩
    rw [hsends] at hmade
    obtain ⟨attempt, hattempt, rfl⟩ := List.mem_map.mp hmade
    exact hretry attempt hattempt
  · left
    rw [hresponse]
    refine answered_answerFor (exchange.attempted last) ?_
    simp [hsends]

/-- The upstreams admitted at the instant do not run out: there is none to try, or there
are as many as attempts, or one of them answers the request for good. -/
def Lasting (exchange : Exchange) (world : World) (outcome : Nat → SendResult)
    (now : Instant) : Prop :=
  exchange.admittedAt world now = [] ∨
    exchange.maxAttempts ≤ (exchange.admittedAt world now).length ∨
    ∃ index ∈ exchange.admittedAt world now, exchange.retryable (outcome index) = false

theorem unserved_ne_answerFor (exchange : Exchange) (result : SendResult) :
    exchange.answerFor result ≠
      exchange.errorResponse .serviceUnavailable "no healthy upstream" :=
  exchange.answerFor_ne_errorResponse result (by decide) (by decide) (by decide)

/-- When the upstreams last at every moment, the law holds. -/
theorem failureLaw_of_lasting (hupstreams : exchange.runtime.balancer.upstreams ≠ [])
    (bodyBytes : Bytes) {inputs : Nat → Input}
    (hinputs : ∀ n, exchange.Answering outcome (inputs n))
    (hlasting : ∀ now, world.now ≤ now → exchange.Lasting world outcome now) :
    exchange.FailureLaw world ((exchange.attemptLoop bodyBytes exchange.maxAttempts 0 []).exec
      interpreter inputs world) := by
  obtain ⟨attempts, -, hsends, hattempts, hcases⟩ :=
    exchange.soloLoop hupstreams bodyBytes hinputs world
  rcases hcases with ⟨-, hfew, hretry, now, hnow, hiff⟩ | ⟨before, last, hlast, hvalue, -, -⟩
  · -- Nothing could be picked, so the attempted upstreams are those admitted then.
    have hmem : ∀ index, index ∈ exchange.admittedAt world now ↔ index ∈ attempts := by
      intro index
      rw [mem_admittedAt]
      exact ⟨fun h => (hiff index h.1).mp h.2, fun h =>
        ⟨(hattempts index h).1, (hiff index (hattempts index h).1).mpr h⟩⟩
    rcases hlasting now hnow with hnone | henough | ⟨index, hindex, hkept⟩
    · have hattempted : attempts = [] := List.eq_nil_iff_forall_not_mem.mpr fun index hindex => by
        simpa [hnone] using (hmem index).mpr hindex
      refine ⟨fun hsent => absurd (by rw [hsends, hattempted]; rfl) hsent, fun _ => ?_⟩
      refine List.eq_nil_iff_forall_not_mem.mpr fun index hindex => ?_
      obtain ⟨hlt, hadmits⟩ := mem_admittedAt.mp hindex
      have hlater := mem_admittedAt.mpr ⟨hlt, World.admits_mono hadmits hnow⟩
      simp [hnone] at hlater
    · have hlength : (exchange.admittedAt world now).length ≤ attempts.length :=
        (List.nodup_range.filter _).length_le_of_subset fun index => (hmem index).mp
      omega
    · have hfailed := hretry index ((hmem index).mp hindex)
      rw [hkept] at hfailed
      cases hfailed
  · refine ⟨fun _ => ?_, fun hunserved => ?_⟩
    · rw [hvalue]
      refine answered_answerFor ⟨exchange.runtime.id, last⟩ ?_
      rw [hsends]
      exact List.mem_map_of_mem (by simp [hlast])
    · exact absurd (hvalue.symm.trans hunserved) (exchange.unserved_ne_answerFor _)

/-- When the upstreams run out at some moment, the law fails for a request that waits for
that moment. -/
theorem not_failureLaw_of_not_lasting
    (hupstreams : exchange.runtime.balancer.upstreams ≠ []) (bodyBytes : Bytes) {now : Instant}
    (hnow : world.now ≤ now) (hout : ¬ exchange.Lasting world outcome now) :
    ¬ exchange.FailureLaw world ((exchange.attemptLoop bodyBytes exchange.maxAttempts 0 []).exec
      interpreter (delayedInputs outcome (now - world.now)) world) := by
  unfold Lasting at hout
  push Not at hout
  obtain ⟨hsome, hfew, hretry⟩ := hout
  let program := exchange.attemptLoop bodyBytes exchange.maxAttempts 0 []
  let later := world.tick (now - world.now)
  have hlater : later.now = now := Nat.add_sub_cancel' hnow
  obtain ⟨hvalue, htrace⟩ := exec_delayedInputs program outcome (now - world.now) world
  have hanswering : ∀ n : Nat, exchange.Answering outcome
      ((fun _ => answeringInput outcome 0) n) := fun _ _ _ => rfl
  obtain ⟨attempts, hnodup, hsends, hattempts, hcases⟩ :=
    exchange.soloLoop hupstreams bodyBytes hanswering later
  have hstill := now_exec_still program outcome later
  have hsubset : attempts ⊆ exchange.admittedAt world now := by
    intro index hindex
    obtain ⟨hlt, hadmits⟩ := hattempts index hindex
    rw [hstill, hlater] at hadmits
    exact mem_admittedAt.mpr ⟨hlt, hadmits⟩
  have hlength := hnodup.length_le_of_subset hsubset
  rcases hcases with ⟨hunserved, -, -, moment, hmoment, hiff⟩ | ⟨before, last, rfl, -, -, hrounds⟩
  · -- One of the admitted upstreams was attempted, and yet the answer is 503.
    obtain ⟨index, hindex⟩ := List.exists_mem_of_ne_nil _ hsome
    obtain ⟨hlt, hadmits⟩ := mem_admittedAt.mp hindex
    have hattempted : index ∈ attempts := by
      refine (hiff index hlt).mp (World.admits_mono hadmits ?_)
      rw [← hlater]
      exact hmoment
    intro hlaw
    have hsent : sends (program.exec interpreter (delayedInputs outcome (now - world.now))
        world).trace ≠ [] := by
      rw [htrace, hsends]
      exact List.ne_nil_of_mem (List.mem_map_of_mem hattempted)
    have hanswer := hvalue.trans hunserved
    rcases hlaw.1 hsent with ⟨_, resp, -, hrelayed⟩ | ⟨message, hgateway⟩
    · exact exchange.unserved_ne_answerFor (.ok resp) (hrelayed.symm.trans hanswer)
    · have hstatus : StatusCode.badGateway = .serviceUnavailable :=
        congrArg Response.status (hgateway.symm.trans hanswer)
      exact absurd hstatus (by decide)
  · -- The last failure may be retried, so every round was used: there are not so many.
    have hlast := hretry last (hsubset (by simp))
    have hall := hrounds (Bool.not_eq_false _ ▸ hlast)
    omega

end Exchange

/-- A route with one upstream and one retry. -/
def singleRoute : RouteConfig :=
  { name := "single", upstreams := [{ url := "http://a" }], retries := 1 }

def singleConfig : GatewayConfig := { routes := [singleRoute] }

def singleExchange : Exchange :=
  .new (.build singleConfig false) (pairIncoming .get) "single" (.fromConfig 0 singleRoute) "id" 0

/-- The run of a request to that route whose upstream answers 500. -/
def singleRun : Execution effects World Response :=
  (singleExchange.attemptLoop [] singleExchange.maxAttempts 0 []).exec interpreter
    (fun _ => failingInput) .initial

end Gateway
end ApiGateway
