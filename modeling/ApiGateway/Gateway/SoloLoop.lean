import ApiGateway.Gateway.Admission
import ApiGateway.Gateway.AttemptLoop

/-!
# The attempt loop of a request that runs alone

No other request and no health probe touches the cells meanwhile; time passes as it
likes, the cursor, the active counts and the breakers are as they happen to be.  Each
upstream has one outcome for the request, which it is asked for at most once.

`soloLoop` joins the run of the loop with admission as it was recorded before the first
attempt: every attempted upstream came to be admitted, and when the loop ends because
nothing could be picked, the attempted upstreams are exactly those that were admitted at
some moment.
-/

namespace ApiGateway
namespace Gateway

open Library Core Program

/-- The program uses the breaker of no other upstream. -/
def KeepsTo {α : Type} (upstream : UpstreamId) (program : GatewayProgram α) : Prop :=
  program.Makes fun op : Op => ∀ other, op.breakerOf = some other → other = upstream

theorem keepsTo_of_makesKinds {α : Type} {kinds : List OpKind} {program : GatewayProgram α}
    (h : MakesKinds kinds program) (hkinds : .pick ∉ kinds ∧ .outcome ∉ kinds)
    (upstream : UpstreamId) : KeepsTo upstream program := by
  refine Makes.mono h fun op hop other hother => ?_
  cases op with
  | allowAt _ _ => exact absurd hop hkinds.1
  | recordSuccess _ | recordFailureAt _ _ _ => exact absurd hop hkinds.2
  | _ => cases hother

/-- Each upstream answers with its outcome, after the given time. -/
def answeringInput (outcome : Nat → SendResult) (elapsed : Duration) : Input :=
  { elapsed := elapsed, upstream := fun id _ => outcome id.index }

namespace Exchange

/-- The upstreams of the route answer the request with their outcomes. -/
def Answering (exchange : Exchange) (outcome : Nat → SendResult) (input : Input) : Prop :=
  ∀ index request, input.upstream ⟨exchange.runtime.id, index⟩ request = outcome index

/-- What is received from an upstream is its outcome. -/
theorem outcome_of_mem_sends {α : Type} {exchange : Exchange} {outcome : Nat → SendResult}
    {program : GatewayProgram α} {inputs : Nat → Input} {world : World}
    (hinputs : ∀ n, exchange.Answering outcome (inputs n)) {index : Nat} {result : SendResult}
    (h : (⟨exchange.runtime.id, index⟩, result) ∈
      sends (program.exec interpreter inputs world).trace) : result = outcome index := by
  obtain ⟨request, hevent⟩ := mem_sends h
  obtain ⟨n, before, hanswer⟩ := exec_event hevent
  have hresult : result = (inputs n).upstream ⟨exchange.runtime.id, index⟩ request :=
    eq_of_heq (Sigma.mk.inj hanswer).2
  rw [hresult]
  exact hinputs n index request

variable {permitted : Input → Prop}

theorem settle_keepsTo (exchange : Exchange) (attempt index : Nat) (upstream : Upstream)
    (result : SendResult) :
    KeepsTo ⟨exchange.runtime.id, index⟩ (exchange.settle attempt index upstream result) := by
  have hfinish : ∀ resp, KeepsTo ⟨exchange.runtime.id, index⟩ (exchange.finishResponse resp) :=
    fun resp => keepsTo_of_makesKinds (exchange.finishResponse_makesKinds resp) (by decide) _
  unfold settle
  split
  · simp only
    split
    · refine makes_perform nofun fun failedAt => makes_perform ?_ fun _ =>
        makes_perform nofun fun _ => ?_
      · exact fun _ h => (Option.some.inj h).symm
      · split
        · trivial
        · exact makes_bind (hfinish _) fun _ _ _ => trivial
    · refine makes_perform ?_ fun _ => makes_bind (hfinish _) fun _ _ _ => trivial
      exact fun _ h => (Option.some.inj h).symm
  · refine makes_perform nofun fun failedAt => makes_perform ?_ fun _ =>
      makes_perform nofun fun _ => ?_
    · exact fun _ h => (Option.some.inj h).symm
    · split
      · trivial
      · exact makes_bind (keepsTo_of_makesKinds (exchange.record_makesKinds _) (by decide) _)
          fun _ _ _ => trivial

theorem tryUpstream_keepsTo (exchange : Exchange) (bodyBytes : Bytes) (attempt index : Nat)
    (upstream : Upstream) :
    KeepsTo ⟨exchange.runtime.id, index⟩
      (exchange.tryUpstream bodyBytes attempt index upstream) := by
  refine makes_perform nofun fun start => makes_perform nofun fun result =>
    makes_perform nofun fun _ => makes_perform nofun fun _ => makes_perform nofun fun _ => ?_
  exact makes_bind (exchange.settle_keepsTo attempt index upstream result) fun _ _ _ =>
    makes_perform nofun fun _ => trivial

/-- An attempt changes the admission by its own upstream only. -/
theorem tryUpstream_alone (exchange : Exchange) (bodyBytes : Bytes) (attempt index : Nat)
    (upstream : Upstream) (world : World) :
    Alone permitted world (exchange.tryUpstream bodyBytes attempt index upstream)
      fun settled trace final =>
        (∀ other, other ≠ ⟨exchange.runtime.id, index⟩ → World.Agrees other world final) ∧
        ∃ result, sends trace = [(⟨exchange.runtime.id, index⟩, result)] ∧
          (settled = none ∨ settled = some (exchange.answerFor result)) := by
  rintro inputs start - rfl
  obtain ⟨result, hnotes, hsettled⟩ :=
    (exchange.tryUpstream_ensures bodyBytes attempt index upstream).exec interpreter inputs start
  refine ⟨fun other hother => agrees_exec fun event hevent hbreaker => ?_, result, ?_, ?_⟩
  · have hkeeps := (exchange.tryUpstream_keepsTo bodyBytes attempt index upstream).of_mem
      (exec_returns interpreter _ inputs start) hevent
    exact hother (hkeeps other hbreaker)
  · exact sends_of_notes
      (hnotes.trans (List.flatMap_singleton exchange.attemptNotes (index, result)).symm)
  · rw [hsettled]
    split
    · exact Or.inl rfl
    · exact Or.inr rfl

/-- What the loop did, in terms of the admission recorded before it: every attempted
upstream is admitted in the end, and when nothing could be picked, the attempted
upstreams are those that were admitted at some moment. -/
structure SoloLoop (exchange : Exchange) (excluded : List Nat) (world final : World)
    (trace : List (Event effects)) (response : Response) : Prop where
  now_le : world.now ≤ final.now
  admitted : ∀ made ∈ sends trace, world.admits made.1 final.now = true
  unserved : response = exchange.errorResponse .serviceUnavailable "no healthy upstream" →
    ∃ now, world.now ≤ now ∧ ∀ index < exchange.runtime.balancer.upstreams.length,
      index ∉ excluded → (world.admits ⟨exchange.runtime.id, index⟩ now = true ↔
        ⟨exchange.runtime.id, index⟩ ∈ (sends trace).map Prod.fst)

/-- An attempt before the rest of the loop.  Other upstreams are admitted as they were
before it. -/
theorem SoloLoop.cons {exchange : Exchange} {excluded : List Nat} {world tried final : World}
    {before trace : List (Event effects)} {response : Response} {index : Nat}
    {result : SendResult}
    (h : exchange.SoloLoop (excluded ++ [index]) tried final trace response)
    (hsends : sends before = [(⟨exchange.runtime.id, index⟩, result)])
    (hnow : world.now ≤ tried.now)
    (hadmits : world.admits ⟨exchange.runtime.id, index⟩ tried.now = true)
    (hother : ∀ other, other ≠ ⟨exchange.runtime.id, index⟩ → World.Agrees other world tried) :
    exchange.SoloLoop excluded world final (before ++ trace) response := by
  have hall : sends (before ++ trace) =
      (⟨exchange.runtime.id, index⟩, result) :: sends trace := by
    rw [sends_append, hsends, List.singleton_append]
  refine ⟨hnow.trans h.now_le, ?_, fun hunserved => ?_⟩
  · intro made hmade
    rw [hall] at hmade
    by_cases hne : made.1 = ⟨exchange.runtime.id, index⟩
    · rw [hne]
      exact World.admits_mono hadmits h.now_le
    · rcases List.mem_cons.mp hmade with rfl | hlater
      · exact absurd rfl hne
      · have hadmitted := h.admitted made hlater
        rwa [(hother made.1 hne).admits_eq final.now h.now_le] at hadmitted
  · obtain ⟨now, hlater, hiff⟩ := h.unserved hunserved
    refine ⟨now, hnow.trans hlater, fun other hlt hunexcluded => ?_⟩
    rw [hall]
    by_cases hne : other = index
    · subst hne
      simp [World.admits_mono hadmits hlater]
    · have hrest := hiff other hlt (by simp [hunexcluded, hne])
      rw [(hother _ (by simp [hne])).admits_eq now hlater] at hrest
      simpa [hne] using hrest

/-- The error responses of the loop itself: nothing is sent for them. -/
theorem fail_alone (exchange : Exchange) (status : StatusCode) (message : String)
    (world : World) :
    Alone permitted world (do
        exchange.record status
        return exchange.errorResponse status message)
      fun response trace final => world.now ≤ final.now ∧ sends trace = [] ∧
        response = exchange.errorResponse status message := by
  have hrecord : Alone permitted world (exchange.record status) fun _ trace final =>
      notes trace = [] ∧ world.now ≤ final.now :=
    (notes_of_makesKinds (exchange.record_makesKinds status) (by decide)).triple.and
      (now_le_alone world _)
  refine triple_bind hrecord fun _ trace recorded h => triple_done ?_
  obtain ⟨hnotes, hnow⟩ := h
  rintro _ rfl
  exact ⟨hnow, by simpa using sends_eq_nil_of_notes hnotes, rfl⟩

/-- Nothing could be picked: what is not excluded was refused when the search began. -/
theorem SoloLoop.of_missed {exchange : Exchange} {excluded : List Nat}
    {world chosen final : World} {trace : List (Event effects)} {response : Response}
    (h : Searched exchange.runtime.id excluded
      (List.range exchange.runtime.balancer.upstreams.length) world chosen none)
    (hnow : chosen.now ≤ final.now) (hsends : sends trace = []) :
    exchange.SoloLoop excluded world final trace response where
  now_le := (h.agrees ⟨0, 0⟩).now_le.trans hnow
  admitted := by simp [hsends]
  unserved := by
    refine fun _ => ⟨world.now, Nat.le_refl _, fun index hindex hfresh => ?_⟩
    have hrefused := h.missed rfl index (List.mem_range.mpr hindex) hfresh
    simp [hrefused, hsends]

/-- The last attempt gave the response. -/
theorem SoloLoop.of_answered {exchange : Exchange} {excluded : List Nat} {world final : World}
    {trace : List (Event effects)} {index : Nat} {result : SendResult}
    (hsends : sends trace = [(⟨exchange.runtime.id, index⟩, result)])
    (hnow : world.now ≤ final.now)
    (hadmits : world.admits ⟨exchange.runtime.id, index⟩ final.now = true) :
    exchange.SoloLoop excluded world final trace (exchange.answerFor result) where
  now_le := hnow
  admitted := by simpa [hsends] using hadmits
  unserved := fun hunserved => absurd hunserved
    (exchange.answerFor_ne_errorResponse result (by decide) (by decide) (by decide))

theorem attemptLoop_alone (exchange : Exchange)
    (hupstreams : exchange.runtime.balancer.upstreams ≠ []) (bodyBytes : Bytes)
    (remaining attempt : Nat) (excluded : List Nat) (world : World) :
    Alone permitted world (exchange.attemptLoop bodyBytes remaining attempt excluded)
      fun response trace final =>
        exchange.SoloLoop excluded world final trace response := by
  -- The world before each round is the start of the rest of the loop.
  induction remaining generalizing attempt excluded world with
  | zero =>
      refine (exchange.fail_alone _ _ world).mono (fun _ h => h) fun response trace final h => ?_
      obtain ⟨hnow, hsends, rfl⟩ := h
      refine ⟨hnow, by simp [hsends], fun hresponse => ?_⟩
      exact absurd hresponse (error_ne_of_body (by decide))
  | succ remaining ih =>
      have hpick : Alone permitted world
          (exchange.runtime.balancer.pick exchange.runtime.id excluded)
          fun picked trace final => notes trace = [] ∧
            Searched exchange.runtime.id excluded
              (List.range exchange.runtime.balancer.upstreams.length) world final
              (picked.map Prod.fst) :=
        (notes_of_makesKinds (Balancer.pick_makesKinds _ _ _) (by decide)).triple.and
          (Balancer.pick_searched _ hupstreams _ _ world)
      refine triple_bind hpick fun picked picking chosen h => ?_
      obtain ⟨hnotes, hsearched⟩ := h
      have hpicking := sends_eq_nil_of_notes hnotes
      cases picked with
      | none =>
          refine (exchange.fail_alone _ _ chosen).mono (fun _ h => h)
            fun response trace final h => ?_
          obtain ⟨hnow, hsends, -⟩ := h
          exact .of_missed hsearched hnow (by simp [hpicking, hsends])
      | some picked =>
          obtain ⟨index, upstream⟩ := picked
          obtain ⟨-, hfresh, hadmits⟩ := hsearched.found index rfl
          refine triple_bind (exchange.tryUpstream_alone bodyBytes attempt index upstream chosen)
            fun settled trying tried h => ?_
          obtain ⟨hagrees, result, hsends, hsettled⟩ := h
          have hpicked : world.now ≤ chosen.now := (hsearched.agrees ⟨0, 0⟩).now_le
          have htried : chosen.now ≤ tried.now :=
            (hagrees ⟨exchange.runtime.id, index + 1⟩ (by simp)).now_le
          have hadmitted := World.admits_mono hadmits htried
          have hall : sends (picking ++ trying) = [(⟨exchange.runtime.id, index⟩, result)] := by
            simp [hpicking, hsends]
          cases settled with
          | some response =>
              obtain rfl : response = exchange.answerFor result := by simpa using hsettled
              refine triple_done ?_
              rintro _ rfl
              rw [← List.append_assoc, List.append_nil]
              exact .of_answered hall (hpicked.trans htried) hadmitted
          | none =>
              refine (ih (attempt + 1) (excluded ++ [index]) tried).mono (fun _ h => h)
                fun response trace final h => ?_
              have hother : ∀ other, other ≠ ⟨exchange.runtime.id, index⟩ →
                  World.Agrees other world tried := fun other hne =>
                (hsearched.agrees other).trans (hagrees other hne)
              rw [← List.append_assoc]
              exact h.cons hall (hpicked.trans htried) hadmitted hother

/-- Attempts that all had the outcome of their upstream are given by their positions. -/
theorem exists_positions {outcome : Nat → SendResult} {made : List (Nat × SendResult)}
    (h : ∀ attempt ∈ made, attempt.2 = outcome attempt.1) :
    ∃ attempts : List Nat, made = attempts.map fun index => (index, outcome index) := by
  refine ⟨made.map Prod.fst, ?_⟩
  calc made = made.map id := (List.map_id made).symm
    _ = (made.map Prod.fst).map fun index => (index, outcome index) := by
      rw [List.map_map]
      exact List.map_congr_left fun attempt hattempt => Prod.ext rfl (h attempt hattempt)

/-- **The attempt loop of a request that runs alone.**  The attempted upstreams are
distinct and came to be admitted.  Either nothing could be picked before the rounds were
used up; then the attempted upstreams all failed in a way that may be retried, and are
exactly those admitted at some moment.  Or the last attempted upstream answers the
request, after such failures of all others, and its own outcome is such a failure only
when the rounds were used up. -/
theorem soloLoop (exchange : Exchange)
    (hupstreams : exchange.runtime.balancer.upstreams ≠ []) (bodyBytes : Bytes)
    {outcome : Nat → SendResult} {inputs : Nat → Input}
    (hinputs : ∀ n, exchange.Answering outcome (inputs n)) (world : World) :
    let run := (exchange.attemptLoop bodyBytes exchange.maxAttempts 0 []).exec interpreter
      inputs world
    ∃ attempts : List Nat, attempts.Nodup ∧
      sends run.trace = attempts.map (fun index => (⟨exchange.runtime.id, index⟩, outcome index)) ∧
      (∀ index ∈ attempts, index < exchange.runtime.balancer.upstreams.length ∧
        world.admits ⟨exchange.runtime.id, index⟩ run.state.now = true) ∧
      ((run.value = exchange.errorResponse .serviceUnavailable "no healthy upstream" ∧
          attempts.length < exchange.maxAttempts ∧
          (∀ index ∈ attempts, exchange.retryable (outcome index) = true) ∧
          ∃ now, world.now ≤ now ∧ ∀ index < exchange.runtime.balancer.upstreams.length,
            (world.admits ⟨exchange.runtime.id, index⟩ now = true ↔ index ∈ attempts)) ∨
        ∃ before last, attempts = before ++ [last] ∧
          run.value = exchange.answerFor (outcome last) ∧
          (∀ index ∈ before, exchange.retryable (outcome index) = true) ∧
          (exchange.retryable (outcome last) = true →
            attempts.length = exchange.maxAttempts)) := by
  intro run
  obtain ⟨made, hrun, hnotes⟩ := (exchange.attemptLoop_ensures hupstreams bodyBytes
    exchange.maxAttempts 0 []).exec interpreter inputs world
  have hsolo : exchange.SoloLoop [] world run.state run.trace run.value :=
    exchange.attemptLoop_alone hupstreams bodyBytes exchange.maxAttempts 0 [] world inputs world
      hinputs rfl
  have hsends := sends_of_notes hnotes
  -- Each upstream answered with its outcome, so the attempts are given by their positions.
  have hresult : ∀ attempt ∈ made, attempt.2 = outcome attempt.1 := by
    intro attempt hattempt
    have hmem : (exchange.attempted attempt, attempt.2) ∈ sends run.trace :=
      hsends ▸ List.mem_map_of_mem hattempt
    exact outcome_of_mem_sends hinputs hmem
  obtain ⟨attempts, rfl⟩ := exists_positions hresult
  have hindices : (attempts.map fun index => (index, outcome index)).map Prod.fst = attempts := by
    rw [List.map_map]
    exact List.map_id attempts
  have hall : sends run.trace =
      attempts.map fun index => (⟨exchange.runtime.id, index⟩, outcome index) := by
    rw [hsends, List.map_map]
    rfl
  refine ⟨attempts, hindices ▸ hrun.nodup, hall, fun index hindex => ⟨?_, ?_⟩, ?_⟩
  · exact (hrun.fresh index (by rwa [hindices])).1
  · refine hsolo.admitted (⟨exchange.runtime.id, index⟩, outcome index) ?_
    rw [hall]
    exact List.mem_map_of_mem hindex
  · have hretried := hrun.retryable_of_mem_dropLast
    rcases hrun.response_cases (Nat.zero_add _) exchange.maxAttempts_pos with
      ⟨hvalue, hfew, hretry⟩ | ⟨before, last, hlast, hvalue, hrounds⟩
    · left
      refine ⟨hvalue, by simpa using hfew, by simpa using hretry, ?_⟩
      obtain ⟨now, hnow, hiff⟩ := hsolo.unserved hvalue
      refine ⟨now, hnow, fun index hlt => ?_⟩
      rw [hiff index hlt (List.not_mem_nil), hall]
      simp
    · right
      cases attempts using List.reverseRecOn with
      | nil => simp at hlast
      | append_singleton earlier index =>
          rw [List.map_append, List.map_singleton] at hlast hretried
          obtain ⟨rfl, hindex⟩ := List.append_inj' hlast rfl
          obtain rfl := (List.cons.inj hindex).1
          refine ⟨earlier, index, rfl, hvalue, fun other hother => ?_, by simpa using hrounds⟩
          rw [List.dropLast_concat] at hretried
          exact hretried _ (List.mem_map_of_mem hother)

end Exchange
end Gateway
end ApiGateway
