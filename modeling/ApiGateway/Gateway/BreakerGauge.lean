import ApiGateway.Gateway.Answers
import ApiGateway.Gateway.BreakerDial
import ApiGateway.Gateway.Mediation
import ApiGateway.Gateway.RateStage
import ApiGateway.Gateway.SoloLoop

/-!
# The gauge of a breaker

An attempt writes the gauge once, after the call and before the outcome of the call is
reported.  So the gauge shows the state that the pick left, and the report may change the
state behind it.

While a request runs alone, a dial is changed by its own calls only, and
`attemptLoop_shows` follows it through the loop: before the upstream is attempted its
breaker is only asked, and afterwards it is excluded.
-/

namespace ApiGateway
namespace Gateway

open Library Core Program

/-! ## One attempt -/

/-- The record of a breaker after the outcome of a call has been reported. -/
def reported (breaker : CircuitBreaker) (result : SendResult) (inner : Inner) (now : Instant) :
    Inner :=
  if SendResult.isSuccess result then CircuitBreaker.recordSuccess inner
  else breaker.recordFailureAt inner now

theorem next_recordSuccess {result : SendResult} (h : SendResult.isSuccess result = true)
    (breaker : CircuitBreaker) (upstream : UpstreamId) (route url : String) (dial : Dial)
    (answer : Unit) :
    Dial.next upstream route url dial ⟨.recordSuccess upstream, answer⟩ =
      { dial with breaker := reported breaker result dial.breaker 0 } := by
  rw [reported, if_pos h]
  exact if_pos rfl

theorem next_recordFailureAt {result : SendResult} (h : SendResult.isSuccess result = false)
    (breaker : CircuitBreaker) (upstream : UpstreamId) (route url : String) (dial : Dial)
    (now : Instant) (answer : Unit) :
    Dial.next upstream route url dial ⟨.recordFailureAt upstream breaker now, answer⟩ =
      { dial with breaker := reported breaker result dial.breaker now } := by
  rw [reported, if_neg (by simp [h])]
  exact if_pos rfl

namespace Exchange

variable {upstream : UpstreamId} {route url : String}

theorem finishResponse_leavesDial (exchange : Exchange) (resp : UpstreamResponse) :
    (exchange.finishResponse resp).Makes (LeavesDial upstream route url) :=
  leavesDial_of_plain (exchange.finishResponse_isPlainCall resp)
    (exchange.finishResponse_makesKinds resp) (by decide)

theorem record_leavesDial (exchange : Exchange) (status : StatusCode) :
    (exchange.record status).Makes (LeavesDial upstream route url) :=
  leavesDial_of_plain (exchange.record_isPlainCall status) (exchange.record_makesKinds status)
    (by decide)

/-- The outcome of an attempt on another upstream leaves the dial alone. -/
theorem settle_leavesDial (exchange : Exchange) (attempt index : Nat) (target : Upstream)
    (result : SendResult) (hother : ⟨exchange.runtime.id, index⟩ ≠ upstream) :
    (exchange.settle attempt index target result).Makes (LeavesDial upstream route url) := by
  have hkeeps := exchange.settle_keepsTo attempt index target result
  have hplain := exchange.settle_isPlainCall attempt index target result
  refine (Makes.and hkeeps hplain).mono fun op hop => ⟨fun heq => ?_, ?_⟩
  · exact hother (hop.1 upstream heq).symm
  · rintro code rfl
    exact hop.2

/-- The outcome of an attempt on the upstream is reported to its breaker. -/
theorem settle_shows (exchange : Exchange) (attempt index : Nat) (target : Upstream)
    (result : SendResult) (hown : ⟨exchange.runtime.id, index⟩ = upstream) (dial : Dial) :
    (dialWatch upstream route url).Shows dial (exchange.settle attempt index target result)
      fun _ later _ => ∃ now,
        later = { dial with breaker := reported target.breaker result dial.breaker now } := by
  subst hown
  unfold settle
  split
  · rename_i resp
    simp only
    split
    · rename_i herror
      have hfailed : SendResult.isSuccess (.ok resp) = false := by
        simp [SendResult.isSuccess, herror]
      have hreport := fun now answer =>
        next_recordFailureAt hfailed target.breaker ⟨exchange.runtime.id, index⟩ route url dial now
          answer
      refine Watch.shows_perform fun now _ => Watch.shows_perform fun reporting _ =>
        Watch.shows_perform fun _ _ => ?_
      split
      · exact Watch.shows_done ⟨now, hreport now reporting⟩
      · refine Watch.shows_bind (shows_of_leaves (exchange.finishResponse_leavesDial resp) _)
          fun _ later _ hlater => Watch.shows_done ⟨now, ?_⟩
        rw [hlater]
        exact hreport now reporting
    · rename_i hok
      have hserved : SendResult.isSuccess (.ok resp) = true := by
        simp [SendResult.isSuccess, hok]
      have hreport := fun answer =>
        next_recordSuccess hserved target.breaker ⟨exchange.runtime.id, index⟩ route url dial answer
      refine Watch.shows_perform fun reporting _ => ?_
      refine Watch.shows_bind (shows_of_leaves (exchange.finishResponse_leavesDial resp) _)
        fun _ later _ hlater => Watch.shows_done ⟨0, ?_⟩
      rw [hlater]
      exact hreport reporting
  · rename_i failure
    have hreport := fun now answer =>
      next_recordFailureAt (rfl : SendResult.isSuccess (.error failure) = false) target.breaker
        ⟨exchange.runtime.id, index⟩ route url dial now answer
    refine Watch.shows_perform fun now _ => Watch.shows_perform fun reporting _ =>
      Watch.shows_perform fun _ _ => ?_
    split
    · exact Watch.shows_done ⟨now, hreport now reporting⟩
    · refine Watch.shows_bind (shows_of_leaves (exchange.record_leavesDial .badGateway) _)
        fun _ later _ hlater => Watch.shows_done ⟨now, ?_⟩
      rw [hlater]
      exact hreport now reporting

/-- An attempt on another upstream, under another URL, leaves the dial alone. -/
theorem tryUpstream_leavesDial (exchange : Exchange) (bodyBytes : Bytes) (attempt index : Nat)
    (target : Upstream) (hother : ⟨exchange.runtime.id, index⟩ ≠ upstream)
    (hurl : target.url ≠ url) :
    (exchange.tryUpstream bodyBytes attempt index target).Makes
      (LeavesDial upstream exchange.routeName url) := by
  refine makes_perform ⟨nofun, nofun⟩ fun start => makes_perform ⟨nofun, nofun⟩ fun result =>
    makes_perform ⟨nofun, nofun⟩ fun _ => makes_perform ⟨nofun, nofun⟩ fun state => ?_
  refine makes_perform ⟨nofun, fun code heq => ?_⟩ fun _ => ?_
  · exact hurl (Op.setCircuitState.inj heq).2.1
  · exact makes_bind (exchange.settle_leavesDial attempt index target result hother)
      fun _ _ _ => makes_perform ⟨nofun, nofun⟩ fun _ => trivial

/-- An attempt on the upstream shows the state that the pick has left, and reports the
outcome after that. -/
theorem tryUpstream_shows (exchange : Exchange) (bodyBytes : Bytes) (attempt index : Nat)
    (target : Upstream) (hown : ⟨exchange.runtime.id, index⟩ = upstream) (dial : Dial) :
    (dialWatch upstream exchange.routeName target.url).Shows dial
      (exchange.tryUpstream bodyBytes attempt index target) fun trace later _ =>
        ∃ result now, (upstream, result) ∈ sends trace ∧
          later = ⟨reported target.breaker result dial.breaker now, dial.breaker.state.code⟩ := by
  subst hown
  refine Watch.shows_perform fun start _ => Watch.shows_perform fun result _ =>
    Watch.shows_perform fun _ _ => Watch.shows_perform fun state htold =>
      Watch.shows_perform fun shown _ => ?_
  have hgauge : Dial.next ⟨exchange.runtime.id, index⟩ exchange.routeName target.url dial
      ⟨.setCircuitState exchange.routeName target.url state.code, shown⟩ =
        ⟨dial.breaker, dial.breaker.state.code⟩ := by
    have hstate : state = dial.breaker.state := htold rfl
    rw [hstate]
    exact if_pos ⟨rfl, rfl⟩
  refine Watch.shows_bind (exchange.settle_shows attempt index target result rfl _)
    fun settling later settled hlater => Watch.shows_perform fun _ _ => Watch.shows_done ?_
  obtain ⟨now, hlater⟩ := hlater
  refine ⟨result, now, mem_sends_of_mem (List.mem_cons_of_mem _ List.mem_cons_self), ?_⟩
  refine hlater.trans ?_
  have hshown := congrArg (fun shown : Dial =>
    { shown with breaker := reported target.breaker result shown.breaker now }) hgauge
  exact hshown

end Exchange

/-- The breaker is closed, and stays so when the result of a call is reported: the call
succeeds, or leaves the failures in a row below the threshold. -/
def StaysClosed (breaker : CircuitBreaker) (result : SendResult) (inner : Inner) : Prop :=
  inner.state = .closed ∧
    (SendResult.isSuccess result = true ∨
      ¬ breaker.threshold ≤ inner.consecutiveFailures + 1)

/-- After an attempt the gauge shows the state of the breaker when that was closed and has
stayed closed. -/
theorem agrees_reported (breaker : CircuitBreaker) (result : SendResult) {inner : Inner}
    (hadmitting : inner.state ≠ .opened) (now : Instant) :
    Dial.Agrees ⟨reported breaker result inner now, inner.state.code⟩ ↔
      StaysClosed breaker result inner := by
  unfold Dial.Agrees StaysClosed reported
  cases hsuccess : SendResult.isSuccess result with
  | true =>
      cases hstate : inner.state with
      | closed => simp [CircuitBreaker.recordSuccess]
      | halfOpen => simp [CircuitBreaker.recordSuccess, BreakerState.code]
      | opened => exact absurd hstate hadmitting
  | false =>
      simp only [CircuitBreaker.recordFailureAt, Bool.false_eq_true, if_false, false_or]
      cases hstate : inner.state with
      | closed =>
          simp only [reduceCtorEq, false_or, true_and]
          split
          · rename_i htrips
            simp [BreakerState.code, htrips]
          · rename_i hbelow
            simp [hbelow]
      | halfOpen => simp [BreakerState.code]
      | opened => exact absurd hstate hadmitting

theorem StaysClosed.congr {dial later : Dial} (h : dial.Asked later) (breaker : CircuitBreaker)
    (result : SendResult) :
    StaysClosed breaker result later.breaker ↔ StaysClosed breaker result dial.breaker := by
  unfold StaysClosed
  rw [h.closed_iff, h.failures]

/-! ## The loop -/

namespace Exchange

variable (exchange : Exchange) {upstream : UpstreamId} {route url : String}

/-- A stage outside the attempts sends nothing and leaves the dial alone. -/
theorem stage_shows {α : Type} {kinds : List OpKind} {program : GatewayProgram α}
    (hplain : program.Makes IsPlainCall) (hmakes : MakesKinds kinds program)
    (hkinds : ∀ kind ∈ kinds, kind ∉ [.pick, .outcome, .send]) (dial : Dial) :
    (dialWatch upstream route url).Shows dial program fun trace later _ =>
      later = dial ∧ sends trace = [] := by
  have hleaves : program.Makes (LeavesDial upstream route url) :=
    leavesDial_of_plain hplain hmakes
      ⟨fun hmem => hkinds _ hmem (by simp), fun hmem => hkinds _ hmem (by simp)⟩
  have hnotes := notes_of_makesKinds hmakes fun kind hmem haccountable =>
    hkinds kind hmem (by
      rcases List.mem_cons.mp haccountable with rfl | houtcome
      · simp
      · rw [List.mem_singleton.mp houtcome]
        simp)
  exact ((shows_of_leaves hleaves dial).and (Watch.shows_of_ensures hnotes)).mono
    fun _ _ _ h => ⟨h.1, sends_eq_nil_of_notes h.2⟩

theorem record_shows (status : StatusCode) (dial : Dial) :
    (dialWatch upstream route url).Shows dial (exchange.record status) fun trace later _ =>
      later = dial ∧ sends trace = [] :=
  stage_shows (exchange.record_isPlainCall status) (exchange.record_makesKinds status)
    (by decide) dial

/-- What a pick finds, and that it sends nothing. -/
theorem pick_finds (hupstreams : exchange.runtime.balancer.upstreams ≠ [])
    (excluded : List Nat) :
    Ensures (exchange.runtime.balancer.pick exchange.runtime.id excluded) fun trace picked =>
      sends trace = [] ∧ ∀ index target, picked = some (index, target) →
        index < exchange.runtime.balancer.upstreams.length ∧ index ∉ excluded ∧
          target = exchange.runtime.balancer.upstreamAt index :=
  ((notes_of_makesKinds (Balancer.pick_makesKinds _ _ _) (by decide)).and
    (Balancer.pick_ensures _ hupstreams _ _)).mono fun _ _ h => ⟨sends_eq_nil_of_notes h.1, h.2⟩

section Loop

variable {index : Nat}
  (hdistinct : ∀ other, other < exchange.runtime.balancer.upstreams.length → other ≠ index →
    (exchange.runtime.balancer.upstreamAt other).url ≠
      (exchange.runtime.balancer.upstreamAt index).url)

include hdistinct

/-- An attempt on another upstream of the route. -/
theorem tryOther_shows (bodyBytes : Bytes) (attempt : Nat) {other : Nat}
    (hlt : other < exchange.runtime.balancer.upstreams.length) (hother : other ≠ index)
    (dial : Dial) :
    (dialWatch ⟨exchange.runtime.id, index⟩ exchange.routeName
        (exchange.runtime.balancer.upstreamAt index).url).Shows dial
      (exchange.tryUpstream bodyBytes attempt other (exchange.runtime.balancer.upstreamAt other))
      fun trace later _ => later = dial ∧
        ∀ result, (⟨exchange.runtime.id, index⟩, result) ∉ sends trace := by
  have hne : (⟨exchange.runtime.id, other⟩ : UpstreamId) ≠ ⟨exchange.runtime.id, index⟩ :=
    fun heq => hother (UpstreamId.mk.inj heq).2
  refine ((shows_of_leaves (exchange.tryUpstream_leavesDial bodyBytes attempt other _ hne
    (hdistinct other hlt hother)) dial).and (Watch.shows_of_ensures
    (exchange.tryUpstream_answers bodyBytes attempt other _))).mono fun trace later _ h => ?_
  obtain ⟨hlater, sent, hsends, -⟩ := h
  refine ⟨hlater, fun result hmem => ?_⟩
  rw [hsends] at hmem
  exact hne (Prod.mk.inj (List.mem_singleton.mp hmem)).1.symm

omit hdistinct in
/-- An attempt on the upstream, whose breaker is not open when it is picked. -/
theorem tryOwn_shows (bodyBytes : Bytes) (attempt : Nat) {dial : Dial}
    (hadmitting : dial.breaker.state ≠ .opened) :
    (dialWatch ⟨exchange.runtime.id, index⟩ exchange.routeName
        (exchange.runtime.balancer.upstreamAt index).url).Shows dial
      (exchange.tryUpstream bodyBytes attempt index (exchange.runtime.balancer.upstreamAt index))
      fun trace later _ => ∃ result, sends trace = [(⟨exchange.runtime.id, index⟩, result)] ∧
        (later.Agrees ↔ StaysClosed (exchange.runtime.balancer.upstreamAt index).breaker result
          dial.breaker) := by
  refine ((exchange.tryUpstream_shows bodyBytes attempt index _ rfl dial).and
    (Watch.shows_of_ensures (exchange.tryUpstream_answers bodyBytes attempt index _))).mono
    fun trace later _ h => ?_
  obtain ⟨⟨sent, now, hsent, rfl⟩, own, hown, -⟩ := h
  rw [hown] at hsent
  obtain rfl := (Prod.mk.inj (List.mem_singleton.mp hsent)).2
  exact ⟨sent, hown, agrees_reported _ sent hadmitting now⟩

variable (hupstreams : exchange.runtime.balancer.upstreams ≠ [])

include hupstreams

/-- An excluded upstream is not attempted again, and its dial is left alone. -/
theorem attemptLoop_excluded (bodyBytes : Bytes) (remaining attempt : Nat) {excluded : List Nat}
    (hexcluded : index ∈ excluded) (dial : Dial) :
    (dialWatch ⟨exchange.runtime.id, index⟩ exchange.routeName
        (exchange.runtime.balancer.upstreamAt index).url).Shows dial
      (exchange.attemptLoop bodyBytes remaining attempt excluded) fun trace later _ =>
        later = dial ∧ ∀ result, (⟨exchange.runtime.id, index⟩, result) ∉ sends trace := by
  induction remaining generalizing attempt excluded dial with
  | zero =>
      refine Watch.shows_bind (exchange.record_shows _ dial) fun _ _ _ h => Watch.shows_done ?_
      simp [h.1, h.2]
  | succ remaining ih =>
      have hpick : (dialWatch ⟨exchange.runtime.id, index⟩ exchange.routeName
          (exchange.runtime.balancer.upstreamAt index).url).Shows dial
          (exchange.runtime.balancer.pick exchange.runtime.id excluded)
          fun _ later _ => later = dial :=
        shows_of_leaves (pick_leavesDial _ hexcluded _) dial
      refine Watch.shows_bind (hpick.and (Watch.shows_of_ensures
        (exchange.pick_finds hupstreams excluded))) fun picking later picked h => ?_
      obtain ⟨rfl, hsends, hfound⟩ := h
      cases picked with
      | none =>
          refine Watch.shows_bind (exchange.record_shows _ later) fun _ _ _ h =>
            Watch.shows_done ?_
          simp [h.1, h.2, hsends]
      | some found =>
          obtain ⟨other, target⟩ := found
          obtain ⟨hlt, hfresh, rfl⟩ := hfound other target rfl
          have hother : other ≠ index := fun heq => hfresh (heq ▸ hexcluded)
          refine Watch.shows_bind (exchange.tryOther_shows hdistinct bodyBytes attempt hlt hother
            later) fun trying after settled h => ?_
          obtain ⟨rfl, hnone⟩ := h
          cases settled with
          | none =>
              refine (ih (attempt + 1) (List.mem_append_left _ hexcluded) after).mono
                fun _ _ _ h => ⟨h.1, fun result => ?_⟩
              simp [hsends, hnone result, h.2 result]
          | some response =>
              refine Watch.shows_done ⟨rfl, fun result => ?_⟩
              simp [hsends, hnone result]

/-- When the loop attempts an upstream, the gauge agrees with the breaker in the end if and
only if the breaker has stayed closed. -/
theorem attemptLoop_shows (bodyBytes : Bytes) (remaining attempt : Nat) (excluded : List Nat)
    (dial : Dial) :
    (dialWatch ⟨exchange.runtime.id, index⟩ exchange.routeName
        (exchange.runtime.balancer.upstreamAt index).url).Shows dial
      (exchange.attemptLoop bodyBytes remaining attempt excluded) fun trace later _ =>
        ∀ result, (⟨exchange.runtime.id, index⟩, result) ∈ sends trace →
          (later.Agrees ↔ StaysClosed (exchange.runtime.balancer.upstreamAt index).breaker result
            dial.breaker) := by
  -- Before the upstream is attempted its breaker is only asked; afterwards it is excluded.
  induction remaining generalizing attempt excluded dial with
  | zero =>
      refine Watch.shows_bind (exchange.record_shows _ dial) fun _ _ _ h => Watch.shows_done ?_
      simp [h.2]
  | succ remaining ih =>
      have hpick : (dialWatch ⟨exchange.runtime.id, index⟩ exchange.routeName
          (exchange.runtime.balancer.upstreamAt index).url).Shows dial
          (exchange.runtime.balancer.pick exchange.runtime.id excluded)
          fun _ later picked => dial.Asked later ∧ ∀ found, picked = some found →
            found.1 = index → later.breaker.state ≠ .opened :=
        pick_shows exchange.runtime.balancer excluded dial
      refine Watch.shows_bind (hpick.and (Watch.shows_of_ensures
        (exchange.pick_finds hupstreams excluded))) fun picking later picked h => ?_
      obtain ⟨⟨hasked, hadmitting⟩, hsends, hfound⟩ := h
      cases picked with
      | none =>
          refine Watch.shows_bind (exchange.record_shows _ later) fun _ _ _ h =>
            Watch.shows_done ?_
          simp [h.2, hsends]
      | some found =>
          obtain ⟨other, target⟩ := found
          obtain ⟨hlt, hfresh, rfl⟩ := hfound other target rfl
          by_cases hindex : other = index
          · subst hindex
            refine Watch.shows_bind (exchange.tryOwn_shows bodyBytes attempt
              (hadmitting _ rfl rfl)) fun trying after settled h => ?_
            obtain ⟨sent, hsent, hagrees⟩ := h
            rw [StaysClosed.congr hasked] at hagrees
            cases settled with
            | none =>
                refine (exchange.attemptLoop_excluded hdistinct hupstreams bodyBytes remaining
                  (attempt + 1) (List.mem_append_right _ (List.mem_singleton.mpr rfl))
                  _).mono fun _ after _ h result hmem => ?_
                obtain ⟨rfl, hnone⟩ := h
                obtain rfl : result = sent := by
                  simpa [hsends, hsent, hnone result] using hmem
                exact hagrees
            | some response =>
                refine Watch.shows_done fun result hmem => ?_
                obtain rfl : result = sent := by
                  simpa [hsends, hsent] using hmem
                exact hagrees
          · refine Watch.shows_bind (exchange.tryOther_shows hdistinct bodyBytes attempt hlt hindex
              later) fun trying after settled h => ?_
            obtain ⟨rfl, hnone⟩ := h
            cases settled with
            | none =>
                refine (ih (attempt + 1) (excluded ++ [other]) after).mono
                  fun _ _ _ h result hmem => ?_
                rw [← StaysClosed.congr hasked]
                refine h result ?_
                simpa [hsends, hnone result] using hmem
            | some response =>
                refine Watch.shows_done fun result hmem => ?_
                simp [hsends, hnone result] at hmem

/-- The same for the request as a whole: no other stage uses breakers or gauges. -/
theorem serve_shows (decode : TokenDecoder) (dial : Dial) :
    (dialWatch ⟨exchange.runtime.id, index⟩ exchange.routeName
        (exchange.runtime.balancer.upstreamAt index).url).Shows dial
      (exchange.serve decode) fun trace later _ =>
        ∀ result, (⟨exchange.runtime.id, index⟩, result) ∈ sends trace →
          (later.Agrees ↔ StaysClosed (exchange.runtime.balancer.upstreamAt index).breaker result
            dial.breaker) := by
  refine Watch.shows_bind (stage_shows (exchange.authenticate_isPlainCall decode)
    (exchange.authenticate_makesKinds decode) (by decide) dial) fun auth _ rejection h => ?_
  obtain ⟨rfl, hauth⟩ := h
  cases rejection with
  | some rejection => exact Watch.shows_done (by simp [hauth])
  | none =>
      refine Watch.shows_bind (stage_shows exchange.limitRate_isPlainCall
        exchange.limitRate_makesKinds (by decide) _) fun limited _ rejection h => ?_
      obtain ⟨rfl, hlimited⟩ := h
      cases rejection with
      | some rejection => exact Watch.shows_done (by simp [hauth, hlimited])
      | none =>
          refine Watch.shows_bind (stage_shows exchange.lookupCache_isPlainCall
            exchange.lookupCache_makesKinds (by decide) _) fun looked _ hit h => ?_
          obtain ⟨rfl, hlooked⟩ := h
          cases hit with
          | some hit => exact Watch.shows_done (by simp [hauth, hlimited, hlooked])
          | none =>
              refine Watch.shows_perform fun answer _ => ?_
              split
              · refine Watch.shows_bind (exchange.record_shows _ _) fun counted _ _ h =>
                  Watch.shows_done ?_
                simp [hauth, hlimited, hlooked, sends_readRequestBody answer, h.2]
              · refine (exchange.attemptLoop_shows hdistinct hupstreams _ _ 0 [] _).mono
                  fun trace later _ h result hmem => h result ?_
                simpa [hauth, hlimited, hlooked, sends_readRequestBody answer] using hmem

end Loop

end Exchange

/-! ## Every run -/

section Run

variable {decode : TokenDecoder} {config : GatewayConfig} {redisReachable : Bool}

/-- Upstreams of a route with different URLs have different gauges. -/
theorem url_ne_of_nodup {balancer : Balancer}
    (hdistinct : (balancer.upstreams.map Upstream.url).Nodup) {index other : Nat}
    (hindex : index < balancer.upstreams.length) (hother : other < balancer.upstreams.length)
    (hne : other ≠ index) :
    (balancer.upstreamAt other).url ≠ (balancer.upstreamAt index).url := by
  intro heq
  refine hne ((List.getElem?_inj (by simpa using hother) hdistinct).mp ?_)
  simpa [Balancer.upstreamAt, List.getD_eq_getElem?_getD, hindex, hother] using heq

/-- A handler runs its stages between calls that leave the dial alone. -/
theorem handle_shows {incoming : Incoming} {route : RouteConfig} {upstream : UpstreamId}
    (hmatched : incoming.routeOf config = some route)
    (hruntime : (GatewayState.build config redisReachable).route route.name =
      some (.fromConfig upstream.route route))
    (hdistinct : ((Balancer.fromRoute route).upstreams.map Upstream.url).Nodup)
    (hlt : upstream.index < (Balancer.fromRoute route).upstreams.length) (dial : Dial) :
    (dialWatch upstream route.name ((Balancer.fromRoute route).upstreamAt upstream.index).url).Shows
      dial (handle decode (.build config redisReachable) incoming) fun trace later _ =>
        ∀ result, (upstream, result) ∈ sends trace →
          (later.Agrees ↔
            StaysClosed ((Balancer.fromRoute route).upstreamAt upstream.index).breaker result
              dial.breaker) := by
  intro trace response hreturns htold result hmem
  obtain ⟨opening, inner, correlation, started, rfl, hopening, -, hcases⟩ := handle_returns hreturns
  have hopened : (dialWatch upstream route.name
      ((Balancer.fromRoute route).upstreamAt upstream.index).url).after dial opening = dial := by
    refine after_of_leaves (fun event hevent => ?_) dial
    rcases hopening event hevent with hop | hop | hop
    · rw [hop]
      exact ⟨nofun, nofun⟩
    · rw [hop]
      exact ⟨nofun, nofun⟩
    · rw [hop]
      exact ⟨nofun, nofun⟩
  rw [sends_framed hopening] at hmem
  simp only [Watch.told_append, Watch.after_append, hopened] at htold ⊢
  rcases hcases with ⟨hnone, -⟩ | ⟨other, hother, hfound⟩
  · cases hnone.symm.trans hmatched
  · obtain rfl := Option.some.inj (hother.symm.trans hmatched)
    rcases hfound with ⟨hnone, -⟩ | ⟨runtime, hfound, hserved⟩
    · cases hnone.symm.trans hruntime
    · obtain rfl := Option.some.inj (hfound.symm.trans hruntime)
      exact Exchange.serve_shows _ (fun index hindex hne => url_ne_of_nodup hdistinct hlt hindex hne)
        (List.ne_nil_of_length_pos (Nat.zero_lt_of_lt hlt)) decode dial inner response hserved
        htold.1.2 result hmem

end Run

/-- A request has been answered in the second part of a run, and its handler is the only
one that has made a call there. -/
structure AnsweredAlone (decode : TokenDecoder) (config : GatewayConfig) (redisReachable : Bool)
    (before during : List GatewayAction) (index : Nat)
    (thread : Thread effects Incoming Response) : Prop where
  fresh : ∀ entry ∈ (gatewayAfter decode config redisReachable before).log, entry.1 ≠ index
  alone : ∀ entry ∈ (gatewayAfter decode config redisReachable (before ++ during)).log.drop
    (gatewayAfter decode config redisReachable before).log.length, entry.1 = index
  handler : (gatewayAfter decode config redisReachable (before ++ during)).threads[index]? =
    some thread
  answered : ∃ response, thread.rest = .done response

/-- **The gauge of a breaker.**  In every run of the gateway built from an accepted
configuration, when a request that has overlapped no other is answered, the gauge of an
upstream it has attempted shows the state of the breaker if and only if the breaker was
closed before the request, and the attempt has succeeded or has left the failures in a row
below the threshold. -/
theorem breakerGauge_agrees_iff (decode : TokenDecoder) (config : GatewayConfig)
    (hvalid : config.validate = .ok ()) (redisReachable : Bool)
    (before during : List GatewayAction) (index : Nat)
    (thread : Thread effects Incoming Response)
    (hanswered : AnsweredAlone decode config redisReachable before during index thread)
    (route : RouteConfig) (hroute : thread.request.routeOf config = some route)
    (hdistinct : ((Balancer.fromRoute route).upstreams.map Upstream.url).Nodup)
    (upstream : UpstreamId) (result : SendResult)
    (hattempted : (upstream, result) ∈ sends thread.history) :
    let target := (Balancer.fromRoute route).upstreamAt upstream.index
    ((gatewayAfter decode config redisReachable (before ++ during)).state.dial upstream route.name
        target.url).Agrees ↔
      StaysClosed target.breaker result
        ((gatewayAfter decode config redisReachable before).state.upstream upstream).breaker := by
  intro target
  have hconfig := (validate_eq_ok_iff config).mp hvalid
  obtain ⟨hfresh, halone, hthread, response, hdone⟩ := hanswered
  -- The upstream belongs to the route of the request.
  obtain ⟨request, hmem⟩ := mem_sends hattempted
  obtain ⟨earlier, later, hhistory⟩ := List.append_of_mem hmem
  obtain ⟨other, exchange, hmediated, hlt, -⟩ := justified_after decode config hconfig
    redisReachable (before ++ during) hthread hhistory
  obtain rfl := Option.some.inj (hmediated.admitted.matched.symm.trans hroute)
  -- Its handler has returned, and was told the truth about the dial.
  have hreturns : Returns (handle decode (.build config redisReachable) thread.request)
      thread.history response := by
    have hsteps := (gatewayAfter_coherent decode config redisReachable
      (before ++ during)).steps index thread hthread
    rwa [hdone] at hsteps
  obtain ⟨htold, hdial⟩ := (dial_follows decode (.build config redisReachable) upstream other.name
    target.url).alone World.initial before during hfresh halone hthread
  have hshows := handle_shows hroute hmediated.admitted.runtime hdistinct (by
    simpa [Balancer.fromRoute] using hlt) _ thread.history response hreturns htold result hattempted
  exact (iff_of_eq (congrArg Dial.Agrees hdial)).trans hshows

/-- A route whose breaker opens at the first failure. -/
def trippingRoute : RouteConfig := { echoRoute with circuitBreaker := { failureThreshold := 1 } }

/-- One request that is answered, with the given result of its call to the upstream. -/
def trippingRun (result : SendResult) : List GatewayAction :=
  .arrive echoIncoming :: List.replicate 22 (.advance 0 { upstream := fun _ _ => result })

def trippingPool (result : SendResult) : GatewayPool :=
  gatewayAfter noTokens { routes := [trippingRoute] } false (trippingRun result)

def servedResult : SendResult := .ok { status := .ok, headers := [], body := ⟨[], true⟩ }

def refusedResult : SendResult := .error { isConnect := true }

theorem breakerGauge_agrees_served :
    ((trippingPool servedResult).state.dial ⟨0, 0⟩ "echo" "http://echo:8081").Agrees := by
  have halone : (trippingPool servedResult).log.all (fun entry => entry.1 == 0) = true := rfl
  exact (breakerGauge_agrees_iff noTokens { routes := [trippingRoute] } rfl false []
    (trippingRun servedResult) 0 _
    { fresh := nofun
      alone := fun entry hentry => of_decide_eq_true (List.all_eq_true.mp halone entry hentry)
      handler := rfl
      answered := ⟨_, rfl⟩ }
    trippingRoute rfl (List.nodup_singleton _) ⟨0, 0⟩ servedResult (List.mem_singleton.mpr rfl)).mpr
    ⟨rfl, Or.inl rfl⟩

/-- The call is refused and opens the breaker.  The request is answered, and the gauge
still shows a closed breaker. -/
theorem opened_breaker_shown_closed :
    GatewayConfig.validate { routes := [trippingRoute] } = .ok () ∧
      (∃ thread, AnsweredAlone noTokens { routes := [trippingRoute] } false []
          (trippingRun refusedResult) 0 thread ∧
        thread.request.routeOf { routes := [trippingRoute] } = some trippingRoute ∧
        (⟨0, 0⟩, refusedResult) ∈ sends thread.history) ∧
      ((trippingPool refusedResult).state.upstream ⟨0, 0⟩).breaker.state = .opened ∧
      (trippingPool refusedResult).state.metrics.circuitState "echo" "http://echo:8081" =
        BreakerState.closed.code ∧
      ¬ ((trippingPool refusedResult).state.dial ⟨0, 0⟩ "echo" "http://echo:8081").Agrees := by
  have halone : (trippingPool refusedResult).log.all (fun entry => entry.1 == 0) = true := rfl
  have hopened : ((trippingPool refusedResult).state.upstream ⟨0, 0⟩).breaker.state = .opened := rfl
  have hgauge : (trippingPool refusedResult).state.metrics.circuitState "echo" "http://echo:8081" =
      BreakerState.closed.code := rfl
  refine ⟨rfl, ⟨_, ⟨nofun, fun entry hentry => ?_, rfl, _, rfl⟩, rfl, List.mem_singleton.mpr rfl⟩,
    hopened, hgauge, fun hagrees => ?_⟩
  · exact of_decide_eq_true (List.all_eq_true.mp halone entry hentry)
  · have hcodes : BreakerState.closed.code = BreakerState.opened.code :=
      hgauge.symm.trans (hagrees.trans (congrArg BreakerState.code hopened))
    exact absurd hcodes (by decide)

end Gateway
end ApiGateway
