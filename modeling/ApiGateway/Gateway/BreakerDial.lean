import ApiGateway.Gateway.Admission
import ApiGateway.Gateway.Stages
import ApiGateway.Library.Watch

/-!
# A breaker beside its gauge

The gauge of an upstream is a second copy of the state of its breaker.  A `Dial` is the
two together, and `dialWatch` follows them through the calls of the request path: the
breaker is changed by asking it and by reporting outcomes, the gauge is written by hand.

`pick_shows` is what a pick does to the dial.  It may turn an open breaker half-open, it
never closes one, and the breaker of the picked upstream is not open afterwards.
-/

namespace ApiGateway
namespace Gateway

open Library Core Program

/-- A breaker and what its gauge shows. -/
@[ext] structure Dial where
  breaker : Inner
  gauge : Int

namespace Dial

/-- The gauge shows the state of the breaker. -/
def Agrees (dial : Dial) : Prop := dial.gauge = dial.breaker.state.code

/-- What a call makes of the dial of an upstream. -/
def next (upstream : UpstreamId) (route url : String) (dial : Dial) (event : Event effects) :
    Dial :=
  match event.1 with
  | .allowAt id now =>
      if id = upstream then
        { dial with breaker := (CircuitBreaker.allowAt dial.breaker now).2 }
      else dial
  | .recordSuccess id =>
      if id = upstream then { dial with breaker := CircuitBreaker.recordSuccess dial.breaker }
      else dial
  | .recordFailureAt id breaker now =>
      if id = upstream then { dial with breaker := breaker.recordFailureAt dial.breaker now }
      else dial
  | .setCircuitState route' url' code =>
      if route' = route ∧ url' = url then { dial with gauge := code } else dial
  | _ => dial

/-- What the answer to a call says about the dial. -/
def tells (upstream : UpstreamId) (dial : Dial) : Event effects → Prop
  | ⟨.allowAt id now, answer⟩ =>
      id = upstream → answer = (CircuitBreaker.allowAt dial.breaker now).1
  | ⟨.breakerState id, state⟩ => id = upstream → state = dial.breaker.state
  | _ => True

end Dial

/-- The watch on the dial of an upstream. -/
def dialWatch (upstream : UpstreamId) (route url : String) : Watch effects Dial where
  next := Dial.next upstream route url
  tells := Dial.tells upstream

/-- The dial of an upstream in the shared state. -/
def World.dial (world : World) (upstream : UpstreamId) (route url : String) : Dial where
  breaker := (world.upstream upstream).breaker
  gauge := world.metrics.circuitState route url

theorem circuitState_answer (input : Input) (world : World) (op : Op) (route url : String) :
    (World.answer input world op).2.metrics.circuitState route url =
      match op with
      | .setCircuitState route' url' code =>
          if route' = route ∧ url' = url then code else world.metrics.circuitState route url
      | _ => world.metrics.circuitState route url := by
  cases op with
  | setCircuitState route' url' code =>
      show Function.update world.metrics.circuitState route'
        (Function.update (world.metrics.circuitState route') url' code) route url = _
      by_cases hroute : route' = route
      · subst hroute
        rw [Function.update_self]
        by_cases hurl : url' = url
        · subst hurl
          simp
        · rw [Function.update_of_ne (Ne.symm hurl)]
          simp [hurl]
      · rw [Function.update_of_ne (Ne.symm hroute)]
        simp [hroute]
  | _ => rfl

theorem breaker_cellAfter (upstream : UpstreamId) (cell : UpstreamCell) (gauge : Int)
    (route url : String) (event : Event effects) :
    (World.cellAfter upstream cell event.1).breaker =
      (Dial.next upstream route url ⟨cell.breaker, gauge⟩ event).breaker := by
  obtain ⟨op, answer⟩ := event
  cases op with
  | guardNew id | guardDrop id =>
      simp only [World.cellAfter, Dial.next]
      split
      · rfl
      · rfl
  | allowAt id _ | recordSuccess id | recordFailureAt id _ _ =>
      simp only [World.cellAfter, Dial.next]
      split
      · rfl
      · rfl
  | setCircuitState _ _ _ =>
      simp only [World.cellAfter, Dial.next]
      split
      · rfl
      · rfl
  | _ => rfl

theorem gauge_next (upstream : UpstreamId) (route url : String) (dial : Dial)
    (event : Event effects) :
    (Dial.next upstream route url dial event).gauge =
      match event.1 with
      | .setCircuitState route' url' code =>
          if route' = route ∧ url' = url then code else dial.gauge
      | _ => dial.gauge := by
  obtain ⟨op, answer⟩ := event
  cases op with
  | allowAt id _ | recordSuccess id | recordFailureAt id _ _ =>
      simp only [Dial.next]
      split
      · rfl
      · rfl
  | setCircuitState _ _ _ =>
      simp only [Dial.next]
      split
      · rfl
      · rfl
  | _ => rfl

/-- What a call makes of the dial is told by the call alone. -/
theorem dial_answer (input : Input) (world : World) (op : Op) (upstream : UpstreamId)
    (route url : String) :
    (World.answer input world op).2.dial upstream route url =
      Dial.next upstream route url (world.dial upstream route url)
        ⟨op, (World.answer input world op).1⟩ := by
  apply Dial.ext
  · show ((World.answer input world op).2.upstream upstream).breaker = _
    rw [World.upstream_answer]
    exact breaker_cellAfter upstream (world.upstream upstream)
      (world.metrics.circuitState route url) route url ⟨op, (World.answer input world op).1⟩
  · rw [gauge_next]
    exact circuitState_answer input world op route url

/-- A dropped handler takes its guard back, and that is no part of a dial. -/
theorem dial_dropHandler (history : List (Event effects)) (world : World) (upstream : UpstreamId)
    (route url : String) :
    (dropHandler history world).dial upstream route url = world.dial upstream route url := by
  unfold dropHandler
  split
  · rename_i id _
    exact dial_answer {} world (.guardDrop id) upstream route url
  · rfl

/-- Nor is the health flag. -/
theorem dial_report (probe : Probe) (world : World) (upstream : UpstreamId) (route url : String) :
    (probe.report world).dial upstream route url = world.dial upstream route url := by
  apply Dial.ext
  · show ((world.setUpstream _ _).upstream upstream).breaker = _
    rw [World.upstream_setUpstream]
    split
    · rename_i heq
      rw [← heq]
      rfl
    · rfl
  · rfl

/-- The dial is changed by calls only, and their answers tell the truth about it. -/
theorem dial_follows (decode : TokenDecoder) (state : GatewayState) (upstream : UpstreamId)
    (route url : String) :
    Follows (dialWatch upstream route url) (server decode state)
      fun world => world.dial upstream route url where
  call input world op := dial_answer input world op upstream route url
  told input world op := by
    cases op with
    | allowAt id now =>
        rintro rfl
        rfl
    | breakerState id =>
        rintro rfl
        rfl
    | _ => trivial
  drop history world := dial_dropHandler history world upstream route url
  disturb probe world := dial_report probe world upstream route url

/-! ## Calls that leave the dial alone -/

/-- The call uses neither the breaker nor the gauge. -/
def LeavesDial (upstream : UpstreamId) (route url : String) (op : Op) : Prop :=
  op.breakerOf ≠ some upstream ∧ ∀ code, op ≠ .setCircuitState route url code

section Search

variable {upstream : UpstreamId} {route url : String}

theorem next_of_leaves {event : Event effects} (h : LeavesDial upstream route url event.1)
    (dial : Dial) : Dial.next upstream route url dial event = dial := by
  obtain ⟨op, answer⟩ := event
  obtain ⟨hbreaker, hgauge⟩ := h
  cases op with
  | allowAt id _ | recordSuccess id | recordFailureAt id _ _ =>
      exact if_neg fun heq => hbreaker (congrArg some heq)
  | setCircuitState route' url' code =>
      refine if_neg fun heq => hgauge code ?_
      rw [← heq.1, ← heq.2]
  | _ => rfl

theorem after_of_leaves {trace : List (Event effects)}
    (h : ∀ event ∈ trace, LeavesDial upstream route url event.1) (dial : Dial) :
    (dialWatch upstream route url).after dial trace = dial :=
  Watch.after_related (fun first second => second = first) (fun _ => rfl)
    (fun _ _ _ h h' => h'.trans h) (fun event hevent part => next_of_leaves (h event hevent) part)
    dial

theorem shows_of_leaves {α : Type} {program : GatewayProgram α}
    (h : program.Makes (LeavesDial upstream route url)) (dial : Dial) :
    (dialWatch upstream route url).Shows dial program fun _ later _ => later = dial := by
  intro trace value hreturns _
  exact after_of_leaves (fun event hevent => Makes.of_mem h hreturns hevent) dial

/-- A plain stage that asks no breaker and reports no outcome. -/
theorem leavesDial_of_plain {α : Type} {kinds : List OpKind} {program : GatewayProgram α}
    (hplain : program.Makes Exchange.IsPlainCall) (hmakes : MakesKinds kinds program)
    (hkinds : .pick ∉ kinds ∧ .outcome ∉ kinds) :
    program.Makes (LeavesDial upstream route url) := by
  refine Makes.mono (hplain.and hmakes) fun op hop => ?_
  cases op with
  | allowAt _ _ => exact absurd hop.2 hkinds.1
  | recordSuccess _ | recordFailureAt _ _ _ => exact absurd hop.2 hkinds.2
  | setCircuitState _ _ _ => exact absurd hop.1 id
  | _ => exact ⟨nofun, nofun⟩

/-! ## Picking -/

/-- What asking breakers may change: an open breaker may become half-open. -/
structure Dial.Asked (dial later : Dial) : Prop where
  closed_iff : later.breaker.state = .closed ↔ dial.breaker.state = .closed
  admitting : dial.breaker.state ≠ .opened → later.breaker.state ≠ .opened
  failures : later.breaker.consecutiveFailures = dial.breaker.consecutiveFailures
  gauge : later.gauge = dial.gauge

theorem Dial.Asked.refl (dial : Dial) : dial.Asked dial := ⟨Iff.rfl, id, rfl, rfl⟩

theorem Dial.Asked.trans {first second third : Dial} (h : first.Asked second)
    (h' : second.Asked third) : first.Asked third where
  closed_iff := h'.closed_iff.trans h.closed_iff
  admitting hfirst := h'.admitting (h.admitting hfirst)
  failures := h'.failures.trans h.failures
  gauge := h'.gauge.trans h.gauge

theorem asked_of_isPickCall {id : RouteId} {event : Event effects}
    (h : Balancer.IsPickCall id event.1) (dial : Dial) :
    dial.Asked (Dial.next upstream route url dial event) := by
  obtain ⟨op, answer⟩ := event
  cases op with
  | allowAt asked now =>
      simp only [Dial.next]
      split
      · have hstate := CircuitBreaker.allowAt_state dial.breaker now
        refine ⟨?_, fun hadmits => ?_, CircuitBreaker.allowAt_consecutiveFailures _ _, rfl⟩
        · rcases hstate with hsame | ⟨hopened, hhalf⟩
          · simp only [hsame]
          · simp only [hopened, hhalf, reduceCtorEq]
        · rcases hstate with hsame | ⟨hopened, -⟩
          · simpa only [hsame] using hadmits
          · exact absurd hopened hadmits
      · exact .refl dial
  | rrFetchAdd _ | isHealthy _ | active _ | guardNew _ | instantNow => exact .refl dial
  | _ => cases h

theorem shows_asked {α : Type} {program : GatewayProgram α} {id : RouteId}
    (h : program.Makes (Balancer.IsPickCall id)) (dial : Dial) :
    (dialWatch upstream route url).Shows dial program fun _ later _ => dial.Asked later := by
  intro trace value hreturns _
  exact Watch.after_related Dial.Asked Dial.Asked.refl
    (fun _ _ _ h h' => h.trans h')
    (fun event hevent part => asked_of_isPickCall (Makes.of_mem h hreturns hevent) part) dial

/-- A breaker that lets a request through is not open afterwards. -/
theorem allowAt_admits {inner : Inner} {now : Instant}
    (h : (CircuitBreaker.allowAt inner now).1 = true) :
    (CircuitBreaker.allowAt inner now).2.state ≠ .opened := by
  unfold CircuitBreaker.allowAt at h ⊢
  split
  · rename_i hstate
    simp [hstate]
  · rename_i hstate
    simp [hstate]
  · rename_i hstate
    simp only [hstate] at h
    split at h
    · rename_i hlate
      simp only [if_pos hlate]
      decide
    · cases h

/-- A candidate that is found has a breaker that is not open. -/
theorem candidate_shows (exclude : List Nat) (index : Nat) (dial : Dial) :
    (dialWatch upstream route url).Shows dial
      (Balancer.candidate upstream.route exclude index) fun _ later found =>
        dial.Asked later ∧
          (found = true → index = upstream.index → later.breaker.state ≠ .opened) := by
  have hmakes : (Balancer.candidate upstream.route exclude index).Makes
      (Balancer.IsSearchCall upstream.route fun _ => True) :=
    Balancer.candidate_makes _ _ fun _ => trivial
  refine (shows_asked (hmakes.mono fun _ => Balancer.isPickCall_of_isSearchCall) dial).and ?_
  by_cases hindex : index = upstream.index
  swap
  · exact fun _ _ _ _ _ heq => absurd heq hindex
  subst hindex
  unfold Balancer.candidate
  split
  · exact Watch.shows_done nofun
  · refine Watch.shows_perform fun healthy _ => ?_
    cases healthy with
    | false => exact Watch.shows_done nofun
    | true =>
        refine Watch.shows_perform fun now _ => Watch.shows_call fun answer htold => ?_
        refine Watch.shows_done fun hfound _ => ?_
        have hanswer : answer = (CircuitBreaker.allowAt dial.breaker now).1 := htold rfl
        have hnext : (Dial.next upstream route url dial ⟨.allowAt upstream now, answer⟩).breaker =
            (CircuitBreaker.allowAt dial.breaker now).2 := by
          simp [Dial.next]
        show (Dial.next upstream route url dial ⟨.allowAt upstream now, answer⟩).breaker.state ≠ _
        rw [hnext]
        exact allowAt_admits (hanswer.symm.trans hfound)

theorem firstEligible_shows (exclude positions : List Nat) (dial : Dial) :
    (dialWatch upstream route url).Shows dial
      (Balancer.firstEligible upstream.route exclude positions) fun _ later choice =>
        choice = some upstream.index → later.breaker.state ≠ .opened := by
  induction positions generalizing dial with
  | nil => exact Watch.shows_done nofun
  | cons index rest ih =>
      refine Watch.shows_bind (candidate_shows exclude index dial) fun _ later found h => ?_
      cases found with
      | true => exact Watch.shows_done fun hchoice => h.2 rfl (Option.some.inj hchoice)
      | false => exact ih later

theorem roundRobinFrom_shows (balancer : Balancer) (exclude : List Nat) (rounds : Nat)
    (dial : Dial) :
    (dialWatch upstream route url).Shows dial
      (balancer.roundRobinFrom upstream.route exclude rounds) fun _ later choice =>
        choice = some upstream.index → later.breaker.state ≠ .opened := by
  induction rounds generalizing dial with
  | zero => exact firstEligible_shows exclude _ dial
  | succ rounds ih =>
      refine Watch.shows_perform fun cursor _ => ?_
      refine Watch.shows_bind (candidate_shows exclude (balancer.rrIndex cursor) dial)
        fun _ later found h => ?_
      cases found with
      | true => exact Watch.shows_done fun hchoice => h.2 rfl (Option.some.inj hchoice)
      | false => exact ih later

/-- The best candidate so far stays admitted while others are asked. -/
theorem leastLoaded_shows (exclude positions : List Nat) (best : Option (Int × Nat)) (dial : Dial)
    (hbest : best.map Prod.snd = some upstream.index → dial.breaker.state ≠ .opened) :
    (dialWatch upstream route url).Shows dial
      (Balancer.leastLoaded upstream.route exclude best positions) fun _ later choice =>
        choice = some upstream.index → later.breaker.state ≠ .opened := by
  induction positions generalizing best dial with
  | nil => exact Watch.shows_done hbest
  | cons index rest ih =>
      refine Watch.shows_bind (candidate_shows exclude index dial) fun _ later found h => ?_
      cases found with
      | true =>
          refine Watch.shows_perform fun load _ => ih _ later fun hsome => ?_
          rcases Balancer.lessLoaded_snd best load index with hnew | hold
          · exact h.2 rfl (hnew.symm.trans (Option.some.inj hsome))
          · rw [Option.some.inj hsome] at hold
            exact h.1.admitting (hbest hold)
      | false => exact ih best later fun hsome => h.1.admitting (hbest hsome)

/-- A picked upstream has a breaker that is not open. -/
theorem pick_shows (balancer : Balancer) (exclude : List Nat) (dial : Dial) :
    (dialWatch upstream route url).Shows dial (balancer.pick upstream.route exclude)
      fun _ later picked => dial.Asked later ∧
        ∀ found, picked = some found → found.1 = upstream.index →
          later.breaker.state ≠ .opened := by
  refine (shows_asked (Balancer.pick_makes balancer upstream.route exclude) dial).and ?_
  have hsearch : (dialWatch upstream route url).Shows dial
      (balancer.pickIndex upstream.route exclude) fun _ later choice =>
        choice = some upstream.index → later.breaker.state ≠ .opened := by
    unfold Balancer.pickIndex
    split
    · exact roundRobinFrom_shows balancer exclude _ dial
    · exact leastLoaded_shows exclude _ none dial nofun
  refine Watch.shows_bind hsearch fun _ later choice hchoice => ?_
  cases choice with
  | none => exact Watch.shows_done nofun
  | some index =>
      refine Watch.shows_perform fun _ _ => Watch.shows_done ?_
      rintro found ⟨⟩ hindex
      exact hchoice (congrArg some hindex)

/-- An excluded upstream is not asked. -/
theorem pick_leavesDial (balancer : Balancer) {exclude : List Nat}
    (hexcluded : upstream.index ∈ exclude) (id : RouteId) :
    (balancer.pick id exclude).Makes (LeavesDial upstream route url) := by
  refine makes_bind ((Balancer.pickIndex_makes balancer id exclude).mono fun op hop => ?_)
    fun _ choice _ => ?_
  · cases op with
    | allowAt asked _ =>
        refine ⟨fun heq => ?_, nofun⟩
        obtain rfl := Option.some.inj heq
        exact hop.2.2 hexcluded
    | rrFetchAdd _ | isHealthy _ | active _ | instantNow => exact ⟨nofun, nofun⟩
    | _ => cases hop
  · cases choice with
    | none => trivial
    | some index => exact makes_perform ⟨nofun, nofun⟩ fun _ => trivial

end Search

end Gateway
end ApiGateway
