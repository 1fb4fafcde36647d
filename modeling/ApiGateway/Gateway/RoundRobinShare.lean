import ApiGateway.Gateway.RoundRobin

/-!
# The share of an upstream while others are down

When upstreams fail their tests, the calls of `pick` take more than one value of the cursor
each, and the turns of the upstreams that are down fall to those behind them.  An upstream
whose own tests pass loses nothing by this: whoever meets its turn chooses it.  So it gets
at least the share of full rounds that its weight promises, whatever happens to the others.
-/

namespace ApiGateway
namespace Gateway

open Library Core Program

/-! ## One call -/

/-- What a call knows of an upstream whose tests pass: its turn comes up at most once, and the
call that meets it chooses it. -/
structure TakesItsTurn (balancer : Balancer) (index : Nat) (cursors : List UInt64)
    (choice : Option Nat) : Prop where
  once : cursors.countP (fun cursor => balancer.rrIndex cursor == index) ≤ 1
  chosen : cursors.countP (fun cursor => balancer.rrIndex cursor == index) ≠ 0 →
    choice = some index

namespace Balancer

theorem firstEligible_takes_none (id : RouteId) (exclude positions : List Nat) :
    Ensures (firstEligible id exclude positions) fun trace _ =>
      trace.filterMap (cursorTaken id) = [] := by
  induction positions with
  | nil => exact ensures_done rfl
  | cons index rest ih =>
      refine ensures_bind (candidate_takes_none id exclude index) fun tested found htested => ?_
      cases found with
      | true =>
          refine ensures_done ?_
          rw [List.append_nil]
          exact htested
      | false =>
          refine ih.mono fun later _ hlater => ?_
          rw [List.filterMap_append, htested, hlater]
          rfl

/-- A round takes one value, and its test none. -/
theorem cursors_of_turn {id : RouteId} {cursor : UInt64} {tested later : List (Event effects)}
    (htested : tested.filterMap (cursorTaken id) = []) :
    ((⟨.rrFetchAdd id, cursor⟩ : Event effects) :: (tested ++ later)).filterMap (cursorTaken id) =
      cursor :: later.filterMap (cursorTaken id) := by
  rw [List.filterMap_cons, List.filterMap_append, htested]
  simp [cursorTaken]

/-- The number of values that a search takes. -/
theorem roundRobinFrom_takes_few (balancer : Balancer) (id : RouteId) (rounds : Nat) :
    Ensures (roundRobinFrom balancer id [] rounds) fun trace _ =>
      (trace.filterMap (cursorTaken id)).length ≤ rounds ∧
        (rounds ≠ 0 → (trace.filterMap (cursorTaken id)).length ≠ 0) := by
  induction rounds with
  | zero =>
      refine (firstEligible_takes_none id [] _).mono fun trace _ hnone => ?_
      rw [hnone]
      exact ⟨Nat.le_refl _, fun h => absurd rfl h⟩
  | succ rounds ih =>
      refine ensures_perform fun cursor => ensures_bind (candidate_takes_none id [] _)
        fun tested found htested => ?_
      cases found with
      | true =>
          refine ensures_done ?_
          rw [cursors_of_turn htested]
          simp
      | false =>
          refine ih.mono fun later _ hlater => ?_
          rw [cursors_of_turn htested, List.length_cons]
          exact ⟨Nat.succ_le_succ hlater.1, fun _ => Nat.succ_ne_zero _⟩

/-- A search does not pass over an upstream whose tests pass. -/
theorem roundRobinFrom_takesItsTurn (balancer : Balancer) (id : RouteId) (index rounds : Nat) :
    Ensures (roundRobinFrom balancer id [] rounds) fun trace choice =>
      StaysEligible ⟨id, index⟩ trace →
        TakesItsTurn balancer index (trace.filterMap (cursorTaken id)) choice := by
  induction rounds with
  | zero =>
      refine (firstEligible_takes_none id [] _).mono fun trace _ hnone _ => ?_
      rw [hnone]
      exact ⟨Nat.zero_le _, fun h => absurd rfl h⟩
  | succ rounds ih =>
      refine ensures_perform fun cursor => ensures_bind
        ((candidate_vetted id [] _).and (candidate_takes_none id [] _)) fun tested found h => ?_
      obtain ⟨hvetted, htested⟩ := h
      cases found with
      | true =>
          refine ensures_done fun _ => ?_
          rw [cursors_of_turn htested, List.filterMap_nil]
          constructor
          · exact List.countP_le_length
          · intro hcount
            by_cases hturn : balancer.rrIndex cursor = index
            · rw [hturn]
            · simp [hturn] at hcount
      | false =>
          refine ih.mono fun later choice hlater hstays => ?_
          have hlaterStays : StaysEligible ⟨id, index⟩ later :=
            hstays.anti (List.Subset.trans (List.subset_append_right tested later)
              (List.subset_cons_self _ _))
          -- A turn of the upstream itself would have been taken.
          have hturn : balancer.rrIndex cursor ≠ index := by
            rintro rfl
            refine absurd (hstays.anti ?_) (hvetted.2 rfl List.not_mem_nil)
            exact List.Subset.trans (List.subset_append_left tested later) (List.subset_cons_self _ _)
          rw [cursors_of_turn htested]
          obtain ⟨honce, hchosen⟩ := hlater hlaterStays
          constructor
          · rw [List.countP_cons_of_neg (by simpa using hturn)]
            exact honce
          · intro hcount
            rw [List.countP_cons_of_neg (by simpa using hturn)] at hcount
            exact hchosen hcount

/-- One call of `pick` takes at least one value of the cursor and at most as many as the order is
long, and chooses the upstream if it meets its turn. -/
theorem pick_takesItsTurn {balancer : Balancer} (hstrategy : balancer.strategy = .roundRobin)
    (id : RouteId) (index : Nat) :
    Ensures (balancer.pick id []) fun trace picked =>
      (trace.filterMap (cursorTaken id)).length ≤ balancer.rrOrder.length ∧
        (trace.filterMap (cursorTaken id)).length ≠ 0 ∧
        (StaysEligible ⟨id, index⟩ trace →
          TakesItsTurn balancer index (trace.filterMap (cursorTaken id))
            (picked.map Prod.fst)) := by
  have hpick : balancer.pickIndex id [] =
      roundRobinFrom balancer id [] balancer.rrOrder.length := by
    rw [pickIndex, hstrategy]
    rfl
  have hrounds : balancer.rrOrder.length ≠ 0 :=
    (List.length_pos_iff.mpr balancer.rrOrder_ne_nil).ne'
  unfold pick
  rw [hpick]
  refine ensures_bind ((roundRobinFrom_takes_few balancer id balancer.rrOrder.length).and
    (roundRobinFrom_takesItsTurn balancer id index balancer.rrOrder.length))
      fun searched choice h => ?_
  obtain ⟨⟨hfew, hsome⟩, hturn⟩ := h
  cases choice with
  | none =>
      refine ensures_done ?_
      rw [List.append_nil]
      exact ⟨hfew, hsome hrounds, hturn⟩
  | some chosen =>
      refine ensures_perform fun _ => ensures_done ?_
      -- Counting the request takes no value.
      have hcursors : (searched ++ [(⟨.guardNew ⟨id, chosen⟩, ()⟩ : Event effects)]).filterMap
          (cursorTaken id) = searched.filterMap (cursorTaken id) := by
        rw [List.filterMap_append]
        exact List.append_nil _
      rw [hcursors]
      exact ⟨hfew, hsome hrounds,
        fun hstays => hturn (hstays.anti (List.subset_append_left _ _))⟩

end Balancer

/-! ## Many calls -/

/-- All calls have returned, and no test of the upstream has failed. -/
structure ServedBeside (upstream : UpstreamId) (pool : PickPool) : Prop where
  done : ∀ thread ∈ pool.threads, thread.rest.isDone = true
  eligible : StaysEligible upstream (pool.log.map Prod.snd)

section Served

variable {balancer : Balancer} {id : RouteId} {world : World}
  {actions : List (Action Unit Input (Elsewhere id))} {index : Nat}

/-- What one of the calls has done. -/
theorem turn_of_servedBeside (hstrategy : balancer.strategy = .roundRobin)
    (hserved : ServedBeside ⟨id, index⟩ (Pool.after (pickers balancer id) world actions))
    {thread : Thread effects Unit (Option (Nat × Upstream))}
    (hthread : thread ∈ (Pool.after (pickers balancer id) world actions).threads) :
    (thread.history.filterMap (cursorTaken id)).length ≤ balancer.rrOrder.length ∧
      (thread.history.filterMap (cursorTaken id)).length ≠ 0 ∧
      (thread.history.filterMap (cursorTaken id)).countP
          (fun cursor => balancer.rrIndex cursor == index) ≤
        if chose index thread then 1 else 0 := by
  have hcoherent := Pool.coherent_after (pickers balancer id) world actions
  obtain ⟨position, hposition⟩ := List.mem_iff_getElem?.mp hthread
  have hsteps := hcoherent.steps position thread hposition
  cases hrest : thread.rest with
  | call op next =>
      have hdone := hserved.done thread hthread
      rw [hrest] at hdone
      cases hdone
  | done picked =>
      rw [hrest] at hsteps
      obtain ⟨hfew, hsome, hturn⟩ := Balancer.pick_takesItsTurn hstrategy id index _ _ hsteps
      have hturn := hturn (hserved.eligible.anti fun event hevent =>
        List.mem_map_of_mem (f := Prod.snd) (hcoherent.mem_log hposition hevent))
      refine ⟨hfew, hsome, ?_⟩
      split
      · exact hturn.once
      · rename_i hchose
        by_contra hcount
        have hpicked := hturn.chosen (by omega)
        refine hchose ?_
        cases picked with
        | none => cases hpicked
        | some picked => simpa [chose, hrest] using hpicked

/-- The values for which a test holds, summed over the calls that took them. -/
theorem sum_cursors (balancer : Balancer) (id : RouteId) (world : World)
    (actions : List (Action Unit Input (Elsewhere id))) (test : UInt64 → Bool) :
    ((Pool.after (pickers balancer id) world actions).threads.map fun thread =>
        ((thread.history.filterMap (cursorTaken id)).countP test : Int)).sum =
      (cursorsTaken id (Pool.after (pickers balancer id) world actions).log).countP test := by
  have hsum := Pool.sum_countP_history (pickers balancer id) world (takesCursor id test) actions
  rw [cursorsTaken, List.countP_filterMap]
  simp only [List.countP_filterMap]
  exact hsum

/-- Every call takes a value, and none more than a round of them. -/
theorem length_cursorsTaken_bounds (hstrategy : balancer.strategy = .roundRobin)
    (hserved : ServedBeside ⟨id, index⟩ (Pool.after (pickers balancer id) world actions)) :
    (Pool.after (pickers balancer id) world actions).threads.length ≤
        (cursorsTaken id (Pool.after (pickers balancer id) world actions).log).length ∧
      (cursorsTaken id (Pool.after (pickers balancer id) world actions).log).length ≤
        (Pool.after (pickers balancer id) world actions).threads.length *
          balancer.rrOrder.length := by
  have htotal := sum_cursors balancer id world actions fun _ => true
  simp only [List.countP_true] at htotal
  constructor
  · have hle := List.card_nsmul_le_sum
      ((Pool.after (pickers balancer id) world actions).threads.map fun thread =>
        ((thread.history.filterMap (cursorTaken id)).length : Int)) 1 (by
          intro share hshare
          obtain ⟨thread, hthread, rfl⟩ := List.mem_map.mp hshare
          have hsome := (turn_of_servedBeside hstrategy hserved hthread).2.1
          omega)
    rw [htotal, List.length_map] at hle
    simpa using hle
  · have hle := List.sum_le_card_nsmul
      ((Pool.after (pickers balancer id) world actions).threads.map fun thread =>
        ((thread.history.filterMap (cursorTaken id)).length : Int)) balancer.rrOrder.length (by
          intro share hshare
          obtain ⟨thread, hthread, rfl⟩ := List.mem_map.mp hshare
          have hfew := (turn_of_servedBeside hstrategy hserved hthread).1
          omega)
    rw [htotal, List.length_map, nsmul_eq_mul] at hle
    exact_mod_cast hle

/-- A turn of the upstream is a call that has chosen it. -/
theorem countP_turns_le (hstrategy : balancer.strategy = .roundRobin)
    (hserved : ServedBeside ⟨id, index⟩ (Pool.after (pickers balancer id) world actions)) :
    (cursorsTaken id (Pool.after (pickers balancer id) world actions).log).countP
        (fun cursor => balancer.rrIndex cursor == index) ≤
      (Pool.after (pickers balancer id) world actions).threads.countP (chose index) := by
  have hle : ((Pool.after (pickers balancer id) world actions).threads.map fun thread =>
      ((thread.history.filterMap (cursorTaken id)).countP
        (fun cursor => balancer.rrIndex cursor == index) : Int)).sum ≤
      (Pool.after (pickers balancer id) world actions).threads.countP (chose index) *
        (1 : Nat) := by
    refine sum_le_countP_mul fun thread hthread => ?_
    have hturn := (turn_of_servedBeside hstrategy hserved hthread).2.2
    cases hchose : chose index thread with
    | true =>
        rw [hchose] at hturn
        exact_mod_cast hturn
    | false =>
        rw [hchose] at hturn
        exact_mod_cast hturn
  rw [sum_cursors, Nat.cast_one, mul_one] at hle
  exact_mod_cast hle

end Served

/-- **No starvation in the round robin.**  For every route of a validated configuration with the
round-robin strategy and every upstream of it: when calls of `pick` with nothing excluded run
from any state in any interleaving and have all returned, and no test of that upstream has
failed, it is chosen at least `turns / W` times its weight, where `turns` is the number of
calls and `W` the sum of the weights, whatever the tests of the others said. -/
theorem round_robin_no_starvation {config : GatewayConfig} (hvalid : config.validate = .ok ())
    {route : RouteConfig} (hroute : route ∈ config.routes)
    (hstrategy : route.strategy = .roundRobin) (id : RouteId) (world : World)
    (actions : List (Action Unit Input (Elsewhere id))) (index : Nat)
    (hserved : ServedBeside ⟨id, index⟩
      (Pool.after (pickers (Balancer.fromRoute route) id) world actions))
    (hwrap : (world.routes id).rrCursor.toNat +
      (Pool.after (pickers (Balancer.fromRoute route) id) world actions).threads.length *
        totalWeight route ≤ 2 ^ 64) :
    (Pool.after (pickers (Balancer.fromRoute route) id) world actions).threads.length /
        totalWeight route * weightAt route index ≤
      (Pool.after (pickers (Balancer.fromRoute route) id) world actions).threads.countP
        (chose index) := by
  set balancer := Balancer.fromRoute route with hbalancer
  set pool := Pool.after (pickers balancer id) world actions with hpool
  have hrouteValid := ((validate_eq_ok_iff config).mp hvalid).routes route hroute
  have hlength : balancer.rrOrder.length = totalWeight route := length_rrOrder hrouteValid
  obtain ⟨hmany, hfew⟩ := length_cursorsTaken_bounds hstrategy hserved
  rw [← hpool, hlength] at hfew
  have hinTurn := inTurn_after balancer id world actions
  have hshare : (cursorsTaken id pool.log).countP (fun cursor => balancer.rrIndex cursor == index) =
      timesTaken balancer.rrOrder index (world.routes id).rrCursor.toNat
        (cursorsTaken id pool.log).length := by
    rw [← countP_rrIndex _ _ _ _ (by omega), ← hinTurn.taken]
  have hbounds := (timesTaken_bounds balancer.rrOrder_ne_nil index
    (world.routes id).rrCursor.toNat (cursorsTaken id pool.log).length).1
  rw [hlength, count_rrOrder hrouteValid] at hbounds
  calc pool.threads.length / totalWeight route * weightAt route index
      ≤ (cursorsTaken id pool.log).length / totalWeight route * weightAt route index :=
        Nat.mul_le_mul_right _ (Nat.div_le_div_right hmany)
    _ ≤ timesTaken balancer.rrOrder index (world.routes id).rrCursor.toNat
          (cursorsTaken id pool.log).length := hbounds
    _ = (cursorsTaken id pool.log).countP (fun cursor => balancer.rrIndex cursor == index) :=
        hshare.symm
    _ ≤ pool.threads.countP (chose index) := countP_turns_le hstrategy hserved

/-- Three calls one after the other; the upstream of weight two is reported down after the first. -/
def besideDown : List (Action Unit Input (Elsewhere 0)) :=
  [.arrive (), .arrive (), .arrive ()] ++ List.replicate 5 (.advance 0 {}) ++
    [.disturb ⟨Probe.report ⟨⟨0, 0⟩, false⟩, fun world => rrCursor_setUpstream world _ _ 0⟩] ++
      List.replicate 9 (.advance 1 {}) ++ List.replicate 9 (.advance 2 {})

/-- The event is a failed test of the upstream. -/
def failedTestOf (upstream : UpstreamId) : Event effects → Bool
  | ⟨.isHealthy tested, healthy⟩ => tested == upstream && !healthy
  | ⟨.allowAt tested _, allowed⟩ => tested == upstream && !allowed
  | _ => false

theorem servedBeside_besideDown :
    ServedBeside ⟨0, 1⟩
      (Pool.after (pickers (Balancer.fromRoute unevenRoute) 0) World.initial besideDown) := by
  have hpassed : ∀ event ∈ (Pool.after (pickers (Balancer.fromRoute unevenRoute) 0) World.initial
      besideDown).log.map Prod.snd, failedTestOf ⟨0, 1⟩ event = false := by decide +kernel
  exact ⟨by decide +kernel, fun hevent => (nomatch hpassed _ hevent),
    fun _ hevent => (nomatch hpassed _ hevent)⟩

/-- The call that meets the turn of the upstream of weight one chooses it. -/
theorem round_robin_no_starvation_down :
    (Pool.after (pickers (Balancer.fromRoute unevenRoute) 0) World.initial
        besideDown).threads.length = 3 ∧
      3 / totalWeight unevenRoute * weightAt unevenRoute 1 = 1 ∧
      3 / totalWeight unevenRoute * weightAt unevenRoute 1 ≤
        (Pool.after (pickers (Balancer.fromRoute unevenRoute) 0) World.initial
          besideDown).threads.countP (chose 1) := by
  have hvalid : ({ routes := [unevenRoute] } : GatewayConfig).validate = .ok () := by decide
  have hlength : (Pool.after (pickers (Balancer.fromRoute unevenRoute) 0) World.initial
      besideDown).threads.length = 3 := by decide +kernel
  have hshare := round_robin_no_starvation hvalid List.mem_cons_self rfl 0 World.initial besideDown
    1 servedBeside_besideDown (by decide +kernel)
  rw [hlength] at hshare
  exact ⟨hlength, by decide, hshare⟩

end Gateway
end ApiGateway
