import ApiGateway.Gateway.PickContention
import ApiGateway.Library.Rotation
import ApiGateway.Library.Tally

/-!
# Fairness of the weighted round robin

Calls of `pick` run side by side on one balancer, in any interleaving, while other things
happen to the gateway.  Each call whose first upstream passes its tests takes exactly one
value of the cursor, and together the calls take consecutive values.  So the upstreams that
are chosen are those of a stretch of the round-robin order, which `Library.Rotation` counts;
which call gets which value does not matter.
-/

namespace ApiGateway
namespace Gateway

open Library Core Program

/-! ## The order -/

theorem count_expand (upstreams : List Upstream) (start index : Nat) :
    ((upstreams.zipIdx start).flatMap fun entry =>
        List.replicate entry.1.weight.toNat entry.2).count (start + index) =
      (upstreams[index]?).elim 0 fun upstream => upstream.weight.toNat := by
  induction upstreams generalizing start index with
  | nil => rfl
  | cons upstream rest ih =>
      rw [List.zipIdx_cons, List.flatMap_cons, List.count_append]
      cases index with
      | zero =>
          have hlater : ((rest.zipIdx (start + 1)).flatMap fun entry =>
              List.replicate entry.1.weight.toNat entry.2).count start = 0 := by
            refine List.count_eq_zero.mpr fun hmem => ?_
            obtain ⟨entry, hentry, hreplicate⟩ := List.mem_flatMap.mp hmem
            have hposition := (List.mem_zipIdx hentry).1
            rw [← List.eq_of_mem_replicate hreplicate] at hposition
            omega
          simp only [Nat.add_zero, hlater, List.count_replicate_self]
          rfl
      | succ index =>
          have hshift : start + (index + 1) = start + 1 + index := by omega
          have hhead : (List.replicate upstream.weight.toNat start).count (start + (index + 1)) =
              0 := by
            rw [List.count_replicate, if_neg]
            simp
          rw [hhead, hshift, ih (start + 1) index]
          simp

/-- Each position stands in the order as often as its weight says. -/
theorem count_expandByWeight (upstreams : List Upstream) (index : Nat) :
    (expandByWeight upstreams).count index =
      (upstreams[index]?).elim 0 fun upstream => upstream.weight.toNat := by
  have h := count_expand upstreams 0 index
  rwa [Nat.zero_add] at h

theorem length_expandByWeight (upstreams : List Upstream) :
    (expandByWeight upstreams).length =
      (upstreams.map fun upstream => upstream.weight.toNat).sum := by
  unfold expandByWeight
  rw [List.length_flatMap]
  simp only [List.length_replicate]
  conv_rhs => rw [← List.zipIdx_map_fst 0 upstreams, List.map_map]
  rfl

/-- The weight of a validated upstream is the configured one. -/
theorem toNat_weight_fromConfig {upstream : UpstreamConfig} (h : upstream.Valid)
    (breaker : CircuitBreakerConfig) :
    (Upstream.fromConfig breaker upstream).weight.toNat = upstream.weight.toNat := by
  have hpos : upstream.weight.toNat ≠ 0 := fun hzero => h.weight (UInt32.toNat_inj.mp hzero)
  change (if upstream.weight ≤ 1 then 1 else upstream.weight : UInt32).toNat = _
  split
  · rename_i hle
    have hone : upstream.weight.toNat ≤ 1 := UInt32.le_iff_toNat_le.mp hle
    have hweight : upstream.weight.toNat = 1 := by omega
    rw [hweight]
    rfl
  · rfl

/-- The weights of a route, by position. -/
def weightAt (route : RouteConfig) (index : Nat) : Nat :=
  (route.upstreams[index]?).elim 0 fun upstream => upstream.weight.toNat

def totalWeight (route : RouteConfig) : Nat :=
  (route.upstreams.map fun upstream => upstream.weight.toNat).sum

section Order

variable {route : RouteConfig} (hvalid : route.Valid)

include hvalid

/-- The order of a validated route is not empty, so no position is made up for it. -/
theorem rrOrder_fromRoute :
    (Balancer.fromRoute route).rrOrder =
      expandByWeight (route.upstreams.map (Upstream.fromConfig route.circuitBreaker)) := by
  refine if_neg fun hempty => ?_
  obtain ⟨first, rest, hupstreams⟩ := List.exists_cons_of_ne_nil hvalid.hasUpstream
  have hfirst := hvalid.upstreams first (hupstreams ▸ List.mem_cons_self)
  have hcount := count_expandByWeight
    (route.upstreams.map (Upstream.fromConfig route.circuitBreaker)) 0
  rw [List.isEmpty_iff.mp hempty, hupstreams] at hcount
  have hzero : first.weight.toNat = 0 :=
    (toNat_weight_fromConfig hfirst route.circuitBreaker).symm.trans hcount.symm
  exact hfirst.weight (UInt32.toNat_inj.mp hzero)

theorem length_rrOrder : (Balancer.fromRoute route).rrOrder.length = totalWeight route := by
  rw [rrOrder_fromRoute hvalid, length_expandByWeight, totalWeight, List.map_map]
  refine congrArg List.sum (List.map_congr_left fun upstream hupstream => ?_)
  exact toNat_weight_fromConfig (hvalid.upstreams upstream hupstream) _

theorem count_rrOrder (index : Nat) :
    (Balancer.fromRoute route).rrOrder.count index = weightAt route index := by
  rw [rrOrder_fromRoute hvalid, count_expandByWeight, weightAt, List.getElem?_map]
  cases hupstream : route.upstreams[index]? with
  | none => rfl
  | some upstream =>
      exact toNat_weight_fromConfig (hvalid.upstreams upstream (List.mem_of_getElem? hupstream)) _

end Order

/-! ## One call takes one turn -/

/-- The value that a call takes from the cursor of the route. -/
def cursorTaken (id : RouteId) : Event effects → Option UInt64
  | ⟨.rrFetchAdd route, cursor⟩ => if route = id then some cursor else none
  | _ => none

namespace Balancer

theorem candidate_takes_none (id : RouteId) (exclude : List Nat) (index : Nat) :
    Ensures (candidate id exclude index) fun trace _ => trace.filterMap (cursorTaken id) = [] := by
  unfold candidate
  split
  · exact ensures_done rfl
  · refine ensures_perform fun healthy => ?_
    cases healthy with
    | false => exact ensures_done rfl
    | true => exact ensures_perform fun now => ensures_perform fun allowed => ensures_done rfl

/-- When no test fails and nothing is excluded, the first upstream in turn is chosen. -/
theorem roundRobinFrom_takes_turn (balancer : Balancer) (id : RouteId) (rounds : Nat) :
    Ensures (roundRobinFrom balancer id [] (rounds + 1)) fun trace choice =>
      (∀ upstream, StaysEligible upstream trace) →
        ∃ cursor, trace.filterMap (cursorTaken id) = [cursor] ∧
          choice = some (balancer.rrIndex cursor) := by
  refine ensures_perform fun cursor => ensures_bind
    ((candidate_vetted id [] _).and (candidate_takes_none id [] _)) fun tested found h => ?_
  obtain ⟨hvetted, htaken⟩ := h
  cases found with
  | true =>
      refine ensures_done fun _ => ⟨cursor, ?_, rfl⟩
      rw [List.append_nil, List.filterMap_cons, htaken]
      simp [cursorTaken]
  | false =>
      intro later choice _ hstays
      refine absurd ((hstays _).anti ?_) (hvetted.2 rfl List.not_mem_nil)
      exact List.Subset.trans (List.subset_append_left tested later) (List.subset_cons_self _ _)

/-- So one call takes one value of the cursor and picks the upstream in turn. -/
theorem pick_takes_turn {balancer : Balancer} (hstrategy : balancer.strategy = .roundRobin)
    (id : RouteId) :
    Ensures (balancer.pick id []) fun trace picked =>
      (∀ upstream, StaysEligible upstream trace) →
        ∃ cursor, trace.filterMap (cursorTaken id) = [cursor] ∧
          picked.map Prod.fst = some (balancer.rrIndex cursor) := by
  obtain ⟨rounds, hrounds⟩ := Nat.exists_eq_succ_of_ne_zero
    (List.length_pos_iff.mpr balancer.rrOrder_ne_nil).ne'
  have hpick : balancer.pickIndex id [] = roundRobinFrom balancer id [] (rounds + 1) := by
    rw [pickIndex, hstrategy]
    exact congrArg (roundRobinFrom balancer id []) hrounds
  unfold pick
  rw [hpick]
  refine ensures_bind (roundRobinFrom_takes_turn balancer id rounds) fun searched choice h => ?_
  cases choice with
  | none =>
      refine ensures_done fun hstays => ?_
      rw [List.append_nil] at hstays
      obtain ⟨_, _, hchoice⟩ := h hstays
      cases hchoice
  | some index =>
      refine ensures_perform fun _ => ensures_done fun hstays => ?_
      obtain ⟨cursor, htaken, hchoice⟩ :=
        h fun upstream => (hstays upstream).anti (List.subset_append_left _ _)
      refine ⟨cursor, ?_, hchoice⟩
      rw [List.filterMap_append, htaken]
      rfl

end Balancer

/-! ## Many calls take consecutive turns -/

/-- Something that happens beside the calls of `pick`.  Only they move the cursor. -/
structure Elsewhere (id : RouteId) where
  change : World → World
  keepsCursor : ∀ world, ((change world).routes id).rrCursor = (world.routes id).rrCursor

/-- Calls of `pick` on one balancer, with nothing excluded, side by side. -/
def pickers (balancer : Balancer) (id : RouteId) :
    Server effects Unit Input (Elsewhere id) World (Option (Nat × Upstream)) where
  interp := interpreter
  start := fun _ => balancer.pick id []
  -- A pick does not wait, so it is never dropped halfway.
  awaits := fun _ => false
  onDrop := fun _ world => world
  disturb := Elsewhere.change

abbrev PickPool := Pool effects Unit World (Option (Nat × Upstream))

theorem rrCursor_setUpstream (world : World) (upstream : UpstreamId) (cell : UpstreamCell)
    (id : RouteId) :
    ((world.setUpstream upstream cell).routes id).rrCursor = (world.routes id).rrCursor := by
  by_cases h : id = upstream.route
  · rw [h, World.setUpstream, World.setRoute_routes_self]
  · rw [World.setUpstream, World.setRoute_routes_ne _ _ h]

theorem rrCursor_setRoute (world : World) (id other : RouteId) (cell : RouteCell)
    (h : cell.rrCursor = (world.routes id).rrCursor) :
    ((world.setRoute id cell).routes other).rrCursor = (world.routes other).rrCursor := by
  by_cases hroute : other = id
  · rw [hroute, World.setRoute_routes_self, h]
  · rw [World.setRoute_routes_ne _ _ hroute]

/-- An operation hands out the cursor and moves it by one, or does not touch it. -/
theorem rrCursor_answer (input : Input) (world : World) (op : Op) (id : RouteId) :
    (cursorTaken id ⟨op, (World.answer input world op).1⟩ = some (world.routes id).rrCursor ∧
        ((World.answer input world op).2.routes id).rrCursor =
          (world.routes id).rrCursor + 1) ∨
      (cursorTaken id ⟨op, (World.answer input world op).1⟩ = none ∧
        ((World.answer input world op).2.routes id).rrCursor = (world.routes id).rrCursor) := by
  cases op with
  | rrFetchAdd route =>
      by_cases hroute : route = id
      · subst hroute
        left
        refine ⟨if_pos rfl, ?_⟩
        change (((world.tick input.elapsed).setRoute route _).routes route).rrCursor = _
        rw [World.setRoute_routes_self]
        rfl
      · right
        refine ⟨if_neg hroute, ?_⟩
        change (((world.tick input.elapsed).setRoute route _).routes id).rrCursor = _
        rw [World.setRoute_routes_ne _ _ (Ne.symm hroute)]
        rfl
  | cacheGet route key =>
      exact Or.inr ⟨rfl, rrCursor_setRoute (world.tick input.elapsed) route id _ rfl⟩
  | cachePut route cache key status headers body =>
      exact Or.inr ⟨rfl,
        rrCursor_setRoute ((world.tick input.elapsed).tick input.held) route id _ rfl⟩
  | guardNew upstream | guardDrop upstream | allowAt upstream _ | recordSuccess upstream
  | recordFailureAt upstream _ _ =>
      exact Or.inr ⟨rfl, rrCursor_setUpstream (world.tick input.elapsed) upstream _ id⟩
  | _ => exact Or.inr ⟨rfl, rfl⟩

/-- The cursor values that the calls of a log take, in their order. -/
def cursorsTaken (id : RouteId) (log : List (Nat × Event effects)) : List UInt64 :=
  log.filterMap fun entry => cursorTaken id entry.2

theorem cursorsTaken_snoc (id : RouteId) (log : List (Nat × Event effects)) (caller : Nat)
    (event : Event effects) :
    cursorsTaken id (log ++ [(caller, event)]) =
      cursorsTaken id log ++ (cursorTaken id event).toList := by
  unfold cursorsTaken
  rw [List.filterMap_append]
  cases h : cursorTaken id event with
  | none => simp [h]
  | some cursor => simp [h]

/-- The values taken since the cursor had the value `first` are consecutive, and the cursor
stands behind them. -/
structure InTurn (id : RouteId) (first : UInt64) (pool : PickPool) : Prop where
  taken : cursorsTaken id pool.log = (List.range (cursorsTaken id pool.log).length).map fun j =>
    first + UInt64.ofNat j
  cursor : (pool.state.routes id).rrCursor =
    first + UInt64.ofNat (cursorsTaken id pool.log).length

/-- One call keeps the values consecutive. -/
theorem InTurn.call {id : RouteId} {first : UInt64} {pool : PickPool} (h : InTurn id first pool)
    (input : Input) (op : Op) (caller : Nat)
    (threads : List (Thread effects Unit (Option (Nat × Upstream)))) :
    InTurn id first
      { state := (World.answer input pool.state op).2
        threads := threads
        log := pool.log ++ [(caller, ⟨op, (World.answer input pool.state op).1⟩)] } := by
  have hlog := cursorsTaken_snoc id pool.log caller ⟨op, (World.answer input pool.state op).1⟩
  rcases rrCursor_answer input pool.state op id with ⟨hfetched, hmoved⟩ | ⟨hnone, hsame⟩
  · rw [hfetched, h.cursor] at hlog
    constructor
    · simp only [hlog, Option.toList_some, List.length_append, List.length_singleton,
        List.range_succ, List.map_append, List.map_cons, List.map_nil]
      rw [← h.taken]
    · simp only [hlog, Option.toList_some, List.length_append, List.length_singleton]
      rw [hmoved, h.cursor, UInt64.add_assoc, UInt64.ofNat_add]
      rfl
  · rw [hnone, Option.toList_none, List.append_nil] at hlog
    constructor
    · simp only [hlog]
      exact h.taken
    · simp only [hlog]
      exact hsame.trans h.cursor

theorem inTurn_after (balancer : Balancer) (id : RouteId) (world : World)
    (actions : List (Action Unit Input (Elsewhere id))) :
    InTurn id (world.routes id).rrCursor (Pool.after (pickers balancer id) world actions) := by
  refine Pool.after_induction (pickers balancer id) world _
    ⟨rfl, (UInt64.add_zero _).symm⟩ ?_ actions
  intro pool action h
  rcases Pool.step_cases (pickers balancer id) pool action with ⟨_, hpool⟩ |
    ⟨caller, _, op, _, input, -, -, hpool⟩ | ⟨_, _, -, hpool⟩ | ⟨other, hpool⟩ | hpool
  · rw [hpool]
    exact ⟨h.taken, h.cursor⟩
  · rw [hpool]
    exact h.call input op caller _
  · rw [hpool]
    exact ⟨h.taken, h.cursor⟩
  · rw [hpool]
    exact ⟨h.taken, (other.keepsCursor pool.state).trans h.cursor⟩
  · rw [hpool]
    exact h

/-! ## Who is chosen how often -/

/-- All calls have returned, and no test of an upstream has failed. -/
structure AllServed (pool : PickPool) : Prop where
  done : ∀ thread ∈ pool.threads, thread.rest.isDone = true
  eligible : ∀ upstream, StaysEligible upstream (pool.log.map Prod.snd)

/-- The call has chosen the upstream at the index. -/
def chose (index : Nat) (thread : Thread effects Unit (Option (Nat × Upstream))) : Bool :=
  match thread.rest with
  | .done (some picked) => picked.1 == index
  | _ => false

/-- The call takes a value of the cursor for which the test holds. -/
def takesCursor (id : RouteId) (test : UInt64 → Bool) (event : Event effects) : Bool :=
  ((cursorTaken id event).map test).getD false

section Served

variable {balancer : Balancer} {id : RouteId} {world : World}
  {actions : List (Action Unit Input (Elsewhere id))}

/-- Every call has taken one value of the cursor and chosen the upstream in turn. -/
theorem exists_turn (hstrategy : balancer.strategy = .roundRobin)
    (hserved : AllServed (Pool.after (pickers balancer id) world actions))
    {thread : Thread effects Unit (Option (Nat × Upstream))}
    (hthread : thread ∈ (Pool.after (pickers balancer id) world actions).threads) :
    ∃ cursor, thread.history.filterMap (cursorTaken id) = [cursor] ∧
      ∀ index, chose index thread = (balancer.rrIndex cursor == index) := by
  have hcoherent := Pool.coherent_after (pickers balancer id) world actions
  obtain ⟨position, hposition⟩ := List.mem_iff_getElem?.mp hthread
  have hsteps := hcoherent.steps position thread hposition
  have hhistory : thread.history ⊆
      (Pool.after (pickers balancer id) world actions).log.map Prod.snd := by
    intro event hevent
    rw [hcoherent.history position thread hposition] at hevent
    obtain ⟨entry, hentry, hsome⟩ := List.mem_filterMap.mp hevent
    split at hsome
    · exact List.mem_map.mpr ⟨entry, hentry, Option.some.inj hsome⟩
    · cases hsome
  cases hrest : thread.rest with
  | call op next =>
      have hdone := hserved.done thread hthread
      rw [hrest] at hdone
      cases hdone
  | done picked =>
      rw [hrest] at hsteps
      obtain ⟨cursor, htaken, hpicked⟩ := Balancer.pick_takes_turn hstrategy id _ _ hsteps
        fun upstream => (hserved.eligible upstream).anti hhistory
      refine ⟨cursor, htaken, fun index => ?_⟩
      cases picked with
      | none => cases hpicked
      | some picked =>
          have hchoice : picked.1 = balancer.rrIndex cursor := Option.some.inj hpicked
          simp only [chose, hrest, hchoice]

/-- The values for which a test holds are counted by the calls that took them. -/
theorem countP_cursorsTaken (test : UInt64 → Bool)
    (counts : Thread effects Unit (Option (Nat × Upstream)) → Bool)
    (h : ∀ thread ∈ (Pool.after (pickers balancer id) world actions).threads,
      ∃ cursor, thread.history.filterMap (cursorTaken id) = [cursor] ∧
        counts thread = test cursor) :
    (Pool.after (pickers balancer id) world actions).threads.countP counts =
      (cursorsTaken id (Pool.after (pickers balancer id) world actions).log).countP test := by
  have hsum := Pool.sum_countP_history (pickers balancer id) world (takesCursor id test) actions
  have hlog : (Pool.after (pickers balancer id) world actions).log.countP
      (fun entry => takesCursor id test entry.2) =
        (cursorsTaken id (Pool.after (pickers balancer id) world actions).log).countP test := by
    rw [cursorsTaken, List.countP_filterMap]
    rfl
  have hthreads : ((Pool.after (pickers balancer id) world actions).threads.map fun thread =>
      (thread.history.countP (takesCursor id test) : Int)).sum =
        (Pool.after (pickers balancer id) world actions).threads.countP counts := by
    refine sum_map_eq_countP fun thread hthread => ?_
    obtain ⟨cursor, htaken, hcounts⟩ := h thread hthread
    have hone : thread.history.countP (takesCursor id test) = [cursor].countP test := by
      rw [← htaken, List.countP_filterMap]
      rfl
    rw [hone, hcounts, List.countP_singleton]
    cases test cursor with
    | true => rfl
    | false => rfl
  rw [hlog, hthreads] at hsum
  exact Int.ofNat_inj.mp hsum

/-- A stretch of the cursor that does not wrap is a stretch of the order. -/
theorem countP_rrIndex (balancer : Balancer) (first : UInt64) (index turns : Nat)
    (hwrap : first.toNat + turns ≤ 2 ^ 64) :
    ((List.range turns).map fun j => first + UInt64.ofNat j).countP
        (fun cursor => balancer.rrIndex cursor == index) =
      timesTaken balancer.rrOrder index first.toNat turns := by
  rw [List.countP_map, timesTaken]
  refine List.countP_congr fun j hj => ?_
  have hlt := List.mem_range.mp hj
  have hvalue : (first + UInt64.ofNat j).toNat = first.toNat + j := by
    rw [UInt64.toNat_add, UInt64.toNat_ofNat']
    omega
  have hpos := List.length_pos_iff.mpr balancer.rrOrder_ne_nil
  simp only [Function.comp_apply, beq_iff_eq, Balancer.rrIndex, hvalue, decide_eq_true_eq,
    List.get_eq_getElem]
  rw [List.getElem?_eq_getElem (Nat.mod_lt _ hpos), Option.some.injEq]

end Served

/-- **Weighted round robin is exactly fair.**  For every route of a validated configuration
with the round-robin strategy: when calls of `pick` with nothing excluded run from any state
in any interleaving and have all returned, no test of an upstream has failed and the cursor
did not wrap, each upstream is chosen at least `turns / W` times its weight and at most
`turns / W`, rounded up, times its weight, where `turns` is the number of calls and `W` the
sum of the weights.  Whole rounds give it exactly its share. -/
theorem weighted_round_robin_fair {config : GatewayConfig} (hvalid : config.validate = .ok ())
    {route : RouteConfig} (hroute : route ∈ config.routes)
    (hstrategy : route.strategy = .roundRobin) (id : RouteId) (world : World)
    (actions : List (Action Unit Input (Elsewhere id)))
    (hserved : AllServed (Pool.after (pickers (Balancer.fromRoute route) id) world actions))
    (hwrap : (world.routes id).rrCursor.toNat +
      (Pool.after (pickers (Balancer.fromRoute route) id) world actions).threads.length ≤ 2 ^ 64)
    (index : Nat) :
    let threads := (Pool.after (pickers (Balancer.fromRoute route) id) world actions).threads
    threads.length / totalWeight route * weightAt route index ≤ threads.countP (chose index) ∧
      threads.countP (chose index) ≤
        (threads.length + totalWeight route - 1) / totalWeight route * weightAt route index ∧
      ∀ rounds, threads.length = rounds * totalWeight route →
        threads.countP (chose index) = rounds * weightAt route index := by
  intro threads
  have hrouteValid := ((validate_eq_ok_iff config).mp hvalid).routes route hroute
  have hturn : ∀ thread ∈ threads, ∃ cursor,
      thread.history.filterMap (cursorTaken id) = [cursor] ∧
        ∀ index, chose index thread = ((Balancer.fromRoute route).rrIndex cursor == index) :=
    fun thread hthread => exists_turn hstrategy hserved hthread
  have hinTurn := inTurn_after (Balancer.fromRoute route) id world actions
  have hlength : threads.length = (cursorsTaken id
      (Pool.after (pickers (Balancer.fromRoute route) id) world actions).log).length := by
    have hall : threads.countP (fun _ => true) = (cursorsTaken id
        (Pool.after (pickers (Balancer.fromRoute route) id) world actions).log).countP
          fun _ => true := by
      refine countP_cursorsTaken _ _ fun thread hthread => ?_
      obtain ⟨cursor, htaken, -⟩ := hturn thread hthread
      exact ⟨cursor, htaken, rfl⟩
    simpa using hall
  have hcount : threads.countP (chose index) =
      timesTaken (Balancer.fromRoute route).rrOrder index (world.routes id).rrCursor.toNat
        threads.length := by
    rw [← countP_rrIndex _ _ _ _ hwrap, hlength, ← hinTurn.taken]
    refine countP_cursorsTaken _ _ fun thread hthread => ?_
    obtain ⟨cursor, htaken, hchose⟩ := hturn thread hthread
    exact ⟨cursor, htaken, hchose index⟩
  have hbounds := timesTaken_bounds (Balancer.fromRoute route).rrOrder_ne_nil index
    (world.routes id).rrCursor.toNat threads.length
  rw [length_rrOrder hrouteValid, count_rrOrder hrouteValid, ← hcount] at hbounds
  refine ⟨hbounds.1, hbounds.2, fun rounds hrounds => ?_⟩
  rw [hcount, hrounds, ← length_rrOrder hrouteValid, timesTaken_rounds, count_rrOrder hrouteValid]

/-- A route with the weights two and one. -/
def unevenRoute : RouteConfig :=
  { name := "uneven", «matches» := { pathPrefix := "/" }
    upstreams := [{ url := "http://a", weight := 2 }, { url := "http://b" }] }

/-- Three calls, each of which makes its next call in turn with the others. -/
def sideBySide : List (Action Unit Input (Elsewhere 0)) :=
  [.arrive (), .arrive (), .arrive ()] ++
    (List.replicate 5 [2, 0, 1]).flatten.map fun caller => .advance caller {}

/-- The event is a test of an upstream that failed. -/
def testFailed : Event effects → Bool
  | ⟨.isHealthy _, healthy⟩ => !healthy
  | ⟨.allowAt _ _, allowed⟩ => !allowed
  | _ => false

theorem staysEligible_of_testFailed {trace : List (Event effects)}
    (h : ∀ event ∈ trace, testFailed event = false) (upstream : UpstreamId) :
    StaysEligible upstream trace :=
  ⟨fun hevent => (nomatch h _ hevent), fun _ hevent => (nomatch h _ hevent)⟩

theorem allServed_sideBySide :
    AllServed (Pool.after (pickers (Balancer.fromRoute unevenRoute) 0) World.initial sideBySide) :=
  ⟨by decide +kernel, staysEligible_of_testFailed (by decide +kernel)⟩

/-- Of three calls, two go to the upstream of weight two. -/
theorem weighted_round_robin_fair_uneven :
    (Pool.after (pickers (Balancer.fromRoute unevenRoute) 0) World.initial
        sideBySide).threads.length = 1 * totalWeight unevenRoute ∧
      (Pool.after (pickers (Balancer.fromRoute unevenRoute) 0) World.initial
        sideBySide).threads.countP (chose 0) = 1 * weightAt unevenRoute 0 := by
  have hlength : (Pool.after (pickers (Balancer.fromRoute unevenRoute) 0) World.initial
      sideBySide).threads.length = 1 * totalWeight unevenRoute := by decide +kernel
  have hvalid : ({ routes := [unevenRoute] } : GatewayConfig).validate = .ok () := by decide
  exact ⟨hlength, (weighted_round_robin_fair hvalid List.mem_cons_self rfl 0 World.initial
    sideBySide allServed_sideBySide (by decide +kernel) 0).2.2 1 hlength⟩

end Gateway
end ApiGateway
