import ApiGateway.Gateway.Effects

/-!
# Load balancing over the upstreams of a route

`Balancer` is the part of the source's balancer that never changes: the upstreams,
the strategy and the order of the weighted round robin.  The cursor, the health
flags, the active counts and the breaker records are cells of the shared state and
are reached by calls, one call for each atomic operation of the source.

`pick_ensures` is what every caller relies on, whatever the answers to those calls
are: a picked index is in range and not excluded, and picking itself sends nothing
and reports no outcome.
-/

namespace ApiGateway
namespace Gateway

open Library Core Program

/-- The fixed part of an upstream. -/
structure Upstream where
  url : String
  weight : UInt32
  breaker : CircuitBreaker

/-- Per-route balancer.  The round-robin order is never empty, and it stays within
the upstreams of a route that has any. -/
structure Balancer where
  upstreams : List Upstream
  strategy : Strategy
  rrOrder : List Nat
  rrOrder_ne_nil : rrOrder ≠ []
  rrOrder_lt : upstreams ≠ [] → ∀ index ∈ rrOrder, index < upstreams.length

def Upstream.fromConfig (breaker : CircuitBreakerConfig) (upstream : UpstreamConfig) :
    Upstream where
  url := Text.trimEndMatches upstream.url '/'
  weight := max upstream.weight 1
  breaker := .new breaker.failureThreshold breaker.openSecs

/-- The positions of the upstreams, each as often as its weight says. -/
def expandByWeight (upstreams : List Upstream) : List Nat :=
  upstreams.zipIdx.flatMap fun entry => List.replicate entry.1.weight.toNat entry.2

theorem lt_of_mem_expandByWeight {upstreams : List Upstream} {index : Nat}
    (h : index ∈ expandByWeight upstreams) : index < upstreams.length := by
  obtain ⟨⟨upstream, position⟩, hentry, hindex⟩ := List.mem_flatMap.mp h
  obtain rfl : index = position := List.eq_of_mem_replicate hindex
  have hlt := (List.mem_zipIdx hentry).2.1
  omega

namespace Balancer

def fromRoute (route : RouteConfig) : Balancer :=
  let upstreams := route.upstreams.map (Upstream.fromConfig route.circuitBreaker)
  { upstreams := upstreams
    strategy := route.strategy
    -- A route without upstreams gets the order `[0]`, which is out of its range.
    rrOrder := if (expandByWeight upstreams).isEmpty then [0] else expandByWeight upstreams
    rrOrder_ne_nil := by
      split
      · simp
      · rename_i h
        simpa using h
    rrOrder_lt := by
      intro hupstreams index hindex
      split at hindex
      · rw [List.mem_singleton.mp hindex]
        exact List.length_pos_iff.mpr hupstreams
      · exact lt_of_mem_expandByWeight hindex }

/-- The position the round robin has at a cursor value. -/
def rrIndex (balancer : Balancer) (cursor : UInt64) : Nat :=
  balancer.rrOrder.get ⟨cursor.toNat % balancer.rrOrder.length,
    Nat.mod_lt _ (List.length_pos_iff.mpr balancer.rrOrder_ne_nil)⟩

/-- The upstream at an index.  The source panics outside the range; a picked index
is inside it. -/
def upstreamAt (balancer : Balancer) (index : Nat) : Upstream :=
  balancer.upstreams.getD index { url := "", weight := 1, breaker := .new 1 1 }

end Balancer

/-- Eligible: the health flag is set and the breaker lets the request through.  The
breaker is only asked about a healthy upstream. -/
def eligible (upstream : UpstreamId) : GatewayProgram Bool := do
  let healthy ← perform (.isHealthy upstream)
  if healthy then do
    let now ← perform .instantNow
    perform (.allowAt upstream now)
  else
    return false

namespace Balancer

/-- Not excluded, and eligible.  Nothing is asked about an excluded upstream. -/
def candidate (id : RouteId) (exclude : List Nat) (index : Nat) : GatewayProgram Bool :=
  if index ∈ exclude then return false else eligible ⟨id, index⟩

/-- The first candidate among the given positions. -/
def firstEligible (id : RouteId) (exclude : List Nat) : List Nat → GatewayProgram (Option Nat)
  | [] => return none
  | index :: rest => do
      let found ← candidate id exclude index
      if found then return some index else firstEligible id exclude rest

/-- The remaining rounds of the round robin, then any candidate at all. -/
def roundRobinFrom (balancer : Balancer) (id : RouteId) (exclude : List Nat) :
    Nat → GatewayProgram (Option Nat)
  | 0 => firstEligible id exclude (List.range balancer.upstreams.length)
  | rounds + 1 => do
      -- The cursor is shared and wraps, and is taken even when its position is excluded.
      let cursor ← perform (.rrFetchAdd id)
      let found ← candidate id exclude (balancer.rrIndex cursor)
      if found then return some (balancer.rrIndex cursor)
      else roundRobinFrom balancer id exclude rounds

def pickRoundRobin (balancer : Balancer) (id : RouteId) (exclude : List Nat) :
    GatewayProgram (Option Nat) :=
  roundRobinFrom balancer id exclude balancer.rrOrder.length

/-- Of two candidates with their loads, the one with the smaller load, and the
earlier one when the loads are equal. -/
def lessLoaded (best : Option (Int × Nat)) (load : Int) (index : Nat) : Int × Nat :=
  match best with
  | none => (load, index)
  | some current => if load < current.1 then (load, index) else current

/-- The least loaded candidate among the best so far and the given positions.  The
load of a candidate is read right after its test. -/
def leastLoaded (id : RouteId) (exclude : List Nat) (best : Option (Int × Nat)) :
    List Nat → GatewayProgram (Option Nat)
  | [] => return best.map Prod.snd
  | index :: rest => do
      let found ← candidate id exclude index
      if found then do
        -- Later candidates are tested before the pick is over, so the load may be stale.
        let load ← perform (.active ⟨id, index⟩)
        leastLoaded id exclude (some (lessLoaded best load index)) rest
      else
        leastLoaded id exclude best rest

def pickLeastConn (balancer : Balancer) (id : RouteId) (exclude : List Nat) :
    GatewayProgram (Option Nat) :=
  leastLoaded id exclude none (List.range balancer.upstreams.length)

def pickIndex (balancer : Balancer) (id : RouteId) (exclude : List Nat) :
    GatewayProgram (Option Nat) :=
  match balancer.strategy with
  | .roundRobin => pickRoundRobin balancer id exclude
  | .leastConnections => pickLeastConn balancer id exclude

/-- Pick an eligible upstream by the configured strategy and count a request on it.
The count is taken back when the guard is dropped. -/
def pick (balancer : Balancer) (id : RouteId) (exclude : List Nat) :
    GatewayProgram (Option (Nat × Upstream)) := do
  let choice ← pickIndex balancer id exclude
  match choice with
  | none => return none
  | some index => do
      perform (.guardNew ⟨id, index⟩)
      return some (index, balancer.upstreamAt index)

/-! ## What picking does, whatever is answered -/

/-- The calls that belong to picking an upstream of one runtime. -/
def IsPickCall (id : RouteId) : Op → Prop
  | .rrFetchAdd route => route = id
  | .isHealthy upstream | .allowAt upstream _ | .active upstream | .guardNew upstream =>
      upstream.route = id
  | .instantNow => True
  | _ => False

/-- The calls of the search for an upstream among the given positions: all of these but
counting a request. -/
def IsSearchCall (id : RouteId) (searched : Nat → Prop) : Op → Prop
  | .rrFetchAdd route => route = id
  | .isHealthy upstream | .allowAt upstream _ | .active upstream =>
      upstream.route = id ∧ searched upstream.index
  | .instantNow => True
  | _ => False

theorem isPickCall_of_isSearchCall {id : RouteId} {searched : Nat → Prop} {op : Op}
    (h : IsSearchCall id searched op) : IsPickCall id op := by
  cases op with
  | rrFetchAdd _ => exact h
  | isHealthy _ | allowAt _ _ | active _ => exact h.1
  | instantNow => trivial
  | _ => cases h

theorem candidate_makes (id : RouteId) (exclude : List Nat) {searched : Nat → Prop} {index : Nat}
    (h : index ∉ exclude → searched index) :
    (candidate id exclude index).Makes (IsSearchCall id searched) := by
  unfold candidate
  split
  · trivial
  · rename_i hindex
    have hsearched := h hindex
    refine ⟨⟨rfl, hsearched⟩, fun healthy => ?_⟩
    cases healthy with
    | false => trivial
    | true => exact ⟨trivial, fun now => ⟨⟨rfl, hsearched⟩, fun _ => trivial⟩⟩

/-- Only an upstream that is not excluded is found. -/
theorem candidate_ensures (id : RouteId) (exclude : List Nat) (index : Nat) :
    Ensures (candidate id exclude index) fun _ found => found = true → index ∉ exclude := by
  unfold candidate
  split
  · exact ensures_done nofun
  · rename_i hindex
    exact fun _ _ _ _ => hindex

theorem firstEligible_makes (id : RouteId) (exclude : List Nat) {searched : Nat → Prop}
    {positions : List Nat} (h : ∀ index ∈ positions, index ∉ exclude → searched index) :
    (firstEligible id exclude positions).Makes (IsSearchCall id searched) := by
  induction positions with
  | nil => trivial
  | cons index rest ih =>
      refine makes_bind (candidate_makes id exclude (h index List.mem_cons_self))
        fun _ found _ => ?_
      cases found with
      | true => trivial
      | false => exact ih fun other hother => h other (List.mem_cons_of_mem _ hother)

theorem firstEligible_ensures (id : RouteId) (exclude positions : List Nat) :
    Ensures (firstEligible id exclude positions) fun _ choice =>
      ∀ index ∈ choice, index ∈ positions ∧ index ∉ exclude := by
  induction positions with
  | nil => exact ensures_done nofun
  | cons index rest ih =>
      refine ensures_bind (candidate_ensures id exclude index) fun _ found hfound => ?_
      cases found with
      | true =>
          refine ensures_done ?_
          rintro _ ⟨⟩
          exact ⟨List.mem_cons_self, hfound rfl⟩
      | false =>
          exact ih.mono fun _ _ hrest index hindex =>
            ⟨List.mem_cons_of_mem _ (hrest index hindex).1, (hrest index hindex).2⟩

/-- The positions a balancer searches: those of the round-robin order and those of its
upstreams, less the excluded ones. -/
def Searches (balancer : Balancer) (exclude : List Nat) (index : Nat) : Prop :=
  (index ∈ balancer.rrOrder ∨ index < balancer.upstreams.length) ∧ index ∉ exclude

theorem roundRobinFrom_makes (balancer : Balancer) (id : RouteId) (exclude : List Nat)
    (rounds : Nat) :
    (roundRobinFrom balancer id exclude rounds).Makes
      (IsSearchCall id (balancer.Searches exclude)) := by
  induction rounds with
  | zero =>
      exact firstEligible_makes id exclude fun index hindex hfresh =>
        ⟨Or.inr (List.mem_range.mp hindex), hfresh⟩
  | succ rounds ih =>
      refine makes_perform rfl fun cursor => makes_bind (candidate_makes id exclude fun hfresh =>
        ⟨Or.inl (List.get_mem _ _), hfresh⟩) fun _ found _ => ?_
      cases found with
      | true => trivial
      | false => exact ih

theorem rrIndex_lt (balancer : Balancer) (hupstreams : balancer.upstreams ≠ [])
    (cursor : UInt64) : balancer.rrIndex cursor < balancer.upstreams.length :=
  balancer.rrOrder_lt hupstreams _ (List.get_mem _ _)

theorem roundRobinFrom_ensures (balancer : Balancer) (hupstreams : balancer.upstreams ≠ [])
    (id : RouteId) (exclude : List Nat) (rounds : Nat) :
    Ensures (roundRobinFrom balancer id exclude rounds) fun _ choice =>
      ∀ index ∈ choice, index < balancer.upstreams.length ∧ index ∉ exclude := by
  -- After the last round the fallback searches all positions in order.
  induction rounds with
  | zero =>
      exact (firstEligible_ensures id exclude _).mono fun _ _ hchoice index hindex =>
        ⟨List.mem_range.mp (hchoice index hindex).1, (hchoice index hindex).2⟩
  | succ rounds ih =>
      refine ensures_perform fun cursor =>
        ensures_bind (candidate_ensures id exclude _) fun _ found hfound => ?_
      cases found with
      | true =>
          refine ensures_done ?_
          rintro _ ⟨⟩
          exact ⟨rrIndex_lt balancer hupstreams cursor, hfound rfl⟩
      | false => exact ih

theorem leastLoaded_makes (id : RouteId) (exclude : List Nat) {searched : Nat → Prop}
    (best : Option (Int × Nat)) {positions : List Nat}
    (h : ∀ index ∈ positions, index ∉ exclude → searched index) :
    (leastLoaded id exclude best positions).Makes (IsSearchCall id searched) := by
  induction positions generalizing best with
  | nil => trivial
  | cons index rest ih =>
      have hindex := h index List.mem_cons_self
      have hrest : ∀ other ∈ rest, other ∉ exclude → searched other :=
        fun other hother => h other (List.mem_cons_of_mem _ hother)
      refine makes_bind (candidate_makes id exclude hindex) fun trace found hfound => ?_
      cases found with
      | true =>
          have hfresh := candidate_ensures id exclude index trace true hfound rfl
          exact ⟨⟨rfl, hindex hfresh⟩, fun load => ih _ hrest⟩
      | false => exact ih _ hrest

/-- The better of two candidates is one of them. -/
theorem lessLoaded_snd (best : Option (Int × Nat)) (load : Int) (index : Nat) :
    (lessLoaded best load index).2 = index ∨
      (lessLoaded best load index).2 ∈ best.map Prod.snd := by
  cases best with
  | none => exact Or.inl rfl
  | some current =>
      simp only [lessLoaded]
      split
      · exact Or.inl rfl
      · exact Or.inr rfl

theorem leastLoaded_ensures (id : RouteId) (exclude positions : List Nat)
    (best : Option (Int × Nat)) :
    Ensures (leastLoaded id exclude best positions) fun _ choice =>
      ∀ index ∈ choice, (index ∈ positions ∧ index ∉ exclude) ∨ index ∈ best.map Prod.snd := by
  induction positions generalizing best with
  | nil => exact ensures_done fun index hindex => Or.inr hindex
  | cons position rest ih =>
      refine ensures_bind (candidate_ensures id exclude position) fun _ found hfound => ?_
      cases found with
      | true =>
          refine ensures_perform fun load => (ih _).mono fun _ _ hchoice index hindex => ?_
          rcases hchoice index hindex with hrest | hbest
          · exact Or.inl ⟨List.mem_cons_of_mem _ hrest.1, hrest.2⟩
          · obtain rfl : (lessLoaded best load position).2 = index := Option.some.inj hbest
            rcases lessLoaded_snd best load position with hnew | hold
            · rw [hnew]
              exact Or.inl ⟨List.mem_cons_self, hfound rfl⟩
            · exact Or.inr hold
      | false =>
          refine (ih best).mono fun _ _ hchoice index hindex => ?_
          rcases hchoice index hindex with hrest | hbest
          · exact Or.inl ⟨List.mem_cons_of_mem _ hrest.1, hrest.2⟩
          · exact Or.inr hbest

theorem pickIndex_makes (balancer : Balancer) (id : RouteId) (exclude : List Nat) :
    (pickIndex balancer id exclude).Makes (IsSearchCall id (balancer.Searches exclude)) := by
  unfold pickIndex
  split
  · exact roundRobinFrom_makes balancer id exclude _
  · exact leastLoaded_makes id exclude none fun index hindex hfresh =>
      ⟨Or.inr (List.mem_range.mp hindex), hfresh⟩

theorem pickIndex_ensures (balancer : Balancer) (hupstreams : balancer.upstreams ≠ [])
    (id : RouteId) (exclude : List Nat) :
    Ensures (pickIndex balancer id exclude) fun _ choice =>
      ∀ index ∈ choice, index < balancer.upstreams.length ∧ index ∉ exclude := by
  unfold pickIndex
  split
  · exact roundRobinFrom_ensures balancer hupstreams id exclude _
  · refine (leastLoaded_ensures id exclude _ none).mono fun _ _ hchoice index hindex => ?_
    rcases hchoice index hindex with hfound | hnone
    · exact ⟨List.mem_range.mp hfound.1, hfound.2⟩
    · cases hnone

theorem pick_makes (balancer : Balancer) (id : RouteId) (exclude : List Nat) :
    (pick balancer id exclude).Makes (IsPickCall id) := by
  refine makes_bind ((pickIndex_makes balancer id exclude).mono fun _ hop =>
    isPickCall_of_isSearchCall hop) fun _ choice _ => ?_
  cases choice with
  | none => trivial
  | some index => exact ⟨rfl, fun _ => trivial⟩

theorem pick_makesKinds (balancer : Balancer) (id : RouteId) (exclude : List Nat) :
    MakesKinds [.pick, .ambient] (pick balancer id exclude) := by
  refine (pick_makes balancer id exclude).mono fun op h => ?_
  cases op with
  | rrFetchAdd _ | isHealthy _ | allowAt _ _ | active _ | guardNew _ | instantNow => simp
  | _ => cases h

/-- A picked index is in range and not excluded. -/
theorem pick_ensures (balancer : Balancer) (hupstreams : balancer.upstreams ≠ [])
    (id : RouteId) (exclude : List Nat) :
    Ensures (pick balancer id exclude) fun _ picked =>
      ∀ index upstream, picked = some (index, upstream) →
        index < balancer.upstreams.length ∧ index ∉ exclude ∧
          upstream = balancer.upstreamAt index := by
  refine ensures_bind (pickIndex_ensures balancer hupstreams id exclude) fun _ choice hchoice => ?_
  cases choice with
  | none => exact ensures_done nofun
  | some picked =>
      refine ensures_perform fun _ => ensures_done ?_
      rintro index upstream ⟨⟩
      exact ⟨(hchoice picked rfl).1, (hchoice picked rfl).2, rfl⟩

end Balancer
end Gateway
end ApiGateway
