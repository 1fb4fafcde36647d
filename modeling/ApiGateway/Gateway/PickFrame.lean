import ApiGateway.Gateway.SoloPick

/-!
# What a pick leaves alone

A pick should touch the upstream it returns and no other one.  The round robin does, since a
test that moves a breaker to half-open is always its last.  Least connections tests every
upstream before it chooses, so an open breaker whose cooldown is over becomes half-open even
when another upstream gets the request.  `pick_untouched_iff` says for which states of the
upstreams this cannot happen, whatever time it is.
-/

namespace ApiGateway
namespace Gateway

open Library Core Program

/-- The upstream may be chosen: it is one of the balancer's, healthy and not excluded. -/
def World.InPlay (world : World) (balancer : Balancer) (id : RouteId) (exclude : List Nat)
    (index : Nat) : Prop :=
  index < balancer.upstreams.length ∧ index ∉ exclude ∧
    (world.upstream ⟨id, index⟩).healthy = true

/-- Every upstream in play with an open breaker comes before all others in play. -/
def TrialsFirst (world : World) (balancer : Balancer) (id : RouteId) (exclude : List Nat) :
    Prop :=
  ∀ index other, world.InPlay balancer id exclude index →
    (world.upstream ⟨id, index⟩).breaker.state = .opened →
      world.InPlay balancer id exclude other → other ≠ index → world.Precedes id index other

/-- From its deadline on a breaker lets requests through. -/
theorem CircuitBreaker.passes_of_deadline_le {inner : Inner} {now : Instant}
    (h : ∀ deadline ∈ inner.openUntil, deadline ≤ now) : passes inner now = true := by
  cases hstate : inner.state with
  | closed => rw [passes, allowAt_closed hstate]
  | halfOpen => rw [passes, allowAt_halfOpen hstate]
  | opened =>
      cases hdeadline : inner.openUntil with
      | none => simp [passes, allowAt, hstate, hdeadline]
      | some deadline => rw [passes, allowAt_opened_late hstate hdeadline (h deadline hdeadline)]

/-- When trials come first, the survey of least connections changes the chosen upstream
only. -/
theorem Survey.untouched {world searched : World} {balancer : Balancer} {id : RouteId}
    {exclude : List Nat} {wait : Duration} {clock : Nat → Instant} {choice : Option Nat}
    (htrials : TrialsFirst world balancer id exclude)
    (h : Survey id exclude (List.range balancer.upstreams.length) wait world searched clock)
    (hchoice : choice =
      (passing world id exclude clock (List.range balancer.upstreams.length)).argmin
        (world.load id)) :
    OthersUntouched id world searched choice := by
  intro upstream hothers
  obtain ⟨route, index⟩ := upstream
  rw [h.cells]
  split
  · rename_i htested
    obtain ⟨rfl, hindex, hfresh⟩ := htested
    cases hadmits : world.admits ⟨route, index⟩ (clock index) with
    | false => exact UpstreamCell.tested_of_refused hadmits
    | true =>
        by_cases hopened : (world.upstream ⟨route, index⟩).breaker.state = .opened
        · -- It would have passed and come first, so it would have been chosen.
          exfalso
          have hpassing : index ∈ passing world route exclude clock
              (List.range balancer.upstreams.length) := mem_passing.mpr ⟨hindex, hfresh, hadmits⟩
          cases hchosen : choice with
          | none =>
              rw [hchosen] at hchoice
              have hnothing := List.argmin_eq_none.mp hchoice.symm
              rw [hnothing] at hpassing
              cases hpassing
          | some chosen =>
              rw [hchosen] at hchoice
              have hne : index ≠ chosen := fun heq => hothers chosen hchosen (heq ▸ rfl)
              obtain ⟨hmem, hfirst⟩ := precedes_of_argmin hchoice.symm
              obtain ⟨hin, hopen, hadmitted⟩ := mem_passing.mp hmem
              have hplay : ∀ position ∈ List.range balancer.upstreams.length,
                  position ∉ exclude → ∀ now, world.admits ⟨route, position⟩ now = true →
                    world.InPlay balancer route exclude position :=
                fun position hposition hout now hyes =>
                  ⟨List.mem_range.mp hposition, hout, (Bool.and_eq_true_iff.mp hyes).1⟩
              have hbefore := hfirst index hpassing hne
              have hafter := htrials index chosen (hplay index hindex hfresh _ hadmits) hopened
                (hplay chosen hin hopen _ hadmitted) (Ne.symm hne)
              unfold World.Precedes at hbefore hafter
              omega
        · exact UpstreamCell.tested_of_not_opened _ hopened
  · rfl

/-- An upstream with an open breaker in play is changed when it is tested late enough, so it
has to be the chosen one. -/
theorem Survey.trialsFirst {world searched : World} {balancer : Balancer} {id : RouteId}
    {exclude : List Nat} {wait : Duration} {clock : Nat → Instant} {choice : Option Nat}
    (h : Survey id exclude (List.range balancer.upstreams.length) wait world searched clock)
    (hchoice : choice =
      (passing world id exclude clock (List.range balancer.upstreams.length)).argmin
        (world.load id))
    (huntouched : OthersUntouched id world searched choice) {index other : Nat}
    (hindex : world.InPlay balancer id exclude index)
    (hopened : (world.upstream ⟨id, index⟩).breaker.state = .opened)
    (hother : world.InPlay balancer id exclude other) (hne : other ≠ index)
    (hlate : ∀ position, position = index ∨ position = other →
      ∀ deadline ∈ (world.upstream ⟨id, position⟩).breaker.openUntil, deadline ≤ wait) :
    world.Precedes id index other := by
  have hpasses : ∀ position, position = index ∨ position = other →
      world.InPlay balancer id exclude position →
        position ∈ passing world id exclude clock (List.range balancer.upstreams.length) := by
    intro position heither hplay
    obtain ⟨hlt, hfresh, hhealthy⟩ := hplay
    refine mem_passing.mpr ⟨List.mem_range.mpr hlt, hfresh, ?_⟩
    rw [World.admits, hhealthy, Bool.true_and]
    refine CircuitBreaker.passes_of_deadline_le fun deadline hdeadline => ?_
    have hclock := (h.between position (List.mem_range.mpr hlt) hfresh).1
    exact (hlate position heither deadline hdeadline).trans ((Nat.le_add_left _ _).trans hclock)
  have hmem := hpasses index (Or.inl rfl) hindex
  have hchanged : searched.upstream ⟨id, index⟩ ≠ world.upstream ⟨id, index⟩ := by
    rw [h.cells, if_pos ⟨rfl, List.mem_range.mpr hindex.1, hindex.2.1⟩]
    refine UpstreamCell.tested_ne_of_opened hindex.2.2 hopened ?_
    exact (Bool.and_eq_true_iff.mp (mem_passing.mp hmem).2.2).2
  have hchosen : choice = some index := by
    by_contra hnot
    refine hchanged (huntouched ⟨id, index⟩ ?_)
    rintro chosen hchosen ⟨⟩
    exact hnot hchosen
  rw [hchosen] at hchoice
  exact (precedes_of_argmin hchoice.symm).2 other (hpasses other (Or.inr rfl) hother) hne

/-- The guard of the chosen upstream changes that one only. -/
theorem Counted.untouched {id : RouteId} {world searched final : World} {choice : Option Nat}
    (h : Counted id searched final choice) :
    OthersUntouched id world final choice ↔ OthersUntouched id world searched choice := by
  have hsame : ∀ upstream : UpstreamId, (∀ index ∈ choice, upstream ≠ ⟨id, index⟩) →
      final.upstream upstream = searched.upstream upstream := by
    intro upstream hothers
    rw [h.cells, if_neg]
    rintro ⟨hroute, hchosen⟩
    exact hothers upstream.index hchosen (hroute ▸ rfl)
  constructor
  · intro hfinal upstream hothers
    rw [← hsame upstream hothers]
    exact hfinal upstream hothers
  · intro hsearched upstream hothers
    rw [hsame upstream hothers]
    exact hsearched upstream hothers

/-- One run of `pick` alone leaves every upstream but the picked one as it was. -/
def PickUntouched (balancer : Balancer) (id : RouteId) (exclude : List Nat) (world : World)
    (inputs : Nat → Input) : Prop :=
  let run := (balancer.pick id exclude).exec interpreter inputs world
  OthersUntouched id world run.state (run.value.map Prod.fst)

theorem pickUntouched_roundRobin {balancer : Balancer} (hstrategy : balancer.strategy = .roundRobin)
    (id : RouteId) (exclude : List Nat) (world : World) (inputs : Nat → Input) :
    PickUntouched balancer id exclude world inputs := by
  have hsearch : Alone (fun _ => True) world (balancer.pickIndex id exclude)
      fun choice _ searched => OthersUntouched id world searched choice := by
    rw [Balancer.pickIndex, hstrategy]
    exact roundRobinFrom_untouched balancer id exclude _ world
  obtain ⟨searched, huntouched, hcounted⟩ :=
    pick_alone hsearch inputs world (fun _ => trivial) rfl
  exact hcounted.untouched.mpr huntouched

/-- **When a pick disturbs only what it picks.**  A pick leaves the breaker, the health flag
and the active count of every upstream but the picked one as they were, at whatever times it
runs, exactly when the strategy is the round robin, or every upstream that is healthy, not
excluded and has an open breaker is less loaded than every other healthy one that is not
excluded, or equally loaded and before it. -/
theorem pick_untouched_iff (balancer : Balancer) (id : RouteId) (exclude : List Nat)
    (world : World) :
    (∀ inputs, PickUntouched balancer id exclude world inputs) ↔
      balancer.strategy = .roundRobin ∨ TrialsFirst world balancer id exclude := by
  cases hstrategy : balancer.strategy with
  | roundRobin =>
      exact iff_of_true (pickUntouched_roundRobin hstrategy id exclude world) (Or.inl rfl)
  | leastConnections =>
      constructor
      · intro huntouched
        refine Or.inr fun index other hindex hopened hother hne => ?_
        -- Wait for the cooldowns of both upstreams before each call.
        let wait : Duration := ((world.upstream ⟨id, index⟩).breaker.openUntil.getD 0) +
          ((world.upstream ⟨id, other⟩).breaker.openUntil.getD 0)
        have hrun := huntouched fun _ => { elapsed := wait }
        obtain ⟨searched, clock, hsurvey, hchoice, hcounted⟩ :=
          pick_surveyed hstrategy id exclude world fun n : Nat =>
            Nat.le_refl ((fun _ => { elapsed := wait } : Nat → Input) n).elapsed
        refine hsurvey.trialsFirst hchoice (hcounted.untouched.mp hrun) hindex hopened hother hne ?_
        rintro position (rfl | rfl) deadline hdeadline
        · rw [Option.mem_def] at hdeadline
          simp only [wait, hdeadline, Option.getD_some]
          exact Nat.le_add_right _ _
        · rw [Option.mem_def] at hdeadline
          simp only [wait, hdeadline, Option.getD_some]
          exact Nat.le_add_left _ _
      · rintro (hround | htrials) inputs
        · cases hround
        · obtain ⟨searched, clock, hsurvey, hchoice, hcounted⟩ :=
            pick_surveyed hstrategy id exclude world fun n => Nat.zero_le (inputs n).elapsed
          exact hcounted.untouched.mpr (hsurvey.untouched htrials hchoice)

/-- Two upstreams by least connections. -/
def leastConnBalancer : Balancer :=
  .fromRoute
    { name := "pair", «matches» := { pathPrefix := "/" }, strategy := .leastConnections
      upstreams := [{ url := "http://a" }, { url := "http://b" }]
      circuitBreaker := { failureThreshold := 1, openSecs := 1 } }

/-- Both upstreams have failed once, which opened their breakers. -/
def bothFailed : World :=
  let failed := (World.answer {} World.initial (.recordFailureAt ⟨0, 0⟩ (.new 1 1) 0)).2
  (World.answer {} failed (.recordFailureAt ⟨0, 1⟩ (.new 1 1) 0)).2

/-- After the cooldown the first upstream is picked, and the second one is half-open without
a trial. -/
theorem pick_disturbs_other :
    ¬ ∀ (balancer : Balancer) (id : RouteId) (exclude : List Nat) (world : World)
      (inputs : Nat → Input), PickUntouched balancer id exclude world inputs := by
  intro hclaim
  have hsame := hclaim leastConnBalancer 0 [] bothFailed
    (fun _ => { elapsed := Duration.fromSecs 1 }) ⟨0, 1⟩ (by
      intro index hindex
      have hpicked : some 0 = some index := hindex
      obtain rfl := Option.some.inj hpicked
      exact nofun)
  have hstate : BreakerState.halfOpen = BreakerState.opened :=
    congrArg (fun cell => cell.breaker.state) hsame
  cases hstate

end Gateway
end ApiGateway
