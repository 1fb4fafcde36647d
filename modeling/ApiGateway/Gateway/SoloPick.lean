import Mathlib
import ApiGateway.Gateway.Admission
import ApiGateway.Library.FirstMaximum

/-!
# One pick, alone

What `pick` does to the cells of the upstreams when nothing else runs.  Testing an upstream
may move its breaker from open to half-open; nothing else is written before the request is
counted.  The round robin and the search in order stop at the first upstream that passes,
so a test that changes a cell is the last one.  Least connections tests all upstreams that
are not excluded and then takes the least loaded of those that passed: `Survey`.
-/

namespace ApiGateway
namespace Gateway

open Library Core Program

namespace UpstreamCell

/-- The cell after a test at the given instant.  The breaker of an unhealthy upstream is not
asked. -/
def tested (cell : UpstreamCell) (now : Instant) : UpstreamCell :=
  if cell.healthy then { cell with breaker := (CircuitBreaker.allowAt cell.breaker now).2 }
  else cell

@[simp] theorem tested_active (cell : UpstreamCell) (now : Instant) :
    (cell.tested now).active = cell.active := by
  unfold tested
  split <;> rfl

/-- A test that fails changes nothing. -/
theorem tested_of_refused {cell : UpstreamCell} {now : Instant}
    (h : (cell.healthy && CircuitBreaker.passes cell.breaker now) = false) :
    cell.tested now = cell := by
  unfold tested
  split
  · rename_i hhealthy
    rw [hhealthy, Bool.true_and] at h
    rw [CircuitBreaker.allowAt_of_refused h]
  · rfl

/-- A breaker that is not open is not changed by a test. -/
theorem tested_of_not_opened {cell : UpstreamCell} (now : Instant)
    (h : cell.breaker.state ≠ .opened) : cell.tested now = cell := by
  unfold tested
  split
  · cases hstate : cell.breaker.state with
    | closed => rw [CircuitBreaker.allowAt_closed hstate]
    | halfOpen => rw [CircuitBreaker.allowAt_halfOpen hstate]
    | opened => exact absurd hstate h
  · rfl

/-- An open breaker that lets the request through is open no more. -/
theorem tested_ne_of_opened {cell : UpstreamCell} {now : Instant} (hhealthy : cell.healthy = true)
    (hopened : cell.breaker.state = .opened)
    (hpasses : CircuitBreaker.passes cell.breaker now = true) : cell.tested now ≠ cell := by
  intro hsame
  have hstate : (cell.tested now).breaker.state = .halfOpen := by
    rw [tested, if_pos hhealthy, CircuitBreaker.allowAt_of_passes_opened hopened hpasses]
  rw [hsame, hopened] at hstate
  cases hstate

end UpstreamCell

/-! ## One test -/

/-- The position was tested at the instant `now`, at least `wait` after the start, unless it
is excluded: what was found, and what became of the cells. -/
structure Asked (id : RouteId) (exclude : List Nat) (index : Nat) (wait : Duration)
    (world final : World) (now : Instant) (found : Bool) : Prop where
  now_le : world.now ≤ final.now
  between : index ∉ exclude → world.now + wait ≤ now ∧ now ≤ final.now
  found_eq : found = (decide (index ∉ exclude) && world.admits ⟨id, index⟩ now)
  cells : ∀ upstream, final.upstream upstream =
    if upstream = ⟨id, index⟩ ∧ index ∉ exclude then (world.upstream upstream).tested now
    else world.upstream upstream

section Tests

variable {permitted : Input → Prop} {wait : Duration}
  (hwait : ∀ input, permitted input → wait ≤ input.elapsed)

include hwait

theorem eligible_asked (upstream : UpstreamId) (world : World) :
    Alone permitted world (eligible upstream) fun found _ final =>
      ∃ now, world.now + wait ≤ now ∧ now ≤ final.now ∧ found = world.admits upstream now ∧
        ∀ other, final.upstream other =
          if other = upstream then (world.upstream other).tested now
          else world.upstream other := by
  refine triple_perform fun input hinput start hstart => ?_
  subst hstart
  have hfirst : start.now + wait ≤ (start.tick input.elapsed).now :=
    Nat.add_le_add_left (hwait input hinput) _
  have hflag : (World.answer input start (.isHealthy upstream)).1 =
      (start.upstream upstream).healthy := rfl
  rw [hflag]
  cases hhealthy : (start.upstream upstream).healthy with
  | false =>
      refine triple_done ?_
      rintro _ rfl
      refine ⟨(start.tick input.elapsed).now, hfirst, Nat.le_refl _, ?_, fun other => ?_⟩
      · simp [World.admits, hhealthy]
      · split
        · rename_i hother
          have hcell : (start.upstream other).tested (start.tick input.elapsed).now =
              start.upstream other := if_neg (by simp [hother, hhealthy])
          rw [hcell]
          rfl
        · rfl
  | true =>
      refine triple_perform fun read _ asked hasked => triple_perform fun last _ final hfinal => ?_
      subst hasked hfinal
      refine triple_done ?_
      rintro _ rfl
      refine ⟨((start.tick input.elapsed).tick read.elapsed).now, ?_, ?_, ?_, fun other => ?_⟩
      · exact hfirst.trans (Nat.le_add_right _ _)
      · exact Nat.le_add_right _ _
      · rw [World.admits, hhealthy, Bool.true_and]
        rfl
      · rw [World.upstream_answer]
        by_cases hother : other = upstream
        · subst hother
          rw [if_pos rfl, UpstreamCell.tested, if_pos hhealthy]
          exact if_pos rfl
        · rw [if_neg hother]
          exact if_neg (Ne.symm hother)

theorem candidate_asked (id : RouteId) (exclude : List Nat) (index : Nat) (world : World) :
    Alone permitted world (Balancer.candidate id exclude index) fun found _ final =>
      ∃ now, Asked id exclude index wait world final now found := by
  unfold Balancer.candidate
  split
  · rename_i hexcluded
    refine triple_done ?_
    rintro _ rfl
    refine ⟨0, Nat.le_refl _, fun hfresh => absurd hexcluded hfresh, ?_, fun upstream => ?_⟩
    · simp [hexcluded]
    · rw [if_neg]
      exact fun h => h.2 hexcluded
  · rename_i hfresh
    refine (eligible_asked hwait ⟨id, index⟩ world).mono (fun _ h => h) fun found _ final h => ?_
    obtain ⟨now, hlate, hfinal, hfound, hcells⟩ := h
    refine ⟨now, (Nat.le_add_right _ _).trans (hlate.trans hfinal), fun _ => ⟨hlate, hfinal⟩, ?_,
      fun upstream => ?_⟩
    · simp [hfresh, hfound]
    · rw [hcells upstream]
      simp [hfresh]

end Tests

/-! ## Searches that stop at the first upstream found -/

/-- Every upstream but the chosen one is as it was. -/
def OthersUntouched (id : RouteId) (world final : World) (choice : Option Nat) : Prop :=
  ∀ upstream : UpstreamId, (∀ index ∈ choice, upstream ≠ ⟨id, index⟩) →
    final.upstream upstream = world.upstream upstream

theorem OthersUntouched.trans {id : RouteId} {first second third : World} {choice : Option Nat}
    (h : OthersUntouched id first second none) (h' : OthersUntouched id second third choice) :
    OthersUntouched id first third choice :=
  fun upstream hothers => (h' upstream hothers).trans (h upstream nofun)

/-- A test leaves all other upstreams alone, and the tested one as well when it fails. -/
theorem Asked.untouched {id : RouteId} {exclude : List Nat} {index : Nat} {wait : Duration}
    {world final : World} {now : Instant} {found : Bool}
    (h : Asked id exclude index wait world final now found) :
    OthersUntouched id world final (if found then some index else none) := by
  intro upstream hothers
  rw [h.cells upstream]
  split
  · rename_i htested
    obtain ⟨rfl, hfresh⟩ := htested
    cases found with
    | true => exact absurd rfl (hothers index rfl)
    | false =>
        have hrefused := h.found_eq
        rw [decide_eq_true hfresh, Bool.true_and] at hrefused
        exact UpstreamCell.tested_of_refused hrefused.symm
  · rfl

section Searches

variable {permitted : Input → Prop}

theorem firstEligible_untouched (id : RouteId) (exclude positions : List Nat) (world : World) :
    Alone permitted world (Balancer.firstEligible id exclude positions) fun choice _ final =>
      OthersUntouched id world final choice := by
  induction positions generalizing world with
  | nil =>
      refine triple_done ?_
      rintro _ rfl
      exact fun _ _ => rfl
  | cons index rest ih =>
      refine triple_bind (candidate_asked (fun _ _ => Nat.zero_le _) id exclude index world)
        fun found _ tested h => ?_
      obtain ⟨now, hasked⟩ := h
      have htested := hasked.untouched
      cases found with
      | true =>
          refine triple_done ?_
          rintro _ rfl
          exact htested
      | false =>
          refine (ih tested).mono (fun _ h => h) fun choice _ final h => ?_
          exact htested.trans h

theorem roundRobinFrom_untouched (balancer : Balancer) (id : RouteId) (exclude : List Nat)
    (rounds : Nat) (world : World) :
    Alone permitted world (balancer.roundRobinFrom id exclude rounds) fun choice _ final =>
      OthersUntouched id world final choice := by
  induction rounds generalizing world with
  | zero => exact firstEligible_untouched id exclude _ world
  | succ rounds ih =>
      refine triple_perform fun input _ start hstart => ?_
      subst hstart
      -- The cursor is no part of the cells of the upstreams.
      have hcursor : OthersUntouched id start (World.answer input start (.rrFetchAdd id)).2 none :=
        fun upstream _ => World.upstream_answer input start (.rrFetchAdd id) upstream
      refine triple_bind (candidate_asked (fun _ _ => Nat.zero_le _) id exclude _ _)
        fun found _ tested h => ?_
      obtain ⟨now, hasked⟩ := h
      have htested := hasked.untouched
      cases found with
      | true =>
          refine triple_done ?_
          rintro _ rfl
          exact hcursor.trans htested
      | false =>
          refine (ih tested).mono (fun _ h => h) fun choice _ final h => ?_
          exact (hcursor.trans htested).trans h

end Searches

/-! ## The search that tests everything -/

/-- Every position that is not excluded has been tested once, at the instant that `clock`
has for it. -/
structure Survey (id : RouteId) (exclude positions : List Nat) (wait : Duration)
    (world final : World) (clock : Nat → Instant) : Prop where
  now_le : world.now ≤ final.now
  between : ∀ index ∈ positions, index ∉ exclude →
    world.now + wait ≤ clock index ∧ clock index ≤ final.now
  cells : ∀ upstream, final.upstream upstream =
    if upstream.route = id ∧ upstream.index ∈ positions ∧ upstream.index ∉ exclude then
      (world.upstream upstream).tested (clock upstream.index)
    else world.upstream upstream

/-- The positions that pass their test, when each is tested at its instant. -/
def passing (world : World) (id : RouteId) (exclude : List Nat) (clock : Nat → Instant)
    (positions : List Nat) : List Nat :=
  positions.filter fun index => decide (index ∉ exclude) && world.admits ⟨id, index⟩ (clock index)

/-- The number of requests in flight at the upstream, as its cell has it. -/
def World.load (world : World) (id : RouteId) (index : Nat) : Int :=
  (world.upstream ⟨id, index⟩).active

/-- The test of one position before the survey of the others. -/
theorem Survey.cons {id : RouteId} {exclude rest : List Nat} {index : Nat} {wait : Duration}
    {world tested read final : World} {now : Instant} {found : Bool} {clock : Nat → Instant}
    (hasked : Asked id exclude index wait world tested now found)
    (hread : ∀ upstream, read.upstream upstream = tested.upstream upstream)
    (hnow : tested.now ≤ read.now) (hfresh : index ∉ rest)
    (h : Survey id exclude rest wait read final clock) :
    Survey id exclude (index :: rest) wait world final (Function.update clock index now) := by
  have hlater : ∀ other ∈ rest, Function.update clock index now other = clock other :=
    fun other hother => Function.update_of_ne (fun heq : other = index => hfresh (heq ▸ hother)) _ _
  refine ⟨(hasked.now_le.trans hnow).trans h.now_le, fun other hother hopen => ?_,
    fun upstream => ?_⟩
  · rcases List.mem_cons.mp hother with rfl | hmem
    · rw [Function.update_self]
      have hbetween := hasked.between hopen
      exact ⟨hbetween.1, hbetween.2.trans (hnow.trans h.now_le)⟩
    · rw [hlater other hmem]
      have hbetween := h.between other hmem hopen
      refine ⟨?_, hbetween.2⟩
      exact (Nat.add_le_add_right (hasked.now_le.trans hnow) wait).trans hbetween.1
  · rw [h.cells upstream, hread upstream, hasked.cells upstream]
    obtain ⟨route, position⟩ := upstream
    by_cases hroute : route = id
    · subst hroute
      by_cases hposition : position = index
      · -- It is tested now and not again.
        subst hposition
        simp [hfresh]
      · by_cases hmem : position ∈ rest
        · simp [hposition, hmem]
        · simp [hposition, hmem]
    · simp [hroute]

/-- Positions whose cells and instants are the same pass alike. -/
theorem passing_congr {world later : World} {id : RouteId} {exclude positions : List Nat}
    {clock clock' : Nat → Instant}
    (h : ∀ index ∈ positions, later.upstream ⟨id, index⟩ = world.upstream ⟨id, index⟩ ∧
      clock' index = clock index) :
    passing later id exclude clock' positions = passing world id exclude clock positions := by
  refine List.filter_congr fun index hindex => ?_
  obtain ⟨hcell, hclock⟩ := h index hindex
  simp only [World.admits, hcell, hclock]

/-- Testing a position changes no load. -/
theorem Asked.load_eq {id : RouteId} {exclude : List Nat} {index : Nat} {wait : Duration}
    {world tested : World} {now : Instant} {found : Bool}
    (h : Asked id exclude index wait world tested now found) :
    tested.load id = world.load id := by
  funext other
  unfold World.load
  rw [h.cells]
  split
  · exact UpstreamCell.tested_active _ _
  · rfl

/-- The tested position comes first among those that pass, when it has passed; the others
pass or fail as they will. -/
theorem Asked.passing_cons {id : RouteId} {exclude rest : List Nat} {index : Nat}
    {wait : Duration} {world tested read : World} {now : Instant} {found : Bool}
    (h : Asked id exclude index wait world tested now found)
    (hread : ∀ upstream, read.upstream upstream = tested.upstream upstream)
    (hfresh : index ∉ rest) {clock : Nat → Instant} :
    passing world id exclude (Function.update clock index now) (index :: rest) =
      (if found then [index] else []) ++ passing read id exclude clock rest := by
  have hothers : passing world id exclude (Function.update clock index now) rest =
      passing read id exclude clock rest := by
    refine (passing_congr fun other hother => ?_).symm
    have hne : other ≠ index := fun heq => hfresh (heq ▸ hother)
    refine ⟨?_, (Function.update_of_ne hne _ _).symm⟩
    rw [hread, h.cells, if_neg]
    rintro ⟨heq, -⟩
    exact hne (UpstreamId.mk.inj heq).2
  rw [← hothers, h.found_eq, passing, List.filter_cons, Function.update_self]
  split
  · rfl
  · rfl

/-- Reading the number of requests in flight changes no load. -/
theorem World.load_answer_active (input : Input) (world : World) (upstream : UpstreamId)
    (id : RouteId) : (World.answer input world (.active upstream)).2.load id = world.load id := by
  funext other
  exact congrArg UpstreamCell.active (World.upstream_answer input world (.active upstream) _)

/-- The better of the best position so far and a new one. -/
def betterOf (load : Nat → Int) (best : Option Nat) (index : Nat) : Nat :=
  match best with
  | none => index
  | some current => if load index < load current then index else current

theorem lessLoaded_eq_betterOf (load : Nat → Int) (best : Option Nat) (index : Nat) :
    Balancer.lessLoaded (best.map fun current => (load current, current)) (load index) index =
      (load (betterOf load best index), betterOf load best index) := by
  cases best with
  | none => rfl
  | some current =>
      simp only [Balancer.lessLoaded, betterOf, Option.map_some]
      split
      · rfl
      · rfl

theorem argmin_betterOf (load : Nat → Int) (best : Option Nat) (index : Nat) (rest : List Nat) :
    (betterOf load best index :: rest).argmin load = (best.toList ++ index :: rest).argmin load := by
  cases best with
  | none => rfl
  | some current => exact (argmin_cons_cons current index rest).symm

section Survey

variable {permitted : Input → Prop} {wait : Duration}
  (hwait : ∀ input, permitted input → wait ≤ input.elapsed)

include hwait

/-- What is chosen is the least loaded of the best so far and the positions that pass. -/
theorem leastLoaded_surveyed (id : RouteId) (exclude : List Nat) {positions : List Nat}
    (hnodup : positions.Nodup) (best : Option Nat) (world : World) :
    Alone permitted world
      (Balancer.leastLoaded id exclude (best.map fun index => (world.load id index, index))
        positions) fun choice _ final =>
      ∃ clock, Survey id exclude positions wait world final clock ∧
        choice = (best.toList ++ passing world id exclude clock positions).argmin
          (world.load id) := by
  induction positions generalizing best world with
  | nil =>
      refine triple_done ?_
      rintro _ rfl
      refine ⟨fun _ => 0, ⟨Nat.le_refl _, nofun, fun upstream => by simp⟩, ?_⟩
      cases best with
      | none => rfl
      | some index => rfl
  | cons index rest ih =>
      obtain ⟨hfresh, hrest⟩ := List.nodup_cons.mp hnodup
      refine triple_bind (candidate_asked hwait id exclude index world) fun found _ tested h => ?_
      obtain ⟨now, hasked⟩ := h
      have hload := hasked.load_eq
      cases found with
      | true =>
          refine triple_perform fun input _ start hstart => ?_
          subst hstart
          -- Reading the load changes nothing but the time.
          let read := (World.answer input start (.active ⟨id, index⟩)).2
          have hread : ∀ upstream, read.upstream upstream = start.upstream upstream :=
            World.upstream_answer input start (.active ⟨id, index⟩)
          have hreadLoad : read.load id = world.load id :=
            (World.load_answer_active input start _ id).trans hload
          have hbest : some (Balancer.lessLoaded
              (best.map fun current => (world.load id current, current))
              (World.answer input start (.active ⟨id, index⟩)).1 index) =
                (some (betterOf (world.load id) best index)).map
                  fun current => (read.load id current, current) := by
            have hanswer : (World.answer input start (.active ⟨id, index⟩)).1 =
                world.load id index := congrFun hload index
            rw [hanswer, lessLoaded_eq_betterOf, hreadLoad]
            rfl
          rw [hbest]
          refine (ih hrest (some (betterOf (world.load id) best index)) read).mono (fun _ h => h)
            fun choice _ final h => ?_
          obtain ⟨clock, hsurvey, rfl⟩ := h
          refine ⟨Function.update clock index now,
            .cons hasked hread (World.now_le_answer input start _) hfresh hsurvey, ?_⟩
          rw [hasked.passing_cons hread hfresh, hreadLoad]
          exact argmin_betterOf (world.load id) best index _
      | false =>
          have hbest : (best.map fun current => (world.load id current, current)) =
              best.map fun current => (tested.load id current, current) := by
            rw [hload]
          rw [hbest]
          refine (ih hrest best tested).mono (fun _ h => h) fun choice _ final h => ?_
          obtain ⟨clock, hsurvey, rfl⟩ := h
          refine ⟨Function.update clock index now,
            .cons hasked (fun _ => rfl) (Nat.le_refl _) hfresh hsurvey, ?_⟩
          rw [hasked.passing_cons (fun _ => rfl) hfresh, hload]
          rfl

theorem pickLeastConn_surveyed (balancer : Balancer) (id : RouteId) (exclude : List Nat)
    (world : World) :
    Alone permitted world (balancer.pickLeastConn id exclude) fun choice _ final =>
      ∃ clock, Survey id exclude (List.range balancer.upstreams.length) wait world final clock ∧
        choice = (passing world id exclude clock (List.range balancer.upstreams.length)).argmin
          (world.load id) :=
  leastLoaded_surveyed hwait id exclude List.nodup_range none world

end Survey

/-- One position comes before another when it is less loaded, or equally loaded and smaller. -/
def World.Precedes (world : World) (id : RouteId) (index other : Nat) : Prop :=
  world.load id index < world.load id other ∨
    (world.load id index = world.load id other ∧ index < other)

instance (world : World) (id : RouteId) (index other : Nat) :
    Decidable (world.Precedes id index other) :=
  inferInstanceAs (Decidable (_ ∨ _))

theorem mem_passing {world : World} {id : RouteId} {exclude positions : List Nat}
    {clock : Nat → Instant} {index : Nat} :
    index ∈ passing world id exclude clock positions ↔
      index ∈ positions ∧ index ∉ exclude ∧ world.admits ⟨id, index⟩ (clock index) = true := by
  simp [passing]

/-- The least loaded passing position comes before all others that pass. -/
theorem precedes_of_argmin {world : World} {id : RouteId} {exclude : List Nat}
    {clock : Nat → Instant} {count index : Nat}
    (h : (passing world id exclude clock (List.range count)).argmin (world.load id) =
      some index) :
    index ∈ passing world id exclude clock (List.range count) ∧
      ∀ other ∈ passing world id exclude clock (List.range count), other ≠ index →
        world.Precedes id index other := by
  have hsorted : (passing world id exclude clock (List.range count)).Pairwise (· < ·) :=
    List.pairwise_lt_range.filter _
  obtain ⟨hmem, hleast⟩ := least_of_argmin hsorted h
  refine ⟨hmem, fun other hother hne => ?_⟩
  rcases hleast other hother with hless | ⟨hequal, hle⟩
  · exact Or.inl hless
  · exact Or.inr ⟨hequal, by omega⟩

/-! ## Counting the request -/

/-- A request has been counted on the chosen upstream, and nothing else has changed. -/
structure Counted (id : RouteId) (searched final : World) (choice : Option Nat) : Prop where
  now_le : searched.now ≤ final.now
  cells : ∀ upstream, final.upstream upstream =
    if upstream.route = id ∧ choice = some upstream.index then
      { searched.upstream upstream with active := (searched.upstream upstream).active + 1 }
    else searched.upstream upstream

/-- What the search for an upstream does, and then the counting. -/
theorem pick_alone {permitted : Input → Prop} {balancer : Balancer} {id : RouteId}
    {exclude : List Nat} {world : World} {post : Option Nat → World → Prop}
    (h : Alone permitted world (balancer.pickIndex id exclude) fun choice _ searched =>
      post choice searched) :
    Alone permitted world (balancer.pick id exclude) fun picked _ final =>
      ∃ searched, post (picked.map Prod.fst) searched ∧
        Counted id searched final (picked.map Prod.fst) := by
  refine triple_bind h fun choice _ searched hsearched => ?_
  cases choice with
  | none =>
      refine triple_done ?_
      rintro _ rfl
      exact ⟨_, hsearched, Nat.le_refl _, fun upstream => (if_neg nofun).symm⟩
  | some index =>
      refine triple_perform fun input _ start hstart => triple_done ?_
      subst hstart
      rintro _ rfl
      refine ⟨start, hsearched, World.now_le_answer input start _, fun upstream => ?_⟩
      obtain ⟨route, position⟩ := upstream
      rw [World.upstream_answer]
      by_cases hchosen : route = id ∧ position = index
      · obtain ⟨rfl, rfl⟩ := hchosen
        rw [if_pos ⟨rfl, rfl⟩]
        exact if_pos rfl
      · rw [if_neg]
        · refine if_neg fun heq => hchosen ?_
          obtain ⟨hroute, hindex⟩ := UpstreamId.mk.inj heq
          exact ⟨hroute.symm, hindex.symm⟩
        · rintro ⟨hroute, hindex⟩
          exact hchosen ⟨hroute, (Option.some.inj hindex).symm⟩

/-- What least connections does in one run with inputs that are at least `wait` apart. -/
theorem pick_surveyed {balancer : Balancer} (hstrategy : balancer.strategy = .leastConnections)
    (id : RouteId) (exclude : List Nat) (world : World) {wait : Duration} {inputs : Nat → Input}
    (hinputs : ∀ n, wait ≤ (inputs n).elapsed) :
    let run := (balancer.pick id exclude).exec interpreter inputs world
    ∃ searched clock,
      Survey id exclude (List.range balancer.upstreams.length) wait world searched clock ∧
        run.value.map Prod.fst =
          (passing world id exclude clock (List.range balancer.upstreams.length)).argmin
            (world.load id) ∧
        Counted id searched run.state (run.value.map Prod.fst) := by
  have hsearch : Alone (fun input => wait ≤ input.elapsed) world (balancer.pickIndex id exclude)
      fun choice _ searched => ∃ clock,
        Survey id exclude (List.range balancer.upstreams.length) wait world searched clock ∧
          choice = (passing world id exclude clock (List.range balancer.upstreams.length)).argmin
            (world.load id) := by
    rw [Balancer.pickIndex, hstrategy]
    exact pickLeastConn_surveyed (fun _ h => h) balancer id exclude world
  obtain ⟨searched, ⟨clock, hsurvey, hchoice⟩, hcounted⟩ :=
    pick_alone hsearch inputs world hinputs rfl
  exact ⟨searched, clock, hsurvey, hchoice, hcounted⟩

end Gateway
end ApiGateway
