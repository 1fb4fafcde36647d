import ApiGateway.Gateway.World

/-!
# Admission of a request by the upstreams of a route

An upstream admits a request at an instant when its health flag is set and its breaker
would let the request through then.  Admission is monotone in time, and asking a
breaker does not change what it answers later.  So while a single request runs, only
the outcomes it reports change which upstreams are admitted: that is `Agrees`.

`pick_searched` is what picking then amounts to for both strategies and every value of
the cursor and the active counts: a picked upstream is admitted when the pick is over,
and when nothing is picked, nothing that is not excluded was admitted when it began.
-/

namespace ApiGateway
namespace Gateway

open Library Core Program

namespace CircuitBreaker

/-- The answer of `allow_at`. -/
def passes (inner : Inner) (now : Instant) : Bool := (allowAt inner now).1

/-- A breaker that lets requests through keeps doing so until an outcome is reported. -/
theorem passes_mono {inner : Inner} {now later : Instant} (h : passes inner now = true)
    (hle : now ≤ later) : passes inner later = true := by
  obtain ⟨state, failures, openUntil⟩ := inner
  cases state with
  | closed => rfl
  | halfOpen => rfl
  | opened =>
      cases openUntil with
      | none => rfl
      | some deadline =>
          have hreached : deadline ≤ now := by
            by_contra hlt
            rw [passes, allowAt_opened_early rfl rfl (Nat.not_le.mp hlt)] at h
            cases h
          rw [passes, allowAt_opened_late rfl rfl (hreached.trans hle)]

/-- A breaker that refuses is not changed. -/
theorem allowAt_of_refused {inner : Inner} {now : Instant} (h : passes inner now = false) :
    (allowAt inner now).2 = inner := by
  unfold passes allowAt at h
  unfold allowAt
  split at h
  · cases h
  · cases h
  · rename_i hstate
    split at h
    · cases h
    · rename_i hrunning
      simp only [if_neg hrunning]

/-- An open breaker that lets a request through becomes half-open. -/
theorem allowAt_of_passes_opened {inner : Inner} {now : Instant} (hopened : inner.state = .opened)
    (h : passes inner now = true) : (allowAt inner now).2 = { inner with state := .halfOpen } := by
  unfold passes allowAt at h
  unfold allowAt
  simp only [hopened] at h ⊢
  split at h
  · rename_i hreached
    simp only [if_pos hreached]
  · cases h

/-- Asking a breaker does not change its later answers. -/
theorem passes_allowAt (inner : Inner) {now later : Instant} (hle : now ≤ later) :
    passes (allowAt inner now).2 later = passes inner later := by
  cases hnow : passes inner now with
  | false => rw [allowAt_of_refused hnow]
  | true =>
      rw [passes_mono hnow hle]
      rcases allowAt_state inner now with hstate | ⟨-, hstate⟩
      · have hsame : (allowAt inner now).2 = inner := by
          have hcounter := allowAt_consecutiveFailures inner now
          have huntil := allowAt_openUntil inner now
          generalize (allowAt inner now).2 = after at hstate hcounter huntil
          cases after
          cases inner
          simp_all
        rw [hsame]
        exact passes_mono hnow hle
      · rw [passes, allowAt_halfOpen hstate]

end CircuitBreaker

namespace World

/-- The upstream is healthy and its breaker lets a request through at the instant. -/
def admits (world : World) (upstream : UpstreamId) (now : Instant) : Bool :=
  (world.upstream upstream).healthy &&
    CircuitBreaker.passes (world.upstream upstream).breaker now

theorem admits_mono {world : World} {upstream : UpstreamId} {now later : Instant}
    (h : world.admits upstream now = true) (hle : now ≤ later) :
    world.admits upstream later = true := by
  obtain ⟨hhealthy, hpasses⟩ := Bool.and_eq_true_iff.mp h
  exact Bool.and_eq_true_iff.mpr ⟨hhealthy, CircuitBreaker.passes_mono hpasses hle⟩

theorem admits_false_mono {world : World} {upstream : UpstreamId} {now later : Instant}
    (h : world.admits upstream later = false) (hle : now ≤ later) :
    world.admits upstream now = false := by
  by_contra hnow
  have hlater := admits_mono (Bool.not_eq_false _ ▸ hnow) hle
  rw [h] at hlater
  cases hlater

/-- Time has passed, and from then on requests to the upstream are admitted exactly
when they were to be admitted before. -/
structure Agrees (upstream : UpstreamId) (world later : World) : Prop where
  now_le : world.now ≤ later.now
  admits_eq : ∀ now, later.now ≤ now → later.admits upstream now = world.admits upstream now

namespace Agrees

variable {upstream : UpstreamId} {first second third : World}

theorem refl (upstream : UpstreamId) (world : World) : Agrees upstream world world :=
  ⟨Nat.le_refl _, fun _ _ => rfl⟩

theorem trans (h : Agrees upstream first second) (h' : Agrees upstream second third) :
    Agrees upstream first third := by
  refine ⟨h.now_le.trans h'.now_le, fun now hnow => ?_⟩
  calc third.admits upstream now
      = second.admits upstream now := h'.admits_eq now hnow
    _ = first.admits upstream now := h.admits_eq now (h'.now_le.trans hnow)

theorem of_upstream (hnow : first.now ≤ second.now)
    (h : second.upstream upstream = first.upstream upstream) : Agrees upstream first second :=
  ⟨hnow, fun now _ => by simp only [admits, h]⟩

end Agrees

/-- A cell whose health flag is kept and whose breaker answers as before. -/
theorem agrees_setUpstream (world : World) (id : UpstreamId) (cell : UpstreamCell)
    (hhealthy : cell.healthy = (world.upstream id).healthy)
    (hpasses : ∀ now, world.now ≤ now →
      CircuitBreaker.passes cell.breaker now =
        CircuitBreaker.passes (world.upstream id).breaker now)
    (upstream : UpstreamId) : Agrees upstream world (world.setUpstream id cell) := by
  by_cases heq : upstream = id
  · subst heq
    refine ⟨Nat.le_refl _, fun now hnow => ?_⟩
    simp only [admits, upstream_setUpstream_self, hhealthy, hpasses now hnow]
  · exact .of_upstream (Nat.le_refl _) (upstream_setUpstream_ne world cell heq)

end World

/-- The upstream whose breaker an operation uses. -/
def Op.breakerOf : Op → Option UpstreamId
  | .allowAt upstream _ => some upstream
  | .recordSuccess upstream => some upstream
  | .recordFailureAt upstream _ _ => some upstream
  | _ => none

namespace World

theorem agrees_tick (world : World) (elapsed : Duration) (upstream : UpstreamId) :
    Agrees upstream world (world.tick elapsed) :=
  .of_upstream (Nat.le_add_right _ _) rfl

theorem agrees_answerNow (input : Input) (world : World) (op : Op) {upstream : UpstreamId}
    (h : op.breakerOf ≠ some upstream) : Agrees upstream world (answerNow input world op).2 := by
  cases op with
  | cacheGet id key =>
      refine .of_upstream (Nat.le_refl _) (upstream_setRoute world id _ ?_ upstream)
      rfl
  | cachePut id cache key status headers body =>
      refine .of_upstream (Nat.le_add_right _ _)
        (upstream_setRoute (world.tick input.held) id _ ?_ upstream)
      rfl
  | rrFetchAdd id =>
      refine .of_upstream (Nat.le_refl _) (upstream_setRoute world id _ ?_ upstream)
      rfl
  | guardNew id | guardDrop id =>
      refine agrees_setUpstream world id _ ?_ (fun now hnow => ?_) upstream
      · rfl
      · rfl
  | allowAt id _ | recordSuccess id | recordFailureAt id _ _ =>
      have hne : upstream ≠ id := fun heq => h (heq ▸ rfl)
      exact .of_upstream (Nat.le_refl _) (upstream_setUpstream_ne world _ hne)
  | _ => exact .of_upstream (Nat.le_refl _) rfl

/-- Only an operation on its breaker changes whether an upstream admits requests. -/
theorem agrees_answer (input : Input) (world : World) (op : Op) {upstream : UpstreamId}
    (h : op.breakerOf ≠ some upstream) : Agrees upstream world (answer input world op).2 := by
  have htick := agrees_tick world input.elapsed upstream
  have hnow := agrees_answerNow input (world.tick input.elapsed) op h
  exact htick.trans hnow

/-- Asking a breaker with a clock value that has been read does not change it either. -/
theorem agrees_allowAt (input : Input) (world : World) (id : UpstreamId) {now : Instant}
    (hread : now ≤ world.now) (upstream : UpstreamId) :
    Agrees upstream world (answer input world (.allowAt id now)).2 := by
  have htick := agrees_tick world input.elapsed upstream
  refine htick.trans (agrees_setUpstream (world.tick input.elapsed) id _ ?_
    (fun later hlater => ?_) upstream)
  · rfl
  · have hle : now ≤ later := hread.trans ((Nat.le_add_right _ _).trans hlater)
    exact CircuitBreaker.passes_allowAt _ hle

theorem now_le_answer (input : Input) (world : World) (op : Op) :
    world.now ≤ (answer input world op).2.now := by
  have htick : world.now ≤ world.now + input.elapsed := Nat.le_add_right _ _
  cases op with
  | cachePut _ _ _ _ _ _ => exact htick.trans (Nat.le_add_right _ _)
  | _ => exact htick

end World

/-- An execution that does not use the breaker of an upstream does not change when it
admits requests. -/
theorem agrees_exec {α : Type} {program : GatewayProgram α} {inputs : Nat → Input}
    {world : World} {upstream : UpstreamId}
    (h : ∀ event ∈ (program.exec interpreter inputs world).trace,
      event.1.breakerOf ≠ some upstream) :
    World.Agrees upstream world (program.exec interpreter inputs world).state :=
  exec_related (World.Agrees upstream) (World.Agrees.refl upstream)
    (fun _ _ _ => World.Agrees.trans)
    fun event hevent n before => World.agrees_answer (inputs n) before event.1 (h event hevent)

/-! ## Picking -/

/-- The requests to every upstream are admitted as before. -/
abbrev World.AgreesAll (world later : World) : Prop := ∀ upstream, World.Agrees upstream world later

/-- A search among the positions, during which `world` became `final`: what it finds is
not excluded and is admitted in the end, and when it finds nothing, nothing that is not
excluded was admitted when it began. -/
structure Searched (id : RouteId) (exclude positions : List Nat) (world final : World)
    (choice : Option Nat) : Prop where
  agrees : world.AgreesAll final
  found : ∀ index ∈ choice,
    index ∈ positions ∧ index ∉ exclude ∧ world.admits ⟨id, index⟩ final.now = true
  missed : choice = none → ∀ index ∈ positions, index ∉ exclude →
    world.admits ⟨id, index⟩ world.now = false

namespace Searched

variable {id : RouteId} {exclude positions : List Nat} {world later final : World}
  {choice : Option Nat}

/-- A search that goes on from a later world. -/
theorem of_agreesAll (h : Searched id exclude positions later final choice)
    (hlater : world.AgreesAll later) : Searched id exclude positions world final choice where
  agrees := fun upstream => (hlater upstream).trans (h.agrees upstream)
  found := by
    intro index hindex
    obtain ⟨hmem, hfresh, hadmits⟩ := h.found index hindex
    rw [(hlater _).admits_eq _ (h.agrees ⟨id, index⟩).now_le] at hadmits
    exact ⟨hmem, hfresh, hadmits⟩
  missed := by
    intro hnone index hmem hfresh
    have hrefused := h.missed hnone index hmem hfresh
    rw [(hlater _).admits_eq _ (Nat.le_refl _)] at hrefused
    exact World.admits_false_mono hrefused (hlater ⟨id, index⟩).now_le

/-- The state goes on changing after the search. -/
theorem extend (h : Searched id exclude positions world later choice)
    (hfinal : later.AgreesAll final) : Searched id exclude positions world final choice where
  agrees := fun upstream => (h.agrees upstream).trans (hfinal upstream)
  found := by
    intro index hindex
    obtain ⟨hmem, hfresh, hadmits⟩ := h.found index hindex
    exact ⟨hmem, hfresh, World.admits_mono hadmits (hfinal ⟨id, index⟩).now_le⟩
  missed := h.missed

/-- More positions, all of which were refused. -/
theorem widen (h : Searched id exclude positions world final choice) {more : List Nat}
    (hsubset : positions ⊆ more)
    (hmore : ∀ index ∈ more, index ∈ positions ∨
      (index ∉ exclude → world.admits ⟨id, index⟩ world.now = false)) :
    Searched id exclude more world final choice where
  agrees := h.agrees
  found := fun index hindex => ⟨hsubset (h.found index hindex).1, (h.found index hindex).2⟩
  missed := by
    intro hnone index hmem hfresh
    rcases hmore index hmem with hold | hrefused
    · exact h.missed hnone index hold hfresh
    · exact hrefused hfresh

/-- A search that ends with a position that was found. -/
theorem of_found {index : Nat} (hagrees : world.AgreesAll final) (hmem : index ∈ positions)
    (hfresh : index ∉ exclude) (hadmits : world.admits ⟨id, index⟩ final.now = true) :
    Searched id exclude positions world final (some index) where
  agrees := hagrees
  found := by
    rintro _ ⟨⟩
    exact ⟨hmem, hfresh, hadmits⟩
  missed := nofun

end Searched

/-- What a program does when it runs alone from the given world, with permitted inputs. -/
abbrev Alone {α : Type} (permitted : Input → Prop) (world : World) (program : GatewayProgram α)
    (post : α → List (Event effects) → World → Prop) : Prop :=
  Triple interpreter permitted (· = world) program post

theorem now_le_alone {α : Type} {permitted : Input → Prop} (world : World)
    (program : GatewayProgram α) :
    Alone permitted world program fun _ _ final => world.now ≤ final.now := by
  rintro inputs start - rfl
  refine exec_related (fun before after : World => before.now ≤ after.now)
    (fun _ => Nat.le_refl _) (fun _ _ _ => Nat.le_trans) fun event _ n before => ?_
  exact World.now_le_answer (inputs n) before event.1

/-- The test of an upstream.  The clock is read while it runs, so it is positive only if the
upstream is admitted in the end, and negative only if it was not admitted at the start. -/
structure Tested (upstream : UpstreamId) (world final : World) (found : Bool) : Prop where
  agrees : world.AgreesAll final
  admitted : found = true → world.admits upstream final.now = true
  refused : found = false → world.admits upstream world.now = false

theorem eligible_tested {permitted : Input → Prop} (upstream : UpstreamId) (world : World) :
    Alone permitted world (eligible upstream) fun found _ final =>
      Tested upstream world final found := by
  refine triple_perform fun input _ start hstart => ?_
  subst hstart
  have hflag : (World.answer input start (.isHealthy upstream)).1 =
      (start.upstream upstream).healthy := rfl
  rw [hflag]
  cases hhealthy : (start.upstream upstream).healthy with
  | false =>
      refine triple_done ?_
      rintro _ rfl
      exact ⟨World.agrees_tick start _, nofun, fun _ => by simp [World.admits, hhealthy]⟩
  | true =>
      refine triple_perform fun clock _ asked hasked => triple_perform fun last _ read hread => ?_
      subst hasked hread
      refine triple_done ?_
      rintro _ rfl
      let read := (start.tick input.elapsed).tick clock.elapsed
      have hread : start.AgreesAll read := fun other =>
        (World.agrees_tick start _ other).trans (World.agrees_tick _ _ other)
      have hasked := World.agrees_allowAt last read upstream (Nat.le_refl read.now)
      have hadmits : start.admits upstream read.now =
          CircuitBreaker.passes (start.upstream upstream).breaker read.now := by
        rw [World.admits, hhealthy, Bool.true_and]
      refine ⟨fun other => (hread other).trans (hasked other), fun hfound => ?_, fun hrefused => ?_⟩
      · exact World.admits_mono (hadmits.trans hfound) (hasked upstream).now_le
      · exact World.admits_false_mono (hadmits.trans hrefused) (hread upstream).now_le

namespace Balancer

variable {permitted : Input → Prop}

/-- The test of one position. -/
theorem candidate_alone (id : RouteId) (exclude : List Nat) (index : Nat) (world : World) :
    Alone permitted world (candidate id exclude index) fun found _ final =>
      world.AgreesAll final ∧
        (found = true → index ∉ exclude ∧ world.admits ⟨id, index⟩ final.now = true) ∧
        (found = false → index ∉ exclude → world.admits ⟨id, index⟩ world.now = false) := by
  unfold candidate
  split
  · rename_i hexclude
    refine triple_done ?_
    rintro _ rfl
    exact ⟨fun upstream => .refl upstream _, nofun, fun _ hfresh => absurd hexclude hfresh⟩
  · rename_i hfresh
    refine (eligible_tested ⟨id, index⟩ world).mono (fun _ h => h) fun found _ final h => ?_
    exact ⟨h.agrees, fun hfound => ⟨hfresh, h.admitted hfound⟩,
      fun hrefused _ => h.refused hrefused⟩

theorem firstEligible_searched (id : RouteId) (exclude positions : List Nat) (world : World) :
    Alone permitted world (firstEligible id exclude positions) fun choice _ final =>
      Searched id exclude positions world final choice := by
  induction positions generalizing world with
  | nil =>
      refine triple_done ?_
      rintro _ rfl
      exact ⟨fun upstream => .refl upstream _, nofun, nofun⟩
  | cons index rest ih =>
      refine triple_bind (candidate_alone id exclude index world) fun found _ tested h => ?_
      obtain ⟨hagrees, hfound, hrefused⟩ := h
      cases found with
      | true =>
          obtain ⟨hfresh, hadmits⟩ := hfound rfl
          refine triple_done ?_
          rintro _ rfl
          exact .of_found hagrees List.mem_cons_self hfresh hadmits
      | false =>
          refine (ih tested).mono (fun _ h => h) fun choice _ final h => ?_
          refine (h.of_agreesAll hagrees).widen (List.subset_cons_self _ _) fun other hother => ?_
          rcases List.mem_cons.mp hother with rfl | hrest
          · exact Or.inr (hrefused rfl)
          · exact Or.inl hrest

theorem roundRobinFrom_searched (balancer : Balancer) (hupstreams : balancer.upstreams ≠ [])
    (id : RouteId) (exclude : List Nat) (rounds : Nat) (world : World) :
    Alone permitted world (roundRobinFrom balancer id exclude rounds) fun choice _ final =>
      Searched id exclude (List.range balancer.upstreams.length) world final choice := by
  induction rounds generalizing world with
  | zero => exact firstEligible_searched id exclude _ world
  | succ rounds ih =>
      refine triple_perform fun input _ asked hasked => ?_
      subst hasked
      -- Taking a cursor value changes nothing about admission.
      let cursor := (World.answer input asked (.rrFetchAdd id)).1
      let moved := (World.answer input asked (.rrFetchAdd id)).2
      have hmoved : asked.AgreesAll moved := fun upstream => World.agrees_answer input asked _ nofun
      have hlt := List.mem_range.mpr (balancer.rrIndex_lt hupstreams cursor)
      refine triple_bind (candidate_alone id exclude (balancer.rrIndex cursor) moved)
        fun found _ tested h => ?_
      obtain ⟨hagrees, hfound, -⟩ := h
      cases found with
      | true =>
          obtain ⟨hfresh, hadmits⟩ := hfound rfl
          refine triple_done ?_
          rintro _ rfl
          exact (Searched.of_found hagrees hlt hfresh hadmits).of_agreesAll hmoved
      | false =>
          refine (ih tested).mono (fun _ h => h) fun choice _ final h => ?_
          exact (h.of_agreesAll hagrees).of_agreesAll hmoved

/-- The best candidate so far is the result of a search among the positions seen so far. -/
theorem leastLoaded_searched (id : RouteId) (exclude seen positions : List Nat)
    (best : Option (Int × Nat)) (start world : World)
    (hbest : Searched id exclude seen start world (best.map Prod.snd)) :
    Alone permitted world (leastLoaded id exclude best positions) fun choice _ final =>
      Searched id exclude (seen ++ positions) start final choice := by
  induction positions generalizing seen best world with
  | nil =>
      refine triple_done ?_
      rintro _ rfl
      rw [List.append_nil]
      exact hbest
  | cons position rest ih =>
      have hseen : seen ++ position :: rest = (seen ++ [position]) ++ rest := by simp
      rw [hseen]
      refine triple_bind (candidate_alone id exclude position world) fun found _ tested h => ?_
      obtain ⟨hagrees, hfound, hrefused⟩ := h
      have htested := hbest.extend hagrees
      cases found with
      | true =>
          obtain ⟨hfresh, hadmits⟩ := hfound rfl
          -- The test is about the admission at the start.
          have hadmitted : start.admits ⟨id, position⟩ tested.now = true := by
            rwa [(hbest.agrees _).admits_eq _ (hagrees ⟨id, position⟩).now_le] at hadmits
          refine triple_perform fun input _ asked hasked => ?_
          subst hasked
          have hread : asked.AgreesAll (World.answer input asked (.active ⟨id, position⟩)).2 :=
            fun upstream => World.agrees_answer input asked _ nofun
          have hsearched := htested.extend hread
          refine ih (seen ++ [position]) _ _ ?_
          show Searched id exclude (seen ++ [position]) start _
            (some (lessLoaded best (asked.upstream ⟨id, position⟩).active position).2)
          rcases lessLoaded_snd best (asked.upstream ⟨id, position⟩).active position with
            hnew | hold
          · rw [hnew]
            have hkept := World.admits_mono hadmitted (hread ⟨id, position⟩).now_le
            exact .of_found hsearched.agrees (List.mem_append_right _ (List.mem_singleton.mpr rfl))
              hfresh hkept
          · obtain ⟨hmem, hfresh, hkept⟩ := hsearched.found _ hold
            exact .of_found hsearched.agrees (List.mem_append_left _ hmem) hfresh hkept
      | false =>
          refine ih _ _ _ (htested.widen (List.subset_append_left _ _) fun other hother => ?_)
          rcases List.mem_append.mp hother with hbefore | hlast
          · exact Or.inl hbefore
          · rw [List.mem_singleton.mp hlast]
            refine Or.inr fun hfresh => ?_
            have hearlier := hrefused rfl hfresh
            rw [(hbest.agrees _).admits_eq _ (Nat.le_refl _)] at hearlier
            exact World.admits_false_mono hearlier (hbest.agrees ⟨id, position⟩).now_le

theorem pickIndex_searched (balancer : Balancer) (hupstreams : balancer.upstreams ≠ [])
    (id : RouteId) (exclude : List Nat) (world : World) :
    Alone permitted world (pickIndex balancer id exclude) fun choice _ final =>
      Searched id exclude (List.range balancer.upstreams.length) world final choice := by
  unfold pickIndex
  split
  · exact roundRobinFrom_searched balancer hupstreams id exclude _ world
  · exact leastLoaded_searched id exclude [] _ none world world
      ⟨fun upstream => .refl upstream world, nofun, nofun⟩

/-- Picking is a search among all upstreams, by either strategy. -/
theorem pick_searched (balancer : Balancer) (hupstreams : balancer.upstreams ≠ [])
    (id : RouteId) (exclude : List Nat) (world : World) :
    Alone permitted world (pick balancer id exclude) fun picked _ final =>
      Searched id exclude (List.range balancer.upstreams.length) world final
        (picked.map Prod.fst) := by
  refine triple_bind (pickIndex_searched balancer hupstreams id exclude world)
    fun choice _ chosen h => ?_
  cases choice with
  | none =>
      refine triple_done ?_
      rintro _ rfl
      exact h
  | some index =>
      refine triple_perform fun input _ counting hcounting => ?_
      subst hcounting
      refine triple_done ?_
      rintro _ rfl
      exact h.extend fun upstream => World.agrees_answer input counting _ nofun

end Balancer

end Gateway
end ApiGateway
