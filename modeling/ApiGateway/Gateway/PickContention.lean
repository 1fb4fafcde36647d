import ApiGateway.Gateway.NoPanic

/-!
# Picking while others pick

While one call of `pick` runs, other callers may move the cursor, change health flags and
breakers and count requests.  So nothing is assumed here about the answers that `pick` gets:
the results hold of every trace.  What a trace says about an upstream is whether its tests
went well, `Vouched` for one that passed both of them and `StaysEligible` for one that never
failed any.

The round robin alone may miss an upstream, since the cursor values it is handed need not
be consecutive.  That `pick` still finds one is due to the search in order that follows it.
-/

namespace ApiGateway
namespace Gateway

open Library Core Program

/-- The upstream was seen healthy, and its breaker let a request through. -/
def Vouched (upstream : UpstreamId) (trace : List (Event effects)) : Prop :=
  (⟨.isHealthy upstream, true⟩ : Event effects) ∈ trace ∧
    ∃ now, (⟨.allowAt upstream now, true⟩ : Event effects) ∈ trace

/-- No test of the upstream failed. -/
def StaysEligible (upstream : UpstreamId) (trace : List (Event effects)) : Prop :=
  (⟨.isHealthy upstream, false⟩ : Event effects) ∉ trace ∧
    ∀ now, (⟨.allowAt upstream now, false⟩ : Event effects) ∉ trace

theorem Vouched.mono {upstream : UpstreamId} {trace more : List (Event effects)}
    (h : Vouched upstream trace) (hsubset : trace ⊆ more) : Vouched upstream more := by
  obtain ⟨hhealthy, now, hallowed⟩ := h
  exact ⟨hsubset hhealthy, now, hsubset hallowed⟩

theorem StaysEligible.anti {upstream : UpstreamId} {trace more : List (Event effects)}
    (h : StaysEligible upstream more) (hsubset : trace ⊆ more) : StaysEligible upstream trace :=
  ⟨fun hevent => h.1 (hsubset hevent), fun now hevent => h.2 now (hsubset hevent)⟩

/-- What a search among positions has seen when it is over: what it found passed its tests,
and when it found nothing, each position that is not excluded failed one. -/
structure Vetted (id : RouteId) (exclude positions : List Nat) (trace : List (Event effects))
    (choice : Option Nat) : Prop where
  found : ∀ index ∈ choice, Vouched ⟨id, index⟩ trace
  missed : choice = none → ∀ index ∈ positions, index ∉ exclude →
    ¬ StaysEligible ⟨id, index⟩ trace

/-- A search that is part of a longer trace. -/
theorem Vetted.within {id : RouteId} {exclude positions : List Nat}
    {trace more : List (Event effects)} {choice : Option Nat}
    (h : Vetted id exclude positions trace choice) (hsubset : trace ⊆ more) :
    Vetted id exclude positions more choice where
  found := fun index hindex => (h.found index hindex).mono hsubset
  missed := fun hnone index hindex hfresh hstays =>
    h.missed hnone index hindex hfresh (hstays.anti hsubset)

namespace Balancer

/-- A candidate that is found passed both tests, and one that is not found is excluded or
failed one of them. -/
theorem candidate_vetted (id : RouteId) (exclude : List Nat) (index : Nat) :
    Ensures (candidate id exclude index) fun trace found =>
      (found = true → Vouched ⟨id, index⟩ trace) ∧
        (found = false → index ∉ exclude → ¬ StaysEligible ⟨id, index⟩ trace) := by
  unfold candidate
  split
  · rename_i hexcluded
    exact ensures_done ⟨nofun, fun _ hfresh => absurd hexcluded hfresh⟩
  · refine ensures_perform fun healthy => ?_
    cases healthy with
    | false =>
        exact ensures_done ⟨nofun, fun _ _ hstays => hstays.1 List.mem_cons_self⟩
    | true =>
        refine ensures_perform fun now => ensures_perform fun allowed => ensures_done ?_
        constructor
        · rintro rfl
          exact ⟨List.mem_cons_self, now, by simp⟩
        · rintro rfl - hstays
          exact hstays.2 now (by simp)

theorem firstEligible_vetted (id : RouteId) (exclude positions : List Nat) :
    Ensures (firstEligible id exclude positions) (Vetted id exclude positions) := by
  induction positions with
  | nil => exact ensures_done ⟨nofun, fun _ => nofun⟩
  | cons index rest ih =>
      refine ensures_bind (candidate_vetted id exclude index) fun tested found hfound => ?_
      cases found with
      | true =>
          refine ensures_done ⟨?_, nofun⟩
          rintro _ ⟨⟩
          simpa using hfound.1 rfl
      | false =>
          refine ih.mono fun later choice hlater => ⟨?_, fun hnone other hother hfresh => ?_⟩
          · exact (hlater.within (List.subset_append_right tested later)).found
          · rcases List.mem_cons.mp hother with rfl | hrest
            · exact fun hstays => hfound.2 rfl hfresh
                (hstays.anti (List.subset_append_left tested later))
            · exact (hlater.within (List.subset_append_right tested later)).missed hnone other
                hrest hfresh

/-- Whatever cursor values are handed out, the search in order has the last word. -/
theorem roundRobinFrom_vetted (balancer : Balancer) (id : RouteId) (exclude : List Nat)
    (rounds : Nat) :
    Ensures (roundRobinFrom balancer id exclude rounds)
      (Vetted id exclude (List.range balancer.upstreams.length)) := by
  induction rounds with
  | zero => exact firstEligible_vetted id exclude _
  | succ rounds ih =>
      refine ensures_perform fun cursor =>
        ensures_bind (candidate_vetted id exclude _) fun tested found hfound => ?_
      cases found with
      | true =>
          refine ensures_done ⟨?_, nofun⟩
          rintro _ ⟨⟩
          exact (hfound.1 rfl).mono (by simp)
      | false =>
          refine ih.mono fun later choice hlater => hlater.within ?_
          exact List.Subset.trans (List.subset_append_right tested later) (List.subset_cons_self _ _)

/-- The best candidate so far has passed its tests before this trace. -/
theorem leastLoaded_vetted (id : RouteId) (exclude positions : List Nat)
    (best : Option (Int × Nat)) :
    Ensures (leastLoaded id exclude best positions) fun trace choice =>
      (∀ index ∈ choice, Vouched ⟨id, index⟩ trace ∨ index ∈ best.map Prod.snd) ∧
        (choice = none → best = none ∧ ∀ index ∈ positions, index ∉ exclude →
          ¬ StaysEligible ⟨id, index⟩ trace) := by
  induction positions generalizing best with
  | nil =>
      refine ensures_done ⟨fun index hindex => Or.inr hindex, fun hnone => ⟨?_, nofun⟩⟩
      exact Option.map_eq_none_iff.mp hnone
  | cons position rest ih =>
      refine ensures_bind (candidate_vetted id exclude position) fun tested found hfound => ?_
      cases found with
      | true =>
          refine ensures_perform fun load => (ih _).mono fun later choice hlater => ⟨?_, ?_⟩
          · intro index hindex
            rcases hlater.1 index hindex with hvouched | hbest
            · exact Or.inl (hvouched.mono (by simp))
            · obtain rfl : (lessLoaded best load position).2 = index := Option.some.inj hbest
              rcases lessLoaded_snd best load position with hnew | hold
              · rw [hnew]
                exact Or.inl ((hfound.1 rfl).mono (List.subset_append_left _ _))
              · exact Or.inr hold
          · intro hnone
            cases (hlater.2 hnone).1
      | false =>
          refine (ih best).mono fun later choice hlater => ⟨?_, fun hnone => ?_⟩
          · intro index hindex
            rcases hlater.1 index hindex with hvouched | hbest
            · exact Or.inl (hvouched.mono (List.subset_append_right tested later))
            · exact Or.inr hbest
          · obtain ⟨hbest, hrest⟩ := hlater.2 hnone
            refine ⟨hbest, fun index hindex hfresh hstays => ?_⟩
            rcases List.mem_cons.mp hindex with rfl | hmem
            · exact hfound.2 rfl hfresh (hstays.anti (List.subset_append_left tested later))
            · exact hrest index hmem hfresh
                (hstays.anti (List.subset_append_right tested later))

theorem pickIndex_vetted (balancer : Balancer) (id : RouteId) (exclude : List Nat) :
    Ensures (pickIndex balancer id exclude)
      (Vetted id exclude (List.range balancer.upstreams.length)) := by
  unfold pickIndex
  split
  · exact roundRobinFrom_vetted balancer id exclude _
  · refine (leastLoaded_vetted id exclude _ none).mono fun trace choice h => ⟨?_, ?_⟩
    · intro index hindex
      exact (h.1 index hindex).resolve_right nofun
    · exact fun hnone => (h.2 hnone).2

theorem pick_vetted (balancer : Balancer) (id : RouteId) (exclude : List Nat) :
    Ensures (pick balancer id exclude) fun trace picked =>
      Vetted id exclude (List.range balancer.upstreams.length) trace (picked.map Prod.fst) := by
  refine ensures_bind (pickIndex_vetted balancer id exclude) fun searched choice hsearched => ?_
  cases choice with
  | none =>
      refine ensures_done ?_
      simpa using hsearched
  | some index =>
      refine ensures_perform fun _ => ensures_done ?_
      exact hsearched.within (List.subset_append_left _ _)

end Balancer

/-- **Picking is sound and complete under contention.**  For every route of a validated
configuration, either strategy and every exclude list, and whatever the calls of `pick` are
answered: no index is out of bounds; a picked index is in range, not excluded, and passed
both its tests; and if some upstream that is not excluded failed no test during the call,
one is picked. -/
theorem pick_sound_and_complete {config : GatewayConfig} (hvalid : config.validate = .ok ())
    {id : RouteId} {route : RouteConfig} (hroute : config.routes[id]? = some route)
    (exclude : List Nat) {trace : List (Event effects)} {picked : Option (Nat × Upstream)}
    (hreturns : Returns ((Balancer.fromRoute route).pick id exclude) trace picked) :
    (∀ event ∈ trace, event.1.InBounds config) ∧
      (∀ index upstream, picked = some (index, upstream) →
        index < route.upstreams.length ∧ index ∉ exclude ∧
          (Balancer.fromRoute route).upstreams[index]? = some upstream ∧
          Vouched ⟨id, index⟩ trace) ∧
      (∀ index < route.upstreams.length, index ∉ exclude → StaysEligible ⟨id, index⟩ trace →
        picked.isSome = true) := by
  have hrouteValid := ((validate_eq_ok_iff config).mp hvalid).routes route
    (List.mem_of_getElem? hroute)
  have hlength : (Balancer.fromRoute route).upstreams.length = route.upstreams.length :=
    List.length_map _
  have hupstreams : (Balancer.fromRoute route).upstreams ≠ [] := by
    rw [← List.length_pos_iff, hlength, List.length_pos_iff]
    exact hrouteValid.hasUpstream
  have hcount : (Balancer.fromRoute route).upstreams.length = upstreamCount config id := by
    rw [hlength, upstreamCount, hroute]
    rfl
  have hvetted := Balancer.pick_vetted (Balancer.fromRoute route) id exclude trace picked hreturns
  refine ⟨fun event hevent => ?_, ?_, fun index hlt hfresh hstays => ?_⟩
  · exact (pick_inBounds hcount hupstreams exclude).of_mem hreturns hevent
  · rintro index upstream rfl
    obtain ⟨hlt, hfresh, hupstream⟩ := Balancer.pick_ensures (Balancer.fromRoute route) hupstreams
      id exclude trace _ hreturns index upstream rfl
    refine ⟨hlength ▸ hlt, hfresh, ?_, hvetted.found index rfl⟩
    rw [hupstream, Balancer.upstreamAt, List.getD_eq_getElem?_getD, List.getElem?_eq_getElem hlt]
    rfl
  · by_contra hnone
    have hmissed : picked.map Prod.fst = none := by
      rw [Option.map_eq_none_iff]
      exact Option.not_isSome_iff_eq_none.mp hnone
    exact hvetted.missed hmissed index (List.mem_range.mpr (hlength ▸ hlt)) hfresh hstays

/-- A route over two upstreams in turn. -/
def twinRoute : RouteConfig :=
  { name := "twin", «matches» := { pathPrefix := "/" }
    upstreams := [{ url := "http://a" }, { url := "http://b" }] }

def twinConfig : GatewayConfig := { routes := [twinRoute] }

/-- The first upstream is down, and another caller takes the cursor value in between, so the
round robin sees the first upstream twice. -/
def contendedTrace : List (Event effects) :=
  [⟨.rrFetchAdd 0, (0 : UInt64)⟩, ⟨.isHealthy ⟨0, 0⟩, false⟩,
    ⟨.rrFetchAdd 0, (2 : UInt64)⟩, ⟨.isHealthy ⟨0, 0⟩, false⟩,
    ⟨.isHealthy ⟨0, 0⟩, false⟩, ⟨.isHealthy ⟨0, 1⟩, true⟩,
    ⟨.instantNow, (5 : Instant)⟩, ⟨.allowAt ⟨0, 1⟩ 5, true⟩, ⟨.guardNew ⟨0, 1⟩, ()⟩]

theorem contendedTrace_returns :
    Returns ((Balancer.fromRoute twinRoute).pick 0 []) contendedTrace
      (some (1, (Balancer.fromRoute twinRoute).upstreamAt 1)) :=
  .call _ _ _ (.call _ _ _ (.call _ _ _ (.call _ _ _ (.call _ _ _ (.call _ _ _ (.call _ _ _
    (.call _ _ _ (.call _ _ _ (.refl _)))))))))

theorem pick_sound_and_complete_contended :
    twinConfig.validate = .ok () ∧ twinConfig.routes[0]? = some twinRoute ∧
      (∀ event ∈ contendedTrace, event.1.InBounds twinConfig) ∧
      (∀ index upstream, some (1, (Balancer.fromRoute twinRoute).upstreamAt 1) =
          some (index, upstream) →
        index < 2 ∧ index ∉ ([] : List Nat) ∧
          (Balancer.fromRoute twinRoute).upstreams[index]? = some upstream ∧
          Vouched ⟨0, index⟩ contendedTrace) ∧
      (∀ index < 2, index ∉ ([] : List Nat) → StaysEligible ⟨0, index⟩ contendedTrace →
        (some (1, (Balancer.fromRoute twinRoute).upstreamAt 1)).isSome = true) := by
  have hvalid : twinConfig.validate = .ok () := by decide
  have hroute : twinConfig.routes[0]? = some twinRoute := rfl
  exact ⟨hvalid, hroute, pick_sound_and_complete hvalid hroute [] contendedTrace_returns⟩

end Gateway
end ApiGateway
