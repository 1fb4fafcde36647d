import Mathlib.Data.Prod.Lex
import ApiGateway.Core.Router
import ApiGateway.Library.FirstMaximum

/-!
# Which route is chosen

The loop of `matchRoute` keeps the first admissible route of largest `specificity`: the
byte length of its prefix, then whether it names a host.  `matchRoute_eq_argmax` says so,
and what the loop computes is never unfolded again.

The length is that of the prefix as it is written.  Matching and forwarding look at the
prefix without its trailing slashes, its effective prefix, so a prefix that is written
with more slashes than it needs counts for more than it covers.
-/

namespace ApiGateway
namespace Core

open Library

/-- What the loop compares routes by: the written length of the prefix, then the host
constraint. -/
def specificity (route : RouteConfig) : Nat ×ₗ Bool :=
  toLex (Text.len route.matches.pathPrefix, route.matches.host.isSome)

theorem specificity_lt_iff {route other : RouteConfig} :
    specificity route < specificity other ↔
      Text.len route.matches.pathPrefix < Text.len other.matches.pathPrefix ∨
        (Text.len route.matches.pathPrefix = Text.len other.matches.pathPrefix ∧
          route.matches.host.isSome = false ∧ other.matches.host.isSome = true) := by
  unfold specificity
  rw [Prod.Lex.toLex_lt_toLex]
  simp only [Bool.lt_iff]

instance (host : Option String) (path : String) : DecidablePred (Admissible host path) :=
  fun _ => inferInstanceAs (Decidable (_ ∧ _))

/-! ## The loop keeps the first maximum -/

/-- The loop variables agree: the length is that of the best route, and zero before any
route is found. -/
def BestMatch.Agrees (best : BestMatch) : Prop :=
  best.len = (best.route.map fun route => Text.len route.matches.pathPrefix).getD 0

/-- A route that is not admissible changes nothing. -/
theorem matchStep_of_not_admissible {host : Option String} {path : String} (best : BestMatch)
    {route : RouteConfig} (h : ¬ Admissible host path route) :
    matchStep host path best route = best := by
  unfold matchStep
  by_cases hhost : hostMatches host route = true
  · rw [if_neg (not_not.mpr hhost)]
    have hpath : ¬ pathMatches path route.matches.pathPrefix = true := fun hpath =>
      h ⟨hhost, hpath⟩
    rw [if_neg hpath]
  · rw [if_pos hhost]

/-- The first admissible route is kept. -/
theorem matchStep_none {host : Option String} {path : String} {route : RouteConfig}
    (h : Admissible host path route) (len : Nat) :
    matchStep host path ⟨none, len⟩ route = ⟨some route, Text.len route.matches.pathPrefix⟩ := by
  unfold matchStep
  rw [if_neg (not_not.mpr h.1), if_pos h.2]
  rfl

/-- Another admissible route replaces the best one when it is more specific. -/
theorem matchStep_some {host : Option String} {path : String} {route current : RouteConfig}
    (h : Admissible host path route) :
    matchStep host path ⟨some current, Text.len current.matches.pathPrefix⟩ route =
      if specificity current < specificity route then
        ⟨some route, Text.len route.matches.pathPrefix⟩
      else
        ⟨some current, Text.len current.matches.pathPrefix⟩ := by
  unfold matchStep
  rw [if_neg (not_not.mpr h.1), if_pos h.2]
  simp only [Option.isNone_some, Bool.false_or, Option.any_some]
  congr 1
  rw [specificity_lt_iff]
  simp only [Bool.or_eq_true, Bool.and_eq_true, decide_eq_true_eq, beq_iff_eq, eq_iff_iff]
  constructor
  · rintro (hlonger | ⟨⟨hequal, hhost⟩, hnone⟩)
    · exact Or.inl hlonger
    · exact Or.inr ⟨hequal.symm, by simpa using hnone, hhost⟩
  · rintro (hlonger | ⟨hequal, hnone, hhost⟩)
    · exact Or.inl hlonger
    · exact Or.inr ⟨⟨hequal.symm, hhost⟩, by simpa using hnone⟩

/-- The loop variables after some routes. -/
theorem foldl_matchStep_eq (host : Option String) (path : String) (routes : List RouteConfig) :
    (routes.foldl (matchStep host path) ⟨none, 0⟩).route =
        (routes.filter fun route => decide (Admissible host path route)).argmax specificity ∧
      (routes.foldl (matchStep host path) ⟨none, 0⟩).Agrees := by
  -- Over the routes in the order of the loop: the last one is the next round.
  induction routes using List.reverseRecOn with
  | nil => exact ⟨rfl, rfl⟩
  | append_singleton routes route ih =>
      rw [List.foldl_append, List.filter_append]
      generalize routes.foldl (matchStep host path) ⟨none, 0⟩ = best at ih
      obtain ⟨hroute, hagrees⟩ := ih
      simp only [List.foldl_cons, List.foldl_nil]
      by_cases hadmissible : Admissible host path route
      · rw [List.filter_cons, if_pos (decide_eq_true hadmissible), List.filter_nil,
          List.argmax_concat, ← hroute]
        obtain ⟨current, len⟩ := best
        cases current with
        | none =>
            rw [matchStep_none hadmissible]
            exact ⟨rfl, rfl⟩
        | some current =>
            obtain rfl : len = Text.len current.matches.pathPrefix := hagrees
            rw [matchStep_some hadmissible]
            by_cases hmore : specificity current < specificity route
            · rw [if_pos hmore]
              exact ⟨(if_pos hmore).symm, rfl⟩
            · rw [if_neg hmore]
              exact ⟨(if_neg hmore).symm, rfl⟩
      · rw [List.filter_cons, if_neg (by simpa using hadmissible), List.filter_nil,
          List.append_nil, matchStep_of_not_admissible best hadmissible]
        exact ⟨hroute, hagrees⟩

theorem matchRoute_eq_argmax (config : GatewayConfig) (host : Option String) (path : String) :
    matchRoute config host path =
      (config.routes.filter fun route => decide (Admissible host path route)).argmax specificity :=
  (foldl_matchStep_eq host path config.routes).1

/-- The routes that a request may be matched to and that no other such route is more
specific than. -/
def MostSpecific (config : GatewayConfig) (host : Option String) (path : String) :
    RouteConfig → Prop :=
  MaximalWith specificity (Admissible host path) config.routes

instance (config : GatewayConfig) (host : Option String) (path : String) :
    DecidablePred (MostSpecific config host path) :=
  fun route => inferInstanceAs (Decidable (MaximalWith _ _ _ route))

/-- **The chosen route.**  Nothing is found exactly when no route is admissible.  Otherwise
the first of the most specific admissible routes is found, in the order of the
configuration.  When there is one most specific route only, the order of the routes does
not matter. -/
theorem matchRoute_eq_find? (config : GatewayConfig) (host : Option String) (path : String) :
    (matchRoute config host path = none ↔
        ∀ route ∈ config.routes, ¬ Admissible host path route) ∧
      (matchRoute config host path =
        config.routes.find? fun route => decide (MostSpecific config host path route)) ∧
      ∀ routes, routes.Perm config.routes →
        (∀ route ∈ config.routes, ∀ other ∈ config.routes, MostSpecific config host path route →
          MostSpecific config host path other → route = other) →
        matchRoute { config with routes := routes } host path = matchRoute config host path := by
  rw [matchRoute_eq_argmax]
  refine ⟨?_, ?_, fun routes hperm hsingle => ?_⟩
  · rw [List.argmax_eq_none, List.filter_eq_nil_iff]
    simp only [decide_eq_true_eq]
  · exact find?_maximalWith_eq_argmax.symm
  · rw [matchRoute_eq_argmax]
    apply argmax_eq_of_perm (hperm.symm.filter _)
    intro route hroute other hother hmax hmax'
    obtain ⟨hmem, hadmissible⟩ := List.mem_filter.mp hroute
    obtain ⟨hmem', hadmissible'⟩ := List.mem_filter.mp hother
    apply hsingle route hmem other hmem'
    · refine ⟨of_decide_eq_true hadmissible, fun third hthird hthird' => ?_⟩
      exact hmax third (List.mem_filter.mpr ⟨hthird, decide_eq_true hthird'⟩)
    · refine ⟨of_decide_eq_true hadmissible', fun third hthird hthird' => ?_⟩
      exact hmax' third (List.mem_filter.mpr ⟨hthird, decide_eq_true hthird'⟩)

/-- The place of the chosen route: admissible routes before it are less specific, and
those after it are not more specific. -/
theorem matchRoute_eq_some_iff {config : GatewayConfig} {host : Option String} {path : String}
    {route : RouteConfig} :
    matchRoute config host path = some route ↔
      ∃ before after, config.routes = before ++ route :: after ∧ Admissible host path route ∧
        (∀ other ∈ before, Admissible host path other → specificity other < specificity route) ∧
        ∀ other ∈ after, Admissible host path other → specificity other ≤ specificity route := by
  rw [matchRoute_eq_argmax]
  constructor
  · intro h
    rw [← find?_maximalWith_eq_argmax] at h
    obtain ⟨hmaximal, before, after, hsplit, hbefore⟩ := List.find?_eq_some_iff_append.mp h
    obtain ⟨hadmissible, hle⟩ := of_decide_eq_true hmaximal
    refine ⟨before, after, hsplit, hadmissible, fun other hother hother' => ?_,
      fun other hother hother' => hle other (by simp [hsplit, hother]) hother'⟩
    -- An earlier route that is as specific would have been found.
    have hpassed : ¬ MaximalWith specificity (Admissible host path) config.routes other := by
      simpa using hbefore other hother
    by_contra hlarge
    refine hpassed ⟨hother', fun third hthird hthird' => ?_⟩
    exact (hle third hthird hthird').trans (not_lt.mp hlarge)
  · rintro ⟨before, after, hsplit, hadmissible, hbefore, hafter⟩
    rw [argmax_eq_some_iff_firstMaximum, hsplit, List.filter_append, List.filter_cons,
      if_pos (decide_eq_true hadmissible)]
    refine ⟨_, _, rfl, fun other hother => ?_, fun other hother => ?_⟩
    · obtain ⟨hmem, hother'⟩ := List.mem_filter.mp hother
      exact hbefore other hmem (of_decide_eq_true hother')
    · obtain ⟨hmem, hother'⟩ := List.mem_filter.mp hother
      exact hafter other hmem (of_decide_eq_true hother')

/-! ## Trailing slashes -/

/-- The prefix that matching and forwarding look at. -/
def effectivePrefix (route : RouteConfig) : String :=
  Text.trimEndMatches route.matches.pathPrefix '/'

/-- By what the two routes cover, the second one is more specific than the first: its
effective prefix is longer, or it is the same and only the second one names a host. -/
def OutdoneBy (route other : RouteConfig) : Prop :=
  Text.len (effectivePrefix route) < Text.len (effectivePrefix other) ∨
    (effectivePrefix other = effectivePrefix route ∧ route.matches.host = none ∧
      other.matches.host ≠ none)

/-- The chosen route is not outdone: no admissible route has a longer effective prefix, and
none with the same effective prefix names a host when the chosen one does not. -/
structure Undisputed (config : GatewayConfig) (host : Option String) (path : String)
    (route : RouteConfig) : Prop where
  longest : ∀ other ∈ config.routes, Admissible host path other →
    Text.len (effectivePrefix other) ≤ Text.len (effectivePrefix route)
  hosted : route.matches.host = none → ∀ other ∈ config.routes, Admissible host path other →
    effectivePrefix other = effectivePrefix route → other.matches.host = none

theorem undisputed_iff {config : GatewayConfig} {host : Option String} {path : String}
    {route : RouteConfig} :
    Undisputed config host path route ↔
      ∀ other ∈ config.routes, Admissible host path other → ¬ OutdoneBy route other := by
  constructor
  · rintro ⟨hlongest, hhosted⟩ other hother hadmissible (hlonger | ⟨hsame, hnone, hsome⟩)
    · exact absurd (hlongest other hother hadmissible) (Nat.not_le.mpr hlonger)
    · exact hsome (hhosted hnone other hother hadmissible hsame)
  · intro h
    refine ⟨fun other hother hadmissible => ?_, fun hnone other hother hadmissible hsame => ?_⟩
    · exact Nat.not_lt.mp fun hlonger => h other hother hadmissible (Or.inl hlonger)
    · by_contra hsome
      exact h other hother hadmissible (Or.inr ⟨hsame, hnone, hsome⟩)

/-- Slashes do no harm: an admissible route that another one outdoes is also written less
specifically than an admissible route, or as specifically as an earlier one. -/
def SlashesHarmless (config : GatewayConfig) (host : Option String) (path : String) : Prop :=
  ∀ before route after, config.routes = before ++ route :: after → Admissible host path route →
    (∃ rival ∈ config.routes, Admissible host path rival ∧ OutdoneBy route rival) →
      (∃ other ∈ before, Admissible host path other ∧ specificity route ≤ specificity other) ∨
        ∃ other ∈ after, Admissible host path other ∧ specificity route < specificity other

/-- **When trailing slashes do not change the choice.**  The chosen route has the longest
effective prefix of all admissible routes, and one with a host if there is one with that
prefix, exactly when slashes do no harm. -/
theorem undisputed_iff_slashesHarmless (config : GatewayConfig) (host : Option String)
    (path : String) :
    (∀ route, matchRoute config host path = some route → Undisputed config host path route) ↔
      SlashesHarmless config host path := by
  constructor
  · rintro h before route after hsplit hadmissible ⟨rival, hrival, hrival', houtdone⟩
    by_contra hnone
    push Not at hnone
    obtain ⟨hbefore, hafter⟩ := hnone
    have hchosen : matchRoute config host path = some route :=
      matchRoute_eq_some_iff.mpr ⟨before, after, hsplit, hadmissible, hbefore, hafter⟩
    exact undisputed_iff.mp (h route hchosen) rival hrival hrival' houtdone
  · intro h route hchosen
    obtain ⟨before, after, hsplit, hadmissible, hbefore, hafter⟩ :=
      matchRoute_eq_some_iff.mp hchosen
    rw [undisputed_iff]
    intro rival hrival hrival' houtdone
    rcases h before route after hsplit hadmissible ⟨rival, hrival, hrival', houtdone⟩ with
      ⟨other, hother, hother', hle⟩ | ⟨other, hother, hother', hlt⟩
    · exact absurd hle (not_le.mpr (hbefore other hother hother'))
    · exact absurd hlt (not_lt.mpr (hafter other hother hother'))

/-- A general route, written with many slashes, next to a protected one. -/
def slashedConfig : GatewayConfig :=
  { routes :=
      [{ name := "api", «matches» := { pathPrefix := "/api////////" }
         upstreams := [{ url := "http://app:8081" }] },
       { name := "admin", «matches» := { pathPrefix := "/api/admin" }
         upstreams := [{ url := "http://app:8081" }], auth := .apiKey ["s3cret"] }] }

/-- The request for the protected part is matched to the general route. -/
theorem slashes_hide_specific_route :
    slashedConfig.validate = .ok () ∧
      ¬ ∀ route, matchRoute slashedConfig none "/api/admin/users" = some route →
          Undisputed slashedConfig none "/api/admin/users" route := by
  refine ⟨rfl, fun h => ?_⟩
  have hchosen : ∃ route, matchRoute slashedConfig none "/api/admin/users" = some route ∧
      route.matches.pathPrefix = "/api////////" := ⟨_, rfl, rfl⟩
  obtain ⟨route, hroute, hprefix⟩ := hchosen
  have hlongest := (h route hroute).longest _ (List.mem_cons_of_mem _ List.mem_cons_self)
    (by decide)
  rw [effectivePrefix, effectivePrefix, hprefix] at hlongest
  revert hlongest
  decide

end Core
end ApiGateway
