import ApiGateway.Core.Config
import ApiGateway.Library.PathSegments

/-!
# Route matching

Host and path-prefix matching, and the path that is forwarded.  `matchRoute` keeps
the loop of the source, with its two loop variables, as a fold over the routes.

A path that begins with a slash matches a prefix exactly when the segments of the
prefix, without its trailing slashes, are an initial list of the segments of the
path; this is `pathMatches_iff_segments`.
-/

namespace ApiGateway
namespace Core

open Library

def stripPort (host : String) : String := Text.splitFirst host ':'

/-- A path matches a prefix when it is the prefix, or continues at a segment
boundary.  `/` matches everything. -/
def pathMatches (path pathPrefix : String) : Bool :=
  if pathPrefix = "/" then
    true
  else
    let trimmed := Text.trimEndMatches pathPrefix '/'
    if path = trimmed then
      true
    else
      -- The next byte must be a slash, or `/api` would match `/apix`.
      Text.startsWith path trimmed && (Text.asBytes path)[Text.len trimmed]? == some 47

/-- Host constraint of a route: exact, without case and without port. -/
def hostMatches (host : Option String) (route : RouteConfig) : Bool :=
  match route.matches.host with
  | none => true
  | some want =>
      Text.eqIgnoreAsciiCase ((host.map stripPort).getD "") (stripPort want)

/-- The loop variables of `match_route`. -/
structure BestMatch where
  route : Option RouteConfig
  len : Nat

/-- One round of the loop of `match_route`. -/
def matchStep (host : Option String) (path : String) (best : BestMatch) (route : RouteConfig) :
    BestMatch :=
  if ¬ hostMatches host route then
    best
  else if pathMatches path route.matches.pathPrefix then
    let len := Text.len route.matches.pathPrefix
    -- Prefer the longest prefix; on ties prefer a host-specific route.
    let moreSpecific := decide (best.len < len) ||
      (len == best.len && route.matches.host.isSome &&
        best.route.any fun current => current.matches.host.isNone)
    if best.route.isNone || moreSpecific then ⟨some route, len⟩ else best
  else
    best

/-- The best-matching route for a host and a path. -/
def matchRoute (config : GatewayConfig) (host : Option String) (path : String) :
    Option RouteConfig :=
  (config.routes.foldl (matchStep host path) ⟨none, 0⟩).route

/-- The forwarded path, after optionally stripping the matched prefix. -/
def forwardPath (path : String) (route : RouteConfig) : String :=
  if ¬ route.stripPathPrefix ∨ route.matches.pathPrefix = "/" then
    path
  else
    let trimmed := Text.trimEndMatches route.matches.pathPrefix '/'
    let stripped := (Text.stripPrefix path trimmed).getD path
    if stripped.isEmpty then "/" else stripped

/-! ## What the matcher returns -/

/-- The routes a request may be matched to. -/
def Admissible (host : Option String) (path : String) (route : RouteConfig) : Prop :=
  hostMatches host route = true ∧ pathMatches path route.matches.pathPrefix = true

/-- A round keeps the best route so far or replaces it by an admissible one. -/
theorem matchStep_route (host : Option String) (path : String) (best : BestMatch)
    (route : RouteConfig) :
    (matchStep host path best route).route = best.route ∨
      ((matchStep host path best route).route = some route ∧ Admissible host path route) := by
  unfold matchStep
  split
  · exact Or.inl rfl
  · rename_i hhost
    split
    · rename_i hpath
      simp only
      split
      · exact Or.inr ⟨rfl, not_not.mp hhost, hpath⟩
      · exact Or.inl rfl
    · exact Or.inl rfl

theorem foldl_matchStep_route (host : Option String) (path : String) (routes : List RouteConfig)
    (best : BestMatch) (found : RouteConfig)
    (h : (routes.foldl (matchStep host path) best).route = some found) :
    best.route = some found ∨ (found ∈ routes ∧ Admissible host path found) := by
  -- The loop variables change from round to round, so the induction is over all of them.
  induction routes generalizing best with
  | nil => exact Or.inl h
  | cons route routes ih =>
      rcases ih (matchStep host path best route) h with hstep | ⟨hmem, hadmissible⟩
      · rcases matchStep_route host path best route with hkept | ⟨htaken, hadmissible⟩
        · exact Or.inl (hkept ▸ hstep)
        · obtain rfl : route = found := Option.some.inj (htaken.symm.trans hstep)
          exact Or.inr ⟨List.mem_cons_self, hadmissible⟩
      · exact Or.inr ⟨List.mem_cons_of_mem _ hmem, hadmissible⟩

/-- A matched route is one of the configured routes and admits the request. -/
theorem matchRoute_spec {config : GatewayConfig} {host : Option String} {path : String}
    {route : RouteConfig} (h : matchRoute config host path = some route) :
    route ∈ config.routes ∧ Admissible host path route := by
  rcases foldl_matchStep_route host path config.routes _ route h with hnone | hfound
  · cases hnone
  · exact hfound

/-! ## Matching by segments -/

/-- A path whose first segments are those of the trimmed prefix matches it. -/
theorem pathMatches_of_segments {path pathPrefix : String}
    (h : segments (Text.trimEndMatches pathPrefix '/') <+: segments path) :
    pathMatches path pathPrefix = true := by
  unfold pathMatches
  split
  · rfl
  · simp only
    split
    · rfl
    · rename_i hdiffers
      have hcontinues := ((segments_prefix_iff _ _).mp h).resolve_left hdiffers
      simpa using Text.startsWith_and_slash_iff.mpr hcontinues

/-- **Matching is by whole segments.**  For a path that begins with a slash. -/
theorem pathMatches_iff_segments {path : String} (pathPrefix : String)
    (hpath : Text.startsWith path "/" = true) :
    pathMatches path pathPrefix = true ↔
      segments (Text.trimEndMatches pathPrefix '/') <+: segments path := by
  refine ⟨fun h => (segments_prefix_iff _ _).mpr ?_, pathMatches_of_segments⟩
  unfold pathMatches at h
  split at h
  · rename_i hroot
    -- The prefix `/` is empty without its slash, and the path continues it.
    subst hroot
    exact Or.inr (Text.startsWith_iff.mp hpath)
  · simp only at h
    split at h
    · rename_i hequal
      exact Or.inl hequal
    · exact Or.inr (Text.startsWith_and_slash_iff.mp (by simpa using h))

/-! ## Stripping the prefix -/

/-- A path that matches is the trimmed prefix, or continues it with a slash. -/
theorem continues_of_pathMatches {path : String} (pathPrefix : String)
    (hpath : Text.startsWith path "/" = true) (h : pathMatches path pathPrefix = true) :
    path = Text.trimEndMatches pathPrefix '/' ∨
      ∃ rest, path.toList = (Text.trimEndMatches pathPrefix '/').toList ++ '/' :: rest :=
  (segments_prefix_iff _ _).mp ((pathMatches_iff_segments pathPrefix hpath).mp h)

/-- Stripping cuts off exactly the trimmed prefix. -/
theorem forwardPath_of_strip {path : String} {route : RouteConfig}
    (hstrip : route.stripPathPrefix = true) (hroot : route.matches.pathPrefix ≠ "/")
    {rest : List Char}
    (hrest : path.toList = (Text.trimEndMatches route.matches.pathPrefix '/').toList ++ rest) :
    forwardPath path route = if rest.isEmpty then "/" else String.ofList rest := by
  have hstripped : Text.stripPrefix path (Text.trimEndMatches route.matches.pathPrefix '/') =
      some (String.ofList rest) := by
    unfold Text.stripPrefix
    rw [if_pos (Text.startsWith_iff.mpr ⟨rest, hrest⟩), hrest, List.drop_left]
  have hnot : ¬ (¬ route.stripPathPrefix = true ∨ route.matches.pathPrefix = "/") := by
    simp [hstrip, hroot]
  unfold forwardPath
  rw [if_neg hnot]
  simp only [hstripped, Option.getD_some]
  cases rest with
  | nil => rfl
  | cons char rest => simp

/-- **Matching and stripping.**  For a path that begins with a slash: it matches a prefix
exactly when the segments of the trimmed prefix are an initial list of its own segments.
What is then forwarded by a route that strips its prefix begins with a slash, and the
trimmed prefix followed by it is the path, or the path is the trimmed prefix and `/` is
forwarded. -/
theorem forwardPath_undoes_match (route : RouteConfig) (path : String)
    (hpath : Text.startsWith path "/" = true) :
    (pathMatches path route.matches.pathPrefix = true ↔
        segments (Text.trimEndMatches route.matches.pathPrefix '/') <+: segments path) ∧
      (pathMatches path route.matches.pathPrefix = true → route.stripPathPrefix = true →
        Text.startsWith (forwardPath path route) "/" = true ∧
          (Text.trimEndMatches route.matches.pathPrefix '/' ++ forwardPath path route = path ∨
            (path = Text.trimEndMatches route.matches.pathPrefix '/' ∧
              forwardPath path route = "/"))) := by
  refine ⟨pathMatches_iff_segments _ hpath, fun hmatches hstrip => ?_⟩
  by_cases hroot : route.matches.pathPrefix = "/"
  · -- The root prefix is not stripped, and nothing is left of it when it is trimmed.
    have hforward : forwardPath path route = path := by simp [forwardPath, hroot]
    have htrimmed : Text.trimEndMatches route.matches.pathPrefix '/' = "" := by
      rw [hroot]
      decide
    rw [hforward, htrimmed]
    exact ⟨hpath, Or.inl String.empty_append⟩
  · rcases continues_of_pathMatches _ hpath hmatches with hequal | ⟨rest, hrest⟩
    · have hforward : forwardPath path route = "/" := by
        have hnothing : path.toList =
            (Text.trimEndMatches route.matches.pathPrefix '/').toList ++ [] := by
          rw [← hequal, List.append_nil]
        rw [forwardPath_of_strip hstrip hroot hnothing]
        rfl
      rw [hforward]
      exact ⟨by decide, Or.inr ⟨hequal, rfl⟩⟩
    · have hforward : forwardPath path route = String.ofList ('/' :: rest) := by
        rw [forwardPath_of_strip hstrip hroot hrest]
        rfl
      rw [hforward]
      refine ⟨Text.startsWith_iff.mpr ⟨rest, by simp⟩, Or.inl ?_⟩
      apply String.toList_inj.mp
      rw [String.toList_append, String.toList_ofList, hrest]

/-- A route that strips a prefix which is written with a slash at its end. -/
def strippedRoute : RouteConfig :=
  { name := "api", «matches» := { pathPrefix := "/api/" }, upstreams := []
    stripPathPrefix := true }

theorem forwardPath_undoes_match_orders :
    pathMatches "/api/orders" strippedRoute.matches.pathPrefix = true ∧
      Text.startsWith (forwardPath "/api/orders" strippedRoute) "/" = true ∧
      (Text.trimEndMatches strippedRoute.matches.pathPrefix '/' ++
            forwardPath "/api/orders" strippedRoute = "/api/orders" ∨
        ("/api/orders" = Text.trimEndMatches strippedRoute.matches.pathPrefix '/' ∧
          forwardPath "/api/orders" strippedRoute = "/")) := by
  have hmatches : pathMatches "/api/orders" strippedRoute.matches.pathPrefix = true := by decide
  exact ⟨hmatches, (forwardPath_undoes_match strippedRoute "/api/orders" (by decide)).2 hmatches rfl⟩

end Core
end ApiGateway
