import ApiGateway.Gateway.Proxy
import ApiGateway.Library.UrlAuthority

/-!
# The URL of an upstream request

The URL of an upstream request is the upstream's own URL with the request target behind
it, written one after the other with nothing between them.  The scheme and the authority
stay those of the configuration as long as what is appended begins with a slash or a
question mark, or is empty.

Two inputs are not covered by that: the target `*`, which the prefix `/` matches like any
other and which is appended to the host as it is, and an upstream URL that consists of its
scheme and slashes only, which validation accepts.
-/

namespace ApiGateway
namespace Gateway

open Library Core

/-- What `route_and_proxy` appends to the URL of an upstream. -/
def forwardTarget (uri : Uri) (route : RouteConfig) : String :=
  match uri.query with
  | some query => forwardPath uri.path route ++ "?" ++ query
  | none => forwardPath uri.path route

theorem outgoing_url (exchange : Exchange) (upstream : Upstream) (bodyBytes : Bytes) :
    (exchange.outgoing upstream bodyBytes).url =
      upstream.url ++ forwardTarget exchange.uri exchange.runtime.config := rfl

/-- The paths a request target yields: the origin form, the asterisk form, and the empty
path of the authority form. -/
def IsTargetPath (path : String) : Prop :=
  Text.startsWith path "/" = true ∨ path = "*" ∨ path = ""

/-- The appended target continues the URL with nothing, a slash or a question mark, and
leaves its scheme and its authority as they are. -/
structure KeepsAuthority (base target : String) : Prop where
  continuation : target = "" ∨ Text.startsWith target "/" = true ∨
    Text.startsWith target "?" = true
  scheme : UrlText.scheme (base ++ target) = UrlText.scheme base
  authority : UrlText.authority (base ++ target) = UrlText.authority base

/-- The text that the route cuts off a path before it is forwarded. -/
def strippedText (route : RouteConfig) : String :=
  if route.stripPathPrefix = true ∧ route.matches.pathPrefix ≠ "/" then
    Text.trimEndMatches route.matches.pathPrefix '/'
  else
    ""

/-- Beyond what the route strips, the path has no characters but slashes. -/
def OnlySlashesBeyond (route : RouteConfig) (path : String) : Prop :=
  ∃ rest, path.toList = (strippedText route).toList ++ rest ∧
    ∀ char ∈ rest, UrlText.isDropped char = false → UrlText.isSlash char = true

/-! ## What is forwarded -/

/-- Apart from the root prefix, a path matches when it is the trimmed prefix or continues it
with a slash.  This holds of every path. -/
theorem continues_of_pathMatches_of_ne_root {path pathPrefix : String}
    (hroot : pathPrefix ≠ "/") (h : pathMatches path pathPrefix = true) :
    path = Text.trimEndMatches pathPrefix '/' ∨
      ∃ rest, path.toList = (Text.trimEndMatches pathPrefix '/').toList ++ '/' :: rest := by
  unfold pathMatches at h
  rw [if_neg hroot] at h
  simp only at h
  split at h
  · rename_i hequal
    exact Or.inl hequal
  · exact Or.inr (Text.startsWith_and_slash_iff.mp (by simpa using h))

/-- The asterisk form is matched by the root prefix only. -/
theorem pathPrefix_of_asterisk {pathPrefix : String}
    (hslash : Text.startsWith pathPrefix "/" = true) (h : pathMatches "*" pathPrefix = true) :
    pathPrefix = "/" := by
  by_contra hroot
  obtain ⟨tail, htail⟩ := Text.startsWith_iff.mp hslash
  rcases continues_of_pathMatches_of_ne_root hroot h with hequal | ⟨rest, hrest⟩
  · -- The trimmed prefix is empty or begins with a slash like the prefix itself.
    have hstart : (Text.trimEndMatches pathPrefix '/').toList <+: '/' :: tail := by
      rw [Text.trimEndMatches, String.toList_ofList, htail]
      exact List.rdropWhile_prefix _ _
    rw [← hequal] at hstart
    have hhead := (List.cons_prefix_cons.mp hstart).1
    exact absurd hhead (by decide)
  · have hmem : '/' ∈ "*".toList := by
      rw [hrest]
      simp
    exact absurd hmem (by decide)

/-- What is left of a matched path after stripping is empty or begins with a slash, and it
is what is forwarded, unless a stripped path leaves nothing and `/` is forwarded. -/
theorem forwardPath_rest {path : String} {route : RouteConfig}
    (hpath : Text.startsWith path "/" = true ∨ path = "")
    (hmatches : pathMatches path route.matches.pathPrefix = true) :
    ∃ rest, path.toList = (strippedText route).toList ++ rest ∧
      (rest = [] ∨ ∃ tail, rest = '/' :: tail) ∧
      ((forwardPath path route).toList = rest ∨
        (rest = [] ∧ forwardPath path route = "/")) := by
  by_cases hstrip : route.stripPathPrefix = true ∧ route.matches.pathPrefix ≠ "/"
  · rw [strippedText, if_pos hstrip]
    rcases continues_of_pathMatches_of_ne_root hstrip.2 hmatches with hequal | ⟨tail, htail⟩
    · have hrest : path.toList =
          (Text.trimEndMatches route.matches.pathPrefix '/').toList ++ [] := by
        rw [← hequal, List.append_nil]
      refine ⟨[], hrest, Or.inl rfl, Or.inr ⟨rfl, ?_⟩⟩
      rw [forwardPath_of_strip hstrip.1 hstrip.2 hrest]
      rfl
    · refine ⟨'/' :: tail, htail, Or.inr ⟨tail, rfl⟩, Or.inl ?_⟩
      rw [forwardPath_of_strip hstrip.1 hstrip.2 htail]
      simp
  · have hforward : forwardPath path route = path := by
      unfold forwardPath
      rw [if_pos]
      by_contra hnot
      push Not at hnot
      exact hstrip hnot
    rw [strippedText, if_neg hstrip, hforward]
    refine ⟨path.toList, rfl, ?_, Or.inl rfl⟩
    rcases hpath with hslash | rfl
    · obtain ⟨tail, htail⟩ := Text.startsWith_iff.mp hslash
      exact Or.inr ⟨tail, htail⟩
    · exact Or.inl rfl

/-- The target is the forwarded path, with nothing or a query behind it. -/
theorem toList_forwardTarget (uri : Uri) (route : RouteConfig) :
    ∃ query, (forwardTarget uri route).toList = (forwardPath uri.path route).toList ++ query ∧
      (query = [] ∨ ∃ text, query = '?' :: text) := by
  unfold forwardTarget
  cases uri.query with
  | none => exact ⟨[], by simp, Or.inl rfl⟩
  | some text => exact ⟨'?' :: text.toList, by simp, Or.inr ⟨text.toList, rfl⟩⟩

theorem isPathChar_of_mem_path {uri : Uri} {char : Char} (h : char ∈ uri.path.toList) :
    isPathChar char = true := by
  unfold Uri.path at h
  split at h
  · rename_i target _
    exact List.all_eq_true.mp target.pathChars char h
  · cases h

/-- A target whose forwarded path is the rest of a path ends an authority at once. -/
theorem endsAuthority_target {target : String} {forwarded query : List Char}
    (htarget : target.toList = forwarded ++ query)
    (hforwarded : forwarded = [] ∨ ∃ tail, forwarded = '/' :: tail)
    (hquery : query = [] ∨ ∃ text, query = '?' :: text) :
    (UrlText.kept target).takeWhile (fun char => !UrlText.endsAuthority char) = [] := by
  rw [UrlText.kept, htarget]
  rcases hforwarded with rfl | ⟨tail, rfl⟩
  · rcases hquery with rfl | ⟨text, rfl⟩
    · rfl
    · rfl
  · rfl

/-- Behind slashes only, a target names an authority of its own exactly when the forwarded
path has a character that is not a slash. -/
theorem authority_of_target_eq_nil_iff {target : String} {forwarded query : List Char}
    (htarget : target.toList = forwarded ++ query)
    (hchars : ∀ char ∈ forwarded, isPathChar char = true)
    (hquery : query = [] ∨ ∃ text, query = '?' :: text) :
    ((UrlText.kept target).dropWhile UrlText.isSlash).takeWhile
        (fun char => !UrlText.endsAuthority char) = [] ↔
      ∀ char ∈ forwarded, UrlText.isDropped char = false → UrlText.isSlash char = true := by
  have hkept : UrlText.kept target =
      forwarded.filter (fun char => !UrlText.isDropped char) ++
        query.filter fun char => !UrlText.isDropped char := by
    rw [UrlText.kept, htarget, List.filter_append]
  rw [hkept, List.dropWhile_append]
  cases hleft : (forwarded.filter fun char => !UrlText.isDropped char).dropWhile
      UrlText.isSlash with
  | nil =>
      have hslashes := List.dropWhile_eq_nil_iff.mp hleft
      refine iff_of_true ?_ fun char hchar hdropped =>
        hslashes char (List.mem_filter.mpr ⟨hchar, by simp [hdropped]⟩)
      rcases hquery with rfl | ⟨text, rfl⟩
      · rfl
      · rfl
  | cons first others =>
      have hfirst : UrlText.isSlash first = false := by
        have hhead := List.head?_dropWhile_not UrlText.isSlash
          (forwarded.filter fun char => !UrlText.isDropped char)
        rw [hleft] at hhead
        simpa using hhead
      have hmem : first ∈ forwarded.filter fun char => !UrlText.isDropped char :=
        (List.dropWhile_sublist _).subset (hleft ▸ List.mem_cons_self)
      obtain ⟨hforwarded, hdropped⟩ := List.mem_filter.mp hmem
      have hopen : UrlText.endsAuthority first = false := by
        have hchar := hchars first hforwarded
        simp only [isPathChar, isQueryChar, Bool.and_eq_true, bne_iff_ne] at hchar
        simp [UrlText.endsAuthority, hfirst, hchar]
      refine iff_of_false ?_ fun hslashes => ?_
      · simp [hopen]
      · rw [hslashes first hforwarded (by simpa using hdropped)] at hfirst
        cases hfirst

/-- The URL of a validated upstream still has its colon after trimming. -/
theorem colon_mem_kept {upstream : UpstreamConfig} (hvalid : upstream.Valid)
    (breaker : CircuitBreakerConfig) :
    ':' ∈ UrlText.kept (Upstream.fromConfig breaker upstream).url := by
  have hcolon : ':' ∈ upstream.url.toList := by
    rcases hvalid.scheme with hhttp | hhttps
    · obtain ⟨rest, hrest⟩ := Text.startsWith_iff.mp hhttp
      rw [hrest]
      exact List.mem_append_left _ (by decide)
    · obtain ⟨rest, hrest⟩ := Text.startsWith_iff.mp hhttps
      rw [hrest]
      exact List.mem_append_left _ (by decide)
  refine List.mem_filter.mpr ⟨Text.mem_trimEndMatches hcolon (by decide), by decide⟩

/-! ## When the authority is kept -/

section Selected

variable {config : GatewayConfig} {host : Option String} {uri : Uri} {route : RouteConfig}

/-- The asterisk form is appended to the host itself. -/
theorem not_keepsAuthority_asterisk (hpath : uri.path = "*")
    (hcatchAll : route.matches.pathPrefix = "/") (base : String) :
    ¬ KeepsAuthority base (forwardTarget uri route) := by
  intro hkeeps
  obtain ⟨query, htarget, -⟩ := toList_forwardTarget uri route
  have hforward : forwardPath uri.path route = "*" := by simp [forwardPath, hcatchAll, hpath]
  rw [hforward] at htarget
  rcases hkeeps.continuation with hempty | hslash | hmark
  · rw [hempty] at htarget
    cases htarget
  · obtain ⟨rest, hrest⟩ := Text.startsWith_iff.mp hslash
    rw [hrest] at htarget
    exact absurd (List.cons.inj htarget).1 (by decide)
  · obtain ⟨rest, hrest⟩ := Text.startsWith_iff.mp hmark
    rw [hrest] at htarget
    exact absurd (List.cons.inj htarget).1 (by decide)

/-- The forwarded path has no characters but slashes exactly when the path has none beyond
what is stripped: it does not matter that `/` stands in for an empty rest. -/
theorem forwardPath_onlySlashes_iff
    (hpath : Text.startsWith uri.path "/" = true ∨ uri.path = "")
    (hmatches : pathMatches uri.path route.matches.pathPrefix = true) :
    (∀ char ∈ (forwardPath uri.path route).toList,
        UrlText.isDropped char = false → UrlText.isSlash char = true) ↔
      OnlySlashesBeyond route uri.path := by
  obtain ⟨rest, hsplit, -, hforward⟩ := forwardPath_rest hpath hmatches
  have hbeyond : OnlySlashesBeyond route uri.path ↔
      ∀ char ∈ rest, UrlText.isDropped char = false → UrlText.isSlash char = true := by
    constructor
    · rintro ⟨other, hother, hslashes⟩
      rwa [List.append_cancel_left (hsplit.symm.trans hother)]
    · exact fun hslashes => ⟨rest, hsplit, hslashes⟩
  rw [hbeyond]
  rcases hforward with hsame | ⟨rfl, hslash⟩
  · rw [hsame]
  · rw [hslash]
    refine iff_of_true (fun char hchar _ => ?_) nofun
    rw [List.mem_singleton.mp hchar]
    rfl

theorem isPathChar_of_mem_forwardPath
    (hpath : Text.startsWith uri.path "/" = true ∨ uri.path = "")
    (hmatches : pathMatches uri.path route.matches.pathPrefix = true) :
    ∀ char ∈ (forwardPath uri.path route).toList, isPathChar char = true := by
  obtain ⟨rest, hsplit, -, hforward⟩ := forwardPath_rest hpath hmatches
  rcases hforward with hsame | ⟨-, hslash⟩
  · rw [hsame]
    intro char hchar
    exact isPathChar_of_mem_path (hsplit ▸ List.mem_append_right _ hchar)
  · rw [hslash]
    intro char hchar
    rw [List.mem_singleton.mp hchar]
    rfl

/-- In the other two forms the target keeps the authority of an anchored URL, and of any
URL when the path has no characters but slashes beyond what is stripped. -/
theorem keepsAuthority_iff {base : String} (hcolon : ':' ∈ UrlText.kept base)
    (hpath : Text.startsWith uri.path "/" = true ∨ uri.path = "")
    (hmatches : pathMatches uri.path route.matches.pathPrefix = true) :
    KeepsAuthority base (forwardTarget uri route) ↔
      UrlText.Anchored base ∨ OnlySlashesBeyond route uri.path := by
  obtain ⟨query, htarget, hquery⟩ := toList_forwardTarget uri route
  have hstart : (forwardPath uri.path route).toList = [] ∨
      ∃ tail, (forwardPath uri.path route).toList = '/' :: tail := by
    obtain ⟨rest, -, hrest, hforward⟩ := forwardPath_rest hpath hmatches
    rcases hforward with hsame | ⟨-, hslash⟩
    · rwa [hsame]
    · exact Or.inr ⟨[], by rw [hslash]; rfl⟩
  have hcontinuation : forwardTarget uri route = "" ∨
      Text.startsWith (forwardTarget uri route) "/" = true ∨
      Text.startsWith (forwardTarget uri route) "?" = true := by
    rcases hstart with hnone | ⟨tail, htail⟩
    · rw [hnone, List.nil_append] at htarget
      rcases hquery with rfl | ⟨text, rfl⟩
      · exact Or.inl (String.toList_inj.mp htarget)
      · exact Or.inr (Or.inr (Text.startsWith_iff.mpr ⟨text, htarget⟩))
    · rw [htail] at htarget
      exact Or.inr (Or.inl (Text.startsWith_iff.mpr ⟨tail ++ query, htarget⟩))
  have hscheme := (UrlText.scheme_append hcolon (forwardTarget uri route)).1
  by_cases hanchored : UrlText.Anchored base
  · refine iff_of_true ⟨hcontinuation, hscheme, ?_⟩ (Or.inl hanchored)
    exact UrlText.authority_append_of_anchored hcolon hanchored
      (endsAuthority_target htarget hstart hquery)
  · obtain ⟨hnone, htail⟩ :=
      UrlText.authority_append_of_not_anchored hcolon hanchored (forwardTarget uri route)
    have hauthority : UrlText.authority (base ++ forwardTarget uri route) =
        UrlText.authority base ↔ OnlySlashesBeyond route uri.path := by
      rw [htail, hnone, authority_of_target_eq_nil_iff htarget
        (isPathChar_of_mem_forwardPath hpath hmatches) hquery,
        forwardPath_onlySlashes_iff hpath hmatches]
    constructor
    · intro hkeeps
      exact Or.inr (hauthority.mp hkeeps.authority)
    · rintro (h | hslashes)
      · exact absurd h hanchored
      · exact ⟨hcontinuation, hscheme, hauthority.mpr hslashes⟩

/-- **When the client cannot alter the authority.**  For every validated configuration and
every request target that selects a route: each upstream URL of the route keeps its scheme
and its authority, and is continued with nothing, a slash or a question mark, exactly when
the target is not `*`, and either every upstream URL has something other than slashes after
its scheme or the path has nothing but slashes beyond what the route strips. -/
theorem upstream_authority_kept_iff (hvalid : config.validate = .ok ())
    (hform : IsTargetPath uri.path) (hroute : matchRoute config host uri.path = some route) :
    (∀ upstream ∈ (Balancer.fromRoute route).upstreams,
        KeepsAuthority upstream.url (forwardTarget uri route)) ↔
      uri.path ≠ "*" ∧
        ((∀ upstream ∈ (Balancer.fromRoute route).upstreams, UrlText.Anchored upstream.url) ∨
          OnlySlashesBeyond route uri.path) := by
  obtain ⟨hmem, -, hmatches⟩ := matchRoute_spec hroute
  have hrouteValid := ((validate_eq_ok_iff config).mp hvalid).routes route hmem
  have hcolon : ∀ upstream ∈ (Balancer.fromRoute route).upstreams,
      ':' ∈ UrlText.kept upstream.url := by
    intro upstream hupstream
    obtain ⟨configured, hconfigured, rfl⟩ := List.mem_map.mp hupstream
    exact colon_mem_kept (hrouteValid.upstreams configured hconfigured) _
  by_cases hstar : uri.path = "*"
  · have hcatchAll : route.matches.pathPrefix = "/" :=
      pathPrefix_of_asterisk hrouteValid.pathPrefix (hstar ▸ hmatches)
    refine iff_of_false (fun hkeeps => ?_) fun h => h.1 hstar
    obtain ⟨configured, hconfigured⟩ := List.exists_mem_of_ne_nil _ hrouteValid.hasUpstream
    exact not_keepsAuthority_asterisk hstar hcatchAll _
      (hkeeps _ (List.mem_map.mpr ⟨configured, hconfigured, rfl⟩))
  · have hpath : Text.startsWith uri.path "/" = true ∨ uri.path = "" := by
      rcases hform with hslash | hasterisk | hempty
      · exact Or.inl hslash
      · exact absurd hasterisk hstar
      · exact Or.inr hempty
    constructor
    · intro hkeeps
      refine ⟨hstar, ?_⟩
      by_cases hbeyond : OnlySlashesBeyond route uri.path
      · exact Or.inr hbeyond
      · refine Or.inl fun upstream hupstream => ?_
        have hone := (keepsAuthority_iff (hcolon upstream hupstream) hpath hmatches).mp
          (hkeeps upstream hupstream)
        exact hone.resolve_right hbeyond
    · rintro ⟨-, hrest⟩ upstream hupstream
      apply (keepsAuthority_iff (hcolon upstream hupstream) hpath hmatches).mpr
      rcases hrest with hanchored | hbeyond
      · exact Or.inl (hanchored upstream hupstream)
      · exact Or.inr hbeyond

end Selected

/-- One route for everything, at one upstream. -/
def catchAllRoute : RouteConfig :=
  { name := "app", «matches» := { pathPrefix := "/" }, upstreams := [{ url := "http://app:8080" }] }

def catchAllConfig : GatewayConfig := { routes := [catchAllRoute] }

/-- The request `GET /orders` through the one route. -/
theorem upstream_authority_kept_orders :
    catchAllConfig.validate = .ok () ∧
      matchRoute catchAllConfig none (Uri.ofPath "/orders" (by decide)).path =
        some catchAllRoute ∧
      ∀ upstream ∈ (Balancer.fromRoute catchAllRoute).upstreams,
        KeepsAuthority upstream.url
          (forwardTarget (Uri.ofPath "/orders" (by decide)) catchAllRoute) := by
  have hvalid : catchAllConfig.validate = .ok () := by decide
  have hroute : matchRoute catchAllConfig none (Uri.ofPath "/orders" (by decide)).path =
      some catchAllRoute := rfl
  refine ⟨hvalid, hroute,
    (upstream_authority_kept_iff hvalid (Or.inl (by decide)) hroute).mpr ⟨by decide, Or.inl ?_⟩⟩
  intro upstream hupstream
  obtain rfl := List.mem_singleton.mp hupstream
  exact ⟨'a', by decide, by decide⟩

/-- `OPTIONS *` is sent to the host `app` with port `8080*`. -/
theorem asterisk_alters_authority :
    ¬ ∀ (config : GatewayConfig) (host : Option String) (uri : Uri) (route : RouteConfig),
      config.validate = .ok () → IsTargetPath uri.path →
        matchRoute config host uri.path = some route →
          ∀ upstream ∈ (Balancer.fromRoute route).upstreams,
            KeepsAuthority upstream.url (forwardTarget uri route) := by
  intro hclaim
  have hkeeps := hclaim catchAllConfig none (Uri.ofPath "*" (by decide)) catchAllRoute
    (by decide) (Or.inr (Or.inl rfl)) rfl _ List.mem_cons_self
  exact absurd hkeeps.authority (by decide)

end Gateway
end ApiGateway
