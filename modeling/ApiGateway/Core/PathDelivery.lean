import ApiGateway.Core.Router

/-!
# The path on the wire

The matcher looks at the raw request path; the HTTP client resolves the dot
segments of the forwarded path when it parses the upstream URL.  This file compares
the two for routes that do not strip their prefix.

The upstream base is `scheme://authority` without a path, so the path of the parsed
URL is the forwarded path with its dot segments resolved.
-/

namespace ApiGateway
namespace Core

open Library

/-- The path requested from an upstream for a request path of the route. -/
def wirePath (path : String) (route : RouteConfig) : String :=
  normalizePath (forwardPath path route)

/-- The segments of a path prefix below the root, without its trailing slashes. -/
def prefixSegments (pathPrefix : String) : List Segment :=
  (segments (Text.trimEndMatches pathPrefix '/')).tail

/-- The dot segments of a path stay below a prefix: the prefix has no segment at
all, or it has no dot segment and the path after it never climbs above it. -/
def StaysBelow (pathPrefix path : String) : Prop :=
  prefixSegments pathPrefix = [] ∨
    ((∀ part ∈ prefixSegments pathPrefix, isPlain part = true) ∧
      neverClimbs 0 ((segments path).tail.drop (prefixSegments pathPrefix).length) = true)

instance (pathPrefix path : String) : Decidable (StaysBelow pathPrefix path) :=
  inferInstanceAs (Decidable (_ ∨ _))

/-- A path that begins with a slash has the empty root segment and one more. -/
theorem segments_of_startsWith {path : String} (hpath : Text.startsWith path "/" = true) :
    ∃ part parts, segments path = [] :: part :: parts := by
  obtain ⟨rest, hrest⟩ := Text.startsWith_iff.mp hpath
  have hsplit : segments path = [] :: rest.splitOn '/' := by
    change path.toList = [] ++ '/' :: rest at hrest
    rw [segments, hrest]
    exact List.splitOn_append_cons_self_of_not_mem (by simp) rest
  obtain ⟨part, parts, hparts⟩ := List.exists_cons_of_ne_nil (List.splitOn_ne_nil '/' rest)
  exact ⟨part, parts, by rw [hsplit, hparts]⟩

/-- The segments after normalisation are the resolved segments. -/
theorem segments_normalizePath {path : String} (hpath : Text.startsWith path "/" = true) :
    segments (normalizePath path) = [] :: resolveDots [] (segments path).tail := by
  obtain ⟨part, parts, hsegments⟩ := segments_of_startsWith hpath
  have hnormal : normalizePath path = joinSegments ([] :: resolveDots [] (segments path).tail) := by
    simp [normalizePath, hsegments]
  rw [hnormal]
  refine segments_joinSegments (fun other hother => ?_) (by simp)
  rcases List.mem_cons.mp hother with rfl | hresolved
  · simp
  · rcases mem_resolveDots hresolved with hout | hinput | rfl
    · cases hout
    · exact slash_notMem_segments path other (List.mem_of_mem_tail hinput)
    · simp

/-- A prefix that begins with a slash consists of the root and its own segments. -/
theorem segments_trimEndMatches {pathPrefix : String}
    (hslash : Text.startsWith pathPrefix "/" = true) :
    segments (Text.trimEndMatches pathPrefix '/') = [] :: prefixSegments pathPrefix := by
  have htrimmed : (Text.trimEndMatches pathPrefix '/').toList <+: pathPrefix.toList := by
    simp only [Text.trimEndMatches, String.toList_ofList]
    exact List.rdropWhile_prefix _ _
  obtain ⟨rest, hrest⟩ := Text.startsWith_iff.mp hslash
  rw [hrest] at htrimmed
  unfold prefixSegments
  generalize Text.trimEndMatches pathPrefix '/' = trimmed at htrimmed ⊢
  cases hchars : trimmed.toList with
  | nil => simp [segments, hchars]
  | cons char chars =>
      rw [hchars] at htrimmed
      obtain ⟨rfl, -⟩ := List.cons_prefix_cons.mp htrimmed
      have htrimmedSlash : Text.startsWith trimmed "/" = true :=
        Text.startsWith_iff.mpr ⟨chars, hchars⟩
      obtain ⟨part, parts, hsegments⟩ := segments_of_startsWith htrimmedSlash
      rw [hsegments]
      rfl

def publicRoute : RouteConfig :=
  { name := "public", «matches» := { pathPrefix := "/public" }
    upstreams := [{ url := "http://app:8081" }] }

def adminRoute : RouteConfig :=
  { name := "admin", «matches» := { pathPrefix := "/admin" }
    upstreams := [{ url := "http://app:8081" }], auth := .apiKey ["s3cret"] }

/-- An open route and a protected one in front of the same application. -/
def publicAdminConfig : GatewayConfig := { routes := [publicRoute, adminRoute] }

/-- A route whose prefix itself has a dot segment. -/
def dottedRoute : RouteConfig :=
  { name := "dotted", «matches» := { pathPrefix := "/v1/../v2" }
    upstreams := [{ url := "http://app:8081" }] }

end Core
end ApiGateway
